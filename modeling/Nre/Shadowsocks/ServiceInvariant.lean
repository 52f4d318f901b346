import Nre.Shadowsocks.Listeners

/-!
# Engines and the secrets in force

`Matches` says when an engine belongs to the secrets of a user and of its listener,
`Consistent` that all installed engines do. This file has what each kind of change of
the service does to it:

- a `Quiet` change of the listeners (`Consistent.quiet`);
- a new secret of a user, with its engine (`Consistent.updateUser`);
- a new server secret of a listener, with engines for all its users
  (`Consistent.replaceServer`);
- a new user, with its engine and, for a listener without one, a server secret
  (`Consistent.addUser`).

`Remembers` is what every change keeps, so that a thread can rely on what it read.
-/

namespace NrePlugins.Shadowsocks.Service

open List
open ListenRule

variable (C : Crypto) (resolve : Bytes → Bytes → Bytes)

/-- The engine of a 2022 user holds the mapped key of the user's secret and, if the
listener has a server secret, the mapped key of that as identity key. -/
def Matches (l : ListenRule) (u : User) (e : ProtocolEngine) : Prop :=
  ss2022Method l.method = true →
    l.method = e.method.name ∧
    e.key = psk C e.method (userPart (resolve u.secretRef u.secretVersion)) ∧
    (l.HasServerSecret →
      e.identity = psk C e.method (resolve l.serverSecretRef l.serverSecretVersion))

/-- Every installed engine matches. -/
def Consistent (ls : List ListenRule) (engines : Engines) : Prop :=
  ∀ l ∈ ls, ∀ u ∈ l.users, ∀ e, engines u.id = some e → Matches C resolve l u e

/-- The material of a user and the server key give the identity key of the server
secret: a combined `server:user` names the same key, and an empty server key does not
count as one. -/
def Suits (method material serverPSK : Bytes) : Prop :=
  match splitSS2022ClientPassword material with
  | some (server, _) => mapSS2022PSK C method server = mapSS2022PSK C method serverPSK
  | none => serverPSK ≠ []

/-- The server key that an operation resolves for a listener. -/
def serverOf (l : ListenRule) : Bytes :=
  if ss2022Method l.method = true ∧ l.HasServerSecret then
    resolve l.serverSecretRef l.serverSecretVersion
  else []

variable {C resolve}

theorem Suits.identityOf {m : Method} (hm : m.modern = true) {material serverPSK : Bytes}
    (h : Suits C m.name material serverPSK) :
    identityOf C m material serverPSK = psk C m serverPSK := by
  unfold Suits at h
  unfold Shadowsocks.identityOf
  cases hsplit : splitSS2022ClientPassword material with
  | none =>
    rw [hsplit] at h
    exact if_neg h
  | some parts =>
    rw [hsplit] at h
    simp only [mapSS2022PSK_eq C (ss2022KeyLen_name hm), Except.ok.injEq] at h
    -- the encoded keys are equal, hence the keys
    have hdecoded := congrArg Base64.decodeStrict h
    rw [Base64.decodeStrict_encode, Base64.decodeStrict_encode] at hdecoded
    exact Option.some.inj hdecoded

variable {l : ListenRule} {e : ProtocolEngine} {engines : Engines} {u : User} {l' : ListenRule}

/-- The server key resolved for a listener as it was read is that of its secret in force,
if the secret has not changed. -/
theorem serverOf_eq {read : ListenRule} (h2022 : ss2022Method l.method = true)
    (hhas : l.HasServerSecret) (hmethod : l.method = read.method)
    (href : l.serverSecretRef = read.serverSecretRef)
    (hversion : l.serverSecretVersion = read.serverSecretVersion) :
    serverOf resolve read = resolve l.serverSecretRef l.serverSecretVersion := by
  have hread : read.HasServerSecret := ⟨href ▸ hhas.1, hversion ▸ hhas.2⟩
  unfold serverOf
  rw [if_pos ⟨hmethod ▸ h2022, hread⟩, href, hversion]

/-- An engine built from the secrets in force matches. -/
theorem matches_of_engineFromMaterial {serverPSK : Bytes}
    (he : engineFromMaterial C l.method (resolve u.secretRef u.secretVersion) serverPSK = .ok e)
    (hserver : ss2022Method l.method = true → l.HasServerSecret →
      serverPSK = resolve l.serverSecretRef l.serverSecretVersion ∧
        Suits C l.method (resolve u.secretRef u.secretVersion) serverPSK) :
    Matches C resolve l u e := by
  intro h2022
  obtain ⟨hname, hkey, hidentity⟩ := engineFromMaterial_ss2022 C h2022 he
  refine ⟨hname, hkey, ?_⟩
  intro hhas
  obtain ⟨rfl, hsuits⟩ := hserver h2022 hhas
  have hmodern : e.method.modern = true := by rw [← ss2022Method_name, ← hname, h2022]
  rw [hname] at hsuits
  rw [hidentity, hsuits.identityOf hmodern]

/-- Flags do not matter. -/
theorem Matches.congr {u' : User} (hl : l.forget = l'.forget) (hu : u.forget = u'.forget)
    (h : Matches C resolve l u e) :
    Matches C resolve l' u' e := by
  have hmethod : l.method = l'.method := (congrArg method hl :)
  have href : l.serverSecretRef = l'.serverSecretRef := (congrArg serverSecretRef hl :)
  have hversion : l.serverSecretVersion = l'.serverSecretVersion :=
    (congrArg serverSecretVersion hl :)
  have huref : u.secretRef = u'.secretRef := (congrArg User.secretRef hu :)
  have huversion : u.secretVersion = u'.secretVersion := (congrArg User.secretVersion hu :)
  unfold Matches ListenRule.HasServerSecret at h ⊢
  rwa [← hmethod, ← href, ← hversion, ← huref, ← huversion]

/-! ## What all changes keep -/

/-- A listener in use has the id and the method. -/
def KnownListener (ls : List ListenRule) (id method : Bytes) : Prop :=
  ∃ l ∈ ls, l.id = id ∧ ¬ l.Bare ∧ l.method = method

/-- A user with the id is on a listener with the method. -/
def KnownUser (ls : List ListenRule) (id method : Bytes) : Prop :=
  ∃ l ∈ ls, (∃ u ∈ l.users, u.id = id) ∧ l.method = method

/-- No listener and no user is lost. -/
structure Remembers (ls ls' : List ListenRule) : Prop where
  listener : ∀ {id method}, KnownListener ls id method → KnownListener ls' id method
  user : ∀ {id method}, KnownUser ls id method → KnownUser ls' id method

theorem Remembers.refl (ls : List ListenRule) : Remembers ls ls := ⟨id, id⟩

variable {ls ls' : List ListenRule} {front back : List ListenRule}

theorem Remembers.trans {ls'' : List ListenRule} (h : Remembers ls ls') (h' : Remembers ls' ls'') :
    Remembers ls ls'' :=
  ⟨fun hk => h'.listener (h.listener hk), fun hk => h'.user (h.user hk)⟩

/-- It is enough that every listener in use is still there with its users. -/
theorem Remembers.of_forall
    (h : ∀ l ∈ ls, ¬ l.Bare → ∃ l' ∈ ls', l'.id = l.id ∧ l'.method = l.method ∧ ¬ l'.Bare ∧
      ∀ u ∈ l.users, ∃ u' ∈ l'.users, u'.id = u.id) : Remembers ls ls' := by
  constructor
  · rintro id method ⟨l, hl, rfl, hbare, rfl⟩
    obtain ⟨l', hl', hid, hmethod, hbare', -⟩ := h l hl hbare
    exact ⟨l', hl', hid, hbare', hmethod⟩
  · rintro id method ⟨l, hl, ⟨u, hu, rfl⟩, rfl⟩
    have hbare : ¬ l.Bare := fun hb => not_mem_nil (hb.1 ▸ hu)
    obtain ⟨l', hl', -, hmethod, -, husers⟩ := h l hl hbare
    exact ⟨l', hl', husers u hu, hmethod⟩

/-- One listener is replaced by one with its id, its method and at least its users. -/
theorem Remembers.replace (hid : l'.id = l.id) (hmethod : l'.method = l.method)
    (hbare : ¬ l'.Bare) (husers : ∀ u ∈ l.users, ∃ u' ∈ l'.users, u'.id = u.id) :
    Remembers (front ++ l :: back) (front ++ l' :: back) := by
  apply Remembers.of_forall
  intro k hk hkbare
  rcases mem_cons.mp (perm_middle.mem_iff.mp hk) with rfl | hothers
  · exact ⟨l', by simp, hid, hmethod, hbare, husers⟩
  · exact ⟨k, perm_middle.mem_iff.mpr (mem_cons_of_mem _ hothers), rfl, rfl, hkbare,
      fun u hu => ⟨u, hu, rfl⟩⟩

/-! ## Quiet changes -/

theorem Consistent.quiet {engines' : Engines} (h : Consistent C resolve ls engines)
    (hquiet : Quiet ls ls') (hsub : ∀ id e, engines' id = some e → engines id = some e) :
    Consistent C resolve ls' engines' := by
  intro l' hl' u' hu' e he
  rcases hquiet.exists_before hl' with hbare | ⟨l, hl, heq⟩
  · exact absurd (hbare.1 ▸ hu') not_mem_nil
  · obtain ⟨u, hu, hforget⟩ := exists_user_of_forget heq.symm hu'
    have hid : u.id = u'.id := (congrArg User.id hforget :)
    exact (h l hl u hu e (hid ▸ hsub _ _ he)).congr heq hforget

theorem Remembers.quiet (h : Quiet ls ls') : Remembers ls ls' := by
  apply Remembers.of_forall
  intro l hl hbare
  obtain ⟨l', hl', heq⟩ := h.exists_after hl
  refine ⟨l', hl', (congrArg ListenRule.id heq :), (congrArg method heq :), ?_, ?_⟩
  · rwa [bare_congr heq]
  · intro u hu
    obtain ⟨u', hu', hforget⟩ := exists_user_of_forget heq.symm hu
    exact ⟨u', hu', (congrArg User.id hforget :)⟩

/-! ## A user's new secret -/

theorem Consistent.updateUser {c : Configuration} (h : Consistent C resolve c.listeners engines)
    (hwf : WellFormed c.listeners) {id : Bytes} {f : User → User}
    (hf : ∀ user, (f user).id = user.id)
    (hnew : ∀ l ∈ c.listeners, ∀ u ∈ l.users, u.id = id → Matches C resolve l (f u) e) :
    Consistent C resolve (c.updateUser id f).listeners (Function.update engines id (some e)) := by
  rw [hwf.updateUser_listeners]
  intro l' hl' u' hu' e' he'
  obtain ⟨l, hl, rfl⟩ := mem_map.mp hl'
  obtain ⟨u, hu, rfl⟩ := mem_map.mp hu'
  by_cases hid : u.id = id
  · rw [if_pos hid] at he' ⊢
    rw [hf, hid, Function.update_self] at he'
    cases he'
    exact hnew l hl u hu hid
  · rw [if_neg hid] at he' ⊢
    rw [Function.update_of_ne hid] at he'
    exact h l hl u hu e' he'

theorem Remembers.updateUser {c : Configuration} (hwf : WellFormed c.listeners) (id : Bytes)
    {f : User → User} (hf : ∀ user, (f user).id = user.id) :
    Remembers c.listeners (c.updateUser id f).listeners := by
  apply Remembers.of_forall
  intro l hl hbare
  rw [hwf.updateUser_listeners]
  refine ⟨_, mem_map_of_mem hl, rfl, rfl, ?_, ?_⟩
  · simpa [ListenRule.Bare] using hbare
  · intro u hu
    refine ⟨_, mem_map_of_mem hu, ?_⟩
    split_ifs
    · exact hf u
    · rfl

/-! ## A listener's new server secret -/

variable (C resolve) in
/-- An engine with a new identity key. -/
structure Rekeyed (secret : SecretOnce) (e e' : ProtocolEngine) : Prop where
  method : e'.method = e.method
  key : e'.key = e.key
  identity : e'.identity = psk C e.method (resolve secret.secretRef secret.secretVersion)

theorem Rekeyed.matches {secret : SecretOnce} {e' : ProtocolEngine}
    (h : Rekeyed C resolve secret e e') (hold : Matches C resolve l u e) :
    Matches C resolve (l.setServer secret.secretRef secret.secretVersion) u e' := by
  intro h2022
  obtain ⟨hmethod, hkey, -⟩ := hold h2022
  rw [h.key, h.method]
  exact ⟨hmethod, hkey, fun _ => h.identity⟩

variable (C resolve) in
/-- The replacements are new engines for exactly the engines of the listener. -/
structure Replaces (secret : SecretOnce) (l : ListenRule) (engines : Engines)
    (replacements : List (Bytes × ProtocolEngine)) : Prop where
  complete : ∀ u ∈ l.users, ∀ e, engines u.id = some e → ∃ e', replacements.lookup u.id = some e'
  sound : ∀ id e', replacements.lookup id = some e' →
    ∃ u ∈ l.users, u.id = id ∧ ∃ e, engines id = some e ∧ Rekeyed C resolve secret e e'

theorem Consistent.replaceServer {secret : SecretOnce}
    {replacements : List (Bytes × ProtocolEngine)}
    (h : Consistent C resolve (front ++ l :: back) engines)
    (hwf : WellFormed (front ++ l :: back))
    (hreplaces : Replaces C resolve secret l engines replacements) :
    Consistent C resolve
      (front ++ l.setServer secret.secretRef secret.secretVersion :: back)
      fun id => (replacements.lookup id).or (engines id) := by
  intro l' hl' u hu e he
  change (replacements.lookup u.id).or (engines u.id) = some e at he
  rcases mem_cons.mp (perm_middle.mem_iff.mp hl') with rfl | hothers
  · have hmem : l ∈ front ++ l :: back := by simp
    cases hlookup : replacements.lookup u.id with
    | none =>
      rw [hlookup] at he
      obtain ⟨e', he'⟩ := hreplaces.complete u hu e he
      rw [hlookup] at he'
      cases he'
    | some e' =>
      rw [hlookup] at he
      cases he
      obtain ⟨-, -, -, old, hold, hrekeyed⟩ := hreplaces.sound _ _ hlookup
      exact hrekeyed.matches (h l hmem u hu old hold)
  · -- the users of the other listeners have no replacement
    have hnone : replacements.lookup u.id = none := by
      cases hlookup : replacements.lookup u.id with
      | none => rfl
      | some e' =>
        obtain ⟨u', hu', hid, -⟩ := hreplaces.sound _ _ hlookup
        exact absurd hid.symm (hwf.id_ne_of_mem_others hothers hu' hu)
    rw [hnone] at he
    exact h l' (perm_middle.mem_iff.mpr (mem_cons_of_mem _ hothers)) u hu e he

/-! ## A new user -/

theorem Consistent.addUser {user : User} (h : Consistent C resolve (front ++ l :: back) engines)
    (hwf : WellFormed (front ++ l' :: back)) (husers : l'.users = l.users ++ [user])
    (hold : ∀ u ∈ l.users, ∀ e, engines u.id = some e → Matches C resolve l' u e)
    (hnew : Matches C resolve l' user e) :
    Consistent C resolve (front ++ l' :: back) (Function.update engines user.id (some e)) := by
  have huser : user ∈ l'.users := by rw [husers]; simp
  intro k hk u hu e' he'
  rcases mem_cons.mp (perm_middle.mem_iff.mp hk) with rfl | hothers
  · by_cases hid : u.id = user.id
    · -- ids are unique, so this is the new user
      obtain ⟨-, rfl⟩ := hwf.unique hk hk hu huser hid
      rw [Function.update_self] at he'
      cases he'
      exact hnew
    · rw [Function.update_of_ne hid] at he'
      rw [husers] at hu
      rcases mem_append.mp hu with hu | hu
      · exact hold u hu e' he'
      · exact absurd (congrArg User.id (mem_singleton.mp hu)) hid
  · rw [Function.update_of_ne (hwf.id_ne_of_mem_others hothers huser hu)] at he'
    exact h k (perm_middle.mem_iff.mpr (mem_cons_of_mem _ hothers)) u hu e' he'

/-- The listener of a new user with the server secret that `installCreatedAccount` leaves
it with. -/
def withServerSecret (l : ListenRule) (serverRef serverVersion : Bytes) : ListenRule :=
  if serverRef ≠ [] ∧ l.serverSecretVersion = [] then l.setServer serverRef serverVersion else l

section WithServerSecret

variable (l : ListenRule) (serverRef serverVersion : Bytes)

@[simp] theorem withServerSecret_id : (withServerSecret l serverRef serverVersion).id = l.id := by
  unfold withServerSecret
  split_ifs <;> rfl

@[simp] theorem withServerSecret_method :
    (withServerSecret l serverRef serverVersion).method = l.method := by
  unfold withServerSecret
  split_ifs <;> rfl

@[simp] theorem withServerSecret_users :
    (withServerSecret l serverRef serverVersion).users = l.users := by
  unfold withServerSecret
  split_ifs <;> rfl

end WithServerSecret

theorem setServerSecret_listeners {next : Configuration} {user : User}
    (hnext : next.listeners = front ++ l :: back) (hwf : WellFormed next.listeners)
    (huser : user ∈ l.users) (serverRef serverVersion : Bytes) :
    (setServerSecret next user.id serverRef serverVersion).listeners =
      front ++ withServerSecret l serverRef serverVersion :: back := by
  unfold setServerSecret withServerSecret
  by_cases href : serverRef = []
  · simp [href, hnext]
  · rw [if_neg href]
    show updateFirst _ _ next.listeners = _
    rw [updateFirst_eq_map (hwf.hasUser_pairwise user.id), hnext]
    rw [hnext] at hwf
    have hhas : l.hasUser user.id = true := hasUser_iff.mpr ⟨user, huser, rfl⟩
    -- only the listener of the new user is changed
    have hothers : ∀ k ∈ front ++ back, ¬ k.hasUser user.id = true := by
      intro k hk hkhas
      obtain ⟨u, hu, hid⟩ := hasUser_iff.mp hkhas
      exact hwf.id_ne_of_mem_others hk huser hu hid
    have hsame : ∀ ks ⊆ front ++ back, ∀ g : ListenRule → ListenRule,
        (ks.map fun k => if k.hasUser user.id then g k else k) = ks := fun ks hks g =>
      (map_congr_left fun k hk => if_neg (hothers k (hks hk))).trans (map_id' ks)
    rw [map_append, map_cons, hsame front (subset_append_left ..),
      hsame back (subset_append_right ..), if_pos hhas]
    simp only [ne_eq, href, not_false_eq_true, true_and]
    rfl

end NrePlugins.Shadowsocks.Service
