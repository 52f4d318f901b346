import Nre.Base.Rely
import Nre.Shadowsocks.ServiceInvariant

/-!
# What the sections of the service keep

`Inv` is the invariant of the service's state, `Rely` what a thread relies on while
the others run, and `pre` what it knows about the arguments when it makes a call.
`Undisturbed` is the condition on the state under which a section that installs an
engine may run: what the operation read about secrets is still in force.

`step_keeps`: under these, every section keeps `Inv` and what the others rely on.
-/

namespace NrePlugins.Shadowsocks.Service

open List
open Shadowsocks.Configuration

variable (C : Crypto) (K : PluginSDK) (resolve : Bytes → Bytes → Bytes)

/-! ## The rules of the game -/

/-- The engines are those of the stored secrets. -/
structure Inv (s : State) : Prop where
  wellFormed : WellFormed s.configuration.listeners
  consistent : Consistent C resolve s.configuration.listeners s.engines

/-- While a thread holds the gate, the others leave engines and secrets alone. -/
structure Rely (i : Nat) (s s' : State) : Prop where
  remembers : Remembers s.configuration.listeners s'.configuration.listeners
  held : s.gate = some i → s'.gate = some i ∧ s'.engines = s.engines ∧
    ∀ l ∈ s.configuration.listeners, ¬ l.Bare →
      ∃ l' ∈ s'.configuration.listeners, l'.forget = l.forget

/-- What a thread knows when it makes a call. -/
def pre (s : State) : Call → Prop
  | .rotateInstall userID read secret material serverPSK =>
    KnownUser s.configuration.listeners userID read.1.method ∧
      material = resolve secret.secretRef secret.secretVersion ∧
      serverPSK = serverOf resolve read.1
  | .serverCollect listenerID _ secret serverPSK =>
    ∃ m : Method, m.modern = true ∧ KnownListener s.configuration.listeners listenerID m.name ∧
      serverPSK = Base64.encode (psk C m (resolve secret.secretRef secret.secretVersion))
  | .serverInstall listenerID expectedVersion secret replacements =>
    ∃ l ∈ s.configuration.listeners, l.id = listenerID ∧ l.serverSecretVersion = expectedVersion ∧
      expectedVersion ≠ [] ∧ Replaces C resolve secret l s.engines replacements
  | .enableInstall userID read engine =>
    KnownUser s.configuration.listeners userID read.1.method ∧
      engineFromMaterial C read.1.method (resolve read.2.secretRef read.2.secretVersion)
        (serverOf resolve read.1) = .ok engine
  | .createInstall spec secret engine serverRef serverVersion =>
    secret.secretRef ≠ [] ∧ secret.secretVersion ≠ [] ∧
      ∃ method, spec.resolveMethod defaultSS2022Method = .ok method ∧
        (ss2022Method method = true → serverRef ≠ [] ∧ serverVersion ≠ [] ∧
          engineFromMaterial C method (resolve secret.secretRef secret.secretVersion)
            (resolve serverRef serverVersion) = .ok engine)
  | _ => True

/-- Nothing that the operation of an installing section read has changed since, as far
as the engine it installs depends on it, and the materials suit each other. -/
def Undisturbed (s : State) : Call → Prop
  | .rotateInstall userID read secret _ _ =>
    ∀ l u, s.configuration.userListener userID = some (l, u) → ss2022Method l.method = true →
      l.HasServerSecret →
      l.serverSecretRef = read.1.serverSecretRef ∧
      l.serverSecretVersion = read.1.serverSecretVersion ∧
      Suits C l.method (resolve secret.secretRef secret.secretVersion)
        (resolve l.serverSecretRef l.serverSecretVersion)
  | .enableInstall userID read _ =>
    s.engines userID = none →
    ∀ l u, s.configuration.userListener userID = some (l, u) → ss2022Method l.method = true →
      u.secretRef = read.2.secretRef ∧ u.secretVersion = read.2.secretVersion ∧
      (l.HasServerSecret →
        l.serverSecretRef = read.1.serverSecretRef ∧
        l.serverSecretVersion = read.1.serverSecretVersion ∧
        Suits C l.method (resolve u.secretRef u.secretVersion)
          (resolve l.serverSecretRef l.serverSecretVersion))
  | .createInstall spec secret _ serverRef serverVersion =>
    ∀ method, spec.resolveMethod defaultSS2022Method = .ok method → ss2022Method method = true →
      Suits C method (resolve secret.secretRef secret.secretVersion)
        (resolve serverRef serverVersion) ∧
      ∀ l, s.configuration.clone.listeners.find? (ListenRule.accepts method) = some l →
        if l.serverSecretVersion = [] then ∀ u ∈ l.users, s.engines u.id = none
        else l.serverSecretRef = serverRef ∧ l.serverSecretVersion = serverVersion
  | _ => True

variable {C K resolve} {s s' : State} {i : Nat}

theorem Rely.refl (i : Nat) (s : State) : Rely i s s :=
  ⟨.refl _, fun h => ⟨h, rfl, fun l hl _ => ⟨l, hl, rfl⟩⟩⟩

theorem Rely.trans {s'' : State} (h : Rely i s s') (h' : Rely i s' s'') : Rely i s s'' := by
  refine ⟨h.remembers.trans h'.remembers, ?_⟩
  intro hgate
  obtain ⟨hgate', hengines, hlisteners⟩ := h.held hgate
  obtain ⟨hgate'', hengines', hlisteners'⟩ := h'.held hgate'
  refine ⟨hgate'', hengines'.trans hengines, ?_⟩
  intro l hl hbare
  obtain ⟨l', hl', heq⟩ := hlisteners l hl hbare
  obtain ⟨l'', hl'', heq'⟩ := hlisteners' l' hl' (by rwa [ListenRule.bare_congr heq])
  exact ⟨l'', hl'', heq'.trans heq⟩

/-- Nobody else relies on more than what all changes keep. -/
theorem Rely.of_remembers (hgate : s.gate ≠ some i)
    (h : Remembers s.configuration.listeners s'.configuration.listeners) : Rely i s s' :=
  ⟨h, fun hi => absurd hi hgate⟩

/-! ## Calm sections -/

/-- A section that installs nothing. -/
structure Calm (s s' : State) : Prop where
  listeners : Quiet s.configuration.listeners s'.configuration.listeners
  engines : ∀ id e, s'.engines id = some e → s.engines id = some e
  gate : s'.gate = s.gate
  held : s.gate ≠ none → s'.engines = s.engines

theorem Calm.refl (s : State) : Calm s s := ⟨.refl _, fun _ _ h => h, rfl, fun _ => rfl⟩

theorem Calm.inv (h : Calm s s') (hinv : Inv C resolve s) : Inv C resolve s' :=
  ⟨h.listeners.wellFormed hinv.wellFormed, hinv.consistent.quiet h.listeners h.engines⟩

theorem Calm.rely (h : Calm s s') (i : Nat) : Rely i s s' :=
  ⟨.quiet h.listeners, fun hgate => ⟨h.gate.trans hgate, h.held (by simp [hgate]),
    fun _ hl _ => h.listeners.exists_after hl⟩⟩

theorem Calm.of_quiet {c : Configuration} (h : Quiet s.configuration.listeners c.listeners) :
    Calm s { s with configuration := c } :=
  ⟨h, fun _ _ he => he, rfl, fun _ => rfl⟩

variable {userID : Bytes} {secret : SecretOnce} {engine : ProtocolEngine}
  {replacements : List (Bytes × ProtocolEngine)}

theorem quiet_setAccountEnabled {c next : Configuration} {enabled : Bool}
    (h : c.setAccountEnabled userID enabled = .ok next) :
    Quiet c.listeners next.listeners := by
  rw [setAccountEnabled_ok h]
  exact (Quiet.clone c).trans (.updateUser _ _ fun _ => rfl)

theorem calm_disableUser (hgate : s.gate = none) (userID : Bytes) :
    Calm s (s.disableUser userID) := by
  refine ⟨.updateUser _ _ fun _ => rfl, ?_, rfl, fun h => absurd hgate h⟩
  intro id e he
  change Function.update s.engines userID none id = some e at he
  rw [Function.update_apply] at he
  split_ifs at he
  exact he

theorem calm_disableStale (hgate : s.gate = none) (userID : Bytes) (current : User) :
    Calm s (disableStale s userID current) := by
  fun_cases disableStale s userID current with
  | case2 => exact calm_disableUser hgate userID
  | _ => exact .refl s

theorem calm_disable (hgate : s.gate = none) : Calm s (disable s) :=
  ⟨.refl _, nofun, rfl, fun h => absurd hgate h⟩

theorem calm_enableRead (s : State) (userID : Bytes) (enabled : Bool) :
    Calm s (enableRead s userID enabled).2 := by
  fun_cases enableRead s userID enabled with
  | case5 _ _ _ _ _ hnext => exact .of_quiet (quiet_setAccountEnabled hnext)
  | _ => exact .refl s

theorem calm_createEnsure (s : State) (drawn : Option Bytes) (method : Bytes) :
    Calm s (createEnsure s drawn method).2 := by
  fun_cases createEnsure s drawn method with
  | case1 => exact .refl s
  | case2 ensured index hensured =>
    obtain ⟨-, -, -, -, -, -, hquiet, -⟩ := ensureListenerForMethod_ok hensured
    exact .of_quiet (hquiet.trans (.clone ensured))

/-! ## Sections that install engines -/

/-- A section of thread `i` keeps the invariant and what the other threads rely on. -/
def Keeps (C : Crypto) (resolve : Bytes → Bytes → Bytes) (i : Nat) (s s' : State) : Prop :=
  Inv C resolve s' ∧ ∀ j, j ≠ i → Rely j s s'

theorem Calm.keeps (h : Calm s s') (hinv : Inv C resolve s) (i : Nat) : Keeps C resolve i s s' :=
  ⟨h.inv hinv, fun j _ => h.rely j⟩

theorem Inv.clone (h : Inv C resolve s) :
    WellFormed s.configuration.clone.listeners ∧
      Consistent C resolve s.configuration.clone.listeners s.engines :=
  ⟨(Quiet.clone _).wellFormed h.wellFormed, h.consistent.quiet (.clone _) fun _ _ he => he⟩

/-- A user known to be on a listener with a method is on no other. -/
theorem KnownUser.method_eq {ls : List ListenRule} {id method : Bytes}
    (h : KnownUser ls id method) (hwf : WellFormed ls) {l : ListenRule} {u : User} (hl : l ∈ ls)
    (hu : u ∈ l.users) (hid : u.id = id) : l.method = method := by
  obtain ⟨l', hl', ⟨u', hu', hid'⟩, rfl⟩ := h
  obtain ⟨rfl, -⟩ := hwf.unique hl hl' hu hu' (hid.trans hid'.symm)
  rfl

/-- The engine of a user is installed together with a change of the user. -/
theorem keeps_updateUser (hinv : Inv C resolve s) (hgate : s.gate = none) {f : User → User}
    (hf : ∀ user, (f user).id = user.id) {e : ProtocolEngine} {l : ListenRule} {u : User}
    (hfound : s.configuration.userListener userID = some (l, u))
    (hmatches : Matches C resolve l (f u) e) :
    Keeps C resolve i s
      { s with configuration := s.configuration.clone.updateUser userID f
               engines := Function.update s.engines userID (some e) } := by
  obtain ⟨hwf, hconsistent⟩ := hinv.clone
  obtain ⟨hl, hu, hid⟩ := userListener_eq_some hfound
  refine ⟨⟨hwf.updateUser userID hf, hconsistent.updateUser hwf hf ?_⟩, fun j _ =>
    .of_remembers (by simp [hgate]) ((Remembers.quiet (.clone _)).trans (.updateUser hwf userID hf))⟩
  intro l' hl' u' hu' hid'
  obtain ⟨rfl, rfl⟩ := hwf.unique hl' (mem_clone.mpr hl) hu' hu (hid'.trans hid.symm)
  exact hmatches

open Calm

theorem keeps_rotateInstall (hinv : Inv C resolve s) (hgate : s.gate = none) {read : Found}
    {material serverPSK : Bytes}
    (hpre : pre C resolve s (.rotateInstall userID read secret material serverPSK))
    (hok : Undisturbed C resolve s (.rotateInstall userID read secret material serverPSK)) :
    Keeps C resolve i s (rotateInstall C s userID read.2 secret material serverPSK).2 := by
  obtain ⟨hknown, rfl, rfl⟩ := hpre
  fun_cases rotateInstall C s userID read.2 secret _ _ with
  | case4 => exact (calm_disableUser hgate userID).keeps hinv i
  | case6 _ latest user hfound _ _ hengine _ hnext =>
    obtain rfl := replaceUserSecret_ok hnext
    obtain ⟨hl, hu, hid⟩ := userListener_eq_some hfound
    refine keeps_updateUser hinv hgate ?_ hfound ?_
    · exact fun _ => rfl
    refine matches_of_engineFromMaterial hengine ?_
    intro h2022 hhas
    obtain ⟨href, hversion, hsuits⟩ := hok latest user hfound h2022 hhas
    have hmethod := hknown.method_eq hinv.wellFormed hl hu hid
    rw [serverOf_eq h2022 hhas hmethod href hversion]
    exact ⟨rfl, hsuits⟩
  | _ => exact (Calm.refl s).keeps hinv i

theorem keeps_enableInstall (hinv : Inv C resolve s) (hgate : s.gate = none) {read : Found}
    (hpre : pre C resolve s (.enableInstall userID read engine))
    (hok : Undisturbed C resolve s (.enableInstall userID read engine)) :
    Keeps C resolve i s (enableInstall s userID engine).2 := by
  obtain ⟨hknown, hengine⟩ := hpre
  unfold enableInstall
  split
  · exact (refl s).keeps hinv i
  split
  · exact (refl s).keeps hinv i
  rename_i next hnext
  by_cases hmissing : s.engines userID = none
  · rw [if_pos (by simp [hmissing])]
    have hsome : (s.configuration.userListener userID).isSome := by
      obtain ⟨l, hl, ⟨u, hu, hid⟩, -⟩ := hknown
      exact userListener_isSome_iff.mpr ⟨l, hl, u, hu, hid⟩
    obtain ⟨⟨l, u⟩, hfound⟩ := Option.isSome_iff_exists.mp hsome
    obtain ⟨hl, hu, hid⟩ := userListener_eq_some hfound
    obtain rfl := setAccountEnabled_ok hnext
    have hmethod := hknown.method_eq hinv.wellFormed hl hu hid
    refine keeps_updateUser hinv hgate ?_ hfound ?_
    · exact fun _ => rfl
    intro h2022
    obtain ⟨huref, huversion, hserver⟩ := hok hmissing l u hfound h2022
    rw [← hmethod, ← huref, ← huversion] at hengine
    refine (matches_of_engineFromMaterial (u := u) hengine ?_).congr rfl rfl h2022
    intro _ hhas
    obtain ⟨href, hversion, hsuits⟩ := hserver hhas
    rw [serverOf_eq h2022 hhas hmethod href hversion]
    exact ⟨rfl, hsuits⟩
  · rw [if_neg (by simpa [Option.isNone_iff_eq_none] using hmissing)]
    exact (of_quiet (quiet_setAccountEnabled hnext)).keeps hinv i

/-! ## The two sections of a server key rotation -/

/-- The account that is collected for a user with a 2022 engine. -/
def accountOf (engines : Engines) (user : User) : Option SS2022Account :=
  (engines user.id).bind fun e =>
    if ss2022Method e.method.name then some ⟨user.id, e.method.name, Base64.encode e.key⟩ else none

theorem collectAccounts_ok {engines : Engines} {users : List User} {accounts : List SS2022Account}
    (h : collectAccounts engines users = .ok accounts) :
    accounts = users.filterMap (accountOf engines) ∧
    ∀ u ∈ users, ∀ e, engines u.id = some e → ss2022Method e.method.name = true →
      e.key.length = e.method.keyLen := by
  fun_induction collectAccounts engines users generalizing accounts with
  | case1 => exact ⟨(Except.ok.inj h).symm, by simp⟩
  | case2 user rest hnone ih =>
    -- no engine: the user is passed over
    simpa [accountOf, hnone] using ih h
  | case3 user rest engine hengine hmodern ih =>
    -- an engine of another kind
    simp only [Bool.not_eq_true'] at hmodern
    simpa [accountOf, hengine, hmodern] using ih h
  | case4 => cases h
  | case5 user rest engine hengine hmodern key identity hkeys ih =>
    obtain ⟨more, hmore, h⟩ := bind_eq_ok.mp h
    cases h
    obtain ⟨hlive, heq⟩ := ProtocolEngine.keysSnapshot_eq hkeys
    cases heq
    obtain ⟨rfl, hlength⟩ := ih hmore
    simp only [Bool.not_eq_true', Bool.not_eq_false] at hmodern
    refine ⟨by simp [accountOf, hengine, hmodern], forall_mem_cons.mpr ⟨?_, hlength⟩⟩
    rintro e he -
    cases hengine.symm.trans he
    exact hlive.key

theorem buildReplacements_ok {mapped : Bytes} {accounts : List SS2022Account}
    (h : buildReplacements mapped accounts = .ok replacements) :
    replacements.map Prod.fst = accounts.map SS2022Account.id ∧
    ∀ p ∈ replacements, ∃ a ∈ accounts, a.id = p.1 ∧
      newSS2022IdentityEngine a.method mapped a.userPSK = .ok p.2 := by
  induction accounts generalizing replacements with
  | nil =>
    cases h
    simp
  | cons account rest ih =>
    obtain ⟨engine, hengine, h⟩ := bind_eq_ok.mp h
    obtain ⟨more, hmore, h⟩ := bind_eq_ok.mp h
    cases h
    obtain ⟨hids, hbuilt⟩ := ih hmore
    exact ⟨by simp [hids], forall_mem_cons.mpr ⟨⟨account, mem_cons_self, rfl, hengine⟩,
      fun p hp => (hbuilt p hp).imp fun _ => And.imp_left (mem_cons_of_mem _)⟩⟩

/-- What `installRotatedServerPSK` collects replaces the engines of the listener. -/
theorem serverCollect_ok (hinv : Inv C resolve s) {listenerID expectedVersion serverPSK : Bytes}
    (hpre : pre C resolve s (.serverCollect listenerID expectedVersion secret serverPSK))
    (h : serverCollect C s listenerID expectedVersion serverPSK = .ok replacements) :
    pre C resolve s (.serverInstall listenerID expectedVersion secret replacements) := by
  obtain ⟨m, hmodern, hknown, rfl⟩ := hpre
  obtain ⟨-, h⟩ := ite_error_eq_ok.mp h
  split at h
  · cases h
  rename_i l hfound
  obtain ⟨hversion, hl, h2022, hlversion⟩ := ss2022ListenerByServerVersion_eq_some hfound
  obtain ⟨hid, h⟩ := ite_error_eq_ok.mp h
  rw [not_not] at hid
  -- the listener is the one that was read first, so it still has the method
  have hmethod : l.method = m.name := by
    obtain ⟨l', hl', hid', hbare', hmethod'⟩ := hknown
    have hbare : ¬ l.Bare := fun hb => hversion (hlversion ▸ hb.2)
    rw [hinv.wellFormed.listener_unique hl hl' (hid.trans hid'.symm) hbare hbare', hmethod']
  obtain ⟨mapped, hmapped, h⟩ := bind_eq_ok.mp h
  obtain ⟨accounts, haccounts, h⟩ := bind_eq_ok.mp h
  rw [hmethod, mapSS2022PSK_eq C (ss2022KeyLen_name hmodern),
    psk_encode C (length_psk C ..)] at hmapped
  cases hmapped
  obtain ⟨rfl, hlive⟩ := collectAccounts_ok haccounts
  obtain ⟨hids, hbuilt⟩ := buildReplacements_ok h
  refine ⟨l, hl, hid, hlversion, hversion, ?_, ?_⟩
  · intro u hu e he
    obtain ⟨hname, -, -⟩ := hinv.consistent l hl u hu e he h2022
    have haccount : ⟨u.id, e.method.name, Base64.encode e.key⟩ ∈
        l.users.filterMap (accountOf s.engines) :=
      mem_filterMap.mpr ⟨u, hu, by simp [accountOf, he, ← hname, h2022]⟩
    obtain ⟨p, hp, hpid⟩ := mem_map.mp (hids ▸ mem_map_of_mem haccount)
    apply Option.isSome_iff_exists.mp
    rw [lookup_isSome_iff]
    exact ⟨p, hp, by simp [hpid]⟩
  · intro id e' hlookup
    obtain ⟨front, back, hsplit, -⟩ := lookup_eq_some_iff.mp hlookup
    obtain ⟨a, ha, rfl, hengine⟩ := hbuilt (id, e') (by simp [hsplit])
    obtain ⟨u, hu, haccount⟩ := mem_filterMap.mp ha
    obtain ⟨e, he, haccount⟩ := Option.bind_eq_some_iff.mp haccount
    obtain ⟨hname, haccount⟩ := Option.ite_none_right_eq_some.mp haccount
    cases haccount
    refine ⟨u, hu, rfl, e, he, ?_⟩
    -- the old engine matches, so its method is the listener's
    obtain ⟨hname', -, -⟩ := hinv.consistent l hl u hu e he h2022
    have hem : e.method = m := by
      have := supportedMethod_name e.method
      rw [← hname', hmethod, supportedMethod_name] at this
      exact (Option.some.inj this).symm
    subst hem
    obtain rfl := newSS2022IdentityEngine_encode (ss2022KeyLen_name hmodern)
      (length_psk C e.method _) (hlive u hu e he hname) hengine
    exact ⟨rfl, rfl, rfl⟩

theorem keeps_serverInstall (hinv : Inv C resolve s) (hgate : s.gate = some i)
    {listenerID expectedVersion : Bytes}
    (hpre : pre C resolve s (.serverInstall listenerID expectedVersion secret replacements)) :
    Keeps C resolve i s (serverInstall s listenerID expectedVersion secret replacements).2 := by
  have hothers : ∀ j, j ≠ i → s.gate ≠ some j :=
    fun j hj hgate' => hj (Option.some.inj (hgate'.symm.trans hgate))
  have hfailed : Keeps C resolve i s { s with gate := none } :=
    ⟨⟨hinv.wellFormed, hinv.consistent⟩, fun j hj => .of_remembers (hothers j hj) (.refl _)⟩
  obtain ⟨l, hl, hid, hversion, hne, hreplaces⟩ := hpre
  unfold serverInstall
  split
  · exact hfailed
  split
  · exact hfailed
  rename_i next hnext
  obtain ⟨hnew, front, l', back, hsplit, hid', hversion', hlisteners⟩ :=
    replaceServerPSK_ok hnext
  obtain ⟨hwf, hconsistent⟩ := hinv.clone
  have hbare : ¬ l.Bare := fun hb => hne (hversion ▸ hb.2)
  have hbare' : ¬ l'.Bare := fun hb => hne (hversion' ▸ hb.2)
  -- the listener that gets the secret is the one whose engines were collected
  obtain rfl : l = l' := by
    refine hwf.listener_unique (mem_clone.mpr hl) ?_ (hid.trans hid'.symm) hbare hbare'
    rw [hsplit]
    simp
  rw [hsplit] at hwf hconsistent
  refine ⟨⟨?_, ?_⟩, ?_⟩
  · show WellFormed next.listeners
    rw [hlisteners]
    exact hwf.replace rfl rfl hbare
  · show Consistent C resolve next.listeners _
    rw [hlisteners]
    exact hconsistent.replaceServer hwf hreplaces
  · intro j hj
    refine .of_remembers (hothers j hj) ?_
    refine (Remembers.quiet (.clone _)).trans ?_
    show Remembers s.configuration.clone.listeners next.listeners
    rw [hsplit, hlisteners]
    exact .replace rfl rfl (fun hb => hnew hb.2) fun u hu => ⟨u, hu, rfl⟩

/-! ## New accounts -/

/-- The listener of a new 2022 user ends up with the server secret of the engine. -/
theorem serverSecret_of_undisturbed {spec : AccountSpec} {serverRef serverVersion method : Bytes}
    {l : ListenRule}
    (hok : Undisturbed C resolve s (.createInstall spec secret engine serverRef serverVersion))
    (hmethod : spec.resolveMethod defaultSS2022Method = .ok method)
    (h2022 : ss2022Method method = true) (href : serverRef ≠ [])
    (hfound : s.configuration.clone.listeners.find? (ListenRule.accepts method) = some l ∨ l.Bare)
    (user : User) :
    (withServerSecret (l.addUser user) serverRef serverVersion).serverSecretRef = serverRef ∧
    (withServerSecret (l.addUser user) serverRef serverVersion).serverSecretVersion =
      serverVersion := by
  unfold withServerSecret
  by_cases hversion : l.serverSecretVersion = []
  · rw [if_pos ⟨href, hversion⟩]
    exact ⟨rfl, rfl⟩
  · rw [if_neg fun h => hversion h.2]
    rcases hfound with hfind | hbare
    · have hlistener := (hok method hmethod h2022).2 l hfind
      rwa [if_neg hversion] at hlistener
    · exact absurd hbare.2 hversion

theorem keeps_createInstall (hinv : Inv C resolve s) (hgate : s.gate = none) {drawn : Option Bytes}
    {spec : AccountSpec} {serverRef serverVersion : Bytes}
    (hpre : pre C resolve s (.createInstall spec secret engine serverRef serverVersion))
    (hok : Undisturbed C resolve s (.createInstall spec secret engine serverRef serverVersion)) :
    Keeps C resolve i s (createInstall K s drawn spec secret engine serverRef serverVersion).2 := by
  obtain ⟨href, hversion, method, hmethod, hengine⟩ := hpre
  unfold createInstall
  split
  · exact (refl s).keeps hinv i
  split
  · exact (refl s).keeps hinv i
  rename_i next user hcreate
  obtain ⟨method', front, l, back, hmethod', huser, hquiet, hlmethod, hfound, hnext, hwf⟩ :=
    createAccount_ok hcreate
  obtain rfl : method = method' := Except.ok.inj (hmethod.symm.trans hmethod')
  have hmem : user ∈ (l.addUser user).users := by simp [ListenRule.addUser]
  have hbare : ¬ (l.addUser user).Bare := fun hb => not_mem_nil (hb.1 ▸ hmem)
  have hlisteners := setServerSecret_listeners hnext hwf hmem serverRef serverVersion
  rw [hnext] at hwf
  have hwf' := hwf.replace (withServerSecret_id _ serverRef serverVersion)
    (withServerSecret_users _ serverRef serverVersion) hbare
  refine ⟨⟨?_, ?_⟩, ?_⟩
  · show WellFormed (setServerSecret next user.id serverRef serverVersion).listeners
    rwa [hlisteners]
  · show Consistent C resolve (setServerSecret next user.id serverRef serverVersion).listeners _
    rw [hlisteners]
    have hconsistent : Consistent C resolve (front ++ l :: back) s.engines :=
      hinv.consistent.quiet hquiet fun _ _ he => he
    refine hconsistent.addUser hwf' (withServerSecret_users _ _ _) ?_ ?_
    · -- the users that were there: the listener keeps its server secret, or none has an engine
      intro u hu e he h2022
      rw [withServerSecret_method] at h2022
      have hold := hconsistent l (by simp) u hu e he
      unfold withServerSecret
      by_cases hlversion : l.serverSecretVersion = []
      · rcases hfound with hfind | hlbare
        · have hnone := (hok method hmethod (hlmethod ▸ h2022)).2 l hfind
          rw [if_pos hlversion] at hnone
          simp [hnone u hu] at he
        · simp [hlbare.1] at hu
      · rw [if_neg fun h => hlversion h.2]
        exact hold h2022
    · intro h2022
      rw [withServerSecret_method] at h2022
      have h2022' : ss2022Method method = true := hlmethod ▸ h2022
      obtain ⟨hsref, -, hbuilt⟩ := hengine h2022'
      obtain ⟨hsuits, -⟩ := hok method hmethod h2022'
      obtain ⟨hlref, hlversion⟩ :=
        serverSecret_of_undisturbed hok hmethod h2022' hsref hfound user
      have huref : user.secretRef = secret.secretRef := huser ▸ if_neg href
      have huversion : user.secretVersion = secret.secretVersion := huser ▸ if_neg hversion
      have hm : (withServerSecret (l.addUser user) serverRef serverVersion).method = method := by
        rw [withServerSecret_method]
        exact hlmethod
      rw [← hm, ← huref, ← huversion] at hbuilt hsuits
      refine matches_of_engineFromMaterial hbuilt ?_ (hm ▸ h2022')
      intro _ _
      rw [hlref, hlversion]
      exact ⟨rfl, hsuits⟩
  · intro j _
    refine .of_remembers (by simp [hgate]) ((Remembers.quiet hquiet).trans ?_)
    show Remembers _ (setServerSecret next user.id serverRef serverVersion).listeners
    rw [hlisteners]
    refine .replace (withServerSecret_id _ _ _) (withServerSecret_method _ _ _) ?_ fun u hu => ?_
    · exact fun hb => not_mem_nil ((withServerSecret_users ..).symm.trans hb.1 ▸ hmem)
    · rw [withServerSecret_users]
      exact ⟨u, mem_append_left _ hu, rfl⟩

/-! ## All sections -/

/-- Every section keeps the invariant and what the other threads rely on. -/
theorem step_keeps {c : Call} {answer : Answer c} (hinv : Inv C resolve s)
    (hok : Undisturbed C resolve s c) (hpre : pre C resolve s c)
    (h : respond C K resolve i s c answer s') : Keeps C resolve i s s' := by
  cases c with
  | context | audit | vault => exact Eq.symm h ▸ (refl s).keeps hinv i
  | resolve | newAccountID | rotateRead | serverRead | createRead =>
    exact h.2 ▸ (refl s).keeps hinv i
  | disableStale userID current =>
    obtain ⟨hgate, rfl⟩ := h
    exact (calm_disableStale hgate userID current).keeps hinv i
  | rotateInstall userID read secret material serverPSK =>
    obtain ⟨hgate, h⟩ := h
    obtain ⟨-, rfl⟩ := Prod.mk.inj h
    exact keeps_rotateInstall hinv hgate hpre hok
  | serverCollect listenerID expectedVersion secret serverPSK =>
    -- only the gate changes, and nobody held it
    obtain ⟨hgate, -, rfl⟩ := h
    refine ⟨⟨hinv.wellFormed, hinv.consistent⟩, fun j _ => ?_⟩
    exact .of_remembers (by simp [hgate]) (.refl _)
  | serverInstall listenerID expectedVersion secret replacements =>
    obtain ⟨hgate, h⟩ := h
    obtain ⟨-, rfl⟩ := Prod.mk.inj h
    exact keeps_serverInstall hinv hgate hpre
  | enableRead userID enabled =>
    obtain rfl : s' = (enableRead s userID enabled).2 := congrArg Prod.snd h
    exact (calm_enableRead s userID enabled).keeps hinv i
  | enableInstall userID read engine =>
    obtain ⟨hgate, h⟩ := h
    obtain rfl : s' = (enableInstall s userID engine).2 := congrArg Prod.snd h
    exact keeps_enableInstall hinv hgate hpre hok
  | createEnsure method =>
    obtain ⟨drawn, h⟩ := h
    obtain rfl : s' = (createEnsure s drawn method).2 := congrArg Prod.snd h
    exact (calm_createEnsure s drawn method).keeps hinv i
  | createInstall spec secret engine serverRef serverVersion =>
    obtain ⟨hgate, drawn, h⟩ := h
    obtain rfl : s' = (createInstall K s drawn spec secret engine serverRef serverVersion).2 :=
      congrArg Prod.snd h
    exact keeps_createInstall hinv hgate hpre hok
  | disable =>
    obtain ⟨hgate, rfl⟩ := h
    exact (calm_disable hgate).keeps hinv i

end NrePlugins.Shadowsocks.Service
