import Nre.Base.Schedule
import Nre.Shadowsocks.ServiceSteps

/-!
# Runs of the service

Any number of operations, section by section in any order, from a service that has
just been initialized. `engines_consistent`: in every run whose installing sections
find what they read unchanged (`Undisturbed`), the installed engines match the
secrets in force in every state.

The condition is needed. `stale_engine` is the run in which `Rotate` has resolved the
server key of the listener, `RotateServerPSK` then replaces that key, and `Rotate`
installs an engine with the old one: the section checks the secret of the user again,
but not the server secret of the listener.
-/

namespace NrePlugins.Shadowsocks.Service

variable {C : Crypto} {K : PluginSDK} {resolve : Bytes → Bytes → Bytes}

open NrePlugins.System (Safe)

/-! ## Safe operations -/

variable (C K resolve) in
/-- The judgement of the rely and guarantee rule for the service. -/
abbrev SafeOp {α : Type} (i : Nat) (post : State → α → Prop) (p : Handler α) (s : State) : Prop :=
  Safe (respond C K resolve) Rely (Inv C resolve) (fun _ s c => pre C resolve s c) i post p s

section Calls

variable {i : Nat} {s : State}

theorem safe_context {post : State → Unit → Prop}
    (h : ∀ s', Rely i s s' → Inv C resolve s' → post s' ()) :
    SafeOp C K resolve i post context s := by
  intro s' hrely hinv
  refine ⟨trivial, ?_⟩
  rintro answer _ rfl _
  exact Safe.ofExcept fun _ _ => h _ hrely hinv

theorem safe_audit {action userID : Bytes} {post : State → Unit → Prop}
    (h : ∀ s', Rely i s s' → Inv C resolve s' → post s' ()) :
    SafeOp C K resolve i post (audit action userID) s := by
  intro s' hrely hinv
  refine ⟨trivial, ?_⟩
  rintro (e | _) _ rfl _
  · trivial
  · exact h _ hrely hinv

theorem safe_resolveSecret {ref version : Bytes} {post : State → Bytes → Prop}
    (h : ∀ s', Rely i s s' → Inv C resolve s' → post s' (resolve ref version)) :
    SafeOp C K resolve i post (resolveSecret ref version) s := by
  intro s' hrely hinv
  refine ⟨trivial, ?_⟩
  rintro answer _ ⟨rfl | rfl, rfl⟩ _
  · exact h _ hrely hinv
  · trivial

theorem safe_rotateVault {id ref version generation scope : Bytes}
    {post : State → SecretOnce → Prop}
    (h : ∀ s' secret, Rely i s s' → Inv C resolve s' → secret.secretRef ≠ [] →
      secret.secretVersion ≠ [] → post s' secret) :
    SafeOp C K resolve i post (rotateVault id ref version generation scope) s := by
  intro s' hrely hinv
  refine ⟨trivial, ?_⟩
  rintro (e | secret) _ rfl _
  · trivial
  · show Safe _ _ _ _ _ _ (if _ then _ else _) _
    split_ifs with hpattern
    · trivial
    · simp only [Bool.or_eq_true, Bool.not_eq_true', not_or, Bool.not_eq_false] at hpattern
      exact h _ secret hrely hinv (Configuration.ne_nil_of_refPattern hpattern.1)
        (Configuration.ne_nil_of_refPattern hpattern.2)

theorem safe_serverMaterial {listener : ListenRule} {post : State → Except Err Bytes → Prop}
    (hinv : Inv C resolve s)
    (h : ∀ s' r, Rely i s s' → Inv C resolve s' →
      (∀ material, r = .ok material → material = serverOf resolve listener) → post s' r) :
    SafeOp C K resolve i post (serverMaterial listener) s := by
  unfold serverMaterial
  by_cases hserver : ss2022Method listener.method = true ∧ listener.HasServerSecret
  · rw [if_pos hserver]
    intro s' hrely hinv'
    refine ⟨trivial, ?_⟩
    rintro answer _ ⟨hanswer, rfl⟩ _
    refine h _ answer hrely hinv' ?_
    rintro material rfl
    rw [serverOf, if_pos hserver]
    exact Except.ok.inj (hanswer.resolve_right (by simp))
  · rw [if_neg hserver]
    refine h s _ (.refl i s) hinv ?_
    intro material hmaterial
    rw [serverOf, if_neg hserver]
    exact (Except.ok.inj hmaterial).symm

theorem safe_giveUp {userID : Bytes} {current : User} {post : State → Reply → Prop} :
    SafeOp C K resolve i post (giveUp userID current) s := by
  intro s' _ _
  exact ⟨trivial, fun _ _ _ _ => trivial⟩

end Calls

/-- What a thread collected stays right while it holds the gate. -/
theorem pre_serverInstall_stable {i : Nat} {s s' : State} {listenerID expectedVersion : Bytes}
    {secret : SecretOnce} {replacements : List (Bytes × ProtocolEngine)}
    (h : pre C resolve s (.serverInstall listenerID expectedVersion secret replacements))
    (hgate : s.gate = some i) (hrely : Rely i s s') :
    pre C resolve s' (.serverInstall listenerID expectedVersion secret replacements) := by
  obtain ⟨l, hl, hid, hversion, hne, hcomplete, hsound⟩ := h
  obtain ⟨-, hengines, hlisteners⟩ := hrely.held hgate
  have hbare : ¬ l.Bare := fun hb => hne (hversion ▸ hb.2)
  obtain ⟨l', hl', heq⟩ := hlisteners l hl hbare
  refine ⟨l', hl', ?_, ?_, hne, ?_, ?_⟩
  · exact (congrArg ListenRule.id heq :).trans hid
  · exact (congrArg ListenRule.serverSecretVersion heq :).trans hversion
  · intro u' hu' e he
    obtain ⟨u, hu, hforget⟩ := ListenRule.exists_user_of_forget heq hu'
    have huid : u.id = u'.id := (congrArg User.id hforget :)
    rw [hengines, ← huid] at he
    rw [← huid]
    exact hcomplete u hu e he
  · intro id e' hlookup
    obtain ⟨u, hu, huid, e, he, hrekeyed⟩ := hsound id e' hlookup
    obtain ⟨u', hu', hforget⟩ := ListenRule.exists_user_of_forget heq.symm hu
    exact ⟨u', hu', (congrArg User.id hforget :).trans huid, e, hengines ▸ he, hrekeyed⟩

section Operations

variable (K) (i : Nat) (s : State)

theorem knownUser_of_found {c : Configuration} {userID : Bytes} {l : ListenRule} {u : User}
    (h : c.userListener userID = some (l, u)) : KnownUser c.listeners userID l.method := by
  obtain ⟨hl, hu, hid⟩ := Configuration.userListener_eq_some h
  exact ⟨l, hl, ⟨u, hu, hid⟩, rfl⟩

theorem safe_rotate (userID expectedVersion : Bytes) :
    SafeOp C K resolve i (fun _ _ => True) (rotate userID expectedVersion) s := by
  intro _ _ _
  refine ⟨trivial, ?_⟩
  rintro answer s1 ⟨rfl, rfl⟩ _
  cases hfound : s1.configuration.userListener userID with
  | none => trivial
  | some found =>
    have hknown := knownUser_of_found hfound
    show Safe _ _ _ _ _ _ (if _ then _ else _) _
    split_ifs with hversion
    · trivial
    apply Safe.bind
    apply safe_rotateVault
    -- the new material is resolved, then the server key
    intro s2 secret hrely2 _ _ _ _ hrely3 hinv3
    refine ⟨trivial, ?_⟩
    rintro answer s3 ⟨rfl | rfl, rfl⟩ _
    · apply Safe.bind
      apply safe_serverMaterial hinv3
      rintro s4 (e | serverPSK) hrely4 _ hserver
      · exact safe_giveUp
      · intro s5 hrely5 _
        refine ⟨⟨?_, rfl, hserver _ rfl⟩, ?_⟩
        · exact (((hrely2.trans hrely3).trans hrely4).trans hrely5).remembers.user hknown
        · intro answer s6 _ _
          cases answer with
          | error | ok => trivial
    · exact safe_giveUp

theorem safe_rotateServerPSK (expectedVersion : Bytes) :
    SafeOp C K resolve i (fun _ _ => True) (rotateServerPSK C expectedVersion) s := by
  apply Safe.bind
  apply safe_context
  intro s1 _ _ _ _ _
  refine ⟨trivial, ?_⟩
  rintro answer s2 ⟨rfl, rfl⟩ _
  cases hread : serverRead s2 expectedVersion with
  | error e => trivial
  | ok read =>
    obtain ⟨generation, listener⟩ := read
    have hlistener : s2.configuration.ss2022ListenerByServerVersion expectedVersion =
        some listener := by
      obtain ⟨-, hread⟩ := ite_error_eq_ok.mp hread
      split at hread <;> cases hread
      assumption
    obtain ⟨hversion, hl, h2022, hlversion⟩ :=
      Configuration.ss2022ListenerByServerVersion_eq_some hlistener
    have hknown : KnownListener s2.configuration.listeners listener.id listener.method :=
      ⟨listener, hl, rfl, fun hb => hversion (hlversion ▸ hb.2), rfl⟩
    apply Safe.bind
    apply safe_rotateVault
    intro s3 secret hrely3 _ _ _
    apply Safe.bind
    apply safe_resolveSecret
    intro s4 hrely4 _
    apply Safe.bind
    apply Safe.ofExcept
    intro mapped hmapped
    cases hm : ss2022KeyLen listener.method with
    | none =>
      simp [mapSS2022PSK, hm] at hmapped
    | some m =>
      rw [mapSS2022PSK_eq C hm] at hmapped
      cases hmapped
      obtain ⟨hname, hmodern⟩ := modern_of_ss2022KeyLen hm
      -- the engines are collected while the gate is taken
      intro s5 hrely5 hinv5
      have hknown5 := ((hrely3.trans hrely4).trans hrely5).remembers.listener hknown
      have hpre : pre C resolve s5 (.serverCollect listener.id expectedVersion secret
          (Base64.encode (psk C m (resolve secret.secretRef secret.secretVersion)))) :=
        ⟨m, hmodern, hname ▸ hknown5, rfl⟩
      refine ⟨hpre, ?_⟩
      rintro (e | replacements) s6 ⟨_, hanswer, rfl⟩ _
      · trivial
      · have hinstall := serverCollect_ok hinv5 hpre hanswer.symm
        intro s7 hrely7 _
        refine ⟨pre_serverInstall_stable (s := { s5 with gate := some i }) hinstall rfl hrely7, ?_⟩
        intro answer s8 _ _
        cases answer with
        | error e => trivial
        | ok _ =>
          apply Safe.bind
          apply safe_audit
          intro _ _ _
          trivial

theorem enableRead_found {s s' : State} {userID : Bytes} {enabled : Bool} {read : Found}
    (h : (.ok (some read), s') = enableRead s userID enabled) :
    s' = s ∧ s.configuration.userListener userID = some read := by
  revert h
  fun_cases enableRead s userID enabled with
  | case3 _ found hfound =>
    rintro ⟨⟩
    exact ⟨rfl, hfound⟩
  | _ => rintro ⟨⟩

theorem safe_setAccountEnabled (userID : Bytes) (enabled : Bool) :
    SafeOp C K resolve i (fun _ _ => True) (setAccountEnabled C userID enabled) s := by
  apply Safe.bind
  apply safe_context
  intro s1 _ _ s2 _ hinv2
  refine ⟨trivial, ?_⟩
  intro answer s3 hresp hinv3
  match answer with
  | .error e => trivial
  | .ok none =>
    apply Safe.bind
    apply safe_audit
    intro _ _ _
    trivial
  | .ok (some (listener, user)) =>
    obtain ⟨rfl, hfound⟩ := enableRead_found hresp
    have hknown := knownUser_of_found hfound
    apply Safe.bind
    apply safe_serverMaterial hinv3
    rintro s4 (e | serverPSK) hrely4 _ hserver
    · trivial
    · obtain rfl := hserver _ rfl
      apply Safe.bind
      apply safe_resolveSecret
      intro s5 hrely5 _
      apply Safe.bind
      apply Safe.ofExcept
      intro engine hengine s6 hrely6 _
      refine ⟨⟨?_, hengine⟩, ?_⟩
      · exact ((hrely4.trans hrely5).trans hrely6).remembers.user hknown
      · intro answer s7 _ _
        cases answer with
        | error e => trivial
        | ok _ =>
          apply Safe.bind
          apply safe_audit
          intro _ _ _
          trivial

theorem safe_accountID {spec : AccountSpec} {post : State → Bytes → Prop}
    (h : ∀ s' id, post s' id) : SafeOp C K resolve i post (accountID spec) s := by
  unfold accountID
  split_ifs
  · intro s' _ _
    refine ⟨trivial, ?_⟩
    rintro (e | id) s'' _ _
    · trivial
    · exact h s'' id
  · exact h s _

theorem safe_accountServerSecret {method generation : Bytes} {read : Bytes × Bytes}
    {post : State → Bytes × Bytes × Bytes → Prop}
    (h : ∀ s' serverRef serverVersion serverPSK,
      (ss2022Method method = true → serverRef ≠ [] ∧ serverVersion ≠ [] ∧
        serverPSK = resolve serverRef serverVersion) →
      post s' (serverRef, serverVersion, serverPSK)) :
    SafeOp C K resolve i post (accountServerSecret method generation read) s := by
  unfold accountServerSecret
  split_ifs with hlegacy hread
  · refine h s _ _ _ fun h2022 => ?_
    simp [h2022] at hlegacy
  · apply Safe.bind
    apply safe_resolveSecret
    intro s' _ _
    exact h s' _ _ _ fun _ => ⟨hread.1, hread.2, rfl⟩
  · apply Safe.bind
    apply safe_rotateVault
    intro s1 minted _ _ href hversion
    apply Safe.bind
    apply safe_resolveSecret
    intro s2 _ _
    exact h s2 _ _ _ fun _ => ⟨href, hversion, rfl⟩

theorem safe_createAccount (spec : AccountSpec) :
    SafeOp C K resolve i (fun _ _ => True) (createAccount C spec) s := by
  apply Safe.bind
  apply safe_context
  intro s1 _ _ s2 _ _
  refine ⟨trivial, ?_⟩
  rintro (e | generation) s3 _ _
  · trivial
  · apply Safe.bind
    apply Safe.ofExcept
    intro method hmethod
    apply Safe.bind
    apply safe_accountID
    intro s4 id s5 _ _
    refine ⟨trivial, ?_⟩
    intro answer s6 _ _
    cases answer with
    | error e => trivial
    | ok read =>
      apply Safe.bind
      apply safe_accountServerSecret
      intro s7 serverRef serverVersion serverPSK hserver
      apply Safe.bind
      apply safe_rotateVault
      intro s8 secret _ _ href hversion
      apply Safe.bind
      apply safe_resolveSecret
      intro s9 _ _
      apply Safe.bind
      apply Safe.ofExcept
      intro engine hengine
      apply Safe.bind
      apply Safe.ofExcept
      intro client _ s10 _ _
      refine ⟨⟨href, hversion, method, hmethod, ?_⟩, ?_⟩
      · intro h2022
        obtain ⟨hsref, hsversion, rfl⟩ := hserver h2022
        exact ⟨hsref, hsversion, hengine⟩
      · intro answer s11 _ _
        cases answer with
        | error e => trivial
        | ok user =>
          apply Safe.bind
          apply safe_audit
          intro _ _ _
          trivial

/-- Every operation makes its calls under their preconditions. -/
theorem safe_program (request : Request) :
    SafeOp C K resolve i (fun _ _ => True) (request.program C) s := by
  cases request with
  | rotate userID expectedVersion => exact safe_rotate K i s userID expectedVersion
  | rotateServerPSK expectedVersion => exact safe_rotateServerPSK K i s expectedVersion
  | setAccountEnabled userID enabled => exact safe_setAccountEnabled K i s userID enabled
  | createAccount spec => exact safe_createAccount K i s spec
  | disable =>
    intro s' _ _
    exact ⟨trivial, fun _ _ _ _ => trivial⟩

end Operations

/-! ## Every run -/

abbrev ServiceSystem : Type := System Answer Request Err Reply State

variable (C K resolve) in
/-- The steps of a service: an operation starts, takes its next section or returns. -/
abbrev Step : ServiceSystem → Label Answer Request → ServiceSystem → Prop :=
  System.Step (Request.program C) (respond C K resolve)

variable (C K resolve) in
/-- A service that has just been initialized. -/
def Fresh (s : ServiceSystem) : Prop :=
  (∃ c, newService C K resolve c = .ok s.shared) ∧ s.threads = []

variable (C resolve) in
/-- The materials of the enabled users suit the server secrets of their listeners. -/
def Suited (s : State) : Prop :=
  ∀ l ∈ s.configuration.listeners, ss2022Method l.method = true → l.HasServerSecret →
    ∀ u ∈ l.users, u.enabled = true →
      Suits C l.method (resolve u.secretRef u.secretVersion)
        (resolve l.serverSecretRef l.serverSecretVersion)

variable (C resolve) in
/-- A section that installs an engine finds what its operation read unchanged. -/
def InForce (s : ServiceSystem) : Label Answer Request → Prop
  | .act _ event => Undisturbed C resolve s.shared event.1
  | _ => True

/-- `Initialize` gives every enabled user an engine that matches. -/
theorem inv_newService {c : Configuration} {s : State} (h : newService C K resolve c = .ok s)
    (hsuited : Suited C resolve s) : Inv C resolve s := by
  obtain ⟨_, hvalid, h⟩ := bind_eq_ok.mp h
  obtain ⟨engines, hengines, h⟩ := bind_eq_ok.mp h
  cases h
  have hwf := (Quiet.clone c).wellFormed (wellFormed_of_validate hvalid)
  refine ⟨hwf, foldlM_ok ?_ (fun _ _ _ _ _ h => by cases h) hengines⟩
  -- one listener, then one of its users
  intro before l after hl hbefore hafter
  refine foldlM_ok ?_ hbefore hafter
  intro before u after hu hbefore hafter
  unfold startUser at hafter
  by_cases henabled : u.enabled = true
  case neg =>
    rw [if_pos (by simpa using henabled)] at hafter
    cases hafter
    exact hbefore
  rw [if_neg (by simpa using henabled)] at hafter
  obtain ⟨engine, hengine, hafter⟩ := bind_eq_ok.mp hafter
  cases hafter
  intro l' hl' u' hu' e he
  by_cases hid : u'.id = u.id
  · obtain ⟨rfl, rfl⟩ := hwf.unique hl' hl hu' hu hid
    rw [Function.update_self] at he
    cases he
    refine matches_of_engineFromMaterial hengine ?_
    intro h2022 hhas
    rw [if_pos hhas]
    exact ⟨rfl, hsuited l' hl' h2022 hhas u' hu' henabled⟩
  · rw [Function.update_of_ne hid] at he
    exact hbefore l' hl' u' hu' e he

/-- In every run whose installing sections find the secrets unchanged, every installed
engine of a 2022 user holds the mapped key of the user's secret in force and, when the
listener has a server secret, the mapped key of that as identity key. -/
theorem engines_consistent {s : ServiceSystem}
    (h : Reachable (fun s => Fresh C K resolve s ∧ Suited C resolve s.shared)
      (Guarded (Step C K resolve) (InForce C resolve)) s) :
    Consistent C resolve s.shared.configuration.listeners s.shared.engines := by
  have hsafe := System.safe_of_reachable (fun _ _ => True) Rely.refl (fun _ _ _ _ => Rely.trans)
    (fun s hs => ⟨inv_newService hs.1.1.choose_spec hs.2, hs.1.2, fun _ => trivial⟩)
    (fun _ _ _ _ h => h) (fun i s request _ _ => safe_program K i s request)
    (fun _ _ _ _ _ _ h => h)
    (fun s i c answer shared hinv hok hpre hresp => step_keeps hinv hok hpre hresp) h
  exact hsafe.1.consistent

/-! ## A stale engine -/

/-- An SDK without objections. -/
def sampleSDK : PluginSDK where
  endpointValid _ _ := true
  identityValid _ := true
  classificationValid _ := true

/-- A secret is the text of its reference and version. -/
def sampleResolve (ref version : Bytes) : Bytes := ref ++ ch '@' :: version

def sampleUser (version : Bytes) : User :=
  ⟨ascii "u", ascii "u", ascii "user", version, true⟩

def sampleListener (serverVersion userVersion : Bytes) : ListenRule :=
  ⟨ascii "l", ascii "a", 8388, defaultSS2022Method, ascii "server", serverVersion,
    [sampleUser userVersion]⟩

def sampleConfiguration (serverVersion userVersion : Bytes) : Configuration :=
  ⟨[], [], [sampleListener serverVersion userVersion], ⟨[], [], some .direct, []⟩⟩

def sampleKeys (serverVersion userVersion : Bytes) : ProtocolEngine where
  method := .blake3Aes128Gcm
  key := psk .transparent .blake3Aes128Gcm (sampleResolve (ascii "user") userVersion)
  identity := psk .transparent .blake3Aes128Gcm (sampleResolve (ascii "server") serverVersion)
  dead := false

/-- The sample service when it has been initialized. -/
def sampleState : State where
  configuration := sampleConfiguration (ascii "v1") (ascii "v1")
  engines := Function.update (fun _ => none) (ascii "u") (some (sampleKeys (ascii "v1") (ascii "v1")))
  live := true
  gate := none

/-- The server's secret after a rotation. -/
def rotatedServer : SecretOnce := ⟨ascii "server", ascii "v2", []⟩

def sampleReplacements : List (Bytes × ProtocolEngine) :=
  [(ascii "u", sampleKeys (ascii "v2") (ascii "v1"))]

/-- The sample service after the rotation of the server key. -/
def sampleRekeyed : State :=
  (serverInstall { sampleState with gate := some 1 } (ascii "l") (ascii "v1") rotatedServer
    sampleReplacements).2

theorem sample_suited : Suited .transparent sampleResolve sampleState := by
  intro l hl _ _ u hu _
  obtain rfl : l = sampleListener (ascii "v1") (ascii "v1") := List.mem_singleton.mp hl
  obtain rfl : u = sampleUser (ascii "v1") := List.mem_singleton.mp hu
  unfold Suits
  show sampleResolve _ _ ≠ []
  simp [sampleResolve]

/-- Surroundings in which every secret resolves and the vault issues second versions. -/
def sampleBehave (i : Nat) (s : State) : (c : Call) → Answer c × State
  | .resolve ref version => (.ok (sampleResolve ref version), s)
  | .vault _ ref .. => (.ok ⟨ref, ascii "v2", []⟩, s)
  | .context | .audit .. => (.ok (), s)
  | .rotateRead userID => ((s.configuration.generation, s.configuration.userListener userID), s)
  | .rotateInstall userID read secret material serverPSK =>
    rotateInstall .transparent s userID read.2 secret material serverPSK
  | .serverRead expectedVersion => (serverRead s expectedVersion, s)
  | .serverCollect listenerID expectedVersion _ serverPSK =>
    let answer := serverCollect .transparent s listenerID expectedVersion serverPSK
    (answer, { s with gate := if answer.isOk then some i else none })
  | .serverInstall listenerID expectedVersion secret replacements =>
    serverInstall s listenerID expectedVersion secret replacements
  | .newAccountID | .enableRead .. | .enableInstall .. | .createRead | .createEnsure _
  | .createInstall .. => (.error .denied, s)
  | .disableStale .. | .disable => ((), s)

/-- The calls of `RotateServerPSK`, and those of `Rotate` before it installs an engine. -/
def sampleMay (s : ServiceSystem) : Label Answer Request → Prop
  | .start _ | .ret _ => True
  | .act i event =>
    match event.1 with
    | .resolve .. | .vault .. | .context | .rotateRead _ | .serverRead _ => True
    | .serverCollect .. => s.shared.gate = none
    | .serverInstall .. => s.shared.gate = some i
    | _ => False

instance (s : ServiceSystem) (l : Label Answer Request) : Decidable (sampleMay s l) := by
  unfold sampleMay
  repeat' split
  all_goals infer_instance

theorem sampleMay_inForce (s : ServiceSystem) (l : Label Answer Request) (h : sampleMay s l) :
    InForce .transparent sampleResolve s l := by
  unfold sampleMay at h
  split at h
  · trivial
  · trivial
  · rename_i event
    obtain ⟨c, answer⟩ := event
    cases c <;> trivial

theorem respond_sampleBehave (s : ServiceSystem) (i : Nat) (c : Call)
    (h : sampleMay s (.act i ⟨c, (sampleBehave i s.shared c).1⟩)) :
    respond .transparent sampleSDK sampleResolve i s.shared c (sampleBehave i s.shared c).1
      (sampleBehave i s.shared c).2 := by
  cases c with
  | resolve ref version => exact ⟨.inl rfl, rfl⟩
  | vault | context => rfl
  | rotateRead | serverRead => exact ⟨rfl, rfl⟩
  | serverCollect listenerID expectedVersion secret serverPSK => exact ⟨h, rfl, rfl⟩
  | serverInstall listenerID expectedVersion secret replacements => exact ⟨h, rfl⟩
  | _ => exact h.elim

/-- `Rotate` has resolved everything, then `RotateServerPSK` runs to its end. -/
def sampleRun : ServiceSystem :=
  System.runSchedule sampleBehave (System.withRequests (Request.program .transparent) ⟨sampleState, []⟩
    [.rotate (ascii "u") (ascii "v1"), .rotateServerPSK (ascii "v1")]) [0, 0, 0, 0, 1, 1, 1, 1, 1, 1]

theorem sampleRun_reachable : Reachable (fun s => Fresh .transparent sampleSDK sampleResolve s ∧
      Suited .transparent sampleResolve s.shared)
    (Guarded (Step .transparent sampleSDK sampleResolve) (InForce .transparent sampleResolve))
    sampleRun := by
  have h0 : Reachable (fun s => Fresh .transparent sampleSDK sampleResolve s ∧
      Suited .transparent sampleResolve s.shared)
      (Guarded (Step .transparent sampleSDK sampleResolve) (InForce .transparent sampleResolve))
      ⟨sampleState, []⟩ :=
    .start ⟨⟨⟨sampleConfiguration (ascii "v1") (ascii "v1"), rfl⟩, rfl⟩, sample_suited⟩
  have h1 := System.reachable_start _ _ h0 (.rotate (ascii "u") (ascii "v1")) trivial
  have h2 := System.reachable_start _ _ h1 (.rotateServerPSK (ascii "v1")) trivial
  exact System.reachable_meets sampleMay_inForce respond_sampleBehave h2 (by decide)

/-- The theorem at the sample run: the engine has the new server key. -/
theorem engines_consistent_rekeyed :
    Consistent .transparent sampleResolve sampleRekeyed.configuration.listeners
      sampleRekeyed.engines :=
  engines_consistent sampleRun_reachable

/-- In the sample run `Rotate` installs an engine with the old server key. -/
theorem stale_engine : ∃ s : ServiceSystem,
    Reachable (fun s => Fresh .transparent sampleSDK sampleResolve s ∧
      Suited .transparent sampleResolve s.shared) (Step .transparent sampleSDK sampleResolve) s ∧
    ¬ Consistent .transparent sampleResolve s.shared.configuration.listeners s.shared.engines := by
  let stale := System.turn sampleBehave sampleRun 0
  have hgate : sampleRun.shared.gate = none := by
    decide
  have hstale : Reachable (fun s => Fresh .transparent sampleSDK sampleResolve s ∧
      Suited .transparent sampleResolve s.shared) (Step .transparent sampleSDK sampleResolve)
      stale := by
    refine (System.reachable_turn sampleRun_reachable.of_guarded.guarded_true (fun c hc => ?_)
      fun _ _ => trivial).of_guarded
    cases hc
    exact ⟨hgate, rfl⟩
  have hengine : stale.shared.engines (ascii "u") =
      some (sampleKeys (ascii "v1") (ascii "v2")) := by
    decide
  have hne : (sampleKeys (ascii "v1") (ascii "v2")).identity ≠
      psk .transparent .blake3Aes128Gcm (sampleResolve (ascii "server") (ascii "v2")) := by
    decide
  refine ⟨stale, hstale, fun hconsistent => ?_⟩
  obtain ⟨-, -, hidentity⟩ := hconsistent _ List.mem_cons_self (sampleUser (ascii "v2"))
    List.mem_cons_self _ hengine (by decide)
  exact hne (hidentity (by decide))

end NrePlugins.Shadowsocks.Service
