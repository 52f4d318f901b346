import Nre.Shadowsocks.Panel

/-!
# The shape of a panel request

Every handler takes one snapshot, makes one write before it can succeed, and after the
write depends on no later snapshot except for the question whether the entry it reports
on is still there.

- `Waiting`, `Fresh`, `Held`, `Failing`: the shape of what a handler still has to do,
  before the snapshot, before the write, after it, and once it can only fail;
- `HostClosed.bind`, `fresh_commitAndApply`, `held_finishSecretReplacement`: the rules by
  which `Request.waiting` goes through the handlers, line by line;
- `Waiting.alone`: a request that succeeded among others succeeds alone.
-/

namespace NrePlugins.Shadowsocks.Panel

open NrePlugins.Prog (ofExcept fail attempt)
open Shadowsocks.Configuration

/-! ## The shared directory -/

/-- The two copies of the directory: the controller's and, when a service is
published, the service's. -/
structure Store where
  configuration : Configuration
  published : Option Configuration

/-- `Controller.directory`. -/
def Store.directory (s : Store) : Configuration := (s.published.getD s.configuration).clone

/-- Both copies written. -/
def Store.write (s : Store) (next : Configuration) : Store :=
  ⟨next.clone, s.published.map fun _ => next.clone⟩

theorem Store.directory_write (s : Store) (next : Configuration) :
    (s.write next).directory = next.clone := by
  unfold Store.directory Store.write
  cases s.published with
  | none | some => exact next.clone_clone

/-- How the shared state answers. A published service that is no longer live refuses
the write, after the controller has changed its own copy. -/
inductive Respond : Store → (c : Call) → Answer c → Store → Prop
  | directory {s : Store} : Respond s .directory s.directory s
  | written {s : Store} {next : Configuration} : Respond s (.write next) (.ok ()) (s.write next)
  | revoked {s : Store} {next service : Configuration} : s.published = some service →
      Respond s (.write next) (.error .revoked) { s with configuration := next.clone }
  | host {s : Store} {c : Call} {answer : Answer c} : c.host = true → Respond s c answer s

/-- The snapshot an event took. -/
def readOf : Event Answer → Option Configuration
  | ⟨.directory, c⟩ => some c
  | _ => none

/-- The directory an event wrote. -/
def writeOf : Event Answer → Option Configuration
  | ⟨.write next, .ok ()⟩ => some next
  | _ => none

def firstRead (events : List (Event Answer)) : Option Configuration := events.findSome? readOf

def writes (events : List (Event Answer)) : List Configuration := events.filterMap writeOf

/-- The events that are not snapshots: what the host answered. -/
def answers (events : List (Event Answer)) : List (Event Answer) :=
  events.filter fun e => (readOf e).isNone

theorem readOf_host {c : Call} (h : c.host = true) (answer : Answer c) :
    readOf ⟨c, answer⟩ = none := by
  cases c with
  | directory => cases h
  | _ => rfl

theorem writeOf_host {c : Call} (h : c.host = true) (answer : Answer c) :
    writeOf ⟨c, answer⟩ = none := by
  cases c with
  | write => cases h
  | _ => rfl

/-! ## The shape of a handler -/

/-- Only host calls. -/
def HostOnly {α : Type} : Handler α → Prop
  | .ret _ | .fail _ => True
  | .call c next => c.host = true ∧ ∀ answer, HostOnly (next answer)

/-- No success any more. -/
def Failing : Handler Unit → Prop
  | .ret _ => False
  | .fail _ => True
  | .call _ next => ∀ answer, Failing (next answer)

/-- After the write of `written`: a further write only on the way to an error, and a
further snapshot only to look for what the written directory has. -/
def Held (written : Configuration) : Handler Unit → Prop
  | .ret _ | .fail _ => True
  | .call .directory next =>
    (∀ c, next c = .ret () ∨ ∃ e, next c = .fail e) ∧ next written.clone = .ret ()
  | .call (.write _) next => ∀ answer, Failing (next answer)
  | .call _ next => ∀ answer, Held written (next answer)

/-- After the snapshot and before the write. -/
def Fresh : Handler Unit → Prop
  | .ret _ | .call .directory _ => False
  | .fail _ => True
  | .call (.write next) rest => Held next (rest (.ok ())) ∧ ∀ e, Failing (rest (.error e))
  | .call _ next => ∀ answer, Fresh (next answer)

/-- Before the snapshot. -/
def Waiting : Handler Unit → Prop
  | .ret _ | .call (.write _) _ => False
  | .fail _ => True
  | .call .directory next => ∀ c, Fresh (next c)
  | .call _ next => ∀ answer, Waiting (next answer)

/-- A shape that host calls and errors before it do not change. -/
structure HostClosed (P : Handler Unit → Prop) : Prop where
  fail : ∀ e, P (.fail e)
  call : ∀ (c : Call) (next : Answer c → Handler Unit), c.host = true →
    (∀ answer, P (next answer)) → P (.call c next)

theorem failing_closed : HostClosed Failing := by
  constructor
  · intro e
    trivial
  · intro c next _ h
    exact h

theorem held_closed (written : Configuration) : HostClosed (Held written) := by
  constructor
  · intro e
    trivial
  · intro c next hc h
    cases c with
    | directory | write => cases hc
    | _ => exact h

theorem fresh_closed : HostClosed Fresh := by
  constructor
  · intro e
    trivial
  · intro c next hc h
    cases c with
    | directory | write => cases hc
    | _ => exact h

theorem waiting_closed : HostClosed Waiting := by
  constructor
  · intro e
    trivial
  · intro c next hc h
    cases c with
    | directory | write => cases hc
    | _ => exact h

section Rules

variable {α β : Type} {P : Handler Unit → Prop} {x : Handler α} {f : α → Handler Unit}

/-- A part that only talks to the host may come first. -/
theorem HostClosed.bind (hP : HostClosed P) (hx : HostOnly x) (hf : ∀ a, P (f a)) :
    P (x >>= f) := by
  induction x with
  | ret a => exact hf a
  | fail e => exact hP.fail e
  | call c next ih =>
    obtain ⟨hc, hnext⟩ := hx
    exact hP.call c _ hc fun answer => ih answer (hnext answer)

/-- What is computed without a call may come first. -/
theorem HostClosed.ofExcept (hP : HostClosed P) {r : Except Err α} (hf : ∀ a, r = .ok a → P (f a)) :
    P (ofExcept r >>= f) := by
  cases r with
  | error e => exact hP.fail e
  | ok a => exact hf a rfl

/-- Host calls alone keep a write in place. -/
theorem held_of_hostOnly {written : Configuration} {x : Handler Unit} (hx : HostOnly x) :
    Held written x := by
  rw [← Prog.bind_pure x]
  exact (held_closed written).bind hx fun _ => trivial

theorem hostOnly_bind {f : α → Handler β} (hx : HostOnly x) (hf : ∀ a, HostOnly (f a)) :
    HostOnly (x >>= f) := by
  induction x with
  | ret a => exact hf a
  | fail e => trivial
  | call c next ih =>
    obtain ⟨hc, hnext⟩ := hx
    exact ⟨hc, fun answer => ih answer (hnext answer)⟩

theorem hostOnly_ofExcept (r : Except Err α) : HostOnly (ofExcept r : Handler α) := by
  cases r with
  | error | ok => trivial

theorem hostOnly_attempt (hx : HostOnly x) : HostOnly (attempt x) := by
  induction x with
  | ret | fail => trivial
  | call c next ih =>
    obtain ⟨hc, hnext⟩ := hx
    exact ⟨hc, fun answer => ih answer (hnext answer)⟩

/-- Whatever comes before an error, the whole fails. -/
theorem failing_bind (hf : ∀ a, Failing (f a)) : Failing (x >>= f) := by
  induction x with
  | ret a => exact hf a
  | fail e => trivial
  | call c next ih => exact fun answer => ih answer

end Rules

/-! ### The steps the handlers share -/

variable {agentID : Bytes}

/-- A single host call. -/
theorem hostOnly_call {α : Type} {c : Call} {f : Answer c → Except Err α} (hc : c.host = true) :
    HostOnly (.call c fun answer => ofExcept (f answer) : Handler α) :=
  ⟨hc, fun answer => hostOnly_ofExcept (f answer)⟩

theorem hostOnly_requireMutableAgent : HostOnly (requireMutableAgent agentID) := by
  unfold requireMutableAgent
  split
  · trivial
  · refine ⟨rfl, ?_⟩
    rintro (e | online)
    · cases e <;> trivial
    · cases online <;> trivial

theorem hostOnly_applyAgentListens : HostOnly (applyAgentListens agentID) :=
  hostOnly_bind hostOnly_requireMutableAgent fun _ => hostOnly_call rfl

theorem hostOnly_requestAgent {listener : ListenRule} :
    HostOnly (requestAgent agentID listener) := by
  fun_cases requestAgent agentID listener <;> trivial

theorem hostOnly_putSecret {ref version material : Bytes} :
    HostOnly (putSecret ref version material) := by
  unfold putSecret
  split
  · trivial
  · exact hostOnly_call rfl

theorem hostOnly_revokeReferences {reference : Reference} : HostOnly (revokeReferences reference) :=
  hostOnly_bind (hostOnly_attempt (hostOnly_call rfl)) fun _ => trivial

theorem hostOnly_revokeUsers {users : List User} : HostOnly (revokeUsers users) := by
  induction users with
  | nil => trivial
  | cons user rest ih => exact hostOnly_bind (hostOnly_call rfl) fun _ => ih

theorem hostOnly_putServerSecret {method ref version material : Bytes} :
    HostOnly (putServerSecret method ref version material) := by
  unfold putServerSecret
  split
  · exact hostOnly_putSecret
  · trivial

section Commit

variable {ctl : Controller} {next written : Configuration} {f : Except Err Unit → Handler Unit}
  {g : Unit → Handler Unit}

/-- A commit is the write, with host calls and errors before it. -/
theorem HostClosed.commit {P : Handler Unit → Prop} (hP : HostClosed P)
    (hwrite : P (attempt (write next) >>= f)) (herr : ∀ e, P (f (.error e))) :
    P (attempt (commitDirectory ctl next) >>= f) := by
  unfold commitDirectory
  cases next.validate ctl.sdk with
  | error e => exact herr e
  | ok _ =>
    cases ctl.persistent with
    | false => exact hwrite
    | true =>
      refine hP.call _ _ rfl ?_
      rintro (e | _)
      · exact herr e
      · exact hwrite

/-- A commit attempted before any write. -/
theorem fresh_commit (hok : Held next (f (.ok ())))
    (herr : ∀ e, Fresh (f (.error e)) ∧ Failing (f (.error e))) :
    Fresh (attempt (commitDirectory ctl next) >>= f) :=
  fresh_closed.commit ⟨hok, fun e => (herr e).2⟩ fun e => (herr e).1

/-- A commit attempted after the write, on the way to an error. -/
theorem held_commit (herr : ∀ e, Held written (f (.error e))) (hfail : ∀ r, Failing (f r)) :
    Held written (attempt (commitDirectory ctl next) >>= f) := by
  refine (held_closed written).commit ?_ herr
  rintro (e | _)
  · exact hfail (.error e)
  · exact hfail (.ok ())

/-- What a failed request does last. -/
theorem closed_cleanup {P : Handler Unit → Prop} (hP : HostClosed P) {cleanup : Handler Unit}
    (hcleanup : HostOnly cleanup) (e : Err) : P (cleanup >>= fun _ => fail e) :=
  hP.bind hcleanup fun _ => hP.fail e

theorem fresh_commitAndApply {current : Configuration} {cleanup : Handler Unit}
    (hcleanup : HostOnly cleanup) (hg : Held next (g ())) :
    Fresh (commitAndApply ctl current next agentID cleanup >>= g) := by
  unfold commitAndApply
  rw [Prog.bind_assoc]
  refine fresh_commit ?_ ?_
  · -- the commit stands: the agent may refuse it, and then it is taken back
    rw [Prog.bind_assoc]
    refine (held_closed next).bind (hostOnly_attempt hostOnly_applyAgentListens) ?_
    rintro (e | _)
    · rw [Prog.bind_assoc]
      refine held_commit ?_ ?_
      · intro e'
        rw [Prog.bind_assoc]
        exact closed_cleanup (held_closed next) hcleanup e
      · intro r
        rw [Prog.bind_assoc]
        exact closed_cleanup failing_closed hcleanup e
    · exact hg
  · intro e
    rw [Prog.bind_assoc]
    exact ⟨closed_cleanup fresh_closed hcleanup e, closed_cleanup failing_closed hcleanup e⟩

theorem held_finishSecretReplacement {previous : Configuration}
    {oldReference newReference : Reference} (hg : Held written (g ())) :
    Held written (finishSecretReplacement ctl agentID previous next oldReference newReference >>=
      g) := by
  unfold finishSecretReplacement
  rw [Prog.bind_assoc]
  refine (held_closed written).bind (hostOnly_attempt (hostOnly_call rfl)) ?_
  rintro (e | _)
  · -- the old secret stays: back to the old directory, and an error in any case
    rw [Prog.bind_assoc]
    refine held_commit ?_ ?_
    · intro e'
      rw [Prog.bind_assoc]
      exact held_commit (fun _ => trivial) fun _ => trivial
    · intro r
      cases r with
      | error e' =>
        rw [Prog.bind_assoc]
        exact failing_bind fun _ => trivial
      | ok _ =>
        rw [Prog.bind_assoc]
        refine failing_bind ?_
        intro r
        cases r with
        | error | ok =>
          rw [Prog.bind_assoc]
          exact failing_bind fun _ => trivial
  · exact hg

theorem held_projectListen {id : Bytes} (h : written.HasListen id) :
    Held written (projectListen id) := by
  constructor
  · intro c
    by_cases hsome : (c.listen id).isSome = true
    · exact .inl (if_pos hsome)
    · exact .inr ⟨.denied, if_neg hsome⟩
  · exact if_pos (listen_isSome_iff.mpr (hasListen_clone.mpr h))

theorem held_projectUser {id : Bytes} (h : written.HasUser id) : Held written (projectUser id) := by
  constructor
  · intro c
    by_cases hsome : (c.userListener id).isSome = true
    · exact .inl (if_pos hsome)
    · exact .inr ⟨.denied, if_neg hsome⟩
  · exact if_pos (userListener_isSome_iff.mpr (hasUser_clone.mpr h))

end Commit

/-! ### What the handlers look for at the end -/

variable {c next : Configuration} {id : Bytes} {user : User} {p : Handler Unit}
  {events : List (Event Answer)}

theorem hasListen_mapListen (h : c.HasListen id) (id' : Bytes) {f : ListenRule → ListenRule}
    (hf : ∀ listener, (f listener).id = listener.id) :
    (mapListen c id' f).HasListen id := by
  obtain ⟨listener, hmem, hid⟩ := h
  refine ⟨_, List.mem_map.mpr ⟨listener, hmem, rfl⟩, ?_⟩
  split_ifs
  · rw [hf]
    exact hid
  · exact hid

theorem hasListen_storedServerVersion (h : c.HasListen id) {method id' version : Bytes} :
    (storedServerVersion c method id' version).HasListen id := by
  unfold storedServerVersion
  split_ifs
  · exact hasListen_mapListen h id' fun _ => rfl
  · exact h

variable {old ref version : Bytes} {listener : ListenRule} {listenID : Bytes} {K : PluginSDK}

/-- A successful `ReplaceUserSecret` found the user and changed it in place. -/
theorem replaceUserSecret_eq (h : c.replaceUserSecret id old ref version = .ok next) :
    c.clone.HasUser id ∧ next = c.clone.updateUser id fun user =>
      { user with secretRef := ref, secretVersion := version } := by
  unfold replaceUserSecret at h
  cases hfound : c.clone.userListener id with
  | none => simp [hfound] at h
  | some found =>
    have huser : c.clone.HasUser id :=
      userListener_isSome_iff.mp (by rw [hfound]; rfl)
    simp only [hfound] at h
    split_ifs at h
    cases h
    exact ⟨huser, rfl⟩

theorem hasListen_replaceUserSecret {userID : Bytes} (h : c.HasListen id)
    (hnext : c.replaceUserSecret userID old ref version = .ok next) :
    next.HasListen id := by
  obtain ⟨-, rfl⟩ := replaceUserSecret_eq hnext
  exact (hasListen_clone.mpr h).updateUser userID _

theorem hasUser_replaceUserSecret (hnext : c.replaceUserSecret id old ref version = .ok next) :
    next.HasUser id := by
  obtain ⟨huser, rfl⟩ := replaceUserSecret_eq hnext
  exact huser.updateUser id fun _ => rfl

theorem hasListen_storedVersion (h : c.HasListen id)
    (hnext : storedVersion c user version = .ok next) :
    next.HasListen id := by
  unfold storedVersion at hnext
  split_ifs at hnext
  · exact hasListen_replaceUserSecret h hnext
  · cases hnext
    exact h

/-- The user that `userListener` finds is the one asked for. -/
theorem userListener_id (h : c.userListener id = some (listener, user)) : user.id = id := by
  simp only [userListener, Option.bind_eq_bind, Option.bind_eq_some_iff] at h
  obtain ⟨found, -, user', huser, heq⟩ := h
  cases heq
  simpa [User.is] using List.find?_some huser

theorem newListener_id {method serverRef serverVersion : Bytes} {port : Int}
    (h : newListener listenID agentID port method user serverRef serverVersion =
      .ok listener) : listener.id = listenID := by
  unfold newListener at h
  split_ifs at h <;> cases h <;> rfl

theorem hasListen_addListener (h : c.addListener K listener = .ok next) :
    next.HasListen listener.id := by
  unfold addListener at h
  simp only [] at h
  split at h
  · split_ifs at h
  · cases h
    exact ⟨listener, List.mem_append_right _ List.mem_cons_self, rfl⟩

theorem hasListen_createListen {created : Configuration × User}
    {method serverRef serverVersion : Bytes} {port : Int}
    (h : c.createListen K listenID agentID port method user serverRef serverVersion = .ok created) :
    created.1.HasListen listenID := by
  obtain ⟨-, h⟩ := ite_error_eq_ok.mp h
  obtain ⟨method, -, h⟩ := bind_eq_ok.mp h
  obtain ⟨port, -, h⟩ := bind_eq_ok.mp h
  obtain ⟨-, h⟩ := ite_error_eq_ok.mp h
  obtain ⟨-, h⟩ := ite_error_eq_ok.mp h
  obtain ⟨-, h⟩ := ite_error_eq_ok.mp h
  obtain ⟨_, -, h⟩ := bind_eq_ok.mp h
  obtain ⟨-, h⟩ := ite_error_eq_ok.mp h
  obtain ⟨listener, hlistener, h⟩ := bind_eq_ok.mp h
  obtain ⟨next, hnext, h⟩ := bind_eq_ok.mp h
  cases h
  rw [← newListener_id hlistener]
  exact hasListen_addListener hnext

theorem hasListen_addListenUser (hlisten : c.HasListen id)
    (h : c.addListenUser K listenID user = .ok next) :
    next.HasListen id := by
  obtain ⟨_, -, h⟩ := bind_eq_ok.mp h
  cases h
  refine exists_mem_updateFirst ?_ hlisten
  intro listener hid
  exact hid

theorem hasListen_appendListenUser {appended : Configuration × User}
    (h : c.appendListenUser K listenID user = .ok appended) : appended.1.HasListen listenID := by
  unfold Configuration.appendListenUser at h
  cases hfound : c.clone.listen listenID with
  | none => simp [hfound] at h
  | some listener =>
    have hlisten : c.clone.HasListen listenID :=
      listen_isSome_iff.mp (by rw [hfound]; rfl)
    simp only [hfound] at h
    obtain ⟨-, h⟩ := ite_error_eq_ok.mp h
    obtain ⟨_, -, h⟩ := bind_eq_ok.mp h
    obtain ⟨-, h⟩ := ite_error_eq_ok.mp h
    obtain ⟨-, h⟩ := ite_error_eq_ok.mp h
    obtain ⟨next, hnext, h⟩ := bind_eq_ok.mp h
    cases h
    exact hasListen_addListenUser hlisten hnext

/-! ### Every request has the shape -/

section Requests

variable {ctl : Controller} {name method password serverPSK userID : Bytes} {port : Int}
  {enabled : Bool}

theorem waiting_directory {f : Configuration → Handler Unit} (h : ∀ current, Fresh (f current)) :
    Waiting (directory >>= f) :=
  h

/-- The Agent that is asked for, where it takes changes. -/
theorem fresh_mutable {f : Bytes → Handler Unit} (h : ∀ agentID, Fresh (f agentID)) :
    Fresh (do let agentID ← requestAgent agentID listener; requireMutableAgent agentID; f agentID) :=
  fresh_closed.bind hostOnly_requestAgent fun _ =>
    fresh_closed.bind hostOnly_requireMutableAgent fun _ => h _

theorem waiting_createListen :
    Waiting (createListen ctl agentID name method port password serverPSK) := by
  refine waiting_closed.bind hostOnly_requireMutableAgent fun _ => ?_
  refine waiting_closed.ofExcept fun method _ => ?_
  refine waiting_closed.bind (hostOnly_call rfl) fun userID => ?_
  refine waiting_closed.bind (hostOnly_call rfl) fun material => ?_
  refine waiting_directory fun current => ?_
  refine fresh_closed.bind (hostOnly_call rfl) fun listenID => ?_
  refine fresh_closed.ofExcept fun created hcreated => ?_
  refine fresh_closed.bind hostOnly_putSecret fun userVersion => ?_
  refine fresh_closed.ofExcept fun next hnext => ?_
  refine fresh_closed.bind hostOnly_putServerSecret fun serverVersion => ?_
  refine fresh_commitAndApply trivial (held_projectListen ?_)
  have hlisten := hasListen_storedVersion (hasListen_createListen hcreated) hnext
  exact hasListen_storedServerVersion hlisten

theorem waiting_appendListenUser :
    Waiting (appendListenUser ctl listenID agentID name password) := by
  refine waiting_directory fun current => ?_
  cases current.listen listenID with
  | none => trivial
  | some listener =>
    refine fresh_mutable fun agentID => ?_
    split
    · trivial
    · refine fresh_closed.bind (hostOnly_call rfl) fun userID => ?_
      refine fresh_closed.bind (hostOnly_call rfl) fun serverPSK => ?_
      refine fresh_closed.bind (hostOnly_call rfl) fun material => ?_
      refine fresh_closed.ofExcept fun appended happended => ?_
      refine fresh_closed.bind hostOnly_putSecret fun userVersion => ?_
      refine fresh_closed.ofExcept fun next hnext => ?_
      refine fresh_commitAndApply trivial (held_projectListen ?_)
      exact hasListen_storedVersion (hasListen_appendListenUser happended) hnext

theorem waiting_setUserEnabled : Waiting (setUserEnabled ctl userID agentID enabled) := by
  refine waiting_directory fun current => ?_
  cases current.userListener userID with
  | none => trivial
  | some found =>
    refine fresh_mutable fun agentID => ?_
    refine fresh_closed.ofExcept fun next _ => ?_
    rw [← Prog.bind_pure (commitAndApply ctl current next agentID (pure ()))]
    exact fresh_commitAndApply trivial trivial

theorem waiting_deleteUser : Waiting (deleteUser ctl userID agentID) := by
  refine waiting_directory fun current => ?_
  cases current.userListener userID with
  | none => trivial
  | some found =>
    refine fresh_mutable fun agentID => ?_
    refine fresh_closed.ofExcept fun next _ => ?_
    refine fresh_commitAndApply trivial (held_of_hostOnly ?_)
    split
    · exact hostOnly_call rfl
    · trivial

theorem waiting_deleteListen : Waiting (deleteListen ctl listenID agentID) := by
  refine waiting_directory fun current => ?_
  cases current.listen listenID with
  | none => trivial
  | some listener =>
    refine fresh_mutable fun agentID => ?_
    refine fresh_closed.ofExcept fun next _ => ?_
    refine fresh_commitAndApply trivial (held_of_hostOnly ?_)
    split
    · refine hostOnly_bind hostOnly_revokeUsers fun _ => ?_
      split
      · exact hostOnly_call rfl
      · trivial
    · trivial

theorem waiting_rotateUserSecret : Waiting (rotateUserSecret ctl userID agentID) := by
  unfold rotateUserSecret
  split
  · trivial
  · refine waiting_directory fun current => ?_
    cases hfound : current.userListener userID with
    | none => trivial
    | some found =>
      obtain ⟨listener, user⟩ := found
      refine fresh_mutable fun agentID => ?_
      refine fresh_closed.bind (hostOnly_call rfl) fun reference => ?_
      cases hnext : current.replaceUserSecret user.id user.secretVersion reference.id
          reference.version with
      | error e => exact closed_cleanup fresh_closed hostOnly_revokeReferences e
      | ok next =>
        have huser : next.HasUser userID := by
          rw [← userListener_id hfound]
          exact hasUser_replaceUserSecret hnext
        exact fresh_commitAndApply hostOnly_revokeReferences
          (held_finishSecretReplacement (held_projectUser huser))

theorem waiting_rotateServerSecret : Waiting (rotateServerSecret ctl listenID agentID) := by
  unfold rotateServerSecret
  split
  · trivial
  · refine waiting_directory fun current => ?_
    cases hfound : current.listen listenID with
    | none => trivial
    | some listener =>
      have hlisten : current.HasListen listenID :=
        listen_isSome_iff.mp (by rw [hfound]; rfl)
      dsimp only
      split
      · trivial
      · refine fresh_mutable fun agentID => ?_
        refine fresh_closed.bind (hostOnly_call rfl) fun reference => ?_
        refine fresh_commitAndApply hostOnly_revokeReferences
          (held_finishSecretReplacement (held_projectListen ?_))
        exact hasListen_mapListen (hasListen_clone.mpr hlisten) _ fun _ => rfl

/-- Every request takes one snapshot and makes one write before it can succeed. -/
theorem Request.waiting (ctl : Controller) (request : Request) : Waiting (request.program ctl) := by
  cases request with
  | createListen => exact waiting_createListen
  | appendListenUser => exact waiting_appendListenUser
  | setUserEnabled => exact waiting_setUserEnabled
  | deleteUser => exact waiting_deleteUser
  | deleteListen => exact waiting_deleteListen
  | rotateUserSecret => exact waiting_rotateUserSecret
  | rotateServerSecret => exact waiting_rotateServerSecret

end Requests

/-! ## From a run among others to a run alone -/

theorem writes_cons_host {c : Call} (hc : c.host = true) (answer : Answer c)
    (events : List (Event Answer)) : writes (⟨c, answer⟩ :: events) = writes events := by
  simp [writes, writeOf_host hc]

theorem Failing.not_ret (h : Failing p) : ¬ Path p events (.ret ()) := by
  induction p generalizing events with
  | ret _ => exact h.elim
  | fail e =>
    intro hpath
    cases hpath
  | call c next ih =>
    intro hpath
    cases hpath with
    | cons hrest => exact ih _ (h _) hrest

/-- A run alone that gets the same answers from the host. -/
def RunsLike (s : Store) (p : Handler Unit) (events : List (Event Answer)) (s' : Store) : Prop :=
  ∃ events', Runs Respond s p events' s' (.ok ()) ∧ answers events' = answers events

theorem RunsLike.call {s s' s'' : Store} {c : Call} {next : Answer c → Handler Unit}
    {answer : Answer c} (hc : readOf ⟨c, answer⟩ = none) (hresp : Respond s c answer s')
    (h : RunsLike s' (next answer) events s'') :
    RunsLike s (.call c next) (⟨c, answer⟩ :: events) s'' := by
  obtain ⟨events', hruns, hsame⟩ := h
  refine ⟨⟨c, answer⟩ :: events', .call hresp hruns, ?_⟩
  unfold answers at hsame ⊢
  simp [hc, hsame]

/-- After the write, alone or not, a success needs the same answers. -/
theorem Held.alone {written : Configuration} (h : Held written p)
    (hpath : Path p events (.ret ())) :
    writes events = [] ∧ ∀ s : Store, s.directory = written.clone → RunsLike s p events s := by
  induction p generalizing events with
  | ret _ =>
    cases hpath
    exact ⟨rfl, fun s _ => ⟨[], .ret, rfl⟩⟩
  | fail e => cases hpath
  | call c next ih =>
    cases hpath with
    | @cons _ _ answer rest _ hrest =>
      cases hc : c.host with
      | true =>
        have hnext : Held written (next answer) := by
          cases c with
          | directory | write => cases hc
          | _ => exact h answer
        obtain ⟨hwrites, halone⟩ := ih answer hnext hrest
        refine ⟨(writes_cons_host hc answer rest).trans hwrites, ?_⟩
        intro s hs
        exact .call (readOf_host hc answer) (.host hc) (halone s hs)
      | false =>
        cases c with
        | directory =>
          -- the last snapshot: alone, it finds what the write has put there
          obtain ⟨hret, hown⟩ := h
          obtain rfl : rest = [] := by
            rcases hret answer with heq | ⟨e, heq⟩
            · rw [heq] at hrest
              cases hrest
              rfl
            · rw [heq] at hrest
              cases hrest
          refine ⟨rfl, ?_⟩
          intro s hs
          refine ⟨[⟨.directory, s.directory⟩], .call .directory ?_, rfl⟩
          rw [hs, hown]
          exact .ret
        | write _ => exact absurd hrest (h answer).not_ret
        | _ => cases hc

/-- Before the write a success goes through exactly one. -/
theorem Fresh.alone (h : Fresh p) (hpath : Path p events (.ret ())) :
    ∃ written, writes events = [written] ∧
      ∀ s : Store, ∃ s', RunsLike s p events s' ∧ s'.directory = written.clone := by
  induction p generalizing events with
  | ret _ => exact h.elim
  | fail e => cases hpath
  | call c next ih =>
    cases hpath with
    | @cons _ _ answer rest _ hrest =>
      cases hc : c.host with
      | true =>
        have hnext : Fresh (next answer) := by
          cases c with
          | directory | write => cases hc
          | _ => exact h answer
        obtain ⟨written, hwrites, halone⟩ := ih answer hnext hrest
        refine ⟨written, (writes_cons_host hc answer rest).trans hwrites, ?_⟩
        intro s
        obtain ⟨s', hruns, hdir⟩ := halone s
        exact ⟨s', .call (readOf_host hc answer) (.host hc) hruns, hdir⟩
      | false =>
        cases c with
        | directory => exact h.elim
        | write written =>
          obtain ⟨hheld, hfail⟩ := h
          cases answer with
          | error e => exact absurd hrest (hfail e).not_ret
          | ok _ =>
            obtain ⟨hwrites, halone⟩ := hheld.alone hrest
            refine ⟨written, ?_, ?_⟩
            · show written :: writes rest = [written]
              rw [hwrites]
            · intro s
              have hdir := s.directory_write written
              exact ⟨s.write written, .call rfl .written (halone _ hdir), hdir⟩
        | _ => cases hc

/-- A request that succeeded among others succeeds alone, from the directory it first
saw and with the same answers of the host, and leaves what it wrote. -/
theorem Waiting.alone (h : Waiting p) (hpath : Path p events (.ret ())) :
    ∃ current written, firstRead events = some current ∧ writes events = [written] ∧
      ∀ s : Store, s.directory = current →
        ∃ s', RunsLike s p events s' ∧ s'.directory = written.clone := by
  induction p generalizing events with
  | ret _ => exact h.elim
  | fail e => cases hpath
  | call c next ih =>
    cases hpath with
    | @cons _ _ answer rest _ hrest =>
      cases hc : c.host with
      | true =>
        have hnext : Waiting (next answer) := by
          cases c with
          | directory | write => cases hc
          | _ => exact h answer
        obtain ⟨current, written, hread, hwrites, halone⟩ := ih answer hnext hrest
        refine ⟨current, written, ?_, (writes_cons_host hc answer rest).trans hwrites, ?_⟩
        · unfold firstRead at hread ⊢
          rw [List.findSome?_cons, readOf_host hc]
          exact hread
        · intro s hs
          obtain ⟨s', hruns, hdir⟩ := halone s hs
          exact ⟨s', .call (readOf_host hc answer) (.host hc) hruns, hdir⟩
      | false =>
        cases c with
        | directory =>
          obtain ⟨written, hwrites, halone⟩ := (h answer).alone hrest
          refine ⟨answer, written, rfl, hwrites, ?_⟩
          intro s hs
          obtain ⟨s', ⟨events', hruns, hsame⟩, hdir⟩ := halone s
          refine ⟨s', ⟨⟨.directory, s.directory⟩ :: events', .call .directory ?_, hsame⟩, hdir⟩
          rw [hs]
          exact hruns
        | write _ => exact h.elim
        | _ => cases hc

end NrePlugins.Shadowsocks.Panel
