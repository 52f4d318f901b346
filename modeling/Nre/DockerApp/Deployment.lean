import Mathlib.Data.List.AList
import Nre.Base.Bytes
import Nre.Base.Transition

/-!
# Deployment records and their store

Model of the deployment record (`rollout.go`) and of `deployment_persist.go`. A store keeps
one versioned record for each app and a counter of fencing tokens; every write names the
version it replaces and the token of the lease it is made under.

- `DeploymentSnapshot`: the two maps, with `acquireLease`, `compareAndSwap`, `deleteCAS`;
- `persistedDeploymentStore`: the store over a backend, which reads the snapshot before and
  writes it after every call;
- `StoreState`, `StoreState.Step`: the store with the history of its calls and answers.

`DeleteCAS` also drops the counter of the app, so the tokens of an app that is deleted and
created again start over (`tokens_repeat_after_delete`). `fencing_tokens_never_repeat` is
about the histories in which no call that creates a deleted app again is granted.
-/

namespace NrePlugins.DockerApp

open List

/-! ## Records -/

/-- An instant; `0` is the zero value of `time.Time`. -/
abbrev Time := Nat

structure DeploymentRevision where
  instanceID : Bytes := []
  image : Bytes := []
  ruleRef : Bytes := []
  ruleTarget : Bytes := []
  generation : Bytes := []
  imageDigest : Bytes := []
  deriving DecidableEq

/-- `unset` is the empty phase of a record that was never rolled out. -/
inductive RolloutPhase where
  | unset | pulling | starting | readiness | cutover | draining | active | cleanupPending
  | routeReconcile
  deriving DecidableEq

structure Deployment where
  appID : Bytes := []
  agentID : Bytes := []
  instanceID : Bytes := []
  image : Bytes := []
  ruleRef : Bytes := []
  ruleTarget : Bytes := []
  generation : Bytes := []
  phase : RolloutPhase := .unset
  pendingInstance : Bytes := []
  desiredRuleTarget : Bytes := []
  priorRuleTarget : Bytes := []
  priorImage : Bytes := []
  priorGeneration : Bytes := []
  priorRuleRef : Bytes := []
  priorInstance : Bytes := []
  lastFailure : Bytes := []
  lease : Bytes := []
  leaseUntil : Time := 0
  fencingToken : UInt64 := 0
  priorAbsent : Bool := false
  imageDigest : Bytes := []
  availableDigest : Bytes := []
  priorDigest : Bytes := []
  history : List DeploymentRevision := []
  deriving DecidableEq

structure DeploymentRecord where
  version : UInt64 := 0
  value : Deployment := {}

inductive DeploymentError where
  | typedHandlesUnavailable | stateConflict | backend
  deriving DecidableEq

/-! ## Snapshots -/

def maxApps : Nat := 128

/-- The records, and the last fencing token of each id. -/
structure DeploymentSnapshot where
  records : AList (fun _ : Bytes => DeploymentRecord)
  fences : AList (fun _ : Bytes => UInt64)

variable {id' : Bytes}

namespace DeploymentSnapshot

/-- `emptyDeploymentSnapshot`. -/
def empty : DeploymentSnapshot := ⟨∅, ∅⟩

variable (s : DeploymentSnapshot) (id : Bytes)

/-- `snapshot.Records[id]`, the zero record where there is none. -/
def record : DeploymentRecord :=
  (s.records.lookup id).getD {}

/-- `snapshot.Fences[id]`. -/
def fence : UInt64 := (s.fences.lookup id).getD 0

def setRecord (r : DeploymentRecord) : DeploymentSnapshot :=
  { s with records := s.records.insert id r }

def setFence (n : UInt64) : DeploymentSnapshot :=
  { s with fences := s.fences.insert id n }

/-- Both maps lose the app. -/
def erase : DeploymentSnapshot :=
  ⟨s.records.erase id, s.fences.erase id⟩

/-- `len(snapshot.Records) > MaxApps || len(snapshot.Fences) > MaxApps`. -/
def tooLarge : Bool :=
  decide (maxApps < s.records.entries.length) || decide (maxApps < s.fences.entries.length)

/-- The record that `AcquireLease` writes. -/
def leased (version token : UInt64) (value : Deployment) (until_ : Time) : DeploymentRecord :=
  ⟨version + 1, { value with
    appID := id, fencingToken := token, lease := ascii "fence-" ++ itoa token.toNat,
    leaseUntil := until_ }⟩

def acquireLease (version : UInt64) (value : Deployment)
    (until_ : Time) : Except DeploymentError (DeploymentRecord × DeploymentSnapshot) :=
  if (s.record id).version ≠ version then .error .stateConflict
  else
    let token := s.fence id + 1
    let next := leased id version token value until_
    .ok (next, (s.setFence id token).setRecord id next)

/-- The record that `CompareAndSwap` writes. -/
def swapped (version fence : UInt64) (value : Deployment) : DeploymentRecord :=
  ⟨version + 1, { value with appID := id, fencingToken := fence }⟩

def compareAndSwap (version fence : UInt64)
    (value : Deployment) : Except DeploymentError (DeploymentRecord × DeploymentSnapshot) :=
  if (s.record id).version ≠ version ∨ (s.record id).value.fencingToken ≠ fence then
    .error .stateConflict
  else
    let next := swapped id version fence value
    .ok (next, s.setRecord id next)

def deleteCAS (version fence : UInt64) : Except DeploymentError DeploymentSnapshot :=
  match s.records.lookup id with
  | none => .error .stateConflict
  | some current =>
    if current.version ≠ version ∨ current.value.fencingToken ≠ fence then .error .stateConflict
    else .ok (s.erase id)

/-! ### What the updates leave -/

section

include s

@[simp] theorem records_setFence (n : UInt64) : (s.setFence id n).records = s.records := rfl

@[simp] theorem fence_setRecord (id id' : Bytes) (r : DeploymentRecord) :
    (s.setRecord id r).fence id' = s.fence id' := rfl

@[simp] theorem lookup_setRecord_self (r : DeploymentRecord) :
    (s.setRecord id r).records.lookup id = some r :=
  AList.lookup_insert _

variable {id}

theorem lookup_setRecord_ne (r : DeploymentRecord) (h : id' ≠ id) :
    (s.setRecord id r).records.lookup id' = s.records.lookup id' :=
  AList.lookup_insert_ne h

@[simp] theorem fence_setFence_self (id : Bytes) (n : UInt64) : (s.setFence id n).fence id = n := by
  show ((s.fences.insert id n).lookup id).getD 0 = n
  rw [AList.lookup_insert]
  rfl

theorem fence_setFence_ne (n : UInt64) (h : id' ≠ id) :
    (s.setFence id n).fence id' = s.fence id' := by
  show ((s.fences.insert id n).lookup id').getD 0 = s.fence id'
  rw [AList.lookup_insert_ne h]
  rfl

@[simp] theorem lookup_erase_self (id : Bytes) : (s.erase id).records.lookup id = none :=
  AList.lookup_erase _ _

theorem lookup_erase_ne (h : id' ≠ id) : (s.erase id).records.lookup id' = s.records.lookup id' :=
  AList.lookup_erase_ne h

theorem fence_erase_ne (h : id' ≠ id) : (s.erase id).fence id' = s.fence id' := by
  show ((s.fences.erase id).lookup id').getD 0 = s.fence id'
  rw [AList.lookup_erase_ne h]
  rfl

end

end DeploymentSnapshot

/-! ## The persisted store

The store keeps nothing in memory: every method holds the mutex, loads the snapshot and
writes it back, so calls happen one after the other and a restart changes nothing. -/

inductive StoreCall where
  | load (id : Bytes)
  | acquireLease (id : Bytes) (version : UInt64) (value : Deployment) (until_ : Time)
  | compareAndSwap (id : Bytes) (version fence : UInt64) (value : Deployment)
  | deleteCAS (id : Bytes) (version fence : UInt64)
  | restart

/-- What a call returns: the record, if the method returns one. -/
abbrev StoreAnswer := Except DeploymentError (Option DeploymentRecord)

namespace persistedDeploymentStore

variable (readable : Bool) (backend : Option DeploymentSnapshot)

/-- `loadSnapshot`; `readable` says whether the backend answers the read. -/
def loadSnapshot : Except DeploymentError DeploymentSnapshot :=
  if readable = false then .error .backend
  else
    match backend with
    | none => .ok .empty
    | some snapshot =>
      if snapshot.tooLarge then .error .typedHandlesUnavailable else .ok snapshot

/-- `persist`, over a backend whose writes succeed. -/
def persist (snapshot : DeploymentSnapshot) : Except DeploymentError DeploymentSnapshot :=
  if snapshot.tooLarge then .error .typedHandlesUnavailable else .ok snapshot

/-- A method of the store: its answer and the snapshot it writes. -/
def call : StoreCall → Except DeploymentError (Option DeploymentRecord × Option DeploymentSnapshot)
  | .load id => do
    let snapshot ← loadSnapshot readable backend
    return (snapshot.records.lookup id, none)
  | .acquireLease id version value until_ => do
    let snapshot ← loadSnapshot readable backend
    let (next, snapshot) ← snapshot.acquireLease id version value until_
    return (some next, some (← persist snapshot))
  | .compareAndSwap id version fence value => do
    let snapshot ← loadSnapshot readable backend
    let (next, snapshot) ← snapshot.compareAndSwap id version fence value
    return (some next, some (← persist snapshot))
  | .deleteCAS id version fence => do
    let snapshot ← loadSnapshot readable backend
    let snapshot ← snapshot.deleteCAS id version fence
    return (none, some (← persist snapshot))
  | .restart => return (none, none)

end persistedDeploymentStore

/-! ## Histories -/

/-- A call with its answer. -/
abbrev StoreEvent := StoreCall × StoreAnswer

/-- The backend, with all calls so far and their answers. -/
structure StoreState where
  backend : Option DeploymentSnapshot
  history : List StoreEvent

namespace StoreState

def init : StoreState := ⟨none, []⟩

/-- The snapshot the next call reads. -/
def snapshot (s : StoreState) : DeploymentSnapshot := s.backend.getD .empty

/-- The state after a call. -/
def after (s : StoreState) (readable : Bool) (c : StoreCall) : StoreState :=
  match persistedDeploymentStore.call readable s.backend c with
  | .ok (answer, written) =>
    ⟨written.or s.backend, s.history ++ [(c, .ok answer)]⟩
  | .error e => ⟨s.backend, s.history ++ [(c, .error e)]⟩

/-- A call of any caller; the label has the call and whether the backend answers. -/
def Step (s : StoreState) (label : Bool × StoreCall) (s' : StoreState) : Prop :=
  s' = s.after label.1 label.2

end StoreState

/-- The token a call issues to an app. -/
def issuedToken (id : Bytes) : StoreEvent → Option UInt64
  | (.acquireLease id' _ _ _, .ok (some r)) => if id' = id then some r.value.fencingToken else none
  | _ => none

/-- The tokens issued to an app, in order. -/
def issuedTokens (id : Bytes) (history : List StoreEvent) : List UInt64 :=
  history.filterMap (issuedToken id)

/-- The app a call is about. -/
def StoreCall.app : StoreCall → Option Bytes
  | .load id => some id
  | .acquireLease id _ _ _ => some id
  | .compareAndSwap id _ _ _ => some id
  | .deleteCAS id _ _ => some id
  | .restart => none

/-- A call returned a record of the app with this version and token. -/
def Obtained (id : Bytes) (version fence : UInt64) (history : List StoreEvent) :
    Prop :=
  ∃ c r, (c, Except.ok (some r)) ∈ history ∧ c.app = some id ∧ r.version = version ∧
    r.value.fencingToken = fence

/-- A `DeleteCAS` of the app succeeded. -/
def deletes (id : Bytes) : StoreEvent → Bool
  | (.deleteCAS id' _ _, .ok _) => id' == id
  | _ => false

/-- A `CompareAndSwap` or `DeleteCAS` of the app succeeded with this version and token. -/
def passes (id : Bytes) (version fence : UInt64) : StoreEvent → Bool
  | (.compareAndSwap id' version' fence' _, .ok _) =>
    id' == id && version' == version && fence' == fence
  | (.deleteCAS id' version' fence', .ok _) =>
    id' == id && version' == version && fence' == fence
  | _ => false

/-- Tokens increase, and what was read before a deletion is refused after it. -/
structure Fenced (history : List StoreEvent) : Prop where
  increasing : ∀ id, (issuedTokens id history).Pairwise (· < ·)
  stale : ∀ id version fence before between after deletion event,
    history = before ++ deletion :: between ++ event :: after → deletes id deletion = true →
    Obtained id version fence before → passes id version fence event = false

namespace StoreState

/-- The call succeeds. -/
def grants (s : StoreState) (label : Bool × StoreCall) : Bool :=
  (persistedDeploymentStore.call label.1 s.backend label.2).isOk

/-- The call makes the counter of an app start over: it is granted, and it names the zero
version (and the zero token) of an app that was deleted, or takes the last token. -/
def startsOver (s : StoreState) (label : Bool × StoreCall) : Bool :=
  s.grants label &&
    match label.2 with
    | .acquireLease id version _ _ =>
      s.history.any (deletes id) && version == 0 || s.snapshot.fence id + 1 == 0
    | .compareAndSwap id version fence _ =>
      s.history.any (deletes id) && version == 0 && fence == 0
    | _ => false

end StoreState

/-- No call makes a counter start over. A call that is refused may name any app, version and
token. -/
def Unrecreated (s : StoreState) (label : Bool × StoreCall) : Prop := s.startsOver label = false

/-! ### What a call does -/

open DeploymentSnapshot

/-- Every call fails and changes nothing, or does what its name says. -/
inductive Effect (s : DeploymentSnapshot) : StoreCall → StoreAnswer → DeploymentSnapshot → Prop
  | failed {c : StoreCall} {e : DeploymentError} : Effect s c (.error e) s
  | loaded {id : Bytes} : Effect s (.load id) (.ok (s.records.lookup id)) s
  | restarted : Effect s .restart (.ok none) s
  | leased {id : Bytes} {version : UInt64} {value : Deployment} {until_ : Time} :
      (s.record id).version = version →
      Effect s (.acquireLease id version value until_)
        (.ok (some (leased id version (s.fence id + 1) value until_)))
        ((s.setFence id (s.fence id + 1)).setRecord id
          (leased id version (s.fence id + 1) value until_))
  | swapped {id : Bytes} {version fence : UInt64} {value : Deployment} :
      (s.record id).version = version → (s.record id).value.fencingToken = fence →
      Effect s (.compareAndSwap id version fence value)
        (.ok (some (swapped id version fence value)))
        (s.setRecord id (swapped id version fence value))
  | deleted {id : Bytes} {r : DeploymentRecord} : s.records.lookup id = some r →
      Effect s (.deleteCAS id r.version r.value.fencingToken) (.ok none) (s.erase id)

variable {s : DeploymentSnapshot} {s' : StoreState} {id : Bytes} {version : UInt64}
  {value : Deployment} {r : DeploymentRecord}

section

open persistedDeploymentStore

variable {α : Type} {f : DeploymentSnapshot → Except DeploymentError α} {a : α}

theorem loadSnapshot_ok {readable : Bool} {backend : Option DeploymentSnapshot}
    (h : loadSnapshot readable backend >>= f = .ok a) : f (backend.getD .empty) = .ok a := by
  revert h
  fun_cases loadSnapshot readable backend with
  | case2 | case4 => exact id
  | _ => nofun

theorem persist_ok (h : persist s >>= f = .ok a) : f s = .ok a := by
  unfold persist at h
  split_ifs at h
  · cases h
  · exact h

end

theorem acquireLease_ok {s' : DeploymentSnapshot} {until_ : Time}
    (h : s.acquireLease id version value until_ = .ok (r, s')) :
    (s.record id).version = version ∧ r = leased id version (s.fence id + 1) value until_ ∧
      s' = (s.setFence id (s.fence id + 1)).setRecord id r := by
  unfold acquireLease at h
  split_ifs at h with hversion
  obtain ⟨rfl, rfl⟩ := h
  exact ⟨not_not.mp hversion, rfl, rfl⟩

variable {fence : UInt64}

theorem compareAndSwap_ok {s' : DeploymentSnapshot}
    (h : s.compareAndSwap id version fence value = .ok (r, s')) :
    (s.record id).version = version ∧ (s.record id).value.fencingToken = fence ∧
      r = swapped id version fence value ∧ s' = s.setRecord id r := by
  unfold compareAndSwap at h
  split_ifs at h with hsame
  obtain ⟨rfl, rfl⟩ := h
  rw [not_or, not_not, not_not] at hsame
  exact ⟨hsame.1, hsame.2, rfl, rfl⟩

theorem deleteCAS_ok {s' : DeploymentSnapshot} (h : s.deleteCAS id version fence = .ok s') :
    ∃ r, s.records.lookup id = some r ∧ r.version = version ∧ r.value.fencingToken = fence ∧
      s' = s.erase id := by
  revert h
  fun_cases deleteCAS s id version fence with
  | case3 r hr hsame =>
    rintro ⟨⟩
    rw [not_or, not_not, not_not] at hsame
    exact ⟨r, hr, hsame.1, hsame.2, rfl⟩
  | _ => nofun

/-- The inversion lemma of the store. -/
theorem call_effect {readable : Bool} {backend : Option DeploymentSnapshot} {c : StoreCall}
    {answer : Option DeploymentRecord} {written : Option DeploymentSnapshot}
    (h : persistedDeploymentStore.call readable backend c = .ok (answer, written)) :
    Effect (backend.getD .empty) c (.ok answer) ((written.or backend).getD .empty) := by
  cases c with
  | load id =>
    cases loadSnapshot_ok h
    exact .loaded
  | acquireLease id version value until_ =>
    obtain ⟨⟨r, s'⟩, hlease, hwrite⟩ := bind_eq_ok.mp (loadSnapshot_ok h)
    obtain ⟨hversion, rfl, rfl⟩ := acquireLease_ok hlease
    cases persist_ok hwrite
    exact .leased hversion
  | compareAndSwap id version fence value =>
    obtain ⟨⟨r, s'⟩, hswap, hwrite⟩ := bind_eq_ok.mp (loadSnapshot_ok h)
    obtain ⟨hversion, hfence, rfl, rfl⟩ := compareAndSwap_ok hswap
    cases persist_ok hwrite
    exact .swapped hversion hfence
  | deleteCAS id version fence =>
    obtain ⟨s', hdelete, hwrite⟩ := bind_eq_ok.mp (loadSnapshot_ok h)
    obtain ⟨r, hr, rfl, rfl, rfl⟩ := deleteCAS_ok hdelete
    cases persist_ok hwrite
    exact .deleted hr
  | restart =>
    cases h
    exact .restarted

theorem StoreState.after_effect (s : StoreState) (readable : Bool) (c : StoreCall) :
    ∃ answer, (s.after readable c).history = s.history ++ [(c, answer)] ∧
      Effect s.snapshot c answer (s.after readable c).snapshot ∧
      s.grants (readable, c) = answer.isOk := by
  unfold StoreState.after StoreState.grants
  split
  · rename_i answer written h
    exact ⟨_, rfl, call_effect h, by rw [h]; rfl⟩
  · rename_i e h
    exact ⟨_, rfl, .failed, by rw [h]; rfl⟩

/-! ### Tokens -/

/-- What the histories without a recreated app keep. -/
structure TokenInv (s : StoreState) : Prop where
  increasing : ∀ id, (issuedTokens id s.history).Pairwise (· < ·)
  below : ∀ id, s.history.any (deletes id) = false →
    ∀ token ∈ issuedTokens id s.history, token ≤ s.snapshot.fence id
  gone : ∀ id, s.history.any (deletes id) = true → s.snapshot.records.lookup id = none
  refused : ∀ id version fence, s.history.Pairwise fun deletion event =>
    deletes id deletion = true → passes id version fence event = false

theorem issuedTokens_snoc (id : Bytes) (history : List StoreEvent)
    (event : StoreEvent) :
    issuedTokens id (history ++ [event]) =
      issuedTokens id history ++ (issuedToken id event).toList := by
  cases h : issuedToken id event with
  | none | some => simp [issuedTokens, h]

variable {s : StoreState}

/-- What one more event has to do for the invariant: its token is above those before, the
counter does not fall, a deleted app has no record, and no check of one is passed. -/
theorem TokenInv.snoc (hs : TokenInv s) {event : StoreEvent}
    (hhistory : s'.history = s.history ++ [event])
    (hissued : ∀ id token, issuedToken id event = some token →
      (∀ before ∈ issuedTokens id s.history, before < token) ∧ token ≤ s'.snapshot.fence id)
    (hfence : ∀ id, deletes id event = false → s.snapshot.fence id ≤ s'.snapshot.fence id)
    (hgone : ∀ id, s.history.any (deletes id) = true ∨ deletes id event = true →
      s'.snapshot.records.lookup id = none)
    (hpass : ∀ id version fence, s.history.any (deletes id) = true →
      passes id version fence event = false) : TokenInv s' := by
  have htokens : ∀ id, issuedTokens id s'.history =
      issuedTokens id s.history ++ (issuedToken id event).toList := by
    intro id
    rw [hhistory, issuedTokens_snoc]
  have hdeletes : ∀ id, s'.history.any (deletes id) =
      (s.history.any (deletes id) || deletes id event) := by
    intro id
    simp [hhistory]
  constructor
  · intro id
    rw [htokens, pairwise_append]
    refine ⟨hs.increasing id, ?_, ?_⟩
    · cases issuedToken id event <;> simp
    · intro before hbefore token htoken
      exact (hissued id token (Option.mem_toList.mp htoken)).1 before hbefore
  · intro id hid token htoken
    rw [hdeletes, Bool.or_eq_false_iff] at hid
    rw [htokens] at htoken
    rcases mem_append.mp htoken with hold | hnew
    · exact UInt64.le_trans (hs.below id hid.1 token hold) (hfence id hid.2)
    · exact (hissued id token (Option.mem_toList.mp hnew)).2
  · intro id hid
    rw [hdeletes, Bool.or_eq_true] at hid
    exact hgone id hid
  · intro id version fence
    rw [hhistory, pairwise_append]
    refine ⟨hs.refused id version fence, pairwise_singleton _ _, ?_⟩
    intro deletion hdeletion event' hevent' hdel
    rw [mem_singleton.mp hevent']
    exact hpass id version fence (any_eq_true.mpr ⟨deletion, hdeletion, hdel⟩)

/-- An event that issues no token, deletes nothing and passes no check keeps the
invariant, if the snapshot stays. -/
theorem TokenInv.quiet (hs : TokenInv s) {event : StoreEvent}
    (hhistory : s'.history = s.history ++ [event]) (hsnapshot : s'.snapshot = s.snapshot)
    (htoken : ∀ id, issuedToken id event = none) (hdelete : ∀ id, deletes id event = false)
    (hpass : ∀ id version fence, passes id version fence event = false) : TokenInv s' := by
  refine hs.snoc hhistory ?_ ?_ ?_ fun id version fence _ => hpass id version fence
  · intro id token hissued
    cases (htoken id).symm.trans hissued
  · intro id _
    rw [hsnapshot]
    exact UInt64.le_refl _
  · intro id hid
    rw [hsnapshot]
    exact hs.gone id (hid.resolve_right (by simp [hdelete]))

/-- An app that was deleted is another than one that was not. -/
theorem ne_of_deleted {history : List StoreEvent}
    (hlive : history.any (deletes id) = false) (hid : history.any (deletes id') = true) :
    id' ≠ id := by
  rintro rfl
  cases hlive.symm.trans hid

/-- A write that passes keeps the invariant: its app was never deleted. -/
theorem TokenInv.swapped (hs : TokenInv s) (hlive : s.history.any (deletes id) = false)
    (hhistory : s'.history = s.history ++ [(.compareAndSwap id version fence value, .ok (some r))])
    (hsnapshot : s'.snapshot = s.snapshot.setRecord id r) : TokenInv s' := by
  refine hs.snoc hhistory nofun ?_ ?_ ?_
  · intro id' _
    rw [hsnapshot]
    exact UInt64.le_refl _
  · intro id' hid
    have hid := hid.resolve_right nofun
    rw [hsnapshot, lookup_setRecord_ne _ _ (ne_of_deleted hlive hid)]
    exact hs.gone id' hid
  · intro id' version' fence' hid
    simp [passes, (ne_of_deleted hlive hid).symm]

/-- A lease raises the counter of an app that was never deleted. -/
theorem TokenInv.leased (hs : TokenInv s) {until_ : Time}
    (hlive : s.history.any (deletes id) = false)
    (hroom : s.snapshot.fence id + 1 ≠ 0)
    (htoken : r.value.fencingToken = s.snapshot.fence id + 1)
    (hhistory : s'.history = s.history ++ [(.acquireLease id version value until_, .ok (some r))])
    (hsnapshot : s'.snapshot = (s.snapshot.setFence id (s.snapshot.fence id + 1)).setRecord id r) :
    TokenInv s' := by
  have hup : s.snapshot.fence id < s.snapshot.fence id + 1 :=
    UInt64.lt_add_one fun hlast => hroom (by rw [hlast]; rfl)
  have hself : s'.snapshot.fence id = s.snapshot.fence id + 1 := by
    rw [hsnapshot, fence_setRecord, fence_setFence_self]
  refine hs.snoc hhistory ?_ ?_ ?_ fun _ _ _ _ => rfl
  · intro id' token hissued
    simp only [issuedToken] at hissued
    split_ifs at hissued with hid
    subst hid
    cases hissued
    rw [htoken, hself]
    exact ⟨fun before hbefore => UInt64.lt_of_le_of_lt (hs.below id hlive before hbefore) hup,
      UInt64.le_refl _⟩
  · intro id' _
    by_cases hid : id' = id
    · rw [hid, hself]
      exact UInt64.le_of_lt hup
    · rw [hsnapshot, fence_setRecord, fence_setFence_ne _ _ hid]
      exact UInt64.le_refl _
  · intro id' hid
    have hid := hid.resolve_right nofun
    rw [hsnapshot, lookup_setRecord_ne _ _ (ne_of_deleted hlive hid), records_setFence]
    exact hs.gone id' hid

/-- A deletion finds a record, so its app was not deleted before. -/
theorem TokenInv.deleted (hs : TokenInv s) (hr : s.snapshot.records.lookup id = some r)
    (hhistory : s'.history = s.history ++ [(.deleteCAS id version fence, .ok none)])
    (hsnapshot : s'.snapshot = s.snapshot.erase id) : TokenInv s' := by
  refine hs.snoc hhistory nofun ?_ ?_ ?_
  · intro id' hid
    rw [hsnapshot, fence_erase_ne _ (Ne.symm (by simpa [deletes] using hid))]
    exact UInt64.le_refl _
  · intro id' hid
    rw [hsnapshot]
    by_cases hne : id' = id
    · rw [hne]
      exact lookup_erase_self _ _
    · rw [lookup_erase_ne _ hne]
      exact hs.gone id' (hid.resolve_right (by simpa [deletes] using Ne.symm hne))
  · intro id' version' fence' hid
    have hne : id ≠ id' := by
      rintro rfl
      cases hr.symm.trans (hs.gone id hid)
    simp [passes, hne]

/-- A deleted app has the zero record. -/
theorem TokenInv.record_deleted (hs : TokenInv s) (hid : s.history.any (deletes id) = true) :
    s.snapshot.record id = {} := by
  unfold record
  rw [hs.gone id hid]
  rfl

theorem TokenInv.step {label : Bool × StoreCall} (hs : TokenInv s) (hstep : s.Step label s')
    (hok : Unrecreated s label) : TokenInv s' := by
  obtain ⟨readable, c⟩ := label
  obtain ⟨answer, hhistory, heffect, hgrants⟩ := s.after_effect readable c
  obtain rfl : s' = s.after readable c := hstep
  unfold Unrecreated StoreState.startsOver at hok
  rw [hgrants] at hok
  generalize hsnapshot : (s.after readable c).snapshot = t at heffect
  cases heffect with
  | failed =>
    refine hs.quiet hhistory hsnapshot ?_ ?_ ?_
    · intro id
      cases c <;> rfl
    · intro id
      cases c <;> rfl
    · intro id version fence
      cases c <;> rfl
  | loaded | restarted =>
    exact hs.quiet hhistory hsnapshot (fun _ => rfl) (fun _ => rfl) fun _ _ _ => rfl
  -- a granted call names what the store has, which is zero for a deleted app
  | @leased id version _ _ hversion =>
    have hok : (s.history.any (deletes id) && version == 0 ||
      s.snapshot.fence id + 1 == 0) = false := hok
    rw [Bool.or_eq_false_iff, beq_eq_false_iff_ne] at hok
    refine hs.leased (Bool.eq_false_iff.mpr fun hid => ?_) hok.2 rfl hhistory hsnapshot
    rw [← hversion, hs.record_deleted hid, hid] at hok
    cases hok.1
  | @swapped id version fence _ hversion hfence =>
    have hok : (s.history.any (deletes id) && version == 0 && fence == 0) = false := hok
    refine hs.swapped (Bool.eq_false_iff.mpr fun hid => ?_) hhistory hsnapshot
    rw [← hversion, ← hfence, hs.record_deleted hid, hid] at hok
    cases hok
  | deleted hr => exact hs.deleted hr hhistory hsnapshot

theorem TokenInv.init : TokenInv .init := by
  constructor
  · intro id
    exact List.Pairwise.nil
  · intro id _ token htoken
    cases htoken
  · intro id hid
    cases hid
  · intro id version fence
    exact List.Pairwise.nil

/-- In every run in which no counter starts over, tokens increase and what was read before a
deletion is refused after it. -/
theorem fencing_tokens_never_repeat {s : StoreState}
    (h : Reachable (· = StoreState.init) (Guarded StoreState.Step Unrecreated) s) :
    Fenced s.history := by
  have hinv : TokenInv s := by
    refine h.invariant ?_ ?_
    · rintro _ rfl
      exact TokenInv.init
    · rintro s label s' hs ⟨hstep, hok⟩
      exact hs.step hstep hok
  refine ⟨hinv.increasing, ?_⟩
  intro id version fence before between after deletion event hhistory hdelete _
  have hpairs := hinv.refused id version fence
  rw [hhistory, append_assoc, cons_append, pairwise_append, pairwise_cons] at hpairs
  exact hpairs.2.1.1 event (by simp) hdelete

section Runs

/-- The app of the runs below. -/
def sampleApp : Bytes := ascii "media"

/-- Another one, which is not deleted. -/
def otherApp : Bytes := ascii "books"

/-- An app is leased, written and deleted. Its holder tries to write, to delete and to lease
again with what the write returned; the other app is leased twice. -/
def afterDeletion : List (Bool × StoreCall) :=
  [(true, .acquireLease sampleApp 0 {} 10), (true, .compareAndSwap sampleApp 1 1 {}),
    (true, .deleteCAS sampleApp 2 1), (true, .acquireLease otherApp 0 {} 20),
    (true, .compareAndSwap sampleApp 2 1 {}), (true, .deleteCAS sampleApp 2 1),
    (true, .acquireLease sampleApp 2 {} 30), (true, .acquireLease otherApp 1 {} 40)]

/-- The state after a list of calls, if none of them makes a counter start over. -/
def StoreState.runs : StoreState → List (Bool × StoreCall) → Option StoreState
  | s, [] => some s
  | s, label :: labels =>
    if s.startsOver label then none else (s.after label.1 label.2).runs labels

theorem StoreState.reachable_runs {labels : List (Bool × StoreCall)} (h : s.runs labels = some s')
    (hs : Reachable (· = StoreState.init) (Guarded StoreState.Step Unrecreated) s) :
    Reachable (· = StoreState.init) (Guarded StoreState.Step Unrecreated) s' := by
  induction labels generalizing s with
  | nil =>
    cases h
    exact hs
  | cons label labels ih =>
    unfold StoreState.runs at h
    split_ifs at h with hover
    exact ih h (.next hs ⟨rfl, Bool.eq_false_iff.mpr hover⟩)

/-- The guarded runs delete an app, and what its holder has is refused from then on. -/
theorem fencing_tokens_after_deletion : ∃ s, StoreState.init.runs afterDeletion = some s ∧
    s.history.map (fun event => event.2.isOk) =
      [true, true, true, true, false, false, false, true] ∧
    issuedTokens sampleApp s.history = [1] ∧ issuedTokens otherApp s.history = [1, 2] ∧
    Fenced s.history := by
  obtain ⟨s, hruns⟩ := Option.isSome_iff_exists.mp
    (show (StoreState.init.runs afterDeletion).isSome = true by decide)
  have hanswers : (StoreState.init.runs afterDeletion).map (fun s =>
      (s.history.map fun event => event.2.isOk, issuedTokens sampleApp s.history,
        issuedTokens otherApp s.history)) =
      some ([true, true, true, true, false, false, false, true], [1], [1, 2]) := by
    decide
  rw [hruns, Option.map_some, Option.some_inj, Prod.mk.injEq, Prod.mk.injEq] at hanswers
  obtain ⟨hgranted, hsample, hother⟩ := hanswers
  exact ⟨s, hruns, hgranted, hsample, hother,
    fencing_tokens_never_repeat (StoreState.reachable_runs hruns (.start rfl))⟩

/-- A lease on a new app, its deletion, a second lease on the new record, and a write under
what the first lease returned. -/
def recreated : StoreState :=
  (((StoreState.init.after true (.acquireLease sampleApp 0 {} 10)).after true
    (.deleteCAS sampleApp 1 1)).after true (.acquireLease sampleApp 0 {} 20)).after true
    (.compareAndSwap sampleApp 1 1 {})

/-- The second lease of a recreated app has the token of the first, and the holder of the
first overwrites the new record. -/
theorem tokens_repeat_after_delete :
    Reachable (· = StoreState.init) StoreState.Step recreated ∧
      issuedTokens sampleApp recreated.history = [1, 1] ∧ ¬ Fenced recreated.history ∧
      (recreated.history.getLast?.any (passes sampleApp 1 1)) = true := by
  have htokens : issuedTokens sampleApp recreated.history = [1, 1] := by decide
  refine ⟨?_, htokens, ?_, by decide⟩
  · exact .next (.next (.next (.next (.start rfl)
      (a := (true, .acquireLease sampleApp 0 {} 10)) rfl)
      (a := (true, .deleteCAS sampleApp 1 1)) rfl)
      (a := (true, .acquireLease sampleApp 0 {} 20)) rfl)
      (a := (true, .compareAndSwap sampleApp 1 1 {})) rfl
  · intro hfenced
    have hincreasing := hfenced.increasing sampleApp
    exact absurd hincreasing (by decide)

end Runs

end NrePlugins.DockerApp
