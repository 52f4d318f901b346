import Mathlib.Algebra.Order.BigOperators.Group.List
import Nre.Base.GoStrings
import Nre.Base.Interrupted
import Nre.DockerApp.Deployment

/-!
# Rollouts

Model of `rollout.go`. An operation of `Rollout` is a program over the calls it makes on its
store, on its executor and on the clock. The audit records it writes are left out, and
a `Rollout` here has its store, executor and auditor.

- `publish` is cut at its stages: `publishLeased`, `publishStarting`, `publishReadiness`,
  `publishCutover`, `publishDraining`, `publishActive`;
- `reconcileRecord` is cut at what it decides: `finishNew` goes on with the new instance,
  `restoreHistoricalPrior` undoes a rollback to an earlier revision, `restorePrior` removes
  the new instance and goes back to the one before.

What the operations do with texts (validation of an app, pinning an image to a digest) is
a parameter, `Texts`.
-/

namespace NrePlugins.DockerApp

/-- The fields of an app that a rollout reads. -/
structure App where
  id : Bytes := []
  agentID : Bytes := []
  compose : Bytes := []
  generation : Bytes := []
  image : Bytes := []
  ruleRef : Bytes := []
  deriving DecidableEq

/-- What an operation returns as its error. -/
inductive Failure where
  | reconcilePending | operationFailed | invalidPreview | stateConflict
  | typedHandlesUnavailable | executor
  | joined (first second : Failure)
  deriving DecidableEq

/-- What `Inspect` reports; `instances` are those the map has as true. -/
structure RuntimeState where
  ruleTarget : Bytes := []
  candidateInstance : Bytes := []
  instances : List Bytes := []

/-! ## Calls -/

/-- The calls of the store, those of the executor, the clock, and the guard that a caller
may have put into the context (`withObservationPersistGuard`). -/
inductive RolloutCall where
  | load (id : Bytes)
  | acquireLease (id : Bytes) (version : UInt64) (value : Deployment) (until_ : Time)
  | compareAndSwap (id : Bytes) (version fence : UInt64) (value : Deployment)
  | deleteCAS (id : Bytes) (version fence : UInt64)
  | pull (fence : UInt64) (app : App)
  | start (fence : UInt64) (app : App)
  | ready (fence : UInt64) (app : App) (instanceID : Bytes)
  | cutover (fence : UInt64) (ruleRef target : Bytes)
  | drain (fence : UInt64) (app : App) (instanceID : Bytes)
  | remove (fence : UInt64) (app : App) (instanceID : Bytes)
  | inspect (fence : UInt64) (app : App) (ruleRef : Bytes)
  | now
  | live

/-- `Start` returns an instance beside its error. The guard answers `none` where the context
has none, else the app as the catalog has it now. -/
def RolloutAnswer : RolloutCall → Type
  | .load _ => Except Failure (Option DeploymentRecord)
  | .acquireLease .. => Except Failure DeploymentRecord
  | .compareAndSwap .. => Except Failure DeploymentRecord
  | .deleteCAS .. => Except Failure Unit
  | .pull .. => Except Failure Unit
  | .start .. => Bytes × Option Failure
  | .ready .. => Except Failure Unit
  | .cutover .. => Except Failure Unit
  | .drain .. => Except Failure Unit
  | .remove .. => Except Failure Unit
  | .inspect .. => Except Failure RuntimeState
  | .now => Time
  | .live => Option (Option App)

abbrev RolloutM := Prog RolloutAnswer Failure

namespace Store

abbrev load (id : Bytes) : RolloutM (Except Failure (Option DeploymentRecord)) :=
  Prog.ask (RolloutCall.load id)

abbrev acquireLease (id : Bytes) (version : UInt64) (value : Deployment) (until_ : Time) :
    RolloutM (Except Failure DeploymentRecord) :=
  Prog.ask (RolloutCall.acquireLease id version value until_)

abbrev compareAndSwap (id : Bytes) (version fence : UInt64) (value : Deployment) :
    RolloutM (Except Failure DeploymentRecord) :=
  Prog.ask (RolloutCall.compareAndSwap id version fence value)

abbrev deleteCAS (id : Bytes) (version fence : UInt64) : RolloutM (Except Failure Unit) :=
  Prog.ask (RolloutCall.deleteCAS id version fence)

end Store

namespace Executor

abbrev pull (fence : UInt64) (app : App) : RolloutM (Except Failure Unit) :=
  Prog.ask (RolloutCall.pull fence app)

abbrev start (fence : UInt64) (app : App) : RolloutM (Bytes × Option Failure) :=
  Prog.ask (RolloutCall.start fence app)

abbrev ready (fence : UInt64) (app : App) (instanceID : Bytes) : RolloutM (Except Failure Unit) :=
  Prog.ask (RolloutCall.ready fence app instanceID)

abbrev cutover (fence : UInt64) (ruleRef target : Bytes) : RolloutM (Except Failure Unit) :=
  Prog.ask (RolloutCall.cutover fence ruleRef target)

abbrev drain (fence : UInt64) (app : App) (instanceID : Bytes) : RolloutM (Except Failure Unit) :=
  Prog.ask (RolloutCall.drain fence app instanceID)

abbrev remove (fence : UInt64) (app : App) (instanceID : Bytes) : RolloutM (Except Failure Unit) :=
  Prog.ask (RolloutCall.remove fence app instanceID)

abbrev inspect (fence : UInt64) (app : App) (ruleRef : Bytes) :
    RolloutM (Except Failure RuntimeState) :=
  Prog.ask (RolloutCall.inspect fence app ruleRef)

end Executor

/-- `r.now()`. -/
abbrev clock : RolloutM Time := Prog.ask RolloutCall.now

/-- `observationPersistLive`. -/
abbrev observationPersistLive : RolloutM (Option (Option App)) := Prog.ask RolloutCall.live

/-- A call whose failure ends the operation with an error of its own. -/
def orFail {α : Type} (answer : Except Failure α) (error : Failure → Failure) : RolloutM α :=
  match answer with
  | .ok a => .ret a
  | .error e => .fail (error e)

/-! ## Records -/

/-- `Deployment.app`. -/
def Deployment.app (value : Deployment) : App :=
  { id := value.appID, agentID := value.agentID, image := value.image, ruleRef := value.ruleRef,
    generation := value.generation }

def priorInstanceAbsent (existed : Bool) (instanceID : Bytes) : Bool :=
  !existed || instanceID == []

/-- `rolloutBusy`. -/
def rolloutBusy (value : Deployment) (existed : Bool) (now : Time) : Bool :=
  existed && ((value.phase != .unset && value.phase != .active) ||
    (value.lease != [] && decide (now < value.leaseUntil)))

/-- An empty rule reference has no rule, so there is nothing to cut over. -/
def cutOverComplete (ruleRef observedTarget pending : Bytes) : Bool :=
  ruleRef == [] || observedTarget == pending

def publishedHistory (value : Deployment) : List DeploymentRevision :=
  if value.priorInstance = [] ∧ value.priorImage = [] ∧ value.priorDigest = [] then value.history
  else [{
    instanceID := value.priorInstance, image := value.priorImage, ruleRef := value.priorRuleRef,
    ruleTarget := value.priorRuleTarget, generation := value.priorGeneration,
    imageDigest := value.priorDigest }]

def historicalRollbackPending (value : Deployment) : Bool :=
  value.pendingInstance != [] && value.history.any (·.instanceID == value.pendingInstance)

def clearHistoryInstance (history : List DeploymentRevision) (instanceID : Bytes) :
    List DeploymentRevision :=
  if instanceID = [] then history
  else history.map fun rev =>
    if rev.instanceID = instanceID then { rev with instanceID := [] } else rev

/-- `historicalRollbackIntent`. -/
def historicalRollbackIntent (current : Deployment) (rev : DeploymentRevision) : Deployment :=
  { current with
    phase := .cutover, pendingInstance := rev.instanceID, desiredRuleTarget := rev.instanceID,
    priorInstance := current.instanceID, priorImage := current.image,
    priorGeneration := current.generation, priorRuleRef := current.ruleRef,
    priorRuleTarget := current.ruleTarget, priorDigest := current.imageDigest,
    priorAbsent := false, image := rev.image, ruleRef := rev.ruleRef,
    generation := rev.generation, imageDigest := rev.imageDigest, availableDigest := [] }

/-- The first durable intent of `publish`. -/
def pullingIntent (app : App) (digest : Bytes) (prior : Deployment) (existed : Bool) : Deployment :=
  { appID := app.id, agentID := app.agentID, instanceID := prior.instanceID, image := app.image,
    ruleRef := app.ruleRef, ruleTarget := prior.ruleTarget, generation := app.generation,
    phase := .pulling, priorImage := prior.image, priorGeneration := prior.generation,
    priorRuleRef := prior.ruleRef, priorRuleTarget := prior.ruleTarget,
    priorInstance := prior.instanceID,
    priorAbsent := priorInstanceAbsent existed prior.instanceID, imageDigest := digest,
    availableDigest := prior.availableDigest, priorDigest := prior.imageDigest,
    history := prior.history }

/-- The record of a rollout that went through, as `publish` and `reconcileRecord` write it. -/
def publishedRecord (agentID image ruleRef generation digest pending : Bytes)
    (value : Deployment) : Deployment :=
  { appID := value.appID, agentID, instanceID := pending, image, ruleRef, ruleTarget := pending,
    generation, phase := .active, fencingToken := value.fencingToken, imageDigest := digest,
    history := publishedHistory value }

/-- The record that `reconcileRecord` writes when it is back at the instance before. -/
def restoredRecord (v : Deployment) (priorInstance : Bytes) : Deployment :=
  { v with
    instanceID := priorInstance, image := v.priorImage, generation := v.priorGeneration,
    ruleRef := v.priorRuleRef, phase := .active, ruleTarget := v.priorRuleTarget,
    pendingInstance := [], desiredRuleTarget := [], priorRuleTarget := [], lastFailure := [],
    lease := [], leaseUntil := 0, priorAbsent := false, priorImage := [], priorGeneration := [],
    priorRuleRef := [], priorInstance := [], imageDigest := v.priorDigest, availableDigest := [],
    priorDigest := [] }

/-- The record it writes when there was a record before, without an instance. -/
def restoredEmpty (v : Deployment) : Deployment :=
  { appID := v.appID, agentID := v.agentID, image := v.priorImage, ruleRef := v.priorRuleRef,
    generation := v.priorGeneration, phase := .active, fencingToken := v.fencingToken,
    imageDigest := v.priorDigest, availableDigest := v.availableDigest, history := v.history }

/-! ## Reconciliation -/

/-- The record names the new instance. -/
def Deployment.withPending (v : Deployment) (pending : Bytes) : Deployment :=
  { v with pendingInstance := pending }

/-- The new instance is about to be removed. -/
def Deployment.cleaningUp (v : Deployment) : Deployment := { v with phase := .cleanupPending }

/-- `release`: give the lease back and return the error. -/
def release (record : DeploymentRecord) (result : Failure) : RolloutM Unit := do
  let v := { record.value with lease := [], leaseUntil := 0 }
  match ← Store.compareAndSwap v.appID record.version v.fencingToken v with
  | .ok _ => .fail result
  | .error e => .fail (.joined result e)

/-- A write of `reconcileRecord`, whose error is returned as it is. -/
def persistValue (record : DeploymentRecord) (fence : UInt64) (v : Deployment) :
    RolloutM DeploymentRecord := do
  orFail (← Store.compareAndSwap v.appID record.version fence v) id

/-- An executor call whose failure releases the record. -/
def orRelease (answer : Except Failure Unit) (record : DeploymentRecord) (next : RolloutM Unit) :
    RolloutM Unit :=
  match answer with
  | .ok _ => next
  | .error _ => release record .operationFailed

/-- The record before a rollback to an earlier revision, as reconciliation writes it. -/
def historicalPrior (v : Deployment) (priorInstance : Bytes) (history : List DeploymentRevision) :
    Deployment :=
  { appID := v.appID, agentID := v.agentID, instanceID := priorInstance, image := v.priorImage,
    ruleRef := v.priorRuleRef, ruleTarget := v.priorRuleTarget, generation := v.priorGeneration,
    phase := .active, fencingToken := v.fencingToken, imageDigest := v.priorDigest, history }

section Reconciliation

variable (record : DeploymentRecord) (v : Deployment)

def storeHistoricalPrior (priorInstance pending : Bytes) (pendingExists : Bool) : RolloutM Unit := do
  let history := if pendingExists then v.history else clearHistoryInstance v.history pending
  let _ ← persistValue record v.fencingToken (historicalPrior v priorInstance history)
  return ()

def restoreHistoricalPrior (state : RuntimeState) (priorInstance pending : Bytes)
    (pendingExists : Bool) : RolloutM Unit :=
  if v.priorAbsent ∨ priorInstance = [] ∨ priorInstance ∉ state.instances then
    release record .reconcilePending
  else if state.ruleTarget ≠ v.priorRuleTarget ∧ v.priorRuleRef ≠ [] ∧ v.priorRuleTarget ≠ [] then
    do orRelease (← Executor.cutover v.fencingToken v.priorRuleRef v.priorRuleTarget) record
        (storeHistoricalPrior record v priorInstance pending pendingExists)
  else storeHistoricalPrior record v priorInstance pending pendingExists

/-- The last part of the way on: look again, and store the new instance. -/
def storeNew (pending : Bytes) : RolloutM Unit := do
  match ← Executor.inspect v.fencingToken v.app v.ruleRef with
  | .error _ => release record .reconcilePending
  | .ok post =>
    if pending ∉ post.instances ∨ cutOverComplete v.ruleRef post.ruleTarget pending = false then
      release record .reconcilePending
    else
      let _ ← persistValue record v.fencingToken
        (publishedRecord v.agentID v.image v.ruleRef v.generation v.imageDigest pending v)
      return ()

/-- The new instance serves: drain the one before, if it is there. -/
def finishNew (priorInstance pending : Bytes) (priorExists : Bool) : RolloutM Unit :=
  if priorExists then
    do orRelease (← Executor.drain v.fencingToken v.app priorInstance) record
        (storeNew record v pending)
  else storeNew record v pending

/-- There was no instance before: the record before comes back, or the record goes. -/
def storeAbsent (post : RuntimeState) (pending : Bytes) : RolloutM Unit :=
  if pending ≠ [] ∧ post.ruleTarget = pending then release record .reconcilePending
  else if v.priorImage ≠ [] ∨ v.priorDigest ≠ [] ∨ v.priorGeneration ≠ [] then do
    let _ ← persistValue record v.fencingToken (restoredEmpty v)
    return ()
  else do orFail (← Store.deleteCAS v.appID record.version v.fencingToken) id

/-- There was an instance before: its record comes back, if it serves. -/
def storePresent (post : RuntimeState) (priorInstance : Bytes) : RolloutM Unit :=
  if priorInstance ∉ post.instances ∨
      cutOverComplete v.priorRuleRef post.ruleTarget v.priorRuleTarget = false then
    release record .reconcilePending
  else do
    let _ ← persistValue record v.fencingToken (restoredRecord v priorInstance)
    return ()

/-- The last part of the way back: look again, and store what was there before. -/
def storePrior (priorInstance pending : Bytes) : RolloutM Unit := do
  let postRef := if v.priorAbsent then v.ruleRef else v.priorRuleRef
  match ← Executor.inspect v.fencingToken v.app postRef with
  | .error _ => release record .reconcilePending
  | .ok post =>
    if pending ≠ [] ∧ pending ∈ post.instances then release record .reconcilePending
    else if v.priorAbsent then storeAbsent record v post pending
    else storePresent record v post priorInstance

/-- Remove the new instance, if there is one. -/
def removeNew (priorInstance pending : Bytes) (newExists : Bool) : RolloutM Unit :=
  if newExists then do
    let v := v.cleaningUp
    let record ← persistValue record v.fencingToken v
    orRelease (← Executor.remove v.fencingToken v.app pending) record
      (storePrior record v priorInstance pending)
  else storePrior record v priorInstance pending

/-- The way back to the instance before. -/
def restorePrior (state : RuntimeState) (priorInstance pending : Bytes)
    (priorExists newExists : Bool) : RolloutM Unit :=
  let remove := removeNew record v priorInstance pending newExists
  if v.priorAbsent = false then
    if priorExists = false then release record .reconcilePending
    else if cutOverComplete v.priorRuleRef state.ruleTarget v.priorRuleTarget = false then
      do orRelease (← Executor.cutover v.fencingToken v.priorRuleRef v.priorRuleTarget) record
          remove
    else remove
  else if pending ≠ [] ∧ state.ruleTarget = pending then release record .reconcilePending
  else remove

/-- The rule that `reconcileRecord` looks at first. -/
def inspectRef : Bytes :=
  if v.phase ≠ .cutover ∧ v.phase ≠ .draining ∧ v.phase ≠ .routeReconcile ∧ v.priorAbsent = false
  then v.priorRuleRef else v.ruleRef

/-- The instance to fall back to. -/
def fallbackInstance : Bytes :=
  if v.priorInstance = [] then v.instanceID else v.priorInstance

/-- The rollout can go on with the new instance. -/
def canFinish (state : RuntimeState) (pending : Bytes) : Bool :=
  (v.phase == .cutover || v.phase == .draining) && (pending != [] && pending ∈ state.instances) &&
    cutOverComplete v.ruleRef state.ruleTarget pending

/-- What `reconcileRecord` does once it knows the new instance; `v` names it. -/
def reconcileKnown (state : RuntimeState) (pending : Bytes) : RolloutM Unit :=
  let priorInstance := fallbackInstance v
  let priorExists := !v.priorAbsent && priorInstance != [] && priorInstance ∈ state.instances
  let newExists := pending != [] && pending ∈ state.instances
  if state.ruleTarget ≠ [] ∧ state.ruleTarget ≠ v.priorRuleTarget ∧ state.ruleTarget ≠ pending then
    release record .reconcilePending
  else if canFinish v state pending then finishNew record v priorInstance pending priorExists
  else if historicalRollbackPending v then
    restoreHistoricalPrior record v state priorInstance pending newExists
  else restorePrior record v state priorInstance pending priorExists newExists

def reconcileRecord : RolloutM Unit := do
  let v := record.value
  match ← Executor.inspect v.fencingToken v.app (inspectRef v) with
  | .error _ => release record .operationFailed
  | .ok state =>
    let pending := if v.pendingInstance = [] then state.candidateInstance else v.pendingInstance
    if pending ≠ v.pendingInstance then
      let v := v.withPending pending
      let record ← persistValue record v.fencingToken v
      reconcileKnown record v state pending
    else reconcileKnown record v state pending

end Reconciliation

/-- Load a record. -/
def loadRecord (id : Bytes) : RolloutM (Option DeploymentRecord) := do
  orFail (← Store.load id) fun _ => .operationFailed

section Operations

variable (leaseDuration : Time)

def Reconcile (appID : Bytes) : RolloutM Unit := do
  match ← loadRecord appID with
  | none => .fail .reconcilePending
  | some record =>
    let now ← clock
    if record.value.phase = .active ∨ (record.value.lease ≠ [] ∧ now < record.value.leaseUntil) then
      .fail .reconcilePending
    else
      let now ← clock
      let leased ← orFail (← Store.acquireLease appID record.version
        { record.value with lease := [] } (now + leaseDuration)) fun _ => .reconcilePending
      reconcileRecord leased

/-! ## Publishing -/

/-- What is done with the texts of an app. -/
structure Texts where
  /-- `App.Validate` accepts. -/
  valid : App → Bool
  pinImageDigest : Bytes → Bytes → Bytes
  pinComposeImagesForRef : Bytes → Bytes → Bytes → Bytes

/-- `pinnedRuntimeApp`. -/
def Texts.pinnedRuntimeApp (texts : Texts) (app : App) (digest : Bytes) : App :=
  if digest = [] then app
  else
    let image := texts.pinImageDigest app.image digest
    { app with image, compose := texts.pinComposeImagesForRef app.compose image digest }

/-- `requireObservationPersist`: the app is still in the catalog, where the caller asks. -/
def requireObservationPersist : RolloutM Bool := do
  let live ← observationPersistLive
  return live != some none

/-- The app as the catalog has it now, with the planned images. -/
def App.rebound (app live : App) : App :=
  let bound := { app with
    compose := live.compose, image := live.image, generation := live.generation,
    agentID := if live.agentID = [] then app.agentID else live.agentID }
  if app.compose ≠ [] ∧ app.compose ≠ live.compose then
    { bound with compose := app.compose, image := app.image }
  else bound

theorem App.rebound_id (app live : App) : (app.rebound live).id = app.id := by
  unfold App.rebound
  split_ifs <;> rfl

theorem App.rebound_ruleRef (app live : App) : (app.rebound live).ruleRef = app.ruleRef := by
  unfold App.rebound
  split_ifs <;> rfl

/-- `bindLiveCatalogApp`. -/
def bindLiveCatalogApp (app : App) : RolloutM (Option App) := do
  match ← observationPersistLive with
  | none => return some app
  | some none => return none
  | some (some live) => return some (app.rebound live)

variable (texts : Texts) (record : DeploymentRecord) (prior : Deployment) (existed : Bool)

/-- `abandonStalePublish`: the app left the catalog, so its record goes too. -/
def abandonStalePublish : RolloutM Unit := do
  if record.value.appID ≠ [] ∧ record.value.fencingToken ≠ 0 then
    let _ ← Store.deleteCAS record.value.appID record.version record.value.fencingToken
    .fail .reconcilePending
  else .fail .reconcilePending

/-- The record that `intent` writes. -/
def intentValue (v : Deployment) (phase : RolloutPhase) (pending actual desired : Bytes) :
    Deployment :=
  { v with phase, pendingInstance := pending, ruleTarget := actual, desiredRuleTarget := desired }

/-- `intent`. -/
def intent (phase : RolloutPhase) (pending actual desired : Bytes) :
    RolloutM DeploymentRecord := do
  let v := intentValue record.value phase pending actual desired
  orFail (← Store.compareAndSwap v.appID record.version v.fencingToken v) fun _ => .reconcilePending

/-- The text of `ErrOperationFailed`. -/
def operationFailedText : Bytes := ascii "broker operation failed"

/-- The record that `rollback` writes first. -/
def rollbackIntent (v prior : Deployment) (existed : Bool) (pending : Bytes)
    (routeMayPending : Bool) : Deployment :=
  { v with
    pendingInstance := pending, priorAbsent := priorInstanceAbsent existed prior.instanceID,
    priorRuleTarget := prior.ruleTarget, lastFailure := operationFailedText,
    phase := if routeMayPending then .routeReconcile else .cleanupPending,
    desiredRuleTarget := prior.ruleTarget }

/-- `rollback`: note the failure, go back, and return an error in any case. -/
def rollback (pending : Bytes) (routeMayPending : Bool) : RolloutM Unit := do
  let v := rollbackIntent record.value prior existed pending routeMayPending
  match ← Store.compareAndSwap v.appID record.version v.fencingToken v with
  | .error _ => .fail .operationFailed
  | .ok next =>
    let _ ← (reconcileRecord next).attempt
    .fail .operationFailed

/-- The last write of `publish`. -/
def publishActive (app : App) (digest pending : Bytes) : RolloutM Unit := do
  if ← requireObservationPersist then
    let _ ← orFail (← Store.compareAndSwap app.id record.version record.value.fencingToken
      { publishedRecord app.agentID app.image app.ruleRef app.generation digest pending
          record.value with appID := app.id }) fun _ => .reconcilePending
    return ()
  else abandonStalePublish record

def publishDraining (app runtimeApp : App) (digest pending : Bytes) : RolloutM Unit := do
  let record ← intent record .draining pending pending pending
  if ← requireObservationPersist then
    if existed then
      match ← Executor.drain record.value.fencingToken runtimeApp prior.instanceID with
      | .error _ => rollback record prior existed pending true
      | .ok _ => publishActive record app digest pending
    else publishActive record app digest pending
  else abandonStalePublish record

def publishCutover (app runtimeApp : App) (digest pending : Bytes) : RolloutM Unit := do
  if app.ruleRef ≠ [] then
    let record ← intent record .cutover pending prior.ruleTarget pending
    match ← Executor.cutover record.value.fencingToken app.ruleRef pending with
    | .error _ => rollback record prior existed pending true
    | .ok _ => publishDraining record prior existed app runtimeApp digest pending
  else publishDraining record prior existed app runtimeApp digest pending

def publishReadiness (app runtimeApp : App) (digest pending : Bytes) : RolloutM Unit := do
  let record ← intent record .readiness pending prior.ruleTarget prior.ruleTarget
  match ← Executor.ready record.value.fencingToken runtimeApp pending with
  | .error _ => rollback record prior existed pending false
  | .ok _ => publishCutover record prior existed app runtimeApp digest pending

/-- `Start`, on the app as the catalog has it. -/
def publishStart (app : App) (digest : Bytes) : RolloutM Unit := do
  let runtimeApp := texts.pinnedRuntimeApp app digest
  match ← Executor.start record.value.fencingToken runtimeApp with
  | (pending, some _) => rollback record prior existed pending false
  | (pending, none) => publishReadiness record prior existed app runtimeApp digest pending

def publishStarting (app : App) (digest : Bytes) : RolloutM Unit := do
  if ← requireObservationPersist then
    let record ← intent record .starting [] prior.ruleTarget []
    if ← requireObservationPersist then
      match ← bindLiveCatalogApp app with
      | none => abandonStalePublish record
      | some app => publishStart texts record prior existed app digest
    else abandonStalePublish record
  else abandonStalePublish record

/-- What `publish` does under its lease. -/
def publishLeased (app : App) (digest : Bytes) : RolloutM Unit := do
  if ← requireObservationPersist then
    match ← bindLiveCatalogApp app with
    | none => abandonStalePublish record
    | some app =>
      let runtimeApp := texts.pinnedRuntimeApp app digest
      match ← Executor.pull record.value.fencingToken runtimeApp with
      | .error _ => rollback record prior existed [] false
      | .ok _ => publishStarting texts record prior existed app digest
  else abandonStalePublish record

def publish (app : App) (digest : Bytes) : RolloutM Unit := do
  if texts.valid app = false then .fail .invalidPreview
  else
    let found ← loadRecord app.id
    let prior := found.getD {}
    let existed := found.isSome
    let now ← clock
    if rolloutBusy prior.value existed now then .fail .reconcilePending
    else if ← requireObservationPersist then
      let now ← clock
      let record ← orFail (← Store.acquireLease app.id prior.version
        (pullingIntent app digest prior.value existed) (now + leaseDuration))
        fun _ => .reconcilePending
      publishLeased texts record prior.value existed app digest
    else .fail .reconcilePending

/-! ## The operations -/

def Update (app : App) : RolloutM Unit := publish leaseDuration texts app []

def ConfirmUpdate (app : App) : RolloutM Unit := do
  if texts.valid app = false then .fail .invalidPreview
  else
    match ← loadRecord app.id with
    | none => .fail .invalidPreview
    | some record =>
      if record.value.availableDigest = [] then .fail .invalidPreview
      else if record.value.availableDigest = record.value.imageDigest then return ()
      else publish leaseDuration texts app record.value.availableDigest

def HealthRecover (app : App) : RolloutM Unit := do
  if texts.valid app = false then .fail .invalidPreview
  else
    let found ← loadRecord app.id
    let record := found.getD {}
    let now ← clock
    if rolloutBusy record.value found.isSome now then .fail .reconcilePending
    else if found.isSome ∧ record.value.imageDigest ≠ [] then
      publish leaseDuration texts
        { app with image := texts.pinImageDigest app.image record.value.imageDigest }
        record.value.imageDigest
    else publish leaseDuration texts app []

/-- `forgetGoneHistoryInstance`. -/
def forgetGoneHistoryInstance (history : List DeploymentRevision) (instanceID : Bytes) :
    RolloutM (List DeploymentRevision) := do
  if instanceID = [] ∨ history = [] then return history
  else
    match ← Executor.inspect record.value.fencingToken record.value.app record.value.ruleRef with
    | .error _ => return history
    | .ok state =>
      if instanceID ∈ state.instances then return history
      else return clearHistoryInstance history instanceID

/-- `restoreActive`: back to the record before a rollback to an earlier revision. -/
def restoreActive (original : Deployment) (routeMayPending : Bool) : RolloutM Unit :=
  let target := if original.ruleTarget = [] then original.instanceID else original.ruleTarget
  let store : RolloutM Unit := do
    let restored := { original with
      appID := record.value.appID, phase := .active, fencingToken := record.value.fencingToken,
      lease := [], leaseUntil := 0, pendingInstance := [], desiredRuleTarget := [] }
    let _ ← Store.compareAndSwap restored.appID record.version record.value.fencingToken restored
    .fail .operationFailed
  if routeMayPending ∧ original.ruleRef ≠ [] ∧ target ≠ [] then do
    let _ ← Executor.cutover record.value.fencingToken original.ruleRef target
    store
  else store

def abortHistoricalRollback (original : Deployment) (routeMayPending : Bool) : RolloutM Unit := do
  let history ← forgetGoneHistoryInstance record original.history record.value.pendingInstance
  restoreActive record { original with history } routeMayPending

/-- The record of a rollback to `rev` that went through. -/
def rolledBackRecord (appID : Bytes) (current : Deployment) (rev : DeploymentRevision)
    (fence : UInt64) : Deployment :=
  { appID, agentID := current.agentID, instanceID := rev.instanceID, image := rev.image,
    ruleRef := rev.ruleRef,
    ruleTarget := if rev.ruleTarget = [] then rev.instanceID else rev.ruleTarget,
    generation := rev.generation, phase := .active, fencingToken := fence,
    imageDigest := rev.imageDigest, history := current.history.dropLast }

/-- The rollback to an earlier revision whose instance is still there. -/
def historicalRollback (appID : Bytes) (record : DeploymentRecord) (current : Deployment)
    (rev : DeploymentRevision) : RolloutM Unit := do
  let now ← clock
  let leased ← orFail (← Store.acquireLease appID record.version
    (historicalRollbackIntent current rev) (now + leaseDuration)) fun _ => .reconcilePending
  let fence := leased.value.fencingToken
  let store : RolloutM Unit := do
    let _ ← orFail (← Store.compareAndSwap appID leased.version fence
      (rolledBackRecord appID current rev fence)) fun _ => .reconcilePending
    return ()
  match ← Executor.cutover fence rev.ruleRef rev.instanceID with
  | .error _ => abortHistoricalRollback leased current false
  | .ok _ =>
    if current.instanceID ≠ [] ∧ current.instanceID ≠ rev.instanceID then
      match ← Executor.drain fence current.app current.instanceID with
      | .error _ => abortHistoricalRollback leased current true
      | .ok _ => store
    else store

/-- `rollbackRepublishApp`. -/
def Texts.rollbackRepublishApp (app : App) (current : Deployment) (rev : DeploymentRevision) :
    App :=
  let image :=
    if rev.image ≠ [] then rev.image else if current.image ≠ [] then current.image else app.image
  let pinned := texts.pinImageDigest image rev.imageDigest
  { app with
    id := if current.appID = [] then app.id else current.appID,
    agentID := if app.agentID = [] then current.agentID else app.agentID, image := pinned,
    compose :=
      if app.compose = [] then app.compose
      else texts.pinComposeImagesForRef app.compose pinned rev.imageDigest,
    ruleRef := rev.ruleRef,
    generation := if rev.generation = [] then app.generation else rev.generation }

/-- The end of `Rollback`, with the revision to go back to. -/
def rollbackTo (appID : Bytes) (app : App) (record : DeploymentRecord) (current : Deployment)
    (rev : DeploymentRevision) : RolloutM Unit :=
  if rev.instanceID = [] ∨ rev.image = [] ∨ rev.ruleRef = [] then
    let target := texts.rollbackRepublishApp app current rev
    if texts.valid target = false then .fail .invalidPreview
    else publish leaseDuration texts target rev.imageDigest
  else historicalRollback leaseDuration appID record current rev

def Rollback (app : App) : RolloutM Unit := do
  let appID := trimSpace app.id
  if appID = [] then .fail .invalidPreview
  else
    match ← loadRecord appID with
    | none => .fail .invalidPreview
    | some record =>
      match record.value.history.getLast? with
      | none => .fail .invalidPreview
      | some rev =>
        let now ← clock
        if rolloutBusy record.value true now then .fail .reconcilePending
        else if rev.instanceID = [] then
          rollbackTo leaseDuration texts appID app record record.value rev
        else
          let history ← forgetGoneHistoryInstance record record.value.history rev.instanceID
          if history.getLast?.any (·.instanceID == []) then
            let current := { record.value with history }
            let _ ← orFail (← Store.compareAndSwap appID record.version current.fencingToken
              current) fun _ => .reconcilePending
            rollbackTo leaseDuration texts appID app record current { rev with instanceID := [] }
          else rollbackTo leaseDuration texts appID app record record.value rev

end Operations

/-! ## A cluster with true state

The surroundings of a rollout: a store that compares and swaps exactly, and an executor
whose calls act on instances and rules that are really there. Any executor call may fail,
before or after it took effect.

- `World.respond`: every answer the surroundings may give;
- `World.behave`: the one they give when nothing fails.
-/

/-- `target` of a rule is empty where the rule has none; `candidate` is an instance that was
started and not taken away since; `issued` are the names given to instances so far. -/
structure World where
  store : DeploymentSnapshot
  instances : List Bytes
  rules : Bytes → Bytes
  candidate : Bytes
  issued : List Bytes
  now : Time

namespace World

variable (w : World)

/-- The target of a rule; the empty reference names no rule. -/
def target (ruleRef : Bytes) : Bytes := if ruleRef = [] then [] else w.rules ruleRef

def observe (ruleRef : Bytes) : RuntimeState :=
  ⟨w.target ruleRef, w.candidate, w.instances⟩

def launch (q : Bytes) : World :=
  { w with instances := q :: w.instances, candidate := q, issued := q :: w.issued }

def route (ruleRef target : Bytes) : World :=
  { w with rules := Function.update w.rules ruleRef target }

def delete (q : Bytes) : World :=
  { w with
    instances := w.instances.filter (· != q),
    candidate := if w.candidate = q then [] else w.candidate }

/-- A name for an instance that was not given out before. -/
def Fresh (q : Bytes) : Prop := q ≠ [] ∧ q ∉ w.issued

/-- The outcome of a store call. -/
def stored {α : Type} (w : World) (outcome : Except DeploymentError (α × DeploymentSnapshot)) :
    Except Failure α × World :=
  match outcome with
  | .ok (a, store) => (.ok a, { w with store })
  | .error _ => (.error .stateConflict, w)

def deleted (outcome : Except DeploymentError DeploymentSnapshot) : Except Failure Unit × World :=
  match outcome with
  | .ok store => (.ok (), { w with store })
  | .error _ => (.error .stateConflict, w)

/-- A call with an effect: it succeeds, or fails before or after the effect. -/
def Attempted (effect : World) (answer : Except Failure Unit) (w' : World) : Prop :=
  match answer with
  | .ok _ => w' = effect
  | .error _ => w' = w ∨ w' = effect

theorem Attempted.cases {w effect w' : World} {answer : Except Failure Unit}
    (h : w.Attempted effect answer w') : w' = w ∨ w' = effect := by
  cases answer with
  | ok a => exact .inr h
  | error e => exact h

/-- The answers the surroundings may give. -/
def respond : (c : RolloutCall) → RolloutAnswer c → World → Prop
  | .load id, answer, w' => answer = .ok (w.store.records.lookup id) ∧ w' = w
  | .acquireLease id version value until_, answer, w' =>
    (answer, w') = w.stored (w.store.acquireLease id version value until_)
  | .compareAndSwap id version fence value, answer, w' =>
    (answer, w') = w.stored (w.store.compareAndSwap id version fence value)
  | .deleteCAS id version fence, answer, w' =>
    (answer, w') = w.deleted (w.store.deleteCAS id version fence)
  | .pull _ _, _, w' => w' = w
  | .start _ _, answer, w' =>
    (answer.1 = [] ∧ answer.2.isSome ∧ w' = w) ∨
      ∃ q, w.Fresh q ∧ w' = w.launch q ∧ (answer.1 = q ∨ (answer.1 = [] ∧ answer.2.isSome))
  | .ready _ _ _, _, w' => w' = w
  | .cutover _ ruleRef target, answer, w' => w.Attempted (w.route ruleRef target) answer w'
  | .drain _ _ instanceID, answer, w' => w.Attempted (w.delete instanceID) answer w'
  | .remove _ _ instanceID, answer, w' => w.Attempted (w.delete instanceID) answer w'
  | .inspect _ _ ruleRef, answer, w' =>
    w' = w ∧ ∀ state, answer = .ok state → state = w.observe ruleRef
  | .now, answer, w' => w.now ≤ answer ∧ w' = { w with now := answer }
  | .live, _, w' => w' = w

/-- A name longer than all that were given out. -/
def freshName : Bytes := List.replicate ((w.issued.map List.length).sum + 1) (ch 'i')

theorem fresh_freshName : w.Fresh w.freshName := by
  refine ⟨by simp [freshName, List.replicate_succ], ?_⟩
  intro hmem
  have hle : w.freshName.length ≤ (w.issued.map List.length).sum :=
    List.single_le_sum (by simp) _ (List.mem_map_of_mem hmem)
  simp [freshName] at hle

/-- The name `Start` gives: the wanted one, if it is free. -/
def nextName (wanted : Bytes) : Bytes :=
  if wanted = [] ∨ wanted ∈ w.issued then w.freshName else wanted

theorem fresh_nextName (wanted : Bytes) : w.Fresh (w.nextName wanted) := by
  unfold nextName
  split_ifs with h
  · exact w.fresh_freshName
  · exact not_or.mp h

theorem nextName_of_fresh {w : World} {q : Bytes} (h : w.Fresh q) : w.nextName q = q :=
  if_neg (not_or.mpr h)

/-- The answers when nothing fails and no guard is set. The next instance is called `wanted`
where that name is free. -/
def behave (wanted : Bytes) (w : World) : (c : RolloutCall) → RolloutAnswer c × World
  | .load id => (.ok (w.store.records.lookup id), w)
  | .acquireLease id version value until_ =>
    w.stored (w.store.acquireLease id version value until_)
  | .compareAndSwap id version fence value =>
    w.stored (w.store.compareAndSwap id version fence value)
  | .deleteCAS id version fence => w.deleted (w.store.deleteCAS id version fence)
  | .pull _ _ => (.ok (), w)
  | .start _ _ => ((w.nextName wanted, none), w.launch (w.nextName wanted))
  | .ready _ _ _ => (.ok (), w)
  | .cutover _ ruleRef target => (.ok (), w.route ruleRef target)
  | .drain _ _ instanceID => (.ok (), w.delete instanceID)
  | .remove _ _ instanceID => (.ok (), w.delete instanceID)
  | .inspect _ _ ruleRef => (.ok (w.observe ruleRef), w)
  | .now => (w.now, w)
  | .live => (none, w)

/-- Surroundings that behave are among those that may fail. -/
theorem respond_behave (wanted : Bytes) (w : World) (c : RolloutCall) :
    w.respond c (w.behave wanted c).1 (w.behave wanted c).2 := by
  cases c with
  | load => exact ⟨rfl, rfl⟩
  | acquireLease | compareAndSwap | deleteCAS | pull => rfl
  | start => exact .inr ⟨w.nextName wanted, w.fresh_nextName wanted, rfl, .inl rfl⟩
  | ready | cutover | drain | remove => rfl
  | inspect =>
    refine ⟨rfl, ?_⟩
    rintro state h
    exact (Except.ok.inj h).symm
  | now => exact ⟨Nat.le_refl _, rfl⟩
  | live => rfl

/-! ## What the effects change -/

theorem target_route_self {ruleRef : Bytes} (h : ruleRef ≠ []) (target : Bytes) :
    (w.route ruleRef target).target ruleRef = target := by
  show (if ruleRef = [] then [] else Function.update w.rules ruleRef target ruleRef) = target
  rw [if_neg h, Function.update_self]

theorem target_route_ne {ruleRef other : Bytes} (h : other ≠ ruleRef)
    (target : Bytes) : (w.route ruleRef target).target other = w.target other := by
  show (if other = [] then [] else Function.update w.rules ruleRef target other) = w.target other
  rw [Function.update_of_ne h]
  rfl

@[simp] theorem target_launch (q ruleRef : Bytes) :
    (w.launch q).target ruleRef = w.target ruleRef := rfl

theorem mem_instances_delete {w : World} {p q : Bytes} :
    p ∈ (w.delete q).instances ↔ p ∈ w.instances ∧ p ≠ q := by
  simp [delete]

end World

end NrePlugins.DockerApp
