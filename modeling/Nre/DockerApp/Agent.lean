import Nre.DockerApp.Reconciled

/-!
# Rollouts on an Agent

The executor that runs in production: `hostRolloutRuntime` on the control plane and
`callCompose` on the Agent. `Start` and `Inspect` send no instance id, so the Agent takes the id
of the app for every instance; `Inspect` reports that one instance and no rule target, whatever
docker and the rules look like. Docker commands succeed or fail (`docker`).

Every instance has the same name, so a removal of the new instance is one of the instance to
fall back to (`update_removes_fallback`). What saves most apps is the history: where it names
the instance of the app, `reconcileRecord` takes the rollout for a rollback to an earlier
revision and removes nothing (`Rehearsed`, `removals_harmless`); a failed rollout of another app
removes it (`spares_reconcileRecord_iff`).
-/

namespace NrePlugins.DockerApp

open List
open DeploymentSnapshot

/-! ## Names -/

def boundedText (value : Bytes) (maximum : Nat) : Bool :=
  value != [] && decide (value.length ≤ maximum) && !value.any ([0, ch '\r', ch '\n'].contains ·)

def validAgentID (value : Bytes) : Bool := boundedText value 128

def validID (value : Bytes) : Bool :=
  value != [] && decide (value.length ≤ 64) && value.head? != some (ch '-') &&
    value.getLast? != some (ch '-') &&
    value.all fun current => within (ch 'a') (ch 'z') current || within (ch '0') (ch '9') current ||
      current == ch '-'

/-! ## The executor -/

/-- What docker, and the files it needs, come to in one call. -/
abbrev Docker := Except Failure Unit

/-- The instance of a request in `callCompose`. -/
def requestInstance (instanceID appID : Bytes) : Bytes :=
  if trimSpace instanceID = [] then appID else trimSpace instanceID

/-- `composeApp` with `callCompose` at its other end. -/
def composeApp (app : App) (docker : Docker) : Except Failure Unit :=
  if validAgentID app.agentID = false then .error .executor
  else if validID app.id = false then .error .executor
  else docker

namespace HostRolloutRuntime

/-- `hostRolloutRuntime.Start`: the request has no instance id. -/
def start (app : App) (docker : Docker) : Bytes × Option Failure :=
  match composeApp app docker with
  | .error e => ([], some e)
  | .ok _ =>
    let instanceID := requestInstance [] app.id
    if trimSpace instanceID = [] then ([], some .typedHandlesUnavailable) else (instanceID, none)

/-- `hostRolloutRuntime.Inspect`. -/
def inspect (app : App) (docker : Docker) : Except Failure RuntimeState :=
  match composeApp app docker with
  | .error e => .error e
  | .ok _ =>
    let instanceID := requestInstance [] app.id
    .ok { candidateInstance := instanceID, instances := [instanceID] }

end HostRolloutRuntime

/-- The control plane: the stored records, the targets of the rules, the time. -/
structure Site where
  store : DeploymentSnapshot
  rules : Bytes → Bytes
  now : Time

open HostRolloutRuntime

variable {α : Type}

namespace Site

/-- The outcome of a store call, or a failure without effect. -/
def Stored (w : Site) (outcome : Except DeploymentError (α × DeploymentSnapshot))
    (answer : Except Failure α) (w' : Site) : Prop :=
  match answer, outcome with
  | .ok a, .ok (b, store) => a = b ∧ w' = { w with store }
  | .ok _, .error _ => False
  | .error _, _ => w' = w

def route (w : Site) (ruleRef target : Bytes) : Site :=
  { w with rules := Function.update w.rules ruleRef target }

/-- The answers of the store, of the Agent and of the rules. A cutover may fail before or after
it took effect; one without a rule does nothing. -/
def respond (w : Site) : (c : RolloutCall) → RolloutAnswer c → Site → Prop
  | .load id, answer, w' =>
    (answer = .ok (w.store.records.lookup id) ∨ ∃ e, answer = .error e) ∧ w' = w
  | .acquireLease id version value until_, answer, w' =>
    w.Stored (w.store.acquireLease id version value until_) answer w'
  | .compareAndSwap id version fence value, answer, w' =>
    w.Stored (w.store.compareAndSwap id version fence value) answer w'
  | .deleteCAS id version fence, answer, w' =>
    w.Stored ((w.store.deleteCAS id version fence).map ((), ·)) answer w'
  | .pull _ app, answer, w' => (∃ docker, answer = composeApp app docker) ∧ w' = w
  | .start _ app, answer, w' => (∃ docker, answer = start app docker) ∧ w' = w
  | .ready _ app _, answer, w' => (∃ docker, answer = composeApp app docker) ∧ w' = w
  | .cutover _ ruleRef target, answer, w' =>
    if trimSpace ruleRef = [] then answer = .ok () ∧ w' = w
    else match answer with
      | .ok _ => w' = w.route ruleRef target
      | .error _ => w' = w ∨ w' = w.route ruleRef target
  | .drain _ app _, answer, w' => (∃ docker, answer = composeApp app docker) ∧ w' = w
  | .remove _ app _, answer, w' => (∃ docker, answer = composeApp app docker) ∧ w' = w
  | .inspect _ app _, answer, w' =>
    (∃ docker, answer = inspect app docker) ∧ w' = w
  | .now, answer, w' => w.now ≤ answer ∧ w' = { w with now := answer }
  | .live, _, w' => w' = w

end Site

/-- An operation that a caller asks for. -/
inductive Request where
  | update (app : App)
  | confirmUpdate (app : App)
  | healthRecover (app : App)
  | rollback (app : App)
  | reconcile (appID : Bytes)

namespace Request

def program (leaseDuration : Time) (texts : Texts) : Request → RolloutM Unit
  | update app => Update leaseDuration texts app
  | confirmUpdate app => ConfirmUpdate leaseDuration texts app
  | healthRecover app => HealthRecover leaseDuration texts app
  | rollback app => Rollback leaseDuration texts app
  | reconcile appID => Reconcile leaseDuration appID

/-- The id of the record that the operation loads. -/
def id : Request → Bytes
  | update app => app.id
  | confirmUpdate app => app.id
  | healthRecover app => app.id
  | rollback app => trimSpace app.id
  | reconcile appID => appID

end Request

/-- The removed instance is not the one to fall back to, and no rule of the record targets it. -/
def Harmless (w : Site) (app : App) (instanceID : Bytes) : Prop :=
  ∀ r, w.store.records.lookup app.id = some r →
    instanceID ≠ fallbackInstance r.value ∧
      (r.value.ruleRef ≠ [] → w.rules r.value.ruleRef ≠ instanceID) ∧
      (r.value.priorRuleRef ≠ [] → w.rules r.value.priorRuleRef ≠ instanceID)

/-- If the call is a removal, it is harmless. -/
def Sparing (w : Site) : RolloutCall → Prop
  | .remove _ app instanceID => Harmless w app instanceID
  | _ => True

/-- The history names the instance of the app. -/
def Rehearsed (v : Deployment) : Prop := v.history.any (·.instanceID == v.appID) = true

/-- The app was updated since it was first published or last rolled back. -/
def Site.Rehearsed (w : Site) (id : Bytes) : Prop :=
  id ≠ [] ∧ ∃ r, w.store.records.lookup id = some r ∧ r.value.appID = id ∧ DockerApp.Rehearsed r.value

/-- A run of operations, each stopped somewhere or brought to its end, with the calls they made.
Each operation starts on a record that is rehearsed. -/
inductive Served (leaseDuration : Time) (texts : Texts) (start : Site) :
    List (Site × RolloutCall) → Site → Prop
  | start : Served leaseDuration texts start [] start
  | serve {calls more : List (Site × RolloutCall)} {w w' : Site} {request : Request} :
      Served leaseDuration texts start calls w → w.Rehearsed request.id →
      Makes Site.respond w (request.program leaseDuration texts) more w' →
      Served leaseDuration texts start (calls ++ more) w'

/-! ## What the answers say -/

variable {id : Bytes} {version fence : UInt64} {v : Deployment} {w w' : Site} {r : DeploymentRecord}

theorem Site.Stored.ok {outcome : Except DeploymentError (α × DeploymentSnapshot)} {a : α}
    (h : w.Stored outcome (.ok a) w') : ∃ store, outcome = .ok (a, store) := by
  cases outcome with
  | error e => exact h.elim
  | ok pair => exact ⟨pair.2, by rw [h.1]⟩

theorem swapped_of_stored (h : w.Stored (w.store.compareAndSwap id version fence v) (.ok r) w') :
    r = swapped id version fence v := by
  obtain ⟨store, hok⟩ := h.ok
  unfold compareAndSwap at hok
  split_ifs at hok
  exact (Prod.mk.inj (Except.ok.inj hok)).1.symm

theorem leased_of_stored {until_ : Time}
    (h : w.Stored (w.store.acquireLease id version v until_) (.ok r) w') :
    ∃ token, r = leased id version token v until_ := by
  obtain ⟨store, hok⟩ := h.ok
  unfold acquireLease at hok
  split_ifs at hok
  exact ⟨_, (Prod.mk.inj (Except.ok.inj hok)).1.symm⟩

/-- The Agent reports one instance, with the name of the app. -/
theorem inspect_ok {app : App} {docker : Docker} {state : RuntimeState}
    (h : inspect app docker = .ok state) :
    state = { candidateInstance := app.id, instances := [app.id] } := by
  unfold inspect at h
  split at h
  · cases h
  · exact (Except.ok.inj h).symm

/-! ## Programs that spare the instance -/

/-- Every call of the program is sparing, and `kept` holds of what it returns. -/
abbrev SparesTo (kept : α → Prop) (p : RolloutM α) (w : Site) : Prop :=
  Cautious Site.respond Sparing (fun _ a => kept a) p w

abbrev Spares (p : RolloutM α) (w : Site) : Prop := SparesTo (fun _ => True) p w

variable {state : RuntimeState} {priorInstance pending : Bytes} {priorExists pendingExists : Bool}

/-- The rest of the program does not care about what a call answers. -/
theorem spares_ask {c : RolloutCall} {f : RolloutAnswer c → RolloutM α}
    (hc : Sparing w c) (h : ∀ answer w', Spares (f answer) w') : Spares (Prog.ask c >>= f) w :=
  Cautious.ask hc fun answer w' _ => h answer w'

theorem spares_release {e : Failure} : Spares (release r e) w := by
  exact spares_ask trivial (by rintro (_ | _) _ <;> trivial)

/-- A write keeps all but the token. -/
theorem spares_persistValue :
    SparesTo (fun next => next.value = { v with fencingToken := fence }) (persistValue r fence v)
      w := by
  refine Cautious.ask trivial ?_
  rintro (e | next) w' hresp
  · trivial
  · exact congrArg DeploymentRecord.value (swapped_of_stored hresp)

theorem spares_write : Spares (do let _ ← persistValue r fence v; return ()) w :=
  Cautious.bind (spares_persistValue.mono fun _ _ _ => trivial)

theorem spares_orRelease {answer : Except Failure Unit} {next : RolloutM Unit}
    (h : ∀ w, Spares next w) : Spares (orRelease answer r next) w := by
  cases answer with
  | ok a => exact h w
  | error e => exact spares_release

theorem spares_storeNew : Spares (storeNew r v pending) w := by
  refine spares_ask trivial ?_
  rintro (e | post) w'
  · exact spares_release
  · dsimp only
    split_ifs
    · exact spares_release
    · exact spares_write

theorem spares_finishNew : Spares (finishNew r v priorInstance pending priorExists) w := by
  unfold finishNew
  split_ifs
  · exact spares_ask trivial fun _ _ => spares_orRelease fun _ => spares_storeNew
  · exact spares_storeNew

theorem spares_restoreHistoricalPrior :
    Spares (restoreHistoricalPrior r v state priorInstance pending pendingExists) w := by
  have hstore : ∀ w, Spares (storeHistoricalPrior r v priorInstance pending pendingExists) w :=
    fun _ => spares_write
  unfold restoreHistoricalPrior
  split_ifs
  · exact spares_release
  · exact spares_ask trivial fun _ _ => spares_orRelease hstore
  · exact hstore w

theorem spares_storePrior : Spares (storePrior r v priorInstance pending) w := by
  refine spares_ask trivial ?_
  rintro (e | post) w'
  · exact spares_release
  · dsimp only
    split_ifs
    · exact spares_release
    · unfold storeAbsent
      split_ifs
      · exact spares_release
      · exact spares_write
      · exact spares_ask trivial (by rintro (_ | _) _ <;> trivial)
    · unfold storePresent
      split_ifs
      · exact spares_release
      · exact spares_write

/-- The way back removes nothing where the new instance is not there. -/
theorem spares_restorePrior :
    Spares (restorePrior r v state priorInstance pending priorExists false) w := by
  have hremove : ∀ w, Spares (removeNew r v priorInstance pending false) w :=
    fun _ => spares_storePrior
  unfold restorePrior
  split_ifs
  · exact spares_release
  · exact spares_ask trivial fun _ _ => spares_orRelease hremove
  · exact hremove w
  · exact spares_release
  · exact hremove w

/-- The new instance is there only under the name of the app, and then the history makes the
rollout one that removes nothing. -/
theorem spares_reconcileKnown (hv : Rehearsed v) (hid : v.appID ≠ []) :
    Spares (reconcileKnown r v { candidateInstance := v.appID, instances := [v.appID] }
      v.pendingInstance) w := by
  unfold reconcileKnown
  dsimp only
  by_cases hpending : v.pendingInstance = v.appID
  · have hhistorical : historicalRollbackPending v = true := by
      rw [historicalRollbackPending, hpending, Bool.and_eq_true, bne_iff_ne]
      exact ⟨hid, hv⟩
    split_ifs
    · exact spares_release
    · exact spares_finishNew
    · exact spares_restoreHistoricalPrior
  · have hgone : (v.pendingInstance != [] && decide (v.pendingInstance ∈ [v.appID])) = false := by
      simp [hpending]
    rw [hgone]
    split_ifs
    · exact spares_release
    · exact spares_finishNew
    · exact spares_restoreHistoricalPrior
    · exact spares_restorePrior

theorem spares_reconcileRecord (hv : Rehearsed r.value) (hid : r.value.appID ≠ []) :
    Spares (reconcileRecord r) w := by
  refine Cautious.ask trivial ?_
  rintro answer w' ⟨⟨docker, rfl⟩, -⟩
  cases hinspect : inspect r.value.app docker with
  | error e => exact spares_release
  | ok state =>
    obtain rfl := inspect_ok hinspect
    dsimp only
    split_ifs with hpending hcandidate hne
    · -- the record takes the name of the app for the new instance
      refine Cautious.bind (spares_persistValue.mono ?_)
      rintro w'' next hnext
      exact spares_reconcileKnown (v := r.value.withPending r.value.appID) hv hid
    · rw [not_not] at hcandidate
      have hknown := spares_reconcileKnown (r := r) (w := w') hv hid
      rw [← hcandidate] at hknown
      exact hknown
    · exact absurd rfl hne
    · exact spares_reconcileKnown hv hid

/-! ### The condition is needed -/

/-- The rollout of an app that runs has failed before the rule was cut over. -/
structure Failed (v : Deployment) : Prop where
  agent : validAgentID v.agentID = true
  id : validID v.appID = true
  phase : v.phase = .cleanupPending
  pending : v.pendingInstance = v.appID
  present : v.priorAbsent = false
  prior : v.priorInstance = v.appID

/-- The new instance has the name of the one to fall back to. -/
theorem not_spares_removeNew (hr : w.store.records.lookup r.value.appID = some r)
    (hfallback : fallbackInstance r.value = pending) :
    ¬ Spares (removeNew r r.value priorInstance pending true) w := by
  intro h
  let next := swapped r.value.appID r.version r.value.fencingToken r.value.cleaningUp
  have hresp : w.Stored (w.store.compareAndSwap r.value.appID r.version r.value.fencingToken
      r.value.cleaningUp) (.ok next)
        { w with store := w.store.setRecord r.value.appID next } := by
    rw [compareAndSwap, record, hr, if_neg (by simp)]
    exact ⟨rfl, rfl⟩
  have hremove := h.2 (.ok next) _ hresp
  exact (hremove.1 next (lookup_setRecord_self _ _ _)).1 hfallback.symm

/-- Going back from such a rollout does no harm exactly if the record is rehearsed. -/
theorem spares_reconcileRecord_iff (hv : Failed r.value)
    (hr : w.store.records.lookup r.value.appID = some r) :
    Spares (reconcileRecord r) w ↔ Rehearsed r.value := by
  have hne : r.value.appID ≠ [] := by
    intro hnil
    have hid := hv.id
    rw [hnil] at hid
    cases hid
  refine ⟨fun h => ?_, fun hrehearsed => spares_reconcileRecord hrehearsed hne⟩
  by_contra hnot
  have hinspect : inspect r.value.app (.ok ()) = .ok ⟨[], r.value.appID, [r.value.appID]⟩ := by
    rw [inspect, composeApp, if_neg (by simp [Deployment.app, hv.agent]),
      if_neg (by simp [Deployment.app, hv.id])]
    rfl
  have hfallback : fallbackInstance r.value = r.value.appID := by
    rw [fallbackInstance, hv.prior, if_neg hne]
  have hhistory : historicalRollbackPending r.value = false := by
    simpa [historicalRollbackPending, hv.pending, hne, Rehearsed] using hnot
  have hfinish : ∀ state, canFinish r.value state r.value.appID = false := by
    simp [canFinish, hv.phase]
  have hnamed : (r.value.appID != []) = true := bne_iff_ne.mpr hne
  have hknown : Spares (reconcileKnown r r.value ⟨[], r.value.appID, [r.value.appID]⟩
      r.value.appID) w := by
    have hnext := h.2 _ w ⟨⟨.ok (), hinspect.symm⟩, rfl⟩
    change Spares (if (if r.value.pendingInstance = [] then _ else _) ≠ _ then _ else _) w at hnext
    rwa [hv.pending, if_neg hne, if_neg (not_not.mpr rfl)] at hnext
  simp only [reconcileKnown, restorePrior, hhistory, hfinish, hv.present, hfallback, hnamed, ne_eq,
    not_true_eq_false, false_and, if_false, Bool.false_eq_true, if_true, Bool.not_false,
    Bool.and_self, mem_singleton, decide_true, Bool.true_eq_false] at hknown
  have hremove : ∀ w', w'.store = w.store →
      ¬ Spares (removeNew r r.value r.value.appID r.value.appID true) w' :=
    fun w' hstore => not_spares_removeNew (hstore ▸ hr) hfallback
  split_ifs at hknown
  · by_cases hblank : trimSpace r.value.priorRuleRef = []
    · exact hremove w rfl (hknown.2 (.ok ()) w ((if_pos hblank).mpr ⟨rfl, rfl⟩))
    · exact hremove (w.route _ _) rfl (hknown.2 (.ok ()) _ ((if_neg hblank).mpr rfl))
  · exact hremove w rfl hknown

/-! ## Publishing -/

/-- The record is rehearsed, under a name. -/
structure Ready (r : DeploymentRecord) : Prop where
  rehearsed : Rehearsed r.value
  named : r.value.appID ≠ []

/-- Another phase of the same rollout is written. -/
theorem spares_swap {kept : Site → α → Prop}
    {next : Except Failure DeploymentRecord → RolloutM α} (hr : Ready r)
    (hid : v.appID = r.value.appID) (hhistory : v.history = r.value.history)
    (hfail : ∀ e w', Cautious Site.respond Sparing kept (next (.error e)) w')
    (hnext : ∀ r' w', Ready r' → Cautious Site.respond Sparing kept (next (.ok r')) w') :
    Cautious Site.respond Sparing kept (Store.compareAndSwap v.appID version fence v >>= next)
      w := by
  refine Cautious.ask trivial ?_
  rintro (e | r') w' hresp
  · exact hfail e w'
  · refine hnext r' w' ?_
    obtain rfl := swapped_of_stored hresp
    refine ⟨?_, (hid ▸ hr.named : v.appID ≠ [])⟩
    show v.history.any (·.instanceID == v.appID) = true
    rw [hid, hhistory]
    exact hr.rehearsed

theorem spares_intent {next : DeploymentRecord → RolloutM α} (hr : Ready r)
    {phase : RolloutPhase} (hnext : ∀ r' w', Ready r' → Spares (next r') w') :
    Spares (intent r phase pending actual desired >>= next) w :=
  Cautious.bind (spares_swap (v := intentValue r.value phase pending actual desired) hr rfl
    rfl (fun _ _ => trivial) hnext)

theorem spares_rollback (hr : Ready r) {prior : Deployment} {existed routeMayPending : Bool} :
    Spares (rollback r prior existed pending routeMayPending) w := by
  refine spares_swap (v := rollbackIntent r.value prior existed pending routeMayPending) hr rfl
    rfl (fun _ _ => trivial) ?_
  intro r' w' hr'
  refine Cautious.bind (Cautious.attempt (fun _ _ => trivial) ?_)
  exact (spares_reconcileRecord hr'.rehearsed hr'.named).mono fun _ _ _ => trivial

theorem spares_require {next : Bool → RolloutM α}
    (h : ∀ b w', Spares (next b) w') : Spares (requireObservationPersist >>= next) w :=
  spares_ask trivial fun _ w' => h _ w'

theorem spares_abandon : Spares (abandonStalePublish r) w := by
  unfold abandonStalePublish
  split_ifs
  · exact spares_ask trivial fun _ _ => trivial
  · trivial

section Stages

variable {prior : Deployment} {existed : Bool} {app runtimeApp : App} {digest : Bytes}
  {texts : Texts}

theorem spares_publishActive : Spares (publishActive r app digest pending) w := by
  refine spares_require ?_
  intro live w'
  split_ifs
  · exact spares_ask trivial (by rintro (_ | _) _ <;> trivial)
  · exact spares_abandon

theorem spares_publishDraining (hr : Ready r) :
    Spares (publishDraining r prior existed app runtimeApp digest pending) w := by
  refine spares_intent hr ?_
  intro r' w' hr'
  refine spares_require ?_
  intro live w''
  split_ifs
  · refine spares_ask trivial ?_
    rintro (e | a) w₃
    · exact spares_rollback hr'
    · exact spares_publishActive
  · exact spares_publishActive
  · exact spares_abandon

theorem spares_publishCutover (hr : Ready r) :
    Spares (publishCutover r prior existed app runtimeApp digest pending) w := by
  unfold publishCutover
  split_ifs
  · refine spares_intent hr ?_
    intro r' w' hr'
    refine spares_ask trivial ?_
    rintro (e | a) w''
    · exact spares_rollback hr'
    · exact spares_publishDraining hr'
  · exact spares_publishDraining hr

theorem spares_publishReadiness (hr : Ready r) :
    Spares (publishReadiness r prior existed app runtimeApp digest pending) w := by
  refine spares_intent hr ?_
  intro r' w' hr'
  refine spares_ask trivial ?_
  rintro (e | a) w''
  · exact spares_rollback hr'
  · exact spares_publishCutover hr'

theorem spares_publishStart (hr : Ready r) :
    Spares (publishStart texts r prior existed app digest) w := by
  refine spares_ask trivial ?_
  intro answer w'
  obtain ⟨pending, failure⟩ := answer
  cases failure with
  | none => exact spares_publishReadiness hr
  | some e => exact spares_rollback hr

theorem spares_bindLive {next : Option App → RolloutM Unit}
    (h : ∀ found w', Spares (next found) w') : Spares (bindLiveCatalogApp app >>= next) w := by
  refine Cautious.bind (Cautious.ask trivial ?_)
  rintro (live : Option (Option App)) w' -
  match live with
  | none | some none | some (some live) => exact h _ w'

theorem spares_publishStarting (hr : Ready r) :
    Spares (publishStarting texts r prior existed app digest) w := by
  refine spares_require ?_
  intro live w'
  split_ifs
  · refine spares_intent hr ?_
    intro r' w' hr'
    refine spares_require ?_
    intro live w''
    split_ifs
    · refine spares_bindLive ?_
      rintro (_ | app) w₃
      · exact spares_abandon
      · exact spares_publishStart hr'
    · exact spares_abandon
  · exact spares_abandon

theorem spares_publishLeased (hr : Ready r) :
    Spares (publishLeased texts r prior existed app digest) w := by
  refine spares_require ?_
  intro live w'
  split_ifs
  · refine spares_bindLive ?_
    rintro (_ | app) w''
    · exact spares_abandon
    · refine spares_ask trivial ?_
      rintro (e | a) w₃
      · exact spares_rollback hr
      · exact spares_publishStarting hr
  · exact spares_abandon

end Stages

/-- The first lease of an operation on a rehearsed record. -/
theorem spares_acquire {next : Except Failure DeploymentRecord → RolloutM Unit} {until_ : Time}
    (hid : id ≠ []) (hv : v.history.any (·.instanceID == id) = true)
    (hfail : ∀ e w', Spares (next (.error e)) w')
    (hnext : ∀ r' w', Ready r' → Spares (next (.ok r')) w') :
    Spares (Store.acquireLease id version v until_ >>= next) w := by
  refine Cautious.ask trivial ?_
  rintro (e | r') w' hresp
  · exact hfail e w'
  · refine hnext r' w' ?_
    obtain ⟨token, rfl⟩ := leased_of_stored hresp
    exact ⟨hv, hid⟩

/-- Loading the record that is there. -/
theorem spares_load {next : Option DeploymentRecord → RolloutM Unit}
    (h : Spares (next (w.store.records.lookup id)) w) : Spares (loadRecord id >>= next) w := by
  refine Cautious.bind (Cautious.ask trivial ?_)
  rintro answer w' ⟨hanswer, hw⟩
  obtain rfl : w' = w := hw
  rcases hanswer with rfl | ⟨e, rfl⟩
  · exact h
  · trivial

theorem spares_publish {app : App} (happ : app.id = id) (hw : w.Rehearsed id)
    {leaseDuration : Time} {texts : Texts} {digest : Bytes} :
    Spares (publish leaseDuration texts app digest) w := by
  subst happ
  obtain ⟨hid, r, hlookup, happID, hr⟩ := hw
  unfold publish
  split_ifs
  · trivial
  · refine spares_load ?_
    rw [hlookup]
    refine spares_ask trivial ?_
    intro now w'
    split_ifs
    · trivial
    · refine spares_require ?_
      intro live w''
      split_ifs
      · refine spares_ask trivial ?_
        intro now w₃
        exact spares_acquire hid (happID ▸ hr) (fun _ _ => trivial) fun _ _ => spares_publishLeased
      · trivial

/-! ## The operations -/

section Operations

variable {leaseDuration : Time} {texts : Texts} {app : App}

theorem spares_ConfirmUpdate (hw : w.Rehearsed app.id) :
    Spares (ConfirmUpdate leaseDuration texts app) w := by
  obtain ⟨hid, r, hlookup, happID, hr⟩ := hw
  unfold ConfirmUpdate
  split_ifs
  · trivial
  · refine spares_load ?_
    rw [hlookup]
    dsimp only
    split_ifs
    · trivial
    · trivial
    · exact spares_publish rfl ⟨hid, r, hlookup, happID, hr⟩

/-- A rehearsed world stays so as time passes. -/
theorem Site.Rehearsed.later (hw : w.Rehearsed id) (t : Time) :
    Site.Rehearsed { w with now := t } id := hw

theorem spares_clock {next : Time → RolloutM Unit}
    (h : ∀ t, Spares (next t) { w with now := t }) : Spares (clock >>= next) w := by
  refine Cautious.ask trivial ?_
  rintro (t : Time) w' ⟨-, hw'⟩
  obtain rfl : w' = { w with now := t } := hw'
  exact h t

theorem spares_HealthRecover (hw : w.Rehearsed app.id) :
    Spares (HealthRecover leaseDuration texts app) w := by
  unfold HealthRecover
  split_ifs
  · trivial
  · refine spares_load (spares_clock ?_)
    intro t
    split_ifs
    · trivial
    · exact spares_publish (by rfl) (hw.later t)
    · exact spares_publish rfl (hw.later t)

theorem spares_Reconcile (hw : w.Rehearsed id) : Spares (Reconcile leaseDuration id) w := by
  obtain ⟨hid, r, hlookup, happID, hr⟩ := hw
  refine spares_load ?_
  rw [hlookup]
  refine spares_ask trivial ?_
  intro now w'
  split_ifs
  · trivial
  · refine spares_ask trivial ?_
    intro now w''
    exact spares_acquire hid (happID ▸ hr) (fun _ _ => trivial) fun _ _ hr' =>
      spares_reconcileRecord hr'.rehearsed hr'.named

/-- Histories that a look at the Agent leaves: it never forgets the instance of the app. -/
def Remembers (appID : Bytes) (history history' : List DeploymentRevision) : Prop :=
  history.any (·.instanceID == appID) = true → history'.any (·.instanceID == appID) = true

theorem remembers_clear {appID instanceID : Bytes} (hne : instanceID ≠ appID)
    (history : List DeploymentRevision) :
    Remembers appID history (clearHistoryInstance history instanceID) := by
  intro hany
  unfold clearHistoryInstance
  split_ifs
  · exact hany
  · rw [any_eq_true] at hany
    obtain ⟨rev, hmem, hrev⟩ := hany
    rw [beq_iff_eq] at hrev
    rw [any_map, any_eq_true]
    refine ⟨rev, hmem, ?_⟩
    show ((if rev.instanceID = instanceID then { rev with instanceID := [] } else rev).instanceID ==
      appID) = true
    rw [if_neg (fun heq => hne (heq.symm.trans hrev)), hrev, beq_self_eq_true]

theorem spares_forgetGone {history : List DeploymentRevision} {instanceID : Bytes}
    {next : List DeploymentRevision → RolloutM Unit}
    (h : ∀ history', Remembers r.value.appID history history' → Spares (next history') w) :
    Spares (forgetGoneHistoryInstance r history instanceID >>= next) w := by
  have hsame : Spares (next history) w := h history fun hany => hany
  refine Cautious.bind ?_
  unfold forgetGoneHistoryInstance
  split_ifs
  · exact hsame
  · refine Cautious.ask trivial ?_
    rintro answer w' ⟨⟨docker, rfl⟩, hw'⟩
    obtain rfl : w' = w := hw'
    cases hinspect : inspect r.value.app docker with
    | error e => exact hsame
    | ok state =>
      obtain rfl := inspect_ok hinspect
      dsimp only
      split_ifs with hthere
      · exact hsame
      · rw [mem_singleton] at hthere
        exact h _ (remembers_clear hthere history)

theorem spares_restoreActive {original : Deployment} {routeMayPending : Bool} :
    Spares (restoreActive r original routeMayPending) w := by
  unfold restoreActive
  dsimp only
  generalize (if original.ruleTarget = [] then original.instanceID else original.ruleTarget) = target
  split_ifs
  · exact spares_ask trivial fun _ _ => spares_ask trivial fun _ _ => trivial
  · exact spares_ask trivial fun _ _ => trivial

theorem spares_abort {original : Deployment} {routeMayPending : Bool} :
    Spares (abortHistoricalRollback r original routeMayPending) w :=
  spares_forgetGone fun _ _ => spares_restoreActive

theorem spares_historicalRollback {appID : Bytes} {record : DeploymentRecord}
    {current : Deployment} {rev : DeploymentRevision} :
    Spares (historicalRollback leaseDuration appID record current rev) w := by
  have hstore : ∀ {version fence : UInt64} {v : Deployment} (w : Site),
      Spares (Store.compareAndSwap appID version fence v >>= fun answer => do
        let _ ← orFail answer fun _ => .reconcilePending
        return ()) w := by
    intros
    exact spares_ask trivial (by rintro (_ | _) _ <;> trivial)
  refine spares_ask trivial ?_
  intro now w'
  refine spares_ask trivial ?_
  rintro (e | leased) w''
  · trivial
  · refine spares_ask trivial ?_
    intro answer w₃
    cases answer with
    | error e => exact spares_abort
    | ok a =>
      split_ifs
      · refine spares_ask trivial ?_
        intro answer w₄
        cases answer with
        | error e => exact spares_abort
        | ok a => exact hstore w₄
      · exact hstore w₃

theorem spares_rollbackTo (hw : w.Rehearsed id) (record : DeploymentRecord) {current : Deployment}
    (hcurrent : current.appID = id) (rev : DeploymentRevision) :
    Spares (rollbackTo leaseDuration texts id app record current rev) w := by
  have hid : (texts.rollbackRepublishApp app current rev).id = id := by
    show (if current.appID = [] then app.id else current.appID) = id
    rw [hcurrent, if_neg hw.1]
  unfold rollbackTo
  dsimp only
  split_ifs
  · trivial
  · exact spares_publish hid hw
  · exact spares_historicalRollback

/-- The write of a record that is still rehearsed. -/
theorem rehearsed_swap (hid : id ≠ []) (hv : v.history.any (·.instanceID == id) = true)
    (h : w.Stored (w.store.compareAndSwap id version fence v) (.ok r) w') :
    w'.Rehearsed id := by
  obtain ⟨store, hok⟩ := h.ok
  rw [hok] at h
  have hstore := h.2
  unfold compareAndSwap at hok
  split_ifs at hok
  cases hok
  rw [hstore]
  exact ⟨hid, _, lookup_setRecord_self _ _ _, rfl, hv⟩

theorem spares_Rollback (hw : w.Rehearsed (trimSpace app.id)) :
    Spares (Rollback leaseDuration texts app) w := by
  obtain ⟨hid, r, hlookup, happID, hr⟩ := id hw
  unfold Rollback
  rw [if_neg hid]
  refine spares_load ?_
  rw [hlookup]
  dsimp only
  cases r.value.history.getLast? with
  | none => trivial
  | some rev =>
    refine spares_clock ?_
    intro t
    split_ifs
    · trivial
    · exact spares_rollbackTo (hw.later t) _ happID rev
    · refine spares_forgetGone ?_
      intro history hremembers
      rw [happID] at hremembers
      split_ifs
      · refine Cautious.ask trivial ?_
        rintro (e | r') w' hresp
        · trivial
        · have hw' := rehearsed_swap hid (hremembers (happID ▸ hr)) hresp
          show Spares (rollbackTo leaseDuration texts (trimSpace app.id) app r
            { r.value with history } { rev with instanceID := [] }) w'
          exact spares_rollbackTo hw' _ (by exact happID) _
      · exact spares_rollbackTo (hw.later t) _ happID rev

theorem spares_request {request : Request} (hw : w.Rehearsed request.id) :
    Spares (request.program leaseDuration texts) w := by
  cases request with
  | update app => exact spares_publish rfl hw
  | confirmUpdate app => exact spares_ConfirmUpdate hw
  | healthRecover app => exact spares_HealthRecover hw
  | rollback app => exact spares_Rollback hw
  | reconcile appID => exact spares_Reconcile hw

/-- In a run of operations on rehearsed records, no removal hits the instance to fall back to
or one that a rule of the record targets. -/
theorem removals_harmless {start : Site} {calls : List (Site × RolloutCall)}
    (hrun : Served leaseDuration texts start calls w) :
    ∀ call ∈ calls, Sparing call.1 call.2 := by
  induction hrun with
  | start => simp
  | serve _ hw hmakes ih =>
    exact forall_mem_append.mpr ⟨ih, (spares_request hw).makes hmakes⟩

end Operations

/-! ## Runs -/

namespace Site

def stored (w : Site) (outcome : Except DeploymentError (α × DeploymentSnapshot)) :
    Except Failure α × Site :=
  match outcome with
  | .ok (a, store) => (.ok a, { w with store })
  | .error _ => (.error .stateConflict, w)

theorem Stored.stored (w : Site) (outcome : Except DeploymentError (α × DeploymentSnapshot)) :
    w.Stored outcome (w.stored outcome).1 (w.stored outcome).2 := by
  cases outcome with
  | error e => rfl
  | ok pair => exact ⟨rfl, rfl⟩

/-- The answers where the store and the rules behave and docker does what is given. -/
def behave (docker : RolloutCall → Docker) (w : Site) : (c : RolloutCall) → RolloutAnswer c × Site
  | .load id => (.ok (w.store.records.lookup id), w)
  | .acquireLease id version value until_ =>
    w.stored (w.store.acquireLease id version value until_)
  | .compareAndSwap id version fence value =>
    w.stored (w.store.compareAndSwap id version fence value)
  | .deleteCAS id version fence => w.stored ((w.store.deleteCAS id version fence).map ((), ·))
  | .pull fence app => (composeApp app (docker (.pull fence app)), w)
  | .start fence app => (start app (docker (.start fence app)), w)
  | .ready fence app instanceID => (composeApp app (docker (.ready fence app instanceID)), w)
  | .cutover _ ruleRef target =>
    (.ok (), if trimSpace ruleRef = [] then w else w.route ruleRef target)
  | .drain fence app instanceID => (composeApp app (docker (.drain fence app instanceID)), w)
  | .remove fence app instanceID => (composeApp app (docker (.remove fence app instanceID)), w)
  | .inspect fence app ruleRef =>
    (inspect app (docker (.inspect fence app ruleRef)), w)
  | .now => (w.now, w)
  | .live => (none, w)

theorem respond_behave (docker : RolloutCall → Docker) (w : Site) (c : RolloutCall) :
    w.respond c (w.behave docker c).1 (w.behave docker c).2 := by
  cases c with
  | load => exact ⟨.inl rfl, rfl⟩
  | acquireLease | compareAndSwap | deleteCAS => exact Stored.stored _ _
  | cutover fence ruleRef target =>
    show if trimSpace ruleRef = [] then _ else _
    split_ifs with hblank
    · exact ⟨rfl, if_pos hblank⟩
    · exact if_neg hblank
  | now => exact ⟨Nat.le_refl _, rfl⟩
  | live => rfl
  | _ => exact ⟨⟨_, rfl⟩, rfl⟩

end Site

section Runs

open Setting (sample plainTexts)

/-- The control plane of an app that was published, with a history. -/
def publishedSite (history : List DeploymentRevision) : Site where
  store := sample.start.store.setRecord sample.app.id ⟨2, { sample.prior with
    instanceID := sample.app.id, ruleTarget := sample.app.id, history }⟩
  rules := fun _ => sample.app.id
  now := 100

/-- The new containers do not become ready. -/
def notReady : RolloutCall → Docker
  | .ready _ _ _ => .error .executor
  | _ => .ok ()

/-- A second update fails, and no removal of it does harm. -/
theorem removals_harmless_second_update :
    ∃ calls w, 10 < calls.length ∧
      Served 30 plainTexts (publishedSite [{ instanceID := sample.app.id }]) calls w ∧
      ∀ call ∈ calls, Sparing call.1 call.2 := by
  have hmakes : Makes Site.respond (publishedSite [{ instanceID := sample.app.id }])
      ((Request.update sample.app).program 30 plainTexts) _ _ :=
    Makes.runWith (Site.respond_behave notReady) _ _
  have hready : (publishedSite [{ instanceID := sample.app.id }]).Rehearsed
      (Request.update sample.app).id :=
    ⟨by decide, _, lookup_setRecord_self _ _ _, by decide,
      by unfold Rehearsed; decide⟩
  have hrun := Served.serve .start hready hmakes
  exact ⟨_, _, by decide, hrun, removals_harmless hrun⟩

instance (w : Site) (c : RolloutCall) : Decidable (Sparing w c) := by
  cases c with
  | remove fence app id =>
    exact inferInstanceAs (Decidable (∀ r ∈ w.store.records.lookup app.id, _ ∧ _))
  | _ => exact .isTrue trivial

/-- The first update of an app fails: the instance that is removed is the one to fall back to,
and the rule of the app targets it. -/
theorem update_removes_fallback :
    ∃ calls w', Makes Site.respond (publishedSite []) (Update 30 plainTexts sample.app) calls w' ∧
      ∃ call ∈ calls, ¬ Sparing call.1 call.2 := by
  refine ⟨_, _, Makes.runWith (Site.respond_behave notReady) _ _, ?_⟩
  decide

end Runs

end NrePlugins.DockerApp
