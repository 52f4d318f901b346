import Nre.DockerApp.Reconciled

/-!
# Rollouts as transactions on the record

A `publish` or a rollback to an earlier revision is stopped or fails somewhere, and `Reconcile`
is called, any number of times, and may be stopped or fail as well (`Pursued`). When the record
is active again, it should be the record from before or the one that the operation stores when
nothing goes wrong (`Atomic`).

- For `publish` this follows from `keeps_publish` and `keeps_reconcileRecord`, where the record
  before has nothing that `restoredRecord` forgets (`Retraceable`).
- A rollback to an earlier revision has an invariant of its own, `Reversing`. `Reconcile` must
  not find it cut over already: it would then store the history of a `publish`
  (`rollouts_forget`).
-/

namespace NrePlugins.DockerApp

open World
open Deployment
open Option

/-! ## The property -/

/-- No guard is set. -/
def Unguarded : (c : RolloutCall) → RolloutAnswer c → Prop
  | .live, answer => answer = none
  | _, _ => True

def World.unguarded (w : World) (c : RolloutCall) (answer : RolloutAnswer c) (w' : World) : Prop :=
  w.respond c answer w' ∧ Unguarded c answer

/-- The operations that replace a running instance. -/
inductive Operation where
  | publish (app : App) (digest : Bytes)
  | rollback (app : App)

namespace Operation

def program (leaseDuration : Time) (texts : Texts) : Operation → RolloutM Unit
  | publish app digest => DockerApp.publish leaseDuration texts app digest
  | rollback app => Rollback leaseDuration texts app

/-- The id under which the record is stored. -/
def id : Operation → Bytes
  | publish app _ => app.id
  | rollback app => trimSpace app.id

/-- The operation as a setting that starts in `start`. -/
def setting (start : World) : Operation → Setting
  | publish app digest => ⟨app, digest, start⟩
  | rollback app => ⟨{ app with id := trimSpace app.id }, [], start⟩

end Operation

/-- The operation was stopped, or went to its end, and `Reconcile` was called after it. Each
`Reconcile` starts in an `allowed` world. -/
inductive Pursued (leaseDuration : Time) (id : Bytes) (p : RolloutM Unit) (start : World)
    (allowed : World → Prop) : World → Prop
  | stopped {w : World} : Stops unguarded start p w →
      Pursued leaseDuration id p start allowed w
  | again {w w' : World} : Pursued leaseDuration id p start allowed w → allowed w →
      Stops unguarded w (Reconcile leaseDuration id) w' →
      Pursued leaseDuration id p start allowed w'

/-- A record apart from its fencing token. -/
def Deployment.unfenced (v : Deployment) : Deployment := { v with fencingToken := 0 }

/-- If the record is active, it is the one from before, or the one the operation stores when
nothing interrupts it, and then its instance serves. -/
def Atomic (p : RolloutM Unit) (id : Bytes) (start w : World) : Prop :=
  ∀ r, w.store.records.lookup id = some r → r.value.phase = .active →
    (∃ before, start.store.records.lookup id = some before ∧
      r.value.unfenced = before.value.unfenced) ∨
    ∃ q w' after, start.Fresh q ∧ p.runWith (behave q) start = (.ok (), w') ∧
      w'.store.records.lookup id = some after ∧ r.value.unfenced = after.value.unfenced ∧
      Serves w r.value

/-- A record as a finished rollout leaves it: active, with nothing of a rollout in it. -/
def Deployment.Settled (id : Bytes) (v : Deployment) : Prop :=
  v = { appID := id, agentID := v.agentID, instanceID := v.instanceID, image := v.image,
        ruleRef := v.ruleRef, ruleTarget := v.ruleTarget, generation := v.generation,
        phase := .active, fencingToken := v.fencingToken, imageDigest := v.imageDigest,
        availableDigest := v.availableDigest, history := v.history }

namespace Setting

/-- The record before can be written again from the intent of `publish`: it names the agent
of the app that is asked for, and remembers no available digest beside an instance. -/
structure Retraceable (g : Setting) : Prop where
  sound : g.Sound
  settled : g.existed = true → g.prior.Settled g.app.id
  agent : g.existed = true → g.prior.agentID = g.app.agentID
  available : g.prior.instanceID ≠ [] → g.prior.availableDigest = []

/-- The last revision of the record before is one to roll back to, and its instance is there. -/
structure Historical (g : Setting) (rev : DeploymentRevision) : Prop where
  named : g.app.id ≠ []
  existed : g.existed = true
  settled : g.prior.Settled g.app.id
  last : g.prior.history.getLast? = some rev
  instanceID : rev.instanceID ≠ []
  image : rev.image ≠ []
  ruleRef : rev.ruleRef ≠ []
  there : rev.instanceID ∈ g.start.instances

end Setting

namespace Operation

/-- What the operation asks of the world it starts in. -/
def Admissible (start : World) (op : Operation) : Prop :=
  match op with
  | publish .. => (op.setting start).Retraceable
  | rollback _ => ∃ rev, (op.setting start).Historical rev

/-- What it asks of the world in which a `Reconcile` starts: the rule was not cut over to the
earlier revision, and there is no available digest to forget. -/
def Reconcilable (start : World) (op : Operation) (w : World) : Prop :=
  match op with
  | publish .. => True
  | rollback _ => (op.setting start).prior.availableDigest = [] ∧
      ∀ rev, (op.setting start).prior.history.getLast? = some rev →
        w.target rev.ruleRef ≠ rev.instanceID

end Operation

variable {texts : Texts} {g : Setting} {w : World} {r : DeploymentRecord}

namespace Setting

/-! ## `Reconcile` in general -/

variable {leaseDuration : Time} {allowed : World → Prop} {recoverable steady : Prop}

/-- `Reconcile` keeps an invariant, if its work on a record that is not active does. -/
theorem always_Reconcile {answers : World → (c : RolloutCall) → RolloutAnswer c → World → Prop}
    {inv : World → Prop} (hexact : ∀ w c answer w', answers w c answer w' → w.respond c answer w')
    (hlater : ∀ w t, inv w → inv { w with now := t }) (hinv : inv w)
    (hwork : ∀ t r until_, w.store.records.lookup g.app.id = some r → r.value.phase ≠ .active →
      Always answers inv (fun _ _ => True)
        (reconcileRecord (g.releasedTo { w with now := t } r until_))
        (g.worldLeased { w with now := t } r until_)) :
    Always answers inv (fun _ _ => True) (Reconcile leaseDuration g.app.id) w := by
  refine Always.bind (Always.ask hinv ?_)
  intro answer w' hresp
  obtain ⟨rfl, hw⟩ := hexact _ _ _ _ hresp
  obtain rfl : w' = w := hw
  refine ⟨hinv, ?_⟩
  cases hfound : w'.store.records.lookup g.app.id with
  | none => exact ⟨hinv, trivial⟩
  | some r =>
    refine Always.ask hinv ?_
    rintro (t : Time) w₁ hresp₁
    obtain ⟨-, hw₁⟩ := hexact _ _ _ _ hresp₁
    obtain rfl : w₁ = { w' with now := t } := hw₁
    split_ifs with hbusy
    · exact ⟨hlater _ _ hinv, trivial⟩
    · refine Always.ask (hlater _ _ hinv) ?_
      rintro (t' : Time) w₂ hresp₂
      obtain ⟨-, hw₂⟩ := hexact _ _ _ _ hresp₂
      obtain rfl : w₂ = { w' with now := t' } := hw₂
      refine Always.ask (hlater _ _ hinv) ?_
      intro lease w₃ hresp₃
      have hpair := (hexact _ _ _ _ hresp₃).trans (stored_acquireLease
        (w := { w' with now := t' })
        (congrArg DeploymentRecord.version (record_of_lookup hfound)) { r.value with lease := [] }
        (t' + leaseDuration))
      cases hpair
      exact hwork t' r (t' + leaseDuration) hfound fun hactive => hbusy (.inl hactive)

theorem version_found (g : Setting) :
    (g.start.store.record g.app.id).version = (g.found.getD {}).version := rfl

/-! ## `publish` without interruption -/

/-- A program stores the record of the finished rollout, with the instance `q`. -/
def Publishes (g : Setting) (q : Bytes) (p : RolloutM Unit) (w : World) : Prop :=
  ∃ w' version fence, w.run q p = (.ok (), w') ∧
    w'.store.records.lookup g.app.id = some ⟨version, g.published g.app q fence⟩

section Uninterrupted

variable {q : Bytes} {runtimeApp : App}

theorem runs_require (next : Bool → RolloutM Unit) :
    w.run q (requireObservationPersist >>= next) = w.run q (next true) := rfl

section Recorded

variable (hstored : w.store.records.lookup g.app.id = some r)
  (hbare : r.value.bare = g.intent.bare)

include hstored hbare

theorem runs_intent (phase : RolloutPhase) (pending actual desired : Bytes)
    (next : DeploymentRecord → RolloutM Unit) :
    w.run q (DockerApp.intent r phase pending actual desired >>= next) =
      (w.putRecord g.app.id
        ⟨r.version + 1, intentValue r.value phase pending actual desired⟩).run q
        (next ⟨r.version + 1, intentValue r.value phase pending actual desired⟩) :=
  Prog.runWith_bind (runs_put (v := intentValue r.value phase pending actual desired) hstored
    (appID_eq hbare) rfl rfl rfl)

theorem publishes_publishActive : g.Publishes q (publishActive r g.app g.digest q) w := by
  refine ⟨w.putRecord g.app.id ⟨r.version + 1, g.published g.app q r.value.fencingToken⟩,
    r.version + 1, r.value.fencingToken, ?_, lookup_putRecord _ _ _⟩
  unfold publishActive
  rw [runs_require, publishedRecord_app_eq hbare]
  exact runs_put hstored rfl rfl rfl rfl

theorem publishes_publishDraining :
    g.Publishes q (publishDraining r g.prior g.existed g.app runtimeApp g.digest q) w := by
  unfold publishDraining Publishes
  rw [runs_intent hstored hbare]
  rw [runs_require, if_pos rfl]
  split_ifs
  · exact publishes_publishActive (w := delete _ _) (lookup_putRecord _ _ _) hbare
  · exact publishes_publishActive (lookup_putRecord _ _ _) hbare

theorem publishes_publishCutover :
    g.Publishes q (publishCutover r g.prior g.existed g.app runtimeApp g.digest q) w := by
  unfold publishCutover
  split_ifs
  · unfold Publishes
    rw [runs_intent hstored hbare]
    exact publishes_publishDraining (w := route _ _ _) (lookup_putRecord _ _ _) hbare
  · exact publishes_publishDraining hstored hbare

theorem publishes_publishReadiness :
    g.Publishes q (publishReadiness r g.prior g.existed g.app runtimeApp g.digest q) w := by
  unfold publishReadiness Publishes
  rw [runs_intent hstored hbare]
  exact publishes_publishCutover (lookup_putRecord _ _ _) hbare

theorem publishes_publishStart (hfresh : w.Fresh q) :
    g.Publishes q (publishStart texts r g.prior g.existed g.app g.digest) w := by
  have hready : g.Publishes q (publishReadiness r g.prior g.existed g.app
      (texts.pinnedRuntimeApp g.app g.digest) g.digest q) (w.launch q) :=
    publishes_publishReadiness hstored hbare
  have hname := nextName_of_fresh hfresh
  show g.Publishes q (publishReadiness r g.prior g.existed g.app
    (texts.pinnedRuntimeApp g.app g.digest) g.digest (w.nextName q)) (w.launch (w.nextName q))
  rw [hname]
  exact hready

theorem publishes_publishLeased (hfresh : w.Fresh q) :
    g.Publishes q (publishLeased texts r g.prior g.existed g.app g.digest) w := by
  show g.Publishes q (publishStarting texts r g.prior g.existed g.app g.digest) w
  unfold publishStarting Publishes
  rw [runs_require, if_pos rfl, runs_intent hstored hbare]
  exact publishes_publishStart (w := putRecord _ _ _) (lookup_putRecord _ _ _) hbare hfresh

end Recorded

/-- `publish` goes through where nothing fails. -/
theorem publishes_publish (leaseDuration : Time) (hvalid : texts.valid g.app = true)
    (hfree : rolloutBusy g.prior g.existed g.start.now = false) (hfresh : g.start.Fresh q) :
    g.Publishes q (publish leaseDuration texts g.app g.digest) g.start := by
  have hlease := stored_acquireLease g.version_found g.intent (g.start.now + leaseDuration)
  unfold publish
  rw [if_neg (by rw [hvalid]; simp)]
  show g.Publishes q (ite (rolloutBusy g.prior g.existed g.start.now = true)
    (Prog.fail Failure.reconcilePending) _) g.start
  rw [if_neg (by rw [hfree]; simp), Publishes, runs_require]
  show g.Publishes q (orFail (g.start.stored (g.start.store.acquireLease g.app.id
    (g.found.getD {}).version g.intent (g.start.now + leaseDuration))).1 _ >>=
      fun record => publishLeased texts record g.prior g.existed g.app g.digest)
    (g.start.stored (g.start.store.acquireLease g.app.id (g.found.getD {}).version g.intent
      (g.start.now + leaseDuration))).2
  rw [hlease]
  exact publishes_publishLeased (w := putRecord _ _ _) (lookup_putRecord _ _ _) rfl hfresh

end Uninterrupted

/-! ## `publish` is atomic -/

/-- `Reconcile` stays within the stops of the rollout. -/
theorem keeps_Reconcile (hsound : g.Sound) (h : g.Inv recoverable steady w) (leaseDuration : Time) :
    g.Keeps recoverable steady (fun _ _ => True) (Reconcile leaseDuration g.app.id) w := by
  refine always_Reconcile (fun _ _ _ _ hresp => hresp.1) (fun _ t hinv => hinv.later t) h ?_
  intro t r until_ hstored hphase
  have hflight := ((h.later t).inFlight_of_phase hsound hstored hphase).leased until_
  exact (keeps_reconcileRecord hsound hflight).mono fun _ _ _ _ => trivial

theorem respond_unguarded {c : RolloutCall} {answer : RolloutAnswer c} {w' : World}
    (h : w.unguarded c answer w') : g.respond False True w c answer w' := by
  refine ⟨h.1, ?_⟩
  cases c with
  | live =>
    obtain rfl : answer = none := h.2
    exact ⟨nofun, fun _ => rfl⟩
  | cutover | drain => exact fun hfalse => hfalse.elim
  | _ => trivial

/-- Wherever the rollout and its reconciliations stop. -/
theorem inv_of_pursued (hsound : g.Sound)
    (h : Pursued leaseDuration g.app.id (publish leaseDuration texts g.app g.digest) g.start
      allowed w) : g.Inv False True w := by
  induction h with
  | stopped hstop =>
    have hkeeps : g.KeepsPublish False True (publish leaseDuration texts g.app g.digest) g.start :=
      keeps_publish hsound (fun hfalse => hfalse.elim) leaseDuration texts
    exact hkeeps.stops (hstop.mono fun _ _ _ _ => respond_unguarded)
  | again _ _ hstop ih =>
    exact (keeps_Reconcile hsound ih leaseDuration).stops
      (hstop.mono fun _ _ _ _ => respond_unguarded)

/-- Reconciliation writes the record before as it was. -/
theorem reverted_unfenced (h : g.Retraceable) (hexisted : g.existed = true) (fence : UInt64) :
    (g.reverted fence).unfenced = g.prior.unfenced := by
  have havailable : (if g.absent then g.prior.availableDigest else []) =
      g.prior.availableDigest := by
    cases habsent : g.absent with
    | true => rfl
    | false => exact (h.available (not_absent_iff.mp habsent)).symm
  have hsettled := (congrArg unfenced (h.settled hexisted)).symm
  rw [h.sound.ruleTarget, h.agent hexisted] at hsettled
  unfold reverted
  rw [havailable]
  exact hsettled

/-- An app that is refused is not touched. -/
theorem untouched_of_invalid (hsound : g.Sound) (hvalid : texts.valid g.app = false)
    (h : Pursued leaseDuration g.app.id (publish leaseDuration texts g.app g.digest) g.start
      allowed w) : ∃ t, w = { g.start with now := t } := by
  induction h with
  | stopped hstop =>
    rw [publish, if_pos hvalid] at hstop
    cases hstop
    exact ⟨g.start.now, rfl⟩
  | @again w₁ _ _ _ hstop ih =>
    have hkeeps : Always unguarded (fun w => ∃ t, w = { g.start with now := t })
        (fun _ _ => True) (Reconcile leaseDuration g.app.id) w₁ := by
      refine always_Reconcile (fun _ _ _ _ hresp => hresp.1) ?_ ih ?_
      · rintro w t ⟨t', rfl⟩
        exact ⟨t, rfl⟩
      · intro t r until_ hstored hphase
        obtain ⟨t', hw⟩ := ih
        exact absurd (active_of_found hsound (found_of_untouched hw hstored)) hphase
    exact hkeeps.stops hstop

/-- An active record after `publish` is the one before or that of the finished rollout. -/
theorem publish_atomic (h : g.Retraceable)
    (hrun : Pursued leaseDuration g.app.id (publish leaseDuration texts g.app g.digest) g.start
      allowed w) :
    Atomic (publish leaseDuration texts g.app g.digest) g.app.id g.start w := by
  intro r hstored hactive
  have hsame : ∀ {t : Time}, w = { g.start with now := t } →
      ∃ before, g.start.store.records.lookup g.app.id = some before ∧
        r.value.unfenced = before.value.unfenced :=
    fun hw => ⟨r, found_of_untouched hw hstored, rfl⟩
  cases hvalid : texts.valid g.app with
  | false =>
    obtain ⟨t, hw⟩ := untouched_of_invalid h.sound hvalid hrun
    exact .inl (hsame hw)
  | true =>
    cases inv_of_pursued h.sound hrun with
    | untouched hw => exact .inl (hsame hw)
    | inFlight hflight =>
      cases hflight.stored.symm.trans hstored
      exact absurd hactive hflight.phase
    | ended hended =>
      cases hended with
      | gone hnone => cases hnone.symm.trans hstored
      | reverted hreverted hexisted _ =>
        cases hreverted.symm.trans hstored
        obtain ⟨before, hfound⟩ := isSome_iff_exists.mp hexisted
        exact .inl ⟨before, hfound, prior_of_found hfound ▸ reverted_unfenced h hexisted _⟩
      | @published version fence app q hpublished hq hfresh hsteady _ _ hserves =>
        cases hpublished.symm.trans hstored
        obtain rfl := hsteady trivial
        have hfree : rolloutBusy g.prior g.existed g.start.now = false := by
          cases hexisted : g.existed with
          | false => rfl
          | true =>
            rw [h.settled hexisted]
            rfl
        obtain ⟨w', version', fence', hruns, hlookup⟩ :=
          publishes_publish leaseDuration hvalid hfree ⟨hq, hfresh⟩
        exact .inr ⟨q, w', _, ⟨hq, hfresh⟩, hruns, hlookup, rfl, hserves⟩

/-! ## Rollbacks to an earlier revision -/

end Setting

/-- A record apart from its lease and its fencing token. -/
def Deployment.unleased (v : Deployment) : Deployment :=
  { v with lease := [], leaseUntil := 0, fencingToken := 0 }

namespace Setting

/-- The stored record is the intent of the rollback. -/
structure Reverting (g : Setting) (rev : DeploymentRevision) (w : World) (r : DeploymentRecord) :
    Prop where
  stored : w.store.records.lookup g.app.id = some r
  value : r.value.unleased = (historicalRollbackIntent g.prior rev).unleased
  there : rev.instanceID ∈ w.instances

/-- Every stop of the rollback. -/
inductive Reversing (g : Setting) (rev : DeploymentRevision) (w : World) : Prop
  | untouched {t : Time} : w = { g.start with now := t } → Reversing g rev w
  | inFlight {r : DeploymentRecord} : g.Reverting rev w r → Reversing g rev w
  | back {r : DeploymentRecord} : w.store.records.lookup g.app.id = some r →
      r.value.unfenced = g.prior.unfenced → Reversing g rev w
  | done {version fence : UInt64} : w.store.records.lookup g.app.id =
        some ⟨version, rolledBackRecord g.app.id g.prior rev fence⟩ →
      Serves w (rolledBackRecord g.app.id g.prior rev fence) → Reversing g rev w

variable {rev : DeploymentRevision} {q : Bytes}

/-- What a judgement about a part of the rollback says. -/
abbrev Reverses (g : Setting) (rev : DeploymentRevision) {α : Type} (p : RolloutM α)
    (w : World) : Prop :=
  Always unguarded (g.Reversing rev) (fun _ _ => True) p w

theorem Reversing.later (h : g.Reversing rev w) (t : Time) :
    g.Reversing rev { w with now := t } := by
  cases h with
  | untouched hw =>
    subst hw
    exact .untouched (t := t) rfl
  | inFlight h => exact .inFlight ⟨h.stored, h.value, h.there⟩
  | back hstored hvalue => exact .back hstored hvalue
  | done hstored hserves => exact .done hstored hserves

section Fields

variable (h : r.value.unleased = (historicalRollbackIntent g.prior rev).unleased)

include h

theorem revert_pending : r.value.pendingInstance = rev.instanceID :=
  congrArg pendingInstance h

theorem revert_phase : r.value.phase = .cutover := congrArg phase h

theorem revert_ruleRef : r.value.ruleRef = rev.ruleRef := congrArg ruleRef h

theorem revert_appID (hsettled : g.prior.Settled g.app.id) : r.value.appID = g.app.id := by
  have hfield := congrArg appID h
  change r.value.appID = g.prior.appID at hfield
  rw [hfield, hsettled]

theorem revert_history : r.value.history = g.prior.history := (congrArg history h :)

theorem revert_fallback : fallbackInstance r.value = g.prior.instanceID :=
  fallbackInstance_of_same (congrArg priorInstance h) (congrArg instanceID h :)

/-- Reconciliation writes the record before, but for the digest that was available. -/
theorem historicalPrior_unfenced (hsettled : g.prior.Settled g.app.id)
    (havailable : g.prior.availableDigest = []) :
    (historicalPrior r.value g.prior.instanceID g.prior.history).unfenced = g.prior.unfenced := by
  have happID : g.prior.appID = g.app.id := by rw [hsettled]
  have hbefore := (congrArg unfenced hsettled).symm
  rw [havailable, ← happID] at hbefore
  show (historicalPrior r.value.unleased g.prior.instanceID g.prior.history).unfenced = _
  rw [h]
  exact hbefore

end Fields

/-- A write over the record of the rollback. -/
theorem reverses_put {α : Type} {post : World → Except Failure α → Prop}
    {next : Except Failure DeploymentRecord → RolloutM α} {id : Bytes} {v : Deployment}
    (h : g.Reverting rev w r) (hid : id = g.app.id) (hv : v.appID = id)
    (hvf : v.fencingToken = r.value.fencingToken)
    (hnext : Always unguarded (g.Reversing rev) post (next (.ok ⟨r.version + 1, v⟩))
      (w.putRecord g.app.id ⟨r.version + 1, v⟩)) :
    Always unguarded (g.Reversing rev) post
      (Store.compareAndSwap id r.version r.value.fencingToken v >>= next) w := by
  subst hid
  exact always_put (fun _ _ _ _ hresp => hresp.1) (.inFlight h) h.stored rfl hv hvf hnext

theorem Reverting.routed (h : g.Reverting rev w r) (ruleRef target : Bytes) :
    g.Reverting rev (w.route ruleRef target) r :=
  ⟨h.stored, h.value, h.there⟩

/-- Draining another instance leaves the one to go back to. -/
theorem Reverting.drained (h : g.Reverting rev w r) (hq : q ≠ rev.instanceID) :
    g.Reverting rev (w.delete q) r :=
  ⟨h.stored, h.value, mem_instances_delete.mpr ⟨h.there, hq.symm⟩⟩

/-- The instance to go back to is there, so the history is kept. -/
theorem reverses_forgetGone {α : Type} (hinv : g.Reversing rev w)
    (hthere : rev.instanceID ∈ w.instances) {history : List DeploymentRevision}
    {next : List DeploymentRevision → RolloutM α} (hnext : g.Reverses rev (next history) w) :
    g.Reverses rev (forgetGoneHistoryInstance r history rev.instanceID >>= next) w := by
  unfold forgetGoneHistoryInstance
  split_ifs
  · exact hnext
  · refine Always.bind (Always.ask hinv ?_)
    rintro answer w' ⟨⟨hw, hobs⟩, -⟩
    subst w'
    cases answer with
    | error e => exact ⟨hinv, hnext⟩
    | ok state =>
      obtain rfl := hobs state rfl
      have hmem : rev.instanceID ∈ (w.observe r.value.ruleRef).instances := hthere
      dsimp only
      rw [if_pos hmem]
      exact ⟨hinv, hnext⟩

/-- The record before, as a rollback that fails writes it. -/
theorem restored_unfenced (hsettled : g.prior.Settled g.app.id)
    (h : r.value.unleased = (historicalRollbackIntent g.prior rev).unleased) :
    unfenced { g.prior with
      appID := r.value.appID, phase := .active, fencingToken := r.value.fencingToken,
      lease := [], leaseUntil := 0, pendingInstance := [], desiredRuleTarget := [] } =
    g.prior.unfenced := by
  rw [revert_appID h hsettled, hsettled]
  rfl

section Reverting

variable (hhist : g.Historical rev) (h : g.Reverting rev w r)

include hhist h

theorem reverses_release (e : Failure) : g.Reverses rev (release r e) w := by
  refine reverses_put h (revert_appID h.value hhist.settled) rfl rfl ?_
  exact ⟨.inFlight ⟨lookup_putRecord _ _ _, h.value, h.there⟩, trivial⟩

theorem reverses_storeHistoricalPrior (havailable : g.prior.availableDigest = []) :
    g.Reverses rev (storeHistoricalPrior r r.value g.prior.instanceID rev.instanceID true) w := by
  unfold storeHistoricalPrior
  rw [revert_history h.value]
  have hback : g.Reversing rev (w.putRecord g.app.id ⟨r.version + 1,
      historicalPrior r.value g.prior.instanceID g.prior.history⟩) :=
    .back (lookup_putRecord _ _ _) (historicalPrior_unfenced h.value hhist.settled havailable)
  refine Always.bind ?_
  exact reverses_put h (revert_appID h.value hhist.settled) rfl rfl ⟨hback, hback, trivial⟩

theorem reverses_restoreHistoricalPrior (havailable : g.prior.availableDigest = [])
    (state : RuntimeState) :
    g.Reverses rev (restoreHistoricalPrior r r.value state g.prior.instanceID rev.instanceID
      true) w := by
  unfold restoreHistoricalPrior
  split_ifs
  · exact reverses_release hhist h _
  · refine Always.ask (.inFlight h) ?_
    rintro (e | a) w' ⟨hresp, -⟩
    · rcases hresp with rfl | rfl
      · exact reverses_release hhist h _
      · exact reverses_release hhist (h.routed _ _) _
    · obtain rfl : w' = w.route _ _ := hresp
      exact reverses_storeHistoricalPrior hhist (h.routed _ _) havailable
  · exact reverses_storeHistoricalPrior hhist h havailable

/-- `Reconcile` goes back, as the rule was not cut over. -/
theorem reverses_reconcileRecord (havailable : g.prior.availableDigest = [])
    (hopen : w.target rev.ruleRef ≠ rev.instanceID) :
    g.Reverses rev (reconcileRecord r) w := by
  have hpending := revert_pending h.value
  have href : inspectRef r.value = rev.ruleRef := by
    rw [inspectRef, revert_phase h.value, if_neg (by simp), revert_ruleRef h.value]
  have hcan : canFinish r.value (w.observe rev.ruleRef) rev.instanceID = false := by
    have hcut : cutOverComplete rev.ruleRef (w.target rev.ruleRef) rev.instanceID = false := by
      simp [cutOverComplete, hhist.ruleRef, hopen]
    rw [canFinish, revert_ruleRef h.value]
    show (_ && cutOverComplete rev.ruleRef (w.target rev.ruleRef) rev.instanceID) = false
    rw [hcut, Bool.and_false]
  have hhistorical : historicalRollbackPending r.value = true := by
    have hmem : rev ∈ r.value.history := by
      rw [revert_history h.value]
      exact List.mem_of_getLast? hhist.last
    rw [historicalRollbackPending, hpending, Bool.and_eq_true, bne_iff_ne, List.any_eq_true]
    exact ⟨hhist.instanceID, rev, hmem, beq_self_eq_true _⟩
  have hexists : (rev.instanceID != [] && decide (rev.instanceID ∈ w.instances)) = true := by
    simp [hhist.instanceID, h.there]
  refine Always.ask (.inFlight h) ?_
  rintro answer w' ⟨⟨hw, hobs⟩, -⟩
  subst w'
  cases answer with
  | error e => exact reverses_release hhist h _
  | ok state =>
    obtain rfl := hobs state rfl
    dsimp only
    rw [hpending, href, if_neg hhist.instanceID, if_neg (by simp)]
    unfold reconcileKnown
    dsimp only
    rw [hcan, hhistorical, if_neg Bool.false_ne_true, if_pos rfl]
    split_ifs
    · exact reverses_release hhist h _
    · show Always _ _ _ (restoreHistoricalPrior r r.value (w.observe rev.ruleRef)
        (fallbackInstance r.value) rev.instanceID
        (rev.instanceID != [] && decide (rev.instanceID ∈ w.instances))) w
      rw [revert_fallback h.value, hexists]
      exact reverses_restoreHistoricalPrior hhist h havailable _

theorem reverses_restoreActive (routeMayPending : Bool) :
    g.Reverses rev (restoreActive r g.prior routeMayPending) w := by
  have hstore : ∀ {w : World}, g.Reverting rev w r → g.Reverses rev
      (Store.compareAndSwap r.value.appID r.version r.value.fencingToken { g.prior with
        appID := r.value.appID, phase := .active, fencingToken := r.value.fencingToken,
        lease := [], leaseUntil := 0, pendingInstance := [], desiredRuleTarget := [] } >>=
        fun _ => (Prog.fail .operationFailed : RolloutM Unit)) w := by
    intro w h
    refine reverses_put h (revert_appID h.value hhist.settled) rfl rfl ⟨?_, trivial⟩
    exact .back (lookup_putRecord _ _ _) (restored_unfenced hhist.settled h.value)
  unfold restoreActive
  dsimp only
  generalize (if g.prior.ruleTarget = [] then g.prior.instanceID else g.prior.ruleTarget) = target
  split_ifs
  · refine Always.ask (.inFlight h) ?_
    rintro answer w' ⟨hresp, -⟩
    -- the answer of this last cutover is not looked at
    rcases World.Attempted.cases hresp with rfl | rfl
    · exact hstore h
    · exact hstore (h.routed _ _)
  · exact hstore h

theorem reverses_abort (routeMayPending : Bool) :
    g.Reverses rev (abortHistoricalRollback r g.prior routeMayPending) w := by
  unfold abortHistoricalRollback
  rw [revert_pending h.value]
  exact reverses_forgetGone (.inFlight h) h.there (reverses_restoreActive hhist h _)

end Reverting

/-! ## The way of a rollback -/

/-- The record that the rollback works on. -/
def reversal (g : Setting) (rev : DeploymentRevision) (until_ : Time) : DeploymentRecord :=
  DeploymentSnapshot.leased g.app.id (g.found.getD {}).version (g.start.store.fence g.app.id + 1)
    (historicalRollbackIntent g.prior rev) until_

/-- The world in which the rollback has the lease. -/
def reversalWorld (g : Setting) (rev : DeploymentRevision) (t until_ : Time) : World :=
  putRecord
    { g.start with
      now := t,
      store := g.start.store.setFence g.app.id (g.start.store.fence g.app.id + 1) }
    g.app.id (g.reversal rev until_)

theorem reverting_reversal (hhist : g.Historical rev) (t until_ : Time) :
    g.Reverting rev (g.reversalWorld rev t until_) (g.reversal rev until_) := by
  refine ⟨lookup_putRecord _ _ _, ?_, hhist.there⟩
  show { (historicalRollbackIntent g.prior rev).unleased with appID := g.app.id } = _
  have happID : g.prior.appID = g.app.id := by rw [hhist.settled]
  rw [← happID]
  rfl

/-- The last write of the rollback. -/
theorem reverses_store (h : g.Reverting rev w r)
    (hrouted : w.target rev.ruleRef = rev.instanceID) :
    g.Reverses rev (Store.compareAndSwap g.app.id r.version r.value.fencingToken
      (rolledBackRecord g.app.id g.prior rev r.value.fencingToken) >>= fun answer => do
        let _ ← orFail answer fun _ => .reconcilePending
        return ()) w := by
  refine reverses_put h rfl rfl rfl ⟨?_, trivial⟩
  exact .done (lookup_putRecord _ _ _) ⟨h.there, fun _ => hrouted⟩

variable {app : App}

section Historical

variable (hhist : g.Historical rev)

include hhist

theorem reverses_historicalRollback (leaseDuration t : Time) :
    g.Reverses rev (historicalRollback leaseDuration g.app.id (g.found.getD {}) g.prior rev)
      { g.start with now := t } := by
  refine Always.ask (.untouched rfl) ?_
  rintro (t' : Time) w₁ ⟨⟨-, hw₁⟩, -⟩
  obtain rfl : w₁ = { g.start with now := t' } := hw₁
  refine Always.ask (.untouched rfl) ?_
  rintro lease w₂ ⟨hresp, -⟩
  have hpair := hresp.trans (stored_acquireLease (w := { g.start with now := t' })
    g.version_found (historicalRollbackIntent g.prior rev) (t' + leaseDuration))
  cases hpair
  have h := reverting_reversal hhist t' (t' + leaseDuration)
  refine Always.ask (.inFlight h) ?_
  rintro (e | a) w₃ ⟨hcut, -⟩
  · rcases hcut with rfl | rfl
    · exact reverses_abort hhist h _
    · exact reverses_abort hhist (h.routed _ _) _
  · obtain rfl : w₃ = route _ _ _ := hcut
    have hcut := h.routed rev.ruleRef rev.instanceID
    have hrouted := target_route_self (g.reversalWorld rev t' (t' + leaseDuration))
      hhist.ruleRef rev.instanceID
    split_ifs with hother
    · have hdrained := hcut.drained hother.2
      refine Always.ask (.inFlight hcut) ?_
      rintro answer w₄ ⟨hdrain, -⟩
      cases answer with
      | error e =>
        rcases hdrain with rfl | rfl
        · exact reverses_abort hhist hcut _
        · exact reverses_abort hhist hdrained _
      | ok b =>
        obtain rfl : w₄ = delete _ _ := hdrain
        exact reverses_store hdrained hrouted
    · exact reverses_store hcut hrouted

theorem Historical.found_eq : g.found = some (g.found.getD {}) := by
  obtain ⟨r, hr⟩ := isSome_iff_exists.mp hhist.existed
  rw [hr]
  rfl

theorem Historical.not_busy (t : Time) : rolloutBusy g.prior true t = false := by
  rw [hhist.settled]
  rfl

theorem Historical.rollbackTo_eq (leaseDuration : Time) (texts : Texts)
    (app : App) (record : DeploymentRecord) :
    rollbackTo leaseDuration texts g.app.id app record g.prior rev =
      historicalRollback leaseDuration g.app.id record g.prior rev := by
  rw [rollbackTo, if_neg (by simp [hhist.instanceID, hhist.image, hhist.ruleRef])]

/-- The last revision still has its instance. -/
theorem Historical.last_any : g.prior.history.getLast?.any (·.instanceID == []) = false := by
  simp [hhist.last, hhist.instanceID]

theorem reverses_Rollback (hid : trimSpace app.id = g.app.id)
    (leaseDuration : Time) (texts : Texts) :
    g.Reverses rev (Rollback leaseDuration texts app) g.start := by
  have hstart : g.Reversing rev g.start := .untouched (t := g.start.now) rfl
  have hprior : (g.found.getD {}).value = g.prior := rfl
  unfold Rollback
  rw [hid, if_neg hhist.named]
  refine Always.bind (Always.ask hstart ?_)
  rintro answer w' ⟨⟨rfl, hw⟩, -⟩
  obtain rfl : w' = g.start := hw
  refine ⟨hstart, ?_⟩
  have hload : g.start.store.records.lookup g.app.id = some (g.found.getD {}) := hhist.found_eq
  rw [hload]
  dsimp only
  rw [hprior, hhist.last]
  refine Always.ask hstart ?_
  rintro (t : Time) w₁ ⟨⟨-, hw₁⟩, -⟩
  obtain rfl : w₁ = { g.start with now := t } := hw₁
  rw [hhist.not_busy, if_neg hhist.instanceID]
  have hlater : g.Reversing rev { g.start with now := t } := .untouched rfl
  refine reverses_forgetGone hlater hhist.there ?_
  rw [hhist.last_any, hhist.rollbackTo_eq]
  exact reverses_historicalRollback hhist leaseDuration t

end Historical

/-- A record of the rollback that is not active is in flight. -/
theorem Reversing.reverting_of_phase (hhist : g.Historical rev) (h : g.Reversing rev w)
    (hstored : w.store.records.lookup g.app.id = some r) (hphase : r.value.phase ≠ .active) :
    g.Reverting rev w r := by
  have hactive : g.prior.phase = .active := by rw [hhist.settled]
  cases h with
  | untouched hw =>
    exact absurd (prior_of_found (found_of_untouched hw hstored) ▸ hactive) hphase
  | inFlight h =>
    cases h.stored.symm.trans hstored
    exact h
  | back hback hvalue =>
    have hsame := congrArg phase hvalue
    rw [some.inj (hback.symm.trans hstored)] at hsame
    exact absurd (hsame.trans hactive) hphase
  | done hdone =>
    cases hdone.symm.trans hstored
    exact absurd rfl hphase

theorem Reverting.leased (hhist : g.Historical rev) (h : g.Reverting rev w r) (until_ : Time) :
    g.Reverting rev (g.worldLeased w r until_) (g.releasedTo w r until_) := by
  refine ⟨lookup_putRecord _ _ _, ?_, h.there⟩
  show { r.value.unleased with appID := g.app.id } = _
  rw [← revert_appID h.value hhist.settled]
  exact h.value

theorem reverses_Reconcile (hhist : g.Historical rev) (h : g.Reversing rev w)
    (havailable : g.prior.availableDigest = []) (hopen : w.target rev.ruleRef ≠ rev.instanceID)
    (leaseDuration : Time) : g.Reverses rev (Reconcile leaseDuration g.app.id) w := by
  refine always_Reconcile (fun _ _ _ _ hresp => hresp.1) (fun _ t hinv => hinv.later t) h ?_
  intro t r until_ hstored hphase
  have hreverting := ((h.later t).reverting_of_phase hhist hstored hphase).leased hhist until_
  exact reverses_reconcileRecord hhist hreverting havailable hopen

theorem runs_clock (next : Time → RolloutM Unit) :
    w.run q (clock >>= next) = w.run q (next w.now) := rfl

theorem runs_forgetGone {α : Type} (hthere : rev.instanceID ∈ w.instances)
    {history : List DeploymentRevision} (next : List DeploymentRevision → RolloutM α) :
    w.run q (forgetGoneHistoryInstance r history rev.instanceID >>= next) =
      w.run q (next history) := by
  unfold forgetGoneHistoryInstance
  split_ifs
  · rfl
  · have hmem : rev.instanceID ∈ (w.observe r.value.ruleRef).instances := hthere
    refine Prog.runWith_bind (r := .ok history) ?_
    rw [← run, runs_inspect]
    dsimp only
    rw [if_pos hmem]
    rfl

/-- A program stores the record of the finished rollback. -/
def RollsBack (g : Setting) (rev : DeploymentRevision) (q : Bytes) (p : RolloutM Unit)
    (w : World) : Prop :=
  ∃ w' version fence, w.run q p = (.ok (), w') ∧ w'.store.records.lookup g.app.id =
    some ⟨version, rolledBackRecord g.app.id g.prior rev fence⟩

theorem rollsBack_store (h : g.Reverting rev w r) (q : Bytes) :
    g.RollsBack rev q (Store.compareAndSwap g.app.id r.version r.value.fencingToken
      (rolledBackRecord g.app.id g.prior rev r.value.fencingToken) >>= fun answer => do
        let _ ← orFail answer fun _ => .reconcilePending
        return ()) w :=
  ⟨_, _, _, runs_put h.stored rfl rfl rfl rfl, lookup_putRecord _ _ _⟩

theorem rollsBack_historicalRollback (hhist : g.Historical rev) (leaseDuration : Time) (q : Bytes) :
    g.RollsBack rev q (historicalRollback leaseDuration g.app.id (g.found.getD {}) g.prior rev)
      g.start := by
  have hlease := stored_acquireLease g.version_found (historicalRollbackIntent g.prior rev)
    (g.start.now + leaseDuration)
  have h := (reverting_reversal hhist g.start.now (g.start.now + leaseDuration)).routed
    rev.ruleRef rev.instanceID
  show g.RollsBack rev q (orFail (g.start.stored (g.start.store.acquireLease g.app.id
    (g.found.getD {}).version (historicalRollbackIntent g.prior rev)
      (g.start.now + leaseDuration))).1 _ >>= _)
    (g.start.stored (g.start.store.acquireLease g.app.id (g.found.getD {}).version
      (historicalRollbackIntent g.prior rev) (g.start.now + leaseDuration))).2
  rw [hlease]
  show g.RollsBack rev q (ite (g.prior.instanceID ≠ [] ∧ g.prior.instanceID ≠ rev.instanceID) _ _)
    (route (g.reversalWorld rev g.start.now (g.start.now + leaseDuration)) rev.ruleRef
      rev.instanceID)
  split_ifs with hother
  · exact rollsBack_store (h.drained hother.2) q
  · exact rollsBack_store h q

/-- The rollback goes through where nothing fails. -/
theorem rollsBack_Rollback (hhist : g.Historical rev) (hid : trimSpace app.id = g.app.id)
    (leaseDuration : Time) (texts : Texts) (q : Bytes) :
    g.RollsBack rev q (Rollback leaseDuration texts app) g.start := by
  have hload : g.start.run q (loadRecord g.app.id) = (.ok (some (g.found.getD {})), g.start) := by
    rw [← hhist.found_eq]
    rfl
  have hprior : (g.found.getD {}).value = g.prior := rfl
  unfold Rollback RollsBack
  rw [hid, if_neg hhist.named, run, Prog.runWith_bind hload]
  dsimp only
  rw [← run, hprior, hhist.last]
  rw [runs_clock, hhist.not_busy, if_neg Bool.false_ne_true, if_neg hhist.instanceID,
    runs_forgetGone hhist.there, hhist.last_any, if_neg Bool.false_ne_true, hhist.rollbackTo_eq]
  exact rollsBack_historicalRollback hhist leaseDuration q

/-- An active record after a rollback is the one before or that of the finished rollback. -/
theorem rollback_atomic (hhist : g.Historical rev) (hid : trimSpace app.id = g.app.id)
    {leaseDuration : Time}
    (hrun : Pursued leaseDuration g.app.id (Rollback leaseDuration texts app) g.start (fun w =>
      g.prior.availableDigest = [] ∧ ∀ rev, g.prior.history.getLast? = some rev →
        w.target rev.ruleRef ≠ rev.instanceID) w) :
    Atomic (Rollback leaseDuration texts app) g.app.id g.start w := by
  have hinv : g.Reversing rev w := by
    induction hrun with
    | stopped hstop => exact (reverses_Rollback hhist hid leaseDuration texts).stops hstop
    | again _ hallowed hstop ih =>
      exact (reverses_Reconcile hhist ih hallowed.1 (hallowed.2 rev hhist.last)
        leaseDuration).stops hstop
  intro r hstored hactive
  cases hinv with
  | untouched hw => exact .inl ⟨r, found_of_untouched hw hstored, rfl⟩
  | inFlight h =>
    cases h.stored.symm.trans hstored
    cases (revert_phase h.value).symm.trans hactive
  | back hback hvalue =>
    cases hback.symm.trans hstored
    exact .inl ⟨_, hhist.found_eq, hvalue⟩
  | done hdone hserves =>
    cases hdone.symm.trans hstored
    obtain ⟨w', version, fence, hruns, hlookup⟩ :=
      rollsBack_Rollback hhist hid leaseDuration texts g.start.freshName
    exact .inr ⟨_, w', _, g.start.fresh_freshName, hruns, hlookup, rfl, hserves⟩

end Setting

/-- A rollout that was stopped or failed anywhere, and that was reconciled until its record is
active again, leaves the record from before or the one it stores when nothing interrupts it. -/
theorem rollout_atomic (op : Operation) {start w : World} (hstart : op.Admissible start)
    {leaseDuration : Time} {texts : Texts}
    (hrun : Pursued leaseDuration op.id (op.program leaseDuration texts) start
      (op.Reconcilable start) w) :
    Atomic (op.program leaseDuration texts) op.id start w := by
  cases op with
  | publish app digest => exact Setting.publish_atomic hstart hrun
  | rollback app =>
    obtain ⟨rev, hhist⟩ := hstart
    exact Setting.rollback_atomic hhist rfl hrun

section Runs

open Setting (sample plainTexts sample_sound)

theorem World.unguarded_behave (wanted : Bytes) (w : World) (c : RolloutCall) :
    w.unguarded c (w.behave wanted c).1 (w.behave wanted c).2 := by
  refine ⟨w.respond_behave wanted c, ?_⟩
  cases c with
  | live => rfl
  | _ => trivial

/-- A world with `value` as the record of the sample. -/
def World.recording (w : World) (value : Deployment) : World :=
  { w.putRecord sample.app.id ⟨2, value⟩ with
    instances := [ascii "i1", ascii "i0"], issued := [ascii "i1", ascii "i0"] }

/-- An app with an earlier revision whose instance `i0` is still there. -/
def earlierRevision : World := sample.start.recording
  { sample.prior with history := [
      { instanceID := ascii "i0", image := ascii "img0", ruleRef := ascii "r",
        ruleTarget := ascii "i0", generation := ascii "g0" }] }

/-- An app that remembers an available digest. -/
def digestAvailable : World :=
  sample.start.recording { sample.prior with availableDigest := ascii "d" }

theorem historical_earlierRevision :
    ((Operation.rollback sample.app).setting earlierRevision).Historical
      ⟨ascii "i0", ascii "img0", ascii "r", ascii "i0", ascii "g0", []⟩ where
  named := by decide
  existed := by decide
  settled := by unfold Deployment.Settled; decide
  last := by decide
  instanceID := by decide
  image := by decide
  ruleRef := by decide
  there := by decide

theorem retraceable_sample : sample.Retraceable where
  sound := sample_sound
  settled _ := by unfold Deployment.Settled; decide
  agent _ := by decide
  available _ := by decide

/-- Surroundings that behave, with a clock that goes on. -/
def delayed (w : World) : (c : RolloutCall) → RolloutAnswer c × World
  | .now => (w.now + 100, { w with now := w.now + 100 })
  | c => w.behave (ascii "i2") c

/-- Surroundings in which images cannot be pulled. -/
def pullFails (w : World) : (c : RolloutCall) → RolloutAnswer c × World
  | .pull _ _ => (.error .executor, w)
  | c => w.behave (ascii "i2") c

theorem unguarded_delayed (w : World) (c : RolloutCall) :
    w.unguarded c (delayed w c).1 (delayed w c).2 := by
  cases c with
  | now => exact ⟨⟨Nat.le_add_right _ _, rfl⟩, trivial⟩
  | _ => exact w.unguarded_behave (ascii "i2") _

theorem unguarded_pullFails (w : World) (c : RolloutCall) :
    w.unguarded c (pullFails w c).1 (pullFails w c).2 := by
  cases c with
  | pull => exact ⟨rfl, trivial⟩
  | _ => exact w.unguarded_behave (ascii "i2") _

/-- The world after some calls of an operation and a `Reconcile` after them. -/
def reconciledAfter (n : Nat) (p : RolloutM Unit) (start : World) : World :=
  ((Reconcile 30 sample.app.id).runWith delayed (p.stopAfter delayed n start)).2

theorem pursued_reconciledAfter {n : Nat} {p : RolloutM Unit} {start : World}
    {allowed : World → Prop} (hallowed : allowed (p.stopAfter delayed n start)) :
    Pursued 30 sample.app.id p start allowed (reconciledAfter n p start) :=
  .again (.stopped (Stops.stopAfter unguarded_delayed n p start)) hallowed
    (Stops.runWith unguarded_delayed _ _)

/-- The record of the sample is active. -/
def isActive (w : World) : Bool :=
  (w.store.records.lookup sample.app.id).any (·.value.phase == .active)

/-- The update of the sample stops after its cutover, the rollback before it; each is
reconciled until its record is active again. -/
theorem rollout_atomic_after_stops :
    (isActive (reconciledAfter 16 (publish 30 plainTexts sample.app []) sample.start) = true ∧
      Atomic (publish 30 plainTexts sample.app []) sample.app.id sample.start
        (reconciledAfter 16 (publish 30 plainTexts sample.app []) sample.start)) ∧
    isActive (reconciledAfter 5 (Rollback 30 plainTexts sample.app) earlierRevision) = true ∧
      Atomic (Rollback 30 plainTexts sample.app) sample.app.id earlierRevision
        (reconciledAfter 5 (Rollback 30 plainTexts sample.app) earlierRevision) := by
  refine ⟨⟨by decide, ?_⟩, by decide, ?_⟩
  · exact rollout_atomic (.publish sample.app []) retraceable_sample
      (pursued_reconciledAfter trivial)
  · refine rollout_atomic (.rollback sample.app) ⟨_, historical_earlierRevision⟩
      (pursued_reconciledAfter ⟨by decide, ?_⟩)
    intro rev hrev
    cases historical_earlierRevision.last.symm.trans hrev
    decide

/-- How a record shows that a rollout was not atomic. -/
theorem not_atomic {p : RolloutM Unit} {id : Bytes} (bad : Deployment → Bool)
    (hw : ∃ r ∈ w.store.records.lookup id, r.value.phase = .active ∧ bad r.value.unfenced = true)
    (hbefore : ∀ r ∈ start.store.records.lookup id, bad r.value.unfenced = false)
    (hafter : ∀ q, start.Fresh q → ∃ w' r, p.runWith (behave q) start = (.ok (), w') ∧
      w'.store.records.lookup id = some r ∧ bad r.value.unfenced = false) :
    ¬ Atomic p id start w := by
  obtain ⟨r, hstored, hactive, hbad⟩ := hw
  intro hatomic
  rcases hatomic r hstored hactive with
    ⟨before, hlookup, heq⟩ | ⟨q, w', after, hq, hrun, hlookup, heq, -⟩
  · exact Bool.noConfusion ((hbefore before hlookup).symm.trans (heq ▸ hbad))
  · obtain ⟨w'', r', hrun', hlookup', hgood⟩ := hafter q hq
    obtain rfl := (Prod.mk.inj (hrun.symm.trans hrun')).2
    cases hlookup.symm.trans hlookup'
    exact Bool.noConfusion (hgood.symm.trans (heq ▸ hbad))

/-- A failed update forgets the digest that was available: the record is neither the one before
nor the one of a finished update. -/
theorem digest_forgotten : ¬ Atomic (publish 30 plainTexts sample.app []) sample.app.id
    digestAvailable ((publish 30 plainTexts sample.app []).runWith pullFails digestAvailable).2 := by
  refine not_atomic (fun v => v.image == ascii "img1" && v.availableDigest == [])
    (by decide) (by decide) ?_
  intro q hq
  have hpublishes : Setting.Publishes ⟨sample.app, [], digestAvailable⟩ q
      (publish 30 plainTexts sample.app []) digestAvailable :=
    Setting.publishes_publish 30 rfl (by decide) hq
  obtain ⟨w', version, fence, hrun, hlookup⟩ := hpublishes
  refine ⟨w', _, hrun, hlookup, ?_⟩
  show (ascii "img2" == ascii "img1" && _) = false
  rw [show (ascii "img2" == ascii "img1") = false by decide, Bool.false_and]

/-- A rollback that `Reconcile` finishes has the history of an update, so the next rollback goes
forward again. -/
theorem history_replaced : ¬ Atomic (Rollback 30 plainTexts sample.app) sample.app.id
    earlierRevision (reconciledAfter 6 (Rollback 30 plainTexts sample.app) earlierRevision) := by
  refine not_atomic (fun v => v.instanceID == ascii "i0" && v.history != [])
    (by decide) (by decide) ?_
  intro q _
  obtain ⟨w', version, fence, hrun, hlookup⟩ :=
    Setting.rollsBack_Rollback historical_earlierRevision rfl 30 plainTexts q
  refine ⟨w', _, hrun, hlookup, ?_⟩
  have hone : ((Operation.rollback sample.app).setting earlierRevision).prior.history.dropLast =
      [] := by decide
  show (_ && (((Operation.rollback sample.app).setting earlierRevision).prior.history.dropLast !=
    [])) = false
  rw [hone, bne_self_eq_false, Bool.and_false]

/-- An update that fails to pull loses the available digest, and a rollback that stops after
its cutover ends with another history than one that is not stopped. -/
theorem rollouts_forget :
    (∃ w, Pursued 30 sample.app.id (publish 30 plainTexts sample.app []) digestAvailable
        (fun _ => True) w ∧
      ¬ Atomic (publish 30 plainTexts sample.app []) sample.app.id digestAvailable w) ∧
    ∃ w, Pursued 30 sample.app.id (Rollback 30 plainTexts sample.app) earlierRevision
        (fun _ => True) w ∧
      ¬ Atomic (Rollback 30 plainTexts sample.app) sample.app.id earlierRevision w :=
  ⟨⟨_, .stopped (Stops.runWith unguarded_pullFails _ _), digest_forgotten⟩,
    ⟨_, pursued_reconciledAfter trivial, history_replaced⟩⟩

end Runs

end NrePlugins.DockerApp
