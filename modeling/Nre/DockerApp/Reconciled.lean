import Nre.DockerApp.Publishing

/-!
# Recovery from every stop

After a stop, the lease runs out and everything behaves. One `Reconcile` then finishes a
rollout that is in flight and `Ready` (`runs_reconcileRecord`): it finds no foreign target,
and goes on or back without an obstacle. Together with `keeps_publish` this gives
`publish_recovers`.

A `Drain` that fails after it took effect leaves a record that is not `Ready`: the phase says
to go back, and the instance to go back to is gone (`drained_rollout_is_stuck`).
-/

namespace NrePlugins.DockerApp

open World
open DeploymentSnapshot

/-- The run of a program when nothing fails. -/
abbrev World.run {α : Type} (w : World) (wanted : Bytes) (p : RolloutM α) :
    Except Failure α × World :=
  p.runWith (behave wanted) w

namespace Setting

variable {g : Setting} {w : World} {r : DeploymentRecord} {wanted : Bytes}

/-! ## Runs -/

theorem runs_inspect {α : Type} {fence : UInt64} {app : App} {ruleRef : Bytes}
    (next : Except Failure RuntimeState → RolloutM α) :
    w.run wanted (Executor.inspect fence app ruleRef >>= next) =
      w.run wanted (next (.ok (w.observe ruleRef))) := rfl

section Writes

variable {α : Type} {fence : UInt64} {v : Deployment}
  (hstored : w.store.records.lookup g.app.id = some r) {q : Bytes}
  (hbare : r.value.bare = g.intent.bare)

include hstored

/-- The write over the stored record, where everything behaves. -/
theorem runs_put {next : Except Failure DeploymentRecord → RolloutM α} {id : Bytes}
    (hid : id = g.app.id) (hfence : fence = r.value.fencingToken) (hv : v.appID = id)
    (hvf : v.fencingToken = fence) :
    w.run wanted (Store.compareAndSwap id r.version fence v >>= next) =
      (w.putRecord g.app.id ⟨r.version + 1, v⟩).run wanted (next (.ok ⟨r.version + 1, v⟩)) := by
  subst hid
  show (next (w.stored (w.store.compareAndSwap g.app.id r.version fence v)).1).runWith _
    (w.stored (w.store.compareAndSwap g.app.id r.version fence v)).2 = _
  rw [stored_compareAndSwap hstored hfence hv hvf]

theorem runs_persistValue {next : DeploymentRecord → RolloutM α}
    (hfence : fence = r.value.fencingToken) (hv : v.appID = g.app.id)
    (hvf : v.fencingToken = fence) :
    w.run wanted (persistValue r fence v >>= next) =
      (w.putRecord g.app.id ⟨r.version + 1, v⟩).run wanted (next ⟨r.version + 1, v⟩) :=
  Prog.runWith_bind (runs_put hstored hv hfence rfl hvf)

/-! ## The last writes -/

/-- The new instance is gone, and what was there before is in place. -/
structure Cleared (g : Setting) (w : World) (q : Bytes) : Prop where
  gone : q ≠ [] → q ∉ w.instances
  unrouted : g.absent = true → q ≠ [] → w.target g.app.ruleRef ≠ q
  alive : g.absent = false → g.prior.instanceID ∈ w.instances
  routed : g.absent = false →
    cutOverComplete g.prior.ruleRef (w.target g.prior.ruleRef) g.prior.instanceID = true

include hbare

theorem runs_storeNew (hmem : q ∈ w.instances)
    (hcut : cutOverComplete g.app.ruleRef (w.target g.app.ruleRef) q = true) :
    (w.run wanted (storeNew r r.value q)).1 = .ok () := by
  have hid : (publishedRecord r.value.agentID r.value.image r.value.ruleRef r.value.generation
      r.value.imageDigest q r.value).appID = g.app.id := appID_eq hbare
  unfold storeNew
  rw [runs_inspect]
  dsimp only
  rw [if_neg (by simp [observe, ruleRef_eq hbare, hmem, hcut]),
    runs_persistValue hstored rfl hid rfl]
  rfl

theorem runs_storeAbsent {post : RuntimeState}
    (hrouted : ¬ (q ≠ [] ∧ post.ruleTarget = q)) :
    (w.run wanted (storeAbsent r r.value post q)).1 = .ok () := by
  unfold storeAbsent
  split_ifs
  · have hid : (restoredEmpty r.value).appID = g.app.id := appID_eq hbare
    rw [runs_persistValue hstored rfl hid rfl]
    rfl
  · show (Prog.runWith _ (orFail (w.deleted (w.store.deleteCAS r.value.appID r.version
      r.value.fencingToken)).1 id) _).1 = _
    rw [appID_eq hbare, deleted_deleteCAS hstored]
    rfl

theorem runs_storePresent (hsound : g.Sound) (halive : g.prior.instanceID ∈ w.instances)
    (hrouted : cutOverComplete g.prior.ruleRef (w.target g.prior.ruleRef) g.prior.instanceID =
      true) :
    (w.run wanted (storePresent r r.value (w.observe r.value.priorRuleRef)
      g.prior.instanceID)).1 = .ok () := by
  have hid : (restoredRecord r.value g.prior.instanceID).appID = g.app.id := appID_eq hbare
  unfold storePresent
  rw [priorRuleRef_eq hbare, priorRuleTarget_eq hbare, hsound.ruleTarget,
    if_neg (by simp [observe, halive, hrouted]), runs_persistValue hstored rfl hid rfl]
  rfl

theorem runs_storePrior (hsound : g.Sound) (hclear : g.Cleared w q) :
    (w.run wanted (storePrior r r.value g.prior.instanceID q)).1 = .ok () := by
  have hthere : ∀ ref, ¬ (q ≠ [] ∧ q ∈ (w.observe ref).instances) :=
    fun ref hboth => hclear.gone hboth.1 hboth.2
  unfold storePrior
  rw [runs_inspect]
  dsimp only
  rw [if_neg (hthere _), priorAbsent_eq hbare]
  cases habsent : g.absent with
  | true =>
    refine runs_storeAbsent hstored hbare ?_
    rintro ⟨hq, htarget⟩
    refine hclear.unrouted habsent hq ?_
    rw [← ruleRef_eq hbare]
    exact htarget
  | false =>
    exact runs_storePresent hstored hbare hsound (hclear.alive habsent) (hclear.routed habsent)

end Writes

/-! ## Going on and going back -/

/-- What reconciliation sees of the rule of the instance before. -/
theorem routed_of_observed (h : g.InFlight True w r) (habsent : g.absent = false)
    (hcut : cutOverComplete g.prior.ruleRef (w.observe (inspectRef r.value)).ruleTarget
      g.prior.instanceID = true) :
    cutOverComplete g.prior.ruleRef (w.target g.prior.ruleRef) g.prior.instanceID = true := by
  by_cases hnil : g.prior.ruleRef = []
  · rw [hnil]
    rfl
  · by_cases hsame : g.prior.ruleRef = g.app.ruleRef
    · have href : inspectRef r.value = g.prior.ruleRef := by
        unfold inspectRef
        rw [priorRuleRef_eq h.bare, ruleRef_eq h.bare, ← hsame, ite_self]
      rw [href] at hcut
      exact hcut
    · -- the rule that was looked at may be another one, but this one was never moved
      rw [(h.ready trivial).other (not_absent_iff.mp habsent) hnil hsame]
      simp [cutOverComplete]

/-- No rule that reconciliation looks at has a foreign target. -/
theorem InFlight.related (h : g.InFlight True w r) :
    (w.observe (inspectRef r.value)).ruleTarget = [] ∨
      (w.observe (inspectRef r.value)).ruleTarget = g.prior.instanceID ∨
      (w.observe (inspectRef r.value)).ruleTarget = newInstance w r.value := by
  have hready := h.ready trivial
  by_cases hown : inspectRef r.value = g.app.ruleRef
  · rw [hown]
    exact hready.own
  · have hprior : inspectRef r.value = g.prior.ruleRef ∧ g.absent = false := by
      unfold inspectRef at hown ⊢
      rw [priorRuleRef_eq h.bare, ruleRef_eq h.bare, priorAbsent_eq h.bare] at hown ⊢
      split_ifs at hown ⊢ with hphase
      · exact ⟨rfl, hphase.2.2.2⟩
      · exact absurd rfl hown
    rw [hprior.1] at hown ⊢
    by_cases hnil : g.prior.ruleRef = []
    · rw [hnil]
      exact .inl rfl
    · exact .inr (.inl (hready.other (not_absent_iff.mp hprior.2) hnil hown))

section InFlight

variable (hsound : g.Sound) (h : g.InFlight True w r)

include hsound h

section Pending

variable (hp : r.value.pendingInstance = q)

include hp

theorem runs_finishNew (hq : q ≠ []) (hforward : g.Forward w r.value) (priorExists : Bool) :
    (w.run wanted (finishNew r r.value g.prior.instanceID q priorExists)).1 = .ok () := by
  obtain ⟨-, -, hmem, hcut⟩ := hforward
  rw [newInstance_of_pending hp hq] at hmem hcut
  unfold finishNew
  split_ifs
  · exact runs_storeNew (w := w.delete g.prior.instanceID) h.stored h.bare
      (mem_instances_delete.mpr ⟨hmem, (h.ne_prior hp hq hsound).symm⟩) hcut
  · exact runs_storeNew h.stored h.bare hmem hcut

theorem runs_removeNew
    (hunrouted : g.absent = true → q ≠ [] → w.target g.app.ruleRef ≠ q)
    (halive : g.absent = false → g.prior.instanceID ∈ w.instances) (hrouted : g.absent = false →
      cutOverComplete g.prior.ruleRef (w.target g.prior.ruleRef) g.prior.instanceID = true)
    {newExists : Bool} (hexists : newExists = true ↔ q ≠ [] ∧ q ∈ w.instances) :
    (w.run wanted (removeNew r r.value g.prior.instanceID q newExists)).1 = .ok () := by
  unfold removeNew
  split_ifs with hnew
  · obtain ⟨hq, -⟩ := hexists.mp hnew
    have hid : r.value.cleaningUp.appID = g.app.id := appID_eq h.bare
    show (w.run wanted (persistValue r r.value.fencingToken r.value.cleaningUp >>= _)).1 = _
    rw [runs_persistValue h.stored rfl hid rfl]
    refine runs_storePrior (r := ⟨r.version + 1, r.value.cleaningUp⟩)
      (w := (w.putRecord g.app.id ⟨r.version + 1, r.value.cleaningUp⟩).delete q)
      (lookup_putRecord _ _ _) h.bare hsound ⟨?_, hunrouted, ?_, hrouted⟩
    · intro _ hmem
      exact (mem_instances_delete.mp hmem).2 rfl
    · intro habsent
      exact mem_instances_delete.mpr ⟨halive habsent, h.ne_prior hp hq hsound⟩
  · refine runs_storePrior h.stored h.bare hsound ⟨?_, hunrouted, halive, hrouted⟩
    intro hq hmem
    exact hnew (hexists.mpr ⟨hq, hmem⟩)

theorem runs_restorePrior (hcandidate : q = [] → w.candidate = [])
    (hback : g.Backward w r.value) {priorExists newExists : Bool}
    (hprior : g.absent = false → priorExists = true)
    (hexists : newExists = true ↔ q ≠ [] ∧ q ∈ w.instances) :
    (w.run wanted (restorePrior r r.value (w.observe (inspectRef r.value)) g.prior.instanceID q
      priorExists newExists)).1 = .ok () := by
  unfold restorePrior
  rw [priorAbsent_eq h.bare]
  cases habsent : g.absent with
  | false =>
    have halive := (backward_iff_alive habsent).mp hback
    rw [if_pos rfl, hprior habsent, if_neg (by simp), priorRuleRef_eq h.bare,
      priorRuleTarget_eq h.bare, hsound.ruleTarget]
    split_ifs with hcut
    · have href : g.prior.ruleRef ≠ [] := by
        intro hnil
        rw [hnil] at hcut
        cases hcut
      refine runs_removeNew hsound (h.routedBack habsent (fun _ => hback) href).1 hp
        (by simp [habsent]) (fun _ => halive) (fun _ => ?_) hexists
      rw [target_route_self _ href]
      simp [cutOverComplete]
    · rw [Bool.not_eq_false] at hcut
      exact runs_removeNew hsound h hp (by simp [habsent]) (fun _ => halive)
        (fun _ => routed_of_observed h habsent hcut) hexists
  | true =>
    rw [Backward, habsent, newInstance_of_candidate hp hcandidate] at hback
    have href : inspectRef r.value = g.app.ruleRef := by
      unfold inspectRef
      rw [priorAbsent_eq h.bare, habsent, if_neg (by simp), ruleRef_eq h.bare]
    have hunrouted : q ≠ [] → w.target g.app.ruleRef ≠ q := fun hq => hback.resolve_left hq
    have hopen : ¬ (q ≠ [] ∧ (w.observe (inspectRef r.value)).ruleTarget = q) := by
      rw [href]
      exact fun hboth => hunrouted hboth.1 hboth.2
    rw [if_neg (by simp), if_neg hopen]
    exact runs_removeNew hsound h hp (fun _ => hunrouted) (by simp [habsent]) (by simp [habsent])
      hexists

/-! ## Reconciliation -/

theorem runs_reconcileKnown (hcandidate : q = [] → w.candidate = []) :
    (w.run wanted (reconcileKnown r r.value (w.observe (inspectRef r.value)) q)).1 = .ok () := by
  have hnew := newInstance_of_candidate hp hcandidate
  have hrelated : ¬ ((w.observe (inspectRef r.value)).ruleTarget ≠ [] ∧
      (w.observe (inspectRef r.value)).ruleTarget ≠ r.value.priorRuleTarget ∧
      (w.observe (inspectRef r.value)).ruleTarget ≠ q) := by
    rw [priorRuleTarget_eq h.bare, hsound.ruleTarget, ← hnew]
    rintro ⟨hnil, hprior, hq⟩
    exact h.related.elim hnil fun hcase => hcase.elim hprior hq
  unfold reconcileKnown
  rw [fallbackInstance_eq h.bare, h.not_historical hsound, if_neg hrelated]
  by_cases hforward : g.Forward w r.value
  · rw [if_pos ((canFinish_iff h hp hcandidate).mpr hforward)]
    exact runs_finishNew hsound h hp (hnew ▸ hforward.2.1) hforward _
  · rw [if_neg (fun hcan => hforward ((canFinish_iff h hp hcandidate).mp hcan)),
      if_neg Bool.false_ne_true]
    have hback := (h.ready trivial).way.resolve_left hforward
    refine runs_restorePrior hsound h hp hcandidate hback ?_
      (by rw [Bool.and_eq_true, bne_iff_ne, decide_eq_true_iff]; rfl)
    intro habsent
    have halive := (backward_iff_alive habsent).mp hback
    have hne := not_absent_iff.mp habsent
    simp [priorAbsent_eq h.bare, habsent, hne, observe, halive]

end Pending

theorem runs_reconcileRecord : (w.run wanted (reconcileRecord r)).1 = .ok () := by
  unfold reconcileRecord
  rw [runs_inspect]
  dsimp only
  by_cases hp : r.value.pendingInstance = []
  · rw [if_pos hp]
    by_cases hc : w.candidate = []
    · rw [if_neg (by simp [observe, hc, hp])]
      have hknown : (w.run wanted (reconcileKnown r r.value (w.observe (inspectRef r.value))
          [])).1 = .ok () := runs_reconcileKnown hsound h hp fun _ => hc
      simpa [observe, hc] using hknown
    · have hid : (r.value.withPending w.candidate).appID = g.app.id := appID_eq h.bare
      rw [if_pos (by simpa [observe, hp] using hc)]
      show (w.run wanted (persistValue r r.value.fencingToken (r.value.withPending w.candidate) >>=
        _)).1 = _
      rw [runs_persistValue h.stored rfl hid rfl]
      exact runs_reconcileKnown hsound (h.named hp) rfl fun hnil => absurd hnil hc
  · rw [if_neg hp, if_neg (by simp)]
    exact runs_reconcileKnown hsound h rfl fun hnil => absurd hnil hp

end InFlight

/-! ## One call of `Reconcile` -/

theorem respond_behave (g : Setting) (recoverable steady : Prop) (wanted : Bytes) (w : World)
    (c : RolloutCall) :
    g.respond recoverable steady w c (w.behave wanted c).1 (w.behave wanted c).2 := by
  refine ⟨w.respond_behave wanted c, ?_⟩
  cases c with
  | cutover => rintro _ _ ⟨_, ⟨⟩⟩
  | drain => rintro _ ⟨_, ⟨⟩⟩
  | live => exact ⟨nofun, fun _ => rfl⟩
  | _ => trivial

/-- The record that `Reconcile` works on, once it has the lease. -/
def releasedTo (g : Setting) (w : World) (r : DeploymentRecord) (until_ : Time) :
    DeploymentRecord :=
  leased g.app.id r.version (w.store.fence g.app.id + 1)
    { r.value with lease := [] } until_

/-- The world once `Reconcile` has the lease. -/
def worldLeased (g : Setting) (w : World) (r : DeploymentRecord) (until_ : Time) : World :=
  { w with store := w.store.setFence g.app.id (w.store.fence g.app.id + 1) }.putRecord g.app.id
    (g.releasedTo w r until_)

/-- `Reconcile` on a record that is not active and whose lease has run out. -/
theorem runs_Reconcile {leaseDuration : Time}
    (hstored : w.store.records.lookup g.app.id = some r) (hphase : r.value.phase ≠ .active)
    (hexpired : r.value.lease = [] ∨ r.value.leaseUntil ≤ w.now) :
    w.run wanted (Reconcile leaseDuration g.app.id) =
      (g.worldLeased w r (w.now + leaseDuration)).run wanted
        (reconcileRecord (g.releasedTo w r (w.now + leaseDuration))) := by
  have hload : w.run wanted (loadRecord g.app.id) = (.ok (some r), w) := by
    have hanswer : (behave wanted w (.load g.app.id)).1 = .ok (some r) :=
      congrArg Except.ok hstored
    show w.run wanted (orFail (behave wanted w (.load g.app.id)).1
      fun _ => Failure.operationFailed) = _
    rw [hanswer]
    rfl
  have hfree : ¬ (r.value.phase = .active ∨ (r.value.lease ≠ [] ∧ w.now < r.value.leaseUntil)) := by
    rintro (hactive | ⟨hlease, hlater⟩)
    · exact hphase hactive
    · exact hexpired.elim hlease (Nat.not_le.mpr hlater)
  have hlease := stored_acquireLease (w := w)
    (congrArg DeploymentRecord.version (record_of_lookup hstored)) { r.value with lease := [] }
    (w.now + leaseDuration)
  refine (Prog.runWith_bind hload).trans ?_
  show (ite (r.value.phase = .active ∨ (r.value.lease ≠ [] ∧ w.now < r.value.leaseUntil))
    (Prog.fail Failure.reconcilePending) _ : RolloutM Unit).runWith _ w = _
  rw [if_neg hfree]
  show (orFail (w.stored (w.store.acquireLease g.app.id r.version { r.value with lease := [] }
    (w.now + leaseDuration))).1 _ >>= fun leased => reconcileRecord leased).runWith _
    (w.stored (w.store.acquireLease g.app.id r.version { r.value with lease := [] }
      (w.now + leaseDuration))).2 = _
  rw [hlease]
  rfl

theorem InFlight.leased {recoverable : Prop} (h : g.InFlight recoverable w r) (until_ : Time) :
    g.InFlight recoverable (g.worldLeased w r until_) (g.releasedTo w r until_) := by
  have hfenced : g.InFlight recoverable
      { w with store := w.store.setFence g.app.id (w.store.fence g.app.id + 1) } r :=
    ⟨h.stored, h.bare, h.phase, h.fresh, fun hrec =>
      ⟨(h.ready hrec).own, (h.ready hrec).other, (h.ready hrec).way⟩⟩
  refine hfenced.note _ ?_ rfl rfl
  show { r.value.bare with appID := g.app.id } = r.value.bare
  rw [← appID_eq h.bare]
  rfl

/-- What the end of a rollout must leave: no record where there was none, or an active one
whose instance, if the app has one, serves. -/
def Recovered (g : Setting) (w : World) : Prop :=
  match w.store.records.lookup g.app.id with
  | none => g.existed = false
  | some r => r.value.phase = .active ∧
      (g.prior.instanceID ≠ [] ∨ r.value.instanceID ≠ [] → Serves w r.value)

theorem Ended.recovered {steady : Prop} (h : g.Ended steady w) : g.Recovered w := by
  unfold Recovered
  cases h with
  | gone hnone hexisted =>
    rw [hnone]
    exact hexisted
  | @reverted version fence hstored _ hserves =>
    rw [hstored]
    refine ⟨rfl, ?_⟩
    intro hinstance
    exact hserves (not_absent_iff.mpr (or_self_iff.mp hinstance))
  | published hstored _ _ _ _ _ hserves =>
    rw [hstored]
    exact ⟨rfl, fun _ => hserves⟩

variable {recoverable steady : Prop}

theorem InFlight.later (h : g.InFlight recoverable w r) (t : Time) :
    g.InFlight recoverable { w with now := t } r :=
  ⟨h.stored, h.bare, h.phase, h.fresh, fun hrec =>
    ⟨(h.ready hrec).own, (h.ready hrec).other, (h.ready hrec).way⟩⟩

theorem Inv.later (h : g.Inv recoverable steady w) (t : Time) :
    g.Inv recoverable steady { w with now := t } := by
  cases h with
  | untouched hw =>
    subst hw
    exact .untouched (t := t) rfl
  | inFlight h => exact .inFlight (h.later t)
  | ended h =>
    refine .ended ?_
    cases h with
    | gone hnone hexisted => exact .gone hnone hexisted
    | reverted hstored hexisted hserves => exact .reverted hstored hexisted hserves
    | published hstored hq hfresh hsame hid href hserves =>
      exact .published hstored hq hfresh hsame hid href hserves

/-- The record of the world before. -/
theorem found_of_untouched {t : Time} (hw : w = { g.start with now := t })
    (hstored : w.store.records.lookup g.app.id = some r) : g.found = some r := by
  subst hw
  exact hstored

theorem prior_of_found (hfound : g.found = some r) : g.prior = r.value := by
  rw [prior, hfound]
  rfl

theorem active_of_found (hsound : g.Sound) (hfound : g.found = some r) :
    r.value.phase = .active :=
  prior_of_found hfound ▸ hsound.active (Option.isSome_of_mem hfound)

/-- A record of this rollout that is not active is in flight. -/
theorem Inv.inFlight_of_phase (hsound : g.Sound) (h : g.Inv recoverable steady w)
    (hstored : w.store.records.lookup g.app.id = some r) (hphase : r.value.phase ≠ .active) :
    g.InFlight recoverable w r := by
  cases h with
  | untouched hw =>
    exact absurd (active_of_found hsound (found_of_untouched hw hstored)) hphase
  | inFlight h =>
    cases h.stored.symm.trans hstored
    exact h
  | ended h =>
    have hactive := h.recovered
    rw [Recovered, hstored] at hactive
    exact absurd hactive.1 hphase

/-- Nothing was done: the record before is as it was. -/
theorem recovered_start (hsound : g.Sound) (hserving : g.Serving) (t : Time) :
    g.Recovered { g.start with now := t } := by
  unfold Recovered
  cases hfound : g.found with
  | none =>
    have hlookup : g.start.store.records.lookup g.app.id = none := hfound
    simp [hlookup, existed, hfound]
  | some r =>
    have hlookup : g.start.store.records.lookup g.app.id = some r := hfound
    have hprior := prior_of_found hfound
    simp only [hlookup]
    refine ⟨active_of_found hsound hfound, ?_⟩
    intro hinstance
    rw [hprior, or_self] at hinstance
    rw [← hprior] at hinstance ⊢
    exact ⟨hserving.alive hinstance, hserving.routed hinstance⟩

/-- `publish` is stopped anywhere, and time passes. Where the record is in a phase of the
rollout, one `Reconcile` returns no error and leaves a record that serves, or none; where it
is not, such a record is there already. -/
theorem publish_recovers (hsound : g.Sound) (hserving : g.Serving) {leaseDuration : Time}
    {texts : Texts} (hstop : Stops (g.respond True False) g.start
      (publish leaseDuration texts g.app g.digest) w) (wanted : Bytes) (t : Time) :
    (∀ r, w.store.records.lookup g.app.id = some r → r.value.phase ≠ .active →
      (r.value.lease = [] ∨ r.value.leaseUntil ≤ t) →
      ∃ w', (Reconcile leaseDuration g.app.id).runWith (behave wanted) { w with now := t } =
        (.ok (), w') ∧ g.Recovered w') ∧
    ((∀ r, w.store.records.lookup g.app.id = some r → r.value.phase = .active) →
      g.Recovered { w with now := t }) := by
  have hkeeps : g.KeepsPublish True False (publish leaseDuration texts g.app g.digest) g.start :=
    keeps_publish hsound (fun _ => hserving) leaseDuration texts
  have hinv := hkeeps.stops hstop
  constructor
  · intro r hstored hphase hexpired
    have hflight := (hinv.later t).inFlight_of_phase hsound hstored hphase
    have hleased := hflight.leased (t + leaseDuration)
    have hrun : run _ wanted (Reconcile leaseDuration g.app.id) = _ :=
      runs_Reconcile (w := { w with now := t }) hstored hphase hexpired
    refine ⟨_, hrun.trans (Prod.ext (runs_reconcileRecord hsound hleased) rfl), ?_⟩
    have hreconcile : g.KeepsPublish True False (reconcileRecord _) _ :=
      keeps_reconcileRecord hsound hleased
    have hdone := hreconcile.runWith (g.respond_behave True False wanted)
    exact (hdone.2 (runs_reconcileRecord hsound hleased)).recovered
  · intro hactive
    cases hinv with
    | untouched hw =>
      subst hw
      exact recovered_start hsound hserving t
    | inFlight h => exact absurd (hactive _ h.stored) h.phase
    | ended h => exact h.recovered

/-! ## A record that never recovers -/

/-- The phase says to go back, and the instance to go back to is gone. -/
structure Stuck (g : Setting) (w : World) (r : DeploymentRecord) : Prop where
  stored : w.store.records.lookup g.app.id = some r
  appID : r.value.appID = g.app.id
  phase : r.value.phase = .routeReconcile
  present : r.value.priorAbsent = false
  gone : fallbackInstance r.value ∉ w.instances
  pending : r.value.pendingInstance ≠ []

/-- Reconciliation gives the lease back and reports that it is pending. -/
theorem Stuck.runs_reconcileRecord (h : g.Stuck w r) (wanted : Bytes) :
    ∃ w', w.run wanted (reconcileRecord r) = (.error .reconcilePending, w') ∧
      g.Stuck w' ⟨r.version + 1, { r.value with lease := [], leaseUntil := 0 }⟩ := by
  have hrelease : w.run wanted (release r .reconcilePending) =
      (.error .reconcilePending, w.putRecord g.app.id
        ⟨r.version + 1, { r.value with lease := [], leaseUntil := 0 }⟩) :=
    runs_put (v := { r.value with lease := [], leaseUntil := 0 }) h.stored h.appID rfl rfl rfl
  refine ⟨_, ?_, ⟨lookup_putRecord _ _ _, h.appID, h.phase, h.present, h.gone, h.pending⟩⟩
  rw [← hrelease]
  unfold reconcileRecord
  rw [runs_inspect]
  dsimp only
  rw [if_neg h.pending, if_neg (by simp)]
  unfold reconcileKnown
  dsimp only
  have hcan : canFinish r.value (w.observe (inspectRef r.value)) r.value.pendingInstance =
      false := by
    simp [canFinish, h.phase]
  have hgone : fallbackInstance r.value ∉ (w.observe (inspectRef r.value)).instances := h.gone
  rw [if_neg (Bool.eq_false_iff.mp hcan)]
  split_ifs
  · rfl
  · rw [restoreHistoricalPrior, if_pos (.inr (.inr hgone))]
  · rw [restorePrior, if_pos h.present, if_pos]
    rw [decide_eq_false hgone, Bool.and_false]

/-- Every `Reconcile` reports that it is pending, and leaves the record as stuck as before. -/
theorem Stuck.runs_Reconcile (h : g.Stuck w r) (wanted : Bytes) (leaseDuration : Time)
    (hexpired : r.value.lease = [] ∨ r.value.leaseUntil ≤ w.now) :
    ∃ w' r', w.run wanted (Reconcile leaseDuration g.app.id) =
        (.error .reconcilePending, w') ∧ g.Stuck w' r' ∧ r'.value.lease = [] := by
  have hleased : g.Stuck (g.worldLeased w r (w.now + leaseDuration))
      (g.releasedTo w r (w.now + leaseDuration)) :=
    ⟨lookup_putRecord _ _ _, rfl, h.phase, h.present, h.gone, h.pending⟩
  obtain ⟨w', hrun, hstuck⟩ := hleased.runs_reconcileRecord wanted
  refine ⟨w', _, ?_, hstuck, rfl⟩
  rw [Setting.runs_Reconcile h.stored (by rw [h.phase]; simp) hexpired]
  exact hrun

section Runs

/-- An app that is updated. -/
def sample : Setting where
  app := { id := ascii "media", agentID := ascii "a1", image := ascii "img2", ruleRef := ascii "r",
           generation := ascii "g2" }
  digest := []
  start := {
    store := (empty.setFence (ascii "media") 1).setRecord (ascii "media")
      ⟨2, { appID := ascii "media", agentID := ascii "a1", instanceID := ascii "i1",
            image := ascii "img1", ruleRef := ascii "r", ruleTarget := ascii "i1",
            generation := ascii "g1", phase := .active, fencingToken := 1 }⟩
    instances := [ascii "i1"]
    rules := fun ruleRef => if ruleRef = ascii "r" then ascii "i1" else []
    candidate := []
    issued := [ascii "i1"]
    now := 100 }

/-- Texts are taken as they are. -/
def plainTexts : Texts := ⟨fun _ => true, fun image _ => image, fun compose _ _ => compose⟩

theorem sample_sound : sample.Sound where
  active _ := by decide
  ruleTarget := by decide
  known _ := by decide
  knownHistory := by decide
  candidate := rfl
  image _ hnone := absurd hnone (by decide)

theorem sample_serving : sample.Serving where
  alive _ := by decide
  routed _ _ := by decide
  related := by decide

/-- The update of the sample stops after its cutover, and one `Reconcile` finishes it. -/
theorem publish_recovers_after_cutover :
    ∃ w r w', Stops (sample.respond True False) sample.start
        (publish 30 plainTexts sample.app sample.digest) w ∧
      w.store.records.lookup sample.app.id = some r ∧ r.value.phase = .cutover ∧
      (Reconcile 30 sample.app.id).runWith (behave []) { w with now := 1000 } =
        (.ok (), w') ∧ sample.Recovered w' := by
  have hstop : Stops (sample.respond True False) sample.start
      (publish 30 plainTexts sample.app sample.digest) _ :=
    Stops.stopAfter (sample.respond_behave True False (ascii "i2")) 16 _ _
  have hrecord : ∃ r ∈ (Prog.stopAfter (behave (ascii "i2")) 16
      (publish 30 plainTexts sample.app sample.digest) sample.start).store.records.lookup
        sample.app.id, r.value.phase = .cutover ∧ r.value.leaseUntil ≤ 1000 := by
    decide
  obtain ⟨r, hstored, hr⟩ := hrecord
  obtain ⟨w', hrun, hrecovered⟩ := (publish_recovers sample_sound sample_serving
    hstop [] 1000).1 r hstored (by rw [hr.1]; simp) (.inr hr.2)
  exact ⟨_, r, w', hstop, hstored, hr.1, hrun, hrecovered⟩

/-- Surroundings in which draining takes effect and still fails. -/
def drainFails (w : World) : (c : RolloutCall) → RolloutAnswer c × World
  | .drain _ _ instanceID => (.error .executor, w.delete instanceID)
  | c => w.behave (ascii "i2") c

theorem respond_drainFails (w : World) (c : RolloutCall) :
    w.respond c (drainFails w c).1 (drainFails w c).2 := by
  cases c with
  | drain => exact .inr rfl
  | _ => exact w.respond_behave (ascii "i2") _

/-- The update of the sample, with a drain that fails after it took effect, leaves a record
that is stuck. -/
theorem drained_rollout_is_stuck :
    sample.Sound ∧ sample.Serving ∧
      ∃ w r, Stops World.respond sample.start (publish 30 plainTexts sample.app sample.digest) w ∧
        sample.Stuck w r ∧ ∃ w' r', (Reconcile 30 sample.app.id).runWith (World.behave [])
          { w with now := 1000 } = (.error .reconcilePending, w') ∧ sample.Stuck w' r' := by
  refine ⟨sample_sound, sample_serving, ?_⟩
  have hstop : Stops World.respond sample.start
      (publish 30 plainTexts sample.app sample.digest) _ := Stops.runWith respond_drainFails _ _
  have hrecord : let w := ((publish 30 plainTexts sample.app sample.digest).runWith drainFails
        sample.start).2
      ∃ r ∈ w.store.records.lookup sample.app.id, r.value.appID = sample.app.id ∧
        r.value.phase = .routeReconcile ∧ r.value.priorAbsent = false ∧
        fallbackInstance r.value ∉ w.instances ∧ r.value.pendingInstance ≠ [] ∧
        r.value.leaseUntil ≤ 1000 := by
    decide
  obtain ⟨r, hstored, happID, hphase, hpresent, hgone, hpending, hlease⟩ := hrecord
  have hstuck : sample.Stuck _ r := ⟨hstored, happID, hphase, hpresent, hgone, hpending⟩
  refine ⟨_, r, hstop, hstuck, ?_⟩
  have hlater : sample.Stuck { ((publish 30 plainTexts sample.app sample.digest).runWith drainFails
      sample.start).2 with now := 1000 } r :=
    ⟨hstored, happID, hphase, hpresent, hgone, hpending⟩
  obtain ⟨w', r', hrun, hstuck', -⟩ := hlater.runs_Reconcile [] 30 (.inr hlease)
  exact ⟨w', r', hrun, hstuck'⟩

end Runs

end Setting

end NrePlugins.DockerApp
