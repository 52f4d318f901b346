import Nre.DockerApp.Recovery

/-!
# Where publishing stops

The stages of `publish`, each with what it finds when it starts. Until `Start` succeeds the
world has no new instance; from then on the record or the executor names it (`q`); from the
cutover on the new instance serves. A stage that fails hands over to `rollback`, which needs
to know that reconciliation can go back (`Backward`).
-/

namespace NrePlugins.DockerApp.Setting

variable {g : Setting} {recoverable steady : Prop} {w : World} {r : DeploymentRecord}

/-- The app that `publish` goes on with is the one asked for, up to what the guard renews. -/
structure Renewed (g : Setting) (steady : Prop) (app : App) : Prop where
  id : app.id = g.app.id
  ruleRef : app.ruleRef = g.app.ruleRef
  same : steady → app = g.app

/-! ## The guard -/

theorem keeps_require {next : Bool → RolloutM Unit} (hinv : g.Inv recoverable steady w)
    (hnext : g.KeepsPublish recoverable steady (next true) w) :
    g.KeepsPublish recoverable steady (requireObservationPersist >>= next) w := by
  refine Always.bind (Always.ask hinv ?_)
  rintro (live : Option (Option App)) w' ⟨hw, hlive⟩
  obtain rfl : w' = w := hw
  have htrue : (live != some none) = true := bne_iff_ne.mpr hlive.1
  refine ⟨hinv, ?_⟩
  show Always _ _ _ (next (live != some none)) w'
  rw [htrue]
  exact hnext

variable {app : App}

theorem keeps_bindLive {next : Option App → RolloutM Unit} (hinv : g.Inv recoverable steady w)
    (happ : g.Renewed steady app)
    (hnext : ∀ app', g.Renewed steady app' →
      g.KeepsPublish recoverable steady (next (some app')) w) :
    g.KeepsPublish recoverable steady (bindLiveCatalogApp app >>= next) w := by
  refine Always.bind (Always.ask hinv ?_)
  rintro (live : Option (Option App)) w' ⟨hw, hlive⟩
  obtain rfl : w' = w := hw
  match live with
  | none => exact ⟨hinv, hnext app happ⟩
  | some none => exact absurd rfl hlive.1
  | some (some live) =>
    have hsteady : ¬ steady := fun h => nomatch hlive.2 h
    exact ⟨hinv, hnext _ ⟨(app.rebound_id live).trans happ.id,
      (app.rebound_ruleRef live).trans happ.ruleRef, fun h => absurd h hsteady⟩⟩

/-! ## Failure -/

theorem bare_rollbackIntent (h : r.value.bare = g.intent.bare) (q : Bytes) (route : Bool) :
    (rollbackIntent r.value g.prior g.existed q route).bare = r.value.bare := by
  have habsent : g.absent = r.value.priorAbsent := (priorAbsent_eq h).symm
  have htarget : g.prior.ruleTarget = r.value.priorRuleTarget := (priorRuleTarget_eq h).symm
  show { r.value.bare with priorAbsent := g.absent, priorRuleTarget := g.prior.ruleTarget } = _
  rw [habsent, htarget]
  rfl

variable {q : Bytes} {runtimeApp : App}

/-- A stage failed; the rollout goes back, as far as it can. -/
theorem keeps_rollback (hsound : g.Sound) (h : g.InFlight recoverable w r)
    (hq : (if q = [] then w.candidate else q) = newInstance w r.value)
    (hback : recoverable → g.Backward w r.value) (route : Bool) :
    g.KeepsPublish recoverable steady (rollback r g.prior g.existed q route) w := by
  have hnew : newInstance w (rollbackIntent r.value g.prior g.existed q route) =
      newInstance w r.value := hq
  have hput : g.InFlight recoverable
      (w.putRecord g.app.id ⟨r.version + 1, rollbackIntent r.value g.prior g.existed q route⟩)
      ⟨r.version + 1, rollbackIntent r.value g.prior g.existed q route⟩ := by
    refine h.put _ (bare_rollbackIntent h.bare q route) ?_ (hnew ▸ h.fresh) ?_
    · cases route <;> simp [rollbackIntent]
    · intro hrec
      obtain ⟨hown, hother, -⟩ := h.ready hrec
      refine ⟨hnew ▸ hown, hother, .inr ?_⟩
      rw [Backward, hnew]
      exact hback hrec
  refine keeps_put (.inFlight h) h.stored (appID_eq h.bare) rfl rfl rfl ?_
  exact (keeps_reconcileRecord hsound hput).attemptThen fun w' res hinv _ => ⟨hinv, by rintro ⟨⟩⟩

/-! ## Stages with a new instance -/

/-- The record in flight moves on to the next phase. -/
theorem keeps_intent {next : DeploymentRecord → RolloutM Unit} {phase : RolloutPhase}
    {actual desired : Bytes} (h : g.InFlight recoverable w r) (hphase : phase ≠ .active)
    (hq : (if q = [] then w.candidate else q) = newInstance w r.value)
    (hway : recoverable → ((phase = .cutover ∨ phase = .draining) ∧ newInstance w r.value ≠ [] ∧
      newInstance w r.value ∈ w.instances ∧
      cutOverComplete g.app.ruleRef (w.target g.app.ruleRef) (newInstance w r.value) = true) ∨
      g.Backward w r.value) (hnext : ∀ v : Deployment, v.phase = phase → v.pendingInstance = q →
      g.InFlight recoverable (w.putRecord g.app.id ⟨r.version + 1, v⟩) ⟨r.version + 1, v⟩ →
      g.KeepsPublish recoverable steady (next ⟨r.version + 1, v⟩)
        (w.putRecord g.app.id ⟨r.version + 1, v⟩)) :
    g.KeepsPublish recoverable steady (DockerApp.intent r phase q actual desired >>= next) w := by
  refine Always.bind (keeps_put (.inFlight h) h.stored (appID_eq h.bare) rfl rfl rfl ?_)
  have hnew : newInstance w (intentValue r.value phase q actual desired) =
      newInstance w r.value := hq
  have hput := h.put (v := intentValue r.value phase q actual desired) (r.version + 1) rfl hphase
    (hnew ▸ h.fresh) ?_
  · exact ⟨.inFlight hput, hnext _ rfl rfl hput⟩
  · intro hrec
    obtain ⟨hown, hother, -⟩ := h.ready hrec
    refine ⟨hnew ▸ hown, hother, ?_⟩
    rw [Forward, Backward, hnew]
    exact hway hrec

theorem keeps_publishActive (h : g.InFlight recoverable w r) (happ : g.Renewed steady app)
    (hp : r.value.pendingInstance = q) (hq : q ≠ []) (hmem : q ∈ w.instances)
    (hcut : cutOverComplete g.app.ruleRef (w.target g.app.ruleRef) q = true) :
    g.KeepsPublish recoverable steady (publishActive r app g.digest q) w := by
  refine keeps_require (.inFlight h) ?_
  rw [publishedRecord_app_eq h.bare]
  have hfresh := h.fresh
  rw [newInstance_of_pending hp hq] at hfresh
  have hended : g.Ended steady
      (w.putRecord g.app.id ⟨r.version + 1, g.published app q r.value.fencingToken⟩) := by
    refine .published (World.lookup_putRecord _ _ _) hq (hfresh.resolve_left hq) happ.same happ.id
      happ.ruleRef ⟨hmem, ?_⟩
    intro href
    show w.target app.ruleRef = q
    rw [happ.ruleRef]
    exact target_of_cutOverComplete hcut (happ.ruleRef ▸ href)
  refine keeps_put (.inFlight h) h.stored happ.id rfl rfl rfl ?_
  exact ⟨.ended hended, fun _ => hended⟩

section

variable (hsound : g.Sound) (h : g.InFlight recoverable w r) (happ : g.Renewed steady app)

include hsound h happ

theorem keeps_publishDraining (hp : r.value.pendingInstance = q) (hq : q ≠ [])
    (hmem : q ∈ w.instances)
    (hcut : cutOverComplete g.app.ruleRef (w.target g.app.ruleRef) q = true)
    (halive : recoverable → g.absent = false → g.prior.instanceID ∈ w.instances) :
    g.KeepsPublish recoverable steady
      (publishDraining r g.prior g.existed app runtimeApp g.digest q) w := by
  have hnew := newInstance_of_pending hp hq w
  refine keeps_intent h (by simp) (by rw [if_neg hq, hnew]) ?_ ?_
  · intro _
    rw [hnew]
    exact .inl ⟨.inr rfl, hq, hmem, hcut⟩
  · intro v hphase hpending hflight
    have hforward : g.Forward (w.putRecord g.app.id ⟨r.version + 1, v⟩) v := by
      rw [Forward, newInstance_of_pending hpending hq]
      exact ⟨.inr hphase, hq, hmem, hcut⟩
    refine keeps_require (.inFlight hflight) ?_
    rw [if_pos rfl]
    split_ifs
    · refine Always.ask (.inFlight hflight) ?_
      rintro (e | a) w' ⟨hresp, hanswered⟩
      · have hflight' : g.InFlight recoverable w' ⟨r.version + 1, v⟩ := by
          rcases hresp with rfl | rfl
          · exact hflight
          · exact hflight.drained hpending hq hsound hforward
        refine keeps_rollback hsound hflight' ?_ ?_ true
        · rw [if_neg hq, newInstance_of_pending hpending hq]
        · -- the failed drain left the instance before, or there is no rule to give back
          intro hrec
          obtain ⟨rfl, hruleRef⟩ := hanswered hrec ⟨e, rfl⟩
          rw [Backward, newInstance_of_pending hpending hq]
          cases habsent : g.absent with
          | false => exact halive hrec habsent
          | true =>
            rw [hruleRef habsent]
            exact .inr (Ne.symm hq)
      · obtain rfl : w' = _ := hresp
        have hdrained := hflight.drained hpending hq hsound hforward
        have hne := hflight.ne_prior hpending hq hsound
        exact keeps_publishActive hdrained happ hpending hq
          (World.mem_instances_delete.mpr ⟨hmem, hne.symm⟩) hcut
    · exact keeps_publishActive hflight happ hpending hq hmem hcut

theorem keeps_publishCutover (hp : r.value.pendingInstance = q) (hq : q ≠ [])
    (hmem : q ∈ w.instances) (hback : recoverable → g.Backward w r.value) :
    g.KeepsPublish recoverable steady
      (publishCutover r g.prior g.existed app runtimeApp g.digest q) w := by
  have hnew := newInstance_of_pending hp hq w
  have halive : recoverable → g.absent = false → g.prior.instanceID ∈ w.instances :=
    fun hrec habsent => (backward_iff_alive habsent).mp (hback hrec)
  unfold publishCutover
  split_ifs with href
  · rw [happ.ruleRef] at href ⊢
    refine keeps_intent h (by simp) (by rw [if_neg hq, hnew]) (fun hrec => .inr (hback hrec)) ?_
    intro v hphase hpending hflight
    have hnew' := newInstance_of_pending hpending hq
    refine Always.ask (.inFlight hflight) ?_
    rintro answer w' ⟨hresp, hanswered⟩
    -- the record in flight once the rule has the new instance
    have hrouted : g.InFlight recoverable
        ((w.putRecord g.app.id ⟨r.version + 1, v⟩).route g.app.ruleRef q) ⟨r.version + 1, v⟩ := by
      refine hflight.world rfl (by rw [hnew', hnew']) ?_
      intro hrec
      have hready := hflight.ready hrec
      refine ⟨?_, ?_, .inl ⟨.inl hphase, ?_⟩⟩
      · rw [World.target_route_self _ href, hnew']
        exact .inr (.inr rfl)
      · intro hinstance hrule hne
        rw [World.target_route_ne _ hne]
        exact hready.other hinstance hrule hne
      · rw [hnew', World.target_route_self _ href]
        exact ⟨hq, hmem, by simp [cutOverComplete]⟩
    cases answer with
    | ok a =>
      obtain rfl : w' = _ := hresp
      refine keeps_publishDraining hsound hrouted happ hpending hq hmem ?_ halive
      rw [World.target_route_self _ href]
      simp [cutOverComplete]
    | error e =>
      rcases hresp with rfl | rfl
      · exact keeps_rollback hsound hflight (by rw [if_neg hq, hnew'])
          (fun hrec => (hback hrec).put _ (by rw [hnew', hnew])) true
      · refine keeps_rollback hsound hrouted (by rw [if_neg hq, hnew']) ?_ true
        intro hrec
        rw [Backward]
        cases habsent : g.absent with
        | false => exact halive hrec habsent
        | true =>
          -- without an instance before, a failed cutover had no effect
          have hsame := hanswered hrec habsent ⟨e, rfl⟩
          rw [hsame, hnew']
          have hb := hback hrec
          rw [Backward, if_pos habsent, hnew] at hb
          exact hb
  · refine keeps_publishDraining hsound h happ hp hq hmem ?_ halive
    rw [← happ.ruleRef, not_not.mp href]
    rfl

theorem keeps_publishReadiness (hnew : newInstance w r.value = q) (hq : q ≠ [])
    (hmem : q ∈ w.instances) (hback : recoverable → g.Backward w r.value) :
    g.KeepsPublish recoverable steady
      (publishReadiness r g.prior g.existed app runtimeApp g.digest q) w := by
  refine keeps_intent h (by simp) (by rw [if_neg hq, hnew]) (fun hrec => .inr (hback hrec)) ?_
  intro v hphase hpending hflight
  have hnew' := newInstance_of_pending hpending hq
  have hback' : recoverable → g.Backward (w.putRecord g.app.id ⟨r.version + 1, v⟩) v :=
    fun hrec => (hback hrec).put _ (by rw [hnew', hnew])
  refine Always.ask (.inFlight hflight) ?_
  rintro answer w' ⟨hw, -⟩
  obtain rfl : w' = _ := hw
  cases answer with
  | ok a => exact keeps_publishCutover hsound hflight happ hpending hq hmem hback'
  | error e => exact keeps_rollback hsound hflight (by rw [if_neg hq, hnew']) hback' false

end

/-! ## Stages before -/

/-- Nothing was started yet. -/
structure Early (g : Setting) (recoverable : Prop) (w : World) (r : DeploymentRecord) : Prop where
  flight : g.InFlight recoverable w r
  pending : r.value.pendingInstance = []
  candidate : w.candidate = []
  issued : w.issued = g.start.issued
  back : recoverable → g.Backward w r.value

theorem Early.newInstance_eq (h : g.Early recoverable w r) : newInstance w r.value = [] := by
  rw [newInstance, if_pos h.pending, h.candidate]

/-- The new instance is there; the record does not name it yet. -/
theorem Early.launched (h : g.Early recoverable w r) (hq : w.Fresh q) :
    g.InFlight recoverable (w.launch q) r ∧ newInstance (w.launch q) r.value = q ∧
      (recoverable → g.Backward (w.launch q) r.value) := by
  have hnew : newInstance (w.launch q) r.value = q := by
    rw [newInstance, if_pos h.pending]
    rfl
  have hback : recoverable → g.Backward (w.launch q) r.value := by
    intro hrec
    have hown := (h.flight.ready hrec).own
    rw [h.newInstance_eq] at hown
    cases habsent : g.absent with
    | false =>
      rw [backward_iff_alive habsent]
      exact List.mem_cons_of_mem _ ((backward_iff_alive habsent).mp (h.back hrec))
    | true =>
      rw [Backward, habsent, hnew, World.target_launch]
      rw [absent_iff.mp habsent, or_self, or_self] at hown
      rw [hown]
      exact .inr (Ne.symm hq.1)
  refine ⟨⟨h.flight.stored, h.flight.bare, h.flight.phase, ?_, ?_⟩, hnew, hback⟩
  · rw [hnew, ← h.issued]
    exact .inr hq.2
  · intro hrec
    obtain ⟨hown, hother, -⟩ := h.flight.ready hrec
    rw [h.newInstance_eq] at hown
    refine ⟨?_, hother, .inr (hback hrec)⟩
    exact hown.elim .inl fun hown => hown.elim (fun hprior => .inr (.inl hprior)) .inl

section

variable (hsound : g.Sound) (texts : Texts) (h : g.Early recoverable w r)

include hsound texts h

theorem keeps_publishStart (happ : g.Renewed steady app) :
    g.KeepsPublish recoverable steady (publishStart texts r g.prior g.existed app g.digest) w := by
  refine Always.ask (.inFlight h.flight) ?_
  rintro ⟨pending, error⟩ w' ⟨hresp, -⟩
  rcases hresp with ⟨hpending, herror, hw⟩ | ⟨q, hq, rfl, hpending⟩
  · obtain rfl : w' = w := hw
    obtain rfl : pending = [] := hpending
    obtain ⟨e, rfl⟩ := Option.isSome_iff_exists.mp herror
    exact keeps_rollback hsound h.flight (by rw [if_pos rfl, h.candidate, h.newInstance_eq])
      h.back false
  · obtain ⟨hflight, hnew, hback⟩ := h.launched hq
    cases error with
    | none =>
      obtain rfl : pending = q := hpending.resolve_right (by rintro ⟨-, ⟨⟩⟩)
      exact keeps_publishReadiness hsound hflight happ hnew hq.1 List.mem_cons_self hback
    | some e =>
      refine keeps_rollback hsound hflight ?_ hback false
      rw [hnew]
      rcases hpending with hsame | ⟨hnil, -⟩
      · obtain rfl : pending = q := hsame
        exact if_neg hq.1
      · exact if_pos hnil

theorem keeps_publishStarting (happ : g.Renewed steady app) :
    g.KeepsPublish recoverable steady
      (publishStarting texts r g.prior g.existed app g.digest) w := by
  refine keeps_require (.inFlight h.flight) ?_
  refine keeps_intent h.flight (by simp) (by rw [if_pos rfl, h.candidate, h.newInstance_eq])
    (fun hrec => .inr (h.back hrec)) ?_
  intro v hphase hpending hflight
  have hearly : g.Early recoverable (w.putRecord g.app.id ⟨r.version + 1, v⟩)
      ⟨r.version + 1, v⟩ := by
    refine ⟨hflight, hpending, h.candidate, h.issued, fun hrec => (h.back hrec).put _ ?_⟩
    rw [newInstance, if_pos hpending, h.candidate, h.newInstance_eq]
  refine keeps_require (.inFlight hflight) ?_
  exact keeps_bindLive (.inFlight hflight) happ fun app' happ' =>
    keeps_publishStart hsound texts hearly happ'

theorem keeps_publishLeased :
    g.KeepsPublish recoverable steady
      (publishLeased texts r g.prior g.existed g.app g.digest) w := by
  refine keeps_require (.inFlight h.flight) ?_
  refine keeps_bindLive (.inFlight h.flight) ⟨rfl, rfl, fun _ => rfl⟩ ?_
  intro app happ
  refine Always.ask (.inFlight h.flight) ?_
  rintro answer w' ⟨hw, -⟩
  obtain rfl : w' = w := hw
  cases answer with
  | ok a => exact keeps_publishStarting hsound texts h happ
  | error e =>
    exact keeps_rollback hsound h.flight (by rw [if_pos rfl, h.candidate, h.newInstance_eq])
      h.back false

end

/-! ## The whole of it -/

/-- The first durable intent, written over the record before. -/
theorem early_leased (hsound : g.Sound) (hserving : recoverable → g.Serving) (t until_ : Time) :
    g.Early recoverable
      ({ g.start with
          now := t, store := g.start.store.setFence g.app.id
            (g.start.store.fence g.app.id + 1) }.putRecord g.app.id
        (DeploymentSnapshot.leased g.app.id (g.found.getD {}).version
          (g.start.store.fence g.app.id + 1) g.intent until_))
      (DeploymentSnapshot.leased g.app.id (g.found.getD {}).version
        (g.start.store.fence g.app.id + 1) g.intent until_) := by
  have hback : recoverable → g.Backward g.start g.intent := by
    intro hrec
    rw [Backward]
    cases habsent : g.absent with
    | true => exact .inl hsound.candidate
    | false => exact (hserving hrec).alive (not_absent_iff.mp habsent)
  refine ⟨⟨World.lookup_putRecord _ _ _, rfl, by simp [DeploymentSnapshot.leased, intent,
    pullingIntent], .inl hsound.candidate, ?_⟩, rfl, hsound.candidate, rfl, hback⟩
  intro hrec
  exact ⟨(hserving hrec).related.imp_right .inl, fun hinstance hrule _ =>
    (hserving hrec).routed hinstance hrule, .inr (hback hrec)⟩

/-- Wherever `publish` stops, nothing was done yet, or the record is in flight, or the
rollout is over. -/
theorem keeps_publish (hsound : g.Sound) (hserving : recoverable → g.Serving)
    (leaseDuration : Time) (texts : Texts) :
    g.KeepsPublish recoverable steady (publish leaseDuration texts g.app g.digest) g.start := by
  have hstart : g.Inv recoverable steady g.start := .untouched (t := g.start.now) rfl
  have herror : ∀ {t : Time} {e : Failure},
      g.KeepsPublish recoverable steady (.fail e) { g.start with now := t } :=
    ⟨.untouched rfl, fun hok => nomatch hok⟩
  unfold publish
  split_ifs
  · exact herror (t := g.start.now)
  · refine Always.bind (Always.ask hstart ?_)
    rintro answer w' ⟨⟨rfl, hw⟩, -⟩
    obtain rfl : w' = g.start := hw
    refine ⟨hstart, ?_⟩
    refine Always.ask hstart ?_
    rintro t w' ⟨⟨-, hw⟩, -⟩
    obtain rfl : w' = { g.start with now := t } := hw
    split_ifs
    · exact herror
    · refine keeps_require (.untouched rfl) ?_
      refine Always.ask (.untouched rfl) ?_
      rintro (t' : Time) w' ⟨⟨-, hw⟩, -⟩
      obtain rfl : w' = { g.start with now := t' } := hw
      refine Always.ask (.untouched rfl) ?_
      rintro lease w' ⟨hresp, -⟩
      have hversion : (World.store { g.start with now := t' }).record g.app.id =
          g.found.getD {} := rfl
      have hpair := hresp.trans
        (World.stored_acquireLease (congrArg DeploymentRecord.version hversion) g.intent
          (t' + leaseDuration))
      cases hpair
      have hearly := early_leased hsound hserving t' (t' + leaseDuration)
      exact keeps_publishLeased hsound texts hearly

end NrePlugins.DockerApp.Setting
