import Nre.DockerApp.Rollout

/-!
# Interrupted rollouts

What `publish` and `reconcileRecord` leave behind wherever they stop. One rollout has a
`Setting`: the app, the digest and the world it starts in. A world is then in one of three
conditions (`Setting.Inv`):

- nothing was done yet;
- `InFlight`: the stored record is the intent of this rollout, in some phase;
- `Ended`: the record is the one from before, or that of the finished rollout, or gone.

`keeps_reconcileRecord` and `keeps_publish` say that every step stays within these.
The results are used twice, so they carry two switches. Under `recoverable` the record in
flight is also `Ready`: one reconciliation can finish it. Under `steady` no guard is set, so
the app that is stored in the end is the app that was asked for.
-/

namespace NrePlugins.DockerApp

open DeploymentSnapshot
open Deployment
open World

/-! ## Settings -/

/-- One rollout: what is asked for, and the world it starts in. -/
structure Setting where
  app : App
  digest : Bytes
  start : World

namespace Setting

variable (g : Setting)

/-- The record before. -/
def found : Option DeploymentRecord := g.start.store.records.lookup g.app.id

def prior : Deployment := (g.found.getD {}).value

def existed : Bool := g.found.isSome

/-- There is no instance to fall back to. -/
def absent : Bool := priorInstanceAbsent g.existed g.prior.instanceID

/-- The record before is one that a finished rollout leaves (or an observed digest, without
an instance), and its instances have names that `Start` does not give again. -/
structure Sound : Prop where
  active : g.existed = true → g.prior.phase = .active
  ruleTarget : g.prior.ruleTarget = g.prior.instanceID
  known : g.prior.instanceID ≠ [] → g.prior.instanceID ∈ g.start.issued
  knownHistory : ∀ rev ∈ g.prior.history, rev.instanceID ≠ [] → rev.instanceID ∈ g.start.issued
  candidate : g.start.candidate = []
  image : g.existed = true → g.prior.instanceID = [] → g.prior.image ≠ []

/-- The instance before is there and serves its rule, and the rule that is asked for has no
other target. -/
structure Serving : Prop where
  alive : g.prior.instanceID ≠ [] → g.prior.instanceID ∈ g.start.instances
  routed : g.prior.instanceID ≠ [] → g.prior.ruleRef ≠ [] →
    g.start.target g.prior.ruleRef = g.prior.instanceID
  related : g.start.target g.app.ruleRef = [] ∨ g.start.target g.app.ruleRef = g.prior.instanceID

/-- The answers of the rollout's surroundings. The guard, if there is one, still has the app.
Under `recoverable`, a failed `Drain` had no effect and, without an instance before, no rule
was cut over; a failed `Cutover` without an instance before had no effect. -/
def Answered (recoverable steady : Prop) (w : World) :
    (c : RolloutCall) → RolloutAnswer c → World → Prop
  | .live, answer, _ => answer ≠ some none ∧ (steady → answer = none)
  | .cutover _ _ _, answer, w' =>
    recoverable → g.absent = true → (∃ e, answer = .error e) → w' = w
  | .drain _ _ _, answer, w' =>
    recoverable → (∃ e, answer = .error e) → w' = w ∧ (g.absent = true → g.app.ruleRef = [])
  | _, _, _ => True

def respond (recoverable steady : Prop) (w : World) (c : RolloutCall) (answer : RolloutAnswer c)
    (w' : World) : Prop :=
  w.respond c answer w' ∧ g.Answered recoverable steady w c answer w'

/-! ## Records in flight -/

end Setting

/-- A record without what changes while the rollout goes on. -/
def Deployment.bare (v : Deployment) : Deployment :=
  { v with
    phase := .pulling, pendingInstance := [], ruleTarget := [], desiredRuleTarget := [],
    lastFailure := [], lease := [], leaseUntil := 0, fencingToken := 0 }

/-- The new instance, as the record or else the executor knows it. -/
def newInstance (w : World) (v : Deployment) : Bytes :=
  if v.pendingInstance = [] then w.candidate else v.pendingInstance

/-- The instance of a record is there and is the target of its rule. -/
def Serves (w : World) (v : Deployment) : Prop :=
  v.instanceID ∈ w.instances ∧ (v.ruleRef ≠ [] → w.target v.ruleRef = v.instanceID)

namespace Setting

variable (g : Setting)

def intent : Deployment := pullingIntent g.app g.digest g.prior g.existed

/-- The new instance serves, and the phase lets reconciliation go on with it. -/
def Forward (w : World) (v : Deployment) : Prop :=
  (v.phase = .cutover ∨ v.phase = .draining) ∧ newInstance w v ≠ [] ∧
    newInstance w v ∈ w.instances ∧
    cutOverComplete g.app.ruleRef (w.target g.app.ruleRef) (newInstance w v) = true

/-- Reconciliation can go back. -/
def Backward (w : World) (v : Deployment) : Prop :=
  if g.absent then newInstance w v = [] ∨ w.target g.app.ruleRef ≠ newInstance w v
  else g.prior.instanceID ∈ w.instances

/-- One reconciliation can finish. -/
structure Ready (w : World) (v : Deployment) : Prop where
  own : w.target g.app.ruleRef = [] ∨ w.target g.app.ruleRef = g.prior.instanceID ∨
    w.target g.app.ruleRef = newInstance w v
  other : g.prior.instanceID ≠ [] → g.prior.ruleRef ≠ [] → g.prior.ruleRef ≠ g.app.ruleRef →
    w.target g.prior.ruleRef = g.prior.instanceID
  way : g.Forward w v ∨ g.Backward w v

/-- The stored record is the intent of the rollout. -/
structure InFlight (recoverable : Prop) (w : World) (r : DeploymentRecord) : Prop where
  stored : w.store.records.lookup g.app.id = some r
  bare : r.value.bare = g.intent.bare
  phase : r.value.phase ≠ .active
  fresh : newInstance w r.value = [] ∨ newInstance w r.value ∉ g.start.issued
  ready : recoverable → g.Ready w r.value

/-- The record before, as reconciliation writes it. It forgets the digest that was available
where there was an instance, and names the agent of the app that was asked for. -/
def reverted (fence : UInt64) : Deployment :=
  { appID := g.app.id, agentID := g.app.agentID, instanceID := g.prior.instanceID,
    image := g.prior.image, ruleRef := g.prior.ruleRef, ruleTarget := g.prior.instanceID,
    generation := g.prior.generation, phase := .active, fencingToken := fence,
    imageDigest := g.prior.imageDigest,
    availableDigest := if g.absent then g.prior.availableDigest else [],
    history := g.prior.history }

/-- The record of the finished rollout. -/
def published (app : App) (q : Bytes) (fence : UInt64) : Deployment :=
  { appID := app.id, agentID := app.agentID, instanceID := q, image := app.image,
    ruleRef := app.ruleRef, ruleTarget := q, generation := app.generation, phase := .active,
    fencingToken := fence, imageDigest := g.digest, history := publishedHistory g.intent }

/-- The rollout is over. -/
inductive Ended (steady : Prop) (w : World) : Prop
  | gone : w.store.records.lookup g.app.id = none → g.existed = false → Ended steady w
  | reverted {version fence : UInt64} :
      w.store.records.lookup g.app.id = some ⟨version, g.reverted fence⟩ → g.existed = true →
      (g.absent = false → Serves w (g.reverted fence)) → Ended steady w
  | published {version fence : UInt64} {app : App} {q : Bytes} :
      w.store.records.lookup g.app.id = some ⟨version, g.published app q fence⟩ →
      q ≠ [] → q ∉ g.start.issued → (steady → app = g.app) → app.id = g.app.id →
      app.ruleRef = g.app.ruleRef → Serves w (g.published app q fence) → Ended steady w

/-- Every stop of the rollout. -/
inductive Inv (recoverable steady : Prop) (w : World) : Prop
  | untouched {t : Time} : w = { g.start with now := t } → Inv recoverable steady w
  | inFlight {r : DeploymentRecord} : g.InFlight recoverable w r → Inv recoverable steady w
  | ended : g.Ended steady w → Inv recoverable steady w

end Setting

/-! ## The store -/

def World.putRecord (w : World) (id : Bytes) (r : DeploymentRecord) : World :=
  { w with store := w.store.setRecord id r }

@[simp] theorem World.lookup_putRecord (w : World) (id : Bytes) (r : DeploymentRecord) :
    (w.putRecord id r).store.records.lookup id = some r :=
  lookup_setRecord_self _ _ _

variable {id : Bytes} {r : DeploymentRecord} {w : World}

theorem record_of_lookup {s : DeploymentSnapshot} (h : s.records.lookup id = some r) :
    s.record id = r := by
  rw [record, h]
  rfl

/-- The write under the stored version and token goes through. -/
theorem World.stored_compareAndSwap {v : Deployment} {fence : UInt64}
    (h : w.store.records.lookup id = some r) (hfence : fence = r.value.fencingToken)
    (hv : v.appID = id) (hvf : v.fencingToken = fence) :
    w.stored (w.store.compareAndSwap id r.version fence v) =
      (.ok ⟨r.version + 1, v⟩, w.putRecord id ⟨r.version + 1, v⟩) := by
  have hvalue : swapped id r.version fence v = ⟨r.version + 1, v⟩ := by rw [swapped, ← hv, ← hvf]
  rw [compareAndSwap, record_of_lookup h, if_neg (by simp [hfence]), hvalue]
  rfl

theorem World.stored_acquireLease {version : UInt64} (h : (w.store.record id).version = version)
    (v : Deployment) (until_ : Time) :
    w.stored (w.store.acquireLease id version v until_) =
      (.ok (leased id version (w.store.fence id + 1) v until_),
        { w with store := w.store.setFence id (w.store.fence id + 1) }.putRecord id
          (leased id version (w.store.fence id + 1) v until_)) := by
  rw [acquireLease, if_neg (by simp [h])]
  rfl

theorem World.deleted_deleteCAS (h : w.store.records.lookup id = some r) :
    w.deleted (w.store.deleteCAS id r.version r.value.fencingToken) =
      (.ok (), { w with store := w.store.erase id }) := by
  simp [deleteCAS, h, deleted]

namespace Setting

variable {g : Setting} {recoverable steady : Prop}

/-! ## Fields of a record in flight -/

theorem absent_iff : g.absent = true ↔ g.prior.instanceID = [] := by
  unfold absent priorInstanceAbsent existed prior
  cases g.found with
  | none | some => simp

theorem not_absent_iff : g.absent = false ↔ g.prior.instanceID ≠ [] := by
  rw [← Bool.not_eq_true, absent_iff]

theorem fallbackInstance_of_same {v : Deployment} {q : Bytes} (hprior : v.priorInstance = q)
    (hinstance : v.instanceID = q) : fallbackInstance v = q := by
  rw [fallbackInstance, hprior, hinstance, ite_self]

section Fields

variable (h : r.value.bare = g.intent.bare)

include h

theorem appID_eq : r.value.appID = g.app.id := congrArg appID h

theorem ruleRef_eq : r.value.ruleRef = g.app.ruleRef := congrArg ruleRef h

theorem priorAbsent_eq : r.value.priorAbsent = g.absent := congrArg priorAbsent h

theorem priorRuleRef_eq : r.value.priorRuleRef = g.prior.ruleRef :=
  congrArg priorRuleRef h

theorem priorRuleTarget_eq : r.value.priorRuleTarget = g.prior.ruleTarget :=
  congrArg priorRuleTarget h

theorem history_eq : r.value.history = g.prior.history := (congrArg history h :)

theorem priorImage_eq : r.value.priorImage = g.prior.image := congrArg priorImage h

theorem priorGeneration_eq : r.value.priorGeneration = g.prior.generation :=
  congrArg priorGeneration h

theorem priorDigest_eq : r.value.priorDigest = g.prior.imageDigest :=
  congrArg priorDigest h

theorem publishedHistory_eq : publishedHistory r.value = publishedHistory g.intent := by
  show publishedHistory r.value.bare = publishedHistory g.intent.bare
  rw [h]

theorem fallbackInstance_eq : fallbackInstance r.value = g.prior.instanceID :=
  fallbackInstance_of_same (congrArg priorInstance h) (congrArg instanceID h :)

/-- Reconciliation goes on to the record of the finished rollout. -/
theorem publishedRecord_eq (q : Bytes) :
    publishedRecord r.value.agentID r.value.image r.value.ruleRef r.value.generation
      r.value.imageDigest q r.value = g.published g.app q r.value.fencingToken := by
  show { publishedRecord r.value.bare.agentID r.value.bare.image r.value.bare.ruleRef
    r.value.bare.generation r.value.bare.imageDigest q r.value.bare with
    fencingToken := r.value.fencingToken } = _
  rw [h]
  rfl

/-- So does the last write of `publish`. -/
theorem publishedRecord_app_eq (app : App) (q : Bytes) :
    { publishedRecord app.agentID app.image app.ruleRef app.generation g.digest q r.value with
      appID := app.id } = g.published app q r.value.fencingToken := by
  unfold publishedRecord published
  rw [publishedHistory_eq h]

end Fields

theorem target_of_cutOverComplete {ruleRef target q : Bytes}
    (h : cutOverComplete ruleRef target q = true) (href : ruleRef ≠ []) : target = q := by
  rcases Bool.or_eq_true_iff.mp h with hnil | htarget
  · exact absurd (eq_of_beq hnil) href
  · exact eq_of_beq htarget

/-! ## Steps that keep a record in flight -/

variable {v : Deployment} {fence : UInt64} {q : Bytes}

/-- Another value of the same rollout is written over the record. -/
theorem InFlight.put (h : g.InFlight recoverable w r) (version : UInt64)
    (hbare : v.bare = r.value.bare) (hphase : v.phase ≠ .active)
    (hfresh : newInstance w v = [] ∨ newInstance w v ∉ g.start.issued)
    (hready : recoverable → g.Ready w v) :
    g.InFlight recoverable (w.putRecord g.app.id ⟨version, v⟩) ⟨version, v⟩ where
  stored := w.lookup_putRecord _ _
  bare := hbare.trans h.bare
  phase := hphase
  fresh := hfresh
  ready hrec := ⟨(hready hrec).own, (hready hrec).other, (hready hrec).way⟩

/-- Only the lease, the token or a note on the failure changes. -/
theorem InFlight.note (h : g.InFlight recoverable w r) (version : UInt64)
    (hbare : v.bare = r.value.bare) (hphase : v.phase = r.value.phase)
    (hnew : newInstance w v = newInstance w r.value) :
    g.InFlight recoverable (w.putRecord g.app.id ⟨version, v⟩) ⟨version, v⟩ := by
  refine h.put version hbare (hphase ▸ h.phase) (hnew ▸ h.fresh) ?_
  intro hrec
  obtain ⟨hown, hother, hway⟩ := h.ready hrec
  refine ⟨hnew ▸ hown, hother, ?_⟩
  rw [Forward, Backward, hphase, hnew]
  exact hway

/-- The record takes the name of the new instance from the executor. -/
theorem InFlight.named (h : g.InFlight recoverable w r) (hp : r.value.pendingInstance = []) :
    g.InFlight recoverable
      (w.putRecord g.app.id ⟨r.version + 1, r.value.withPending w.candidate⟩)
      ⟨r.version + 1, r.value.withPending w.candidate⟩ := by
  refine h.note _ rfl rfl ?_
  rw [newInstance, newInstance, if_pos hp]
  exact ite_self _

/-- What a judgement about a part of the rollout says. -/
abbrev Keeps (g : Setting) (recoverable steady : Prop) {α : Type}
    (post : World → Except Failure α → Prop) (p : RolloutM α) (w : World) : Prop :=
  Always (g.respond recoverable steady) (g.Inv recoverable steady) post p w

/-- A part of `publish` keeps the invariant, and returns no error only when the rollout is
over. -/
abbrev KeepsPublish (g : Setting) (recoverable steady : Prop) (p : RolloutM Unit) (w : World) :
    Prop :=
  g.Keeps recoverable steady (fun w res => res = .ok () → g.Ended steady w) p w

/-- A write over the stored record, in any surroundings with an exact store. -/
theorem always_put {α : Type} {post : World → Except Failure α → Prop}
    {next : Except Failure DeploymentRecord → RolloutM α}
    {answers : World → (c : RolloutCall) → RolloutAnswer c → World → Prop} {inv : World → Prop}
    (hexact : ∀ w c answer w', answers w c answer w' → w.respond c answer w') (hinv : inv w)
    (hstored : w.store.records.lookup id = some r) (hfence : fence = r.value.fencingToken)
    (hv : v.appID = id) (hvf : v.fencingToken = fence)
    (hnext : Always answers inv post (next (.ok ⟨r.version + 1, v⟩))
      (w.putRecord id ⟨r.version + 1, v⟩)) :
    Always answers inv post (Store.compareAndSwap id r.version fence v >>= next) w := by
  refine Always.ask hinv ?_
  intro answer w' hresp
  cases (hexact _ _ _ _ hresp).trans (stored_compareAndSwap hstored hfence hv hvf)
  exact hnext

section

variable (hinv : g.Inv recoverable steady w) (hstored : w.store.records.lookup g.app.id = some r)

include hinv hstored

theorem keeps_put {α : Type} {post : World → Except Failure α → Prop}
    {next : Except Failure DeploymentRecord → RolloutM α} (hid : id = g.app.id)
    (hfence : fence = r.value.fencingToken) (hv : v.appID = id) (hvf : v.fencingToken = fence)
    (hnext : g.Keeps recoverable steady post (next (.ok ⟨r.version + 1, v⟩))
      (w.putRecord g.app.id ⟨r.version + 1, v⟩)) :
    g.Keeps recoverable steady post (Store.compareAndSwap id r.version fence v >>= next) w := by
  subst hid
  exact always_put (fun _ _ _ _ hresp => hresp.1) hinv hstored hfence hv hvf hnext

theorem keeps_persistValue {post : World → Except Failure DeploymentRecord → Prop}
    (hfence : fence = r.value.fencingToken) (hv : v.appID = g.app.id)
    (hvf : v.fencingToken = fence)
    (hnext : g.Inv recoverable steady (w.putRecord g.app.id ⟨r.version + 1, v⟩))
    (hpost : post (w.putRecord g.app.id ⟨r.version + 1, v⟩) (.ok ⟨r.version + 1, v⟩)) :
    g.Keeps recoverable steady post (persistValue r fence v) w :=
  keeps_put hinv hstored hv hfence rfl hvf ⟨hnext, hpost⟩

/-- The last write of a rollout. -/
theorem keeps_finish (hfence : fence = r.value.fencingToken) (hv : v.appID = g.app.id)
    (hvf : v.fencingToken = fence)
    (hended : g.Ended steady (w.putRecord g.app.id ⟨r.version + 1, v⟩)) :
    g.KeepsPublish recoverable steady (do let _ ← persistValue r fence v; return ()) w := by
  refine Always.bind (keeps_persistValue hinv hstored hfence hv hvf (.ended hended) ?_)
  exact ⟨.ended hended, fun _ => hended⟩

end

/-- Giving the lease back keeps the record in flight. -/
theorem keeps_release {e : Failure} (h : g.InFlight recoverable w r) :
    g.KeepsPublish recoverable steady (release r e) w := by
  refine keeps_put (.inFlight h) h.stored (appID_eq h.bare) rfl rfl rfl ?_
  refine ⟨.inFlight (h.note _ rfl rfl rfl), ?_⟩
  intro hok
  cases hok

theorem keeps_orRelease {answer : Except Failure Unit} {next : RolloutM Unit}
    (h : g.InFlight recoverable w r)
    (hnext : ∀ a, answer = .ok a → g.KeepsPublish recoverable steady next w) :
    g.KeepsPublish recoverable steady (orRelease answer r next) w := by
  cases answer with
  | ok a => exact hnext a rfl
  | error e => exact keeps_release h

/-! ## Effects on a record in flight -/

/-- The executor acts, and the record in flight stays. -/
theorem InFlight.world (h : g.InFlight recoverable w r) {w' : World} (hstore : w'.store = w.store)
    (hnew : newInstance w' r.value = newInstance w r.value)
    (hready : recoverable → g.Ready w' r.value) : g.InFlight recoverable w' r where
  stored := hstore ▸ h.stored
  bare := h.bare
  phase := h.phase
  fresh := hnew ▸ h.fresh
  ready := hready

theorem newInstance_of_pending (hp : v.pendingInstance = q) (hq : q ≠ []) (w : World) :
    newInstance w v = q := by
  rw [newInstance, hp, if_neg hq]

theorem newInstance_of_candidate (hp : v.pendingInstance = q) (hc : q = [] → w.candidate = []) :
    newInstance w v = q := by
  by_cases hq : q = []
  · rw [newInstance, hp, if_pos hq, hc hq, hq]
  · exact newInstance_of_pending hp hq w

/-- With an instance before, going back needs that it is there. -/
theorem backward_iff_alive (habsent : g.absent = false) :
    g.Backward w v ↔ g.prior.instanceID ∈ w.instances := by
  rw [Backward, habsent]
  rfl

/-- Another record for the same new instance. -/
theorem Backward.put {v' : Deployment} (h : g.Backward w v) (stored : DeploymentRecord)
    (hnew : newInstance w v' = newInstance w v) : g.Backward (w.putRecord g.app.id stored) v' := by
  rw [Backward, ← hnew] at h
  exact h

section

variable (h : g.InFlight recoverable w r) (hp : r.value.pendingInstance = q) (hq : q ≠ [])
  (hsound : g.Sound)

include h

/-- The rule goes back to the instance before. -/
theorem InFlight.routedBack (habsent : g.absent = false)
    (hback : recoverable → g.Backward w r.value) (href : g.prior.ruleRef ≠ []) :
    g.InFlight recoverable (w.route g.prior.ruleRef g.prior.instanceID) r ∧
      (recoverable → g.Backward (w.route g.prior.ruleRef g.prior.instanceID) r.value) := by
  have hback' : recoverable → g.Backward (w.route g.prior.ruleRef g.prior.instanceID) r.value := by
    unfold Backward at hback ⊢
    rw [habsent] at hback ⊢
    exact hback
  refine ⟨h.world rfl rfl ?_, hback'⟩
  intro hrec
  obtain ⟨hown, hother, -⟩ := h.ready hrec
  refine ⟨?_, ?_, .inr (hback' hrec)⟩
  · by_cases heq : g.app.ruleRef = g.prior.ruleRef
    · rw [heq, target_route_self _ href]
      exact .inr (.inl rfl)
    · rw [target_route_ne _ heq]
      exact hown
  · intro _ _ _
    exact target_route_self _ href _

include hp hq

/-! ## Going on -/

theorem keeps_storeNew : g.KeepsPublish recoverable steady (storeNew r r.value q) w := by
  refine Always.ask (.inFlight h) ?_
  rintro (e | post) _ ⟨⟨rfl, hobs⟩, -⟩
  · exact keeps_release h
  · obtain rfl := hobs post rfl
    dsimp only
    split_ifs with hbad
    · exact keeps_release h
    · rw [not_or, not_not, Bool.not_eq_false] at hbad
      obtain ⟨hmem, hcut⟩ := hbad
      have hfresh := h.fresh
      rw [newInstance_of_pending hp hq] at hfresh
      rw [publishedRecord_eq h.bare]
      refine keeps_finish (.inFlight h) h.stored rfl rfl rfl ?_
      refine .published (lookup_putRecord _ _ _) hq (hfresh.resolve_left hq)
        (fun _ => rfl) rfl rfl ⟨hmem, ?_⟩
      rw [ruleRef_eq h.bare] at hcut
      exact target_of_cutOverComplete hcut

include hsound

/-- The new instance is none of those before. -/
theorem InFlight.ne_prior : g.prior.instanceID ≠ q := by
  rintro rfl
  have hfresh := h.fresh
  rw [newInstance_of_pending hp hq] at hfresh
  exact hfresh.resolve_left hq (hsound.known hq)

/-- The instance before goes, and the rollout can still go on. -/
theorem InFlight.drained (hforward : g.Forward w r.value) :
    g.InFlight recoverable (w.delete g.prior.instanceID) r := by
  have hnew := newInstance_of_pending hp hq
  refine h.world rfl (by rw [hnew, hnew]) ?_
  intro hrec
  obtain ⟨hown, hother, -⟩ := h.ready hrec
  obtain ⟨hphase, -, hmem, hcut⟩ := hforward
  rw [hnew] at hown hmem hcut
  refine ⟨?_, hother, .inl ⟨hphase, ?_⟩⟩ <;> rw [hnew]
  · exact hown
  · exact ⟨hq, mem_instances_delete.mpr ⟨hmem, (h.ne_prior hp hq hsound).symm⟩, hcut⟩

/-- The new instance goes, and the rollout can still go back. -/
theorem InFlight.removed (hback : recoverable → g.Backward w r.value) :
    g.InFlight recoverable (w.delete q) r := by
  have hnew := newInstance_of_pending hp hq
  refine h.world rfl (by rw [hnew, hnew]) ?_
  intro hrec
  obtain ⟨hown, hother, -⟩ := h.ready hrec
  refine ⟨?_, hother, .inr ?_⟩
  · rw [hnew] at hown ⊢
    exact hown
  · have hb := hback hrec
    unfold Backward at hb ⊢
    rw [hnew] at hb ⊢
    split_ifs at hb ⊢ with habsent
    · exact hb
    · exact mem_instances_delete.mpr ⟨hb, h.ne_prior hp hq hsound⟩

theorem keeps_finishNew (hforward : g.Forward w r.value) (priorExists : Bool) :
    g.KeepsPublish recoverable steady (finishNew r r.value g.prior.instanceID q priorExists) w := by
  unfold finishNew
  split_ifs
  · refine Always.ask (.inFlight h) ?_
    rintro answer w' ⟨hresp, -⟩
    have hflight : g.InFlight recoverable w' r := by
      rcases World.Attempted.cases hresp with rfl | rfl
      · exact h
      · exact h.drained hp hq hsound hforward
    exact keeps_orRelease hflight fun _ _ => keeps_storeNew hflight hp hq
  · exact keeps_storeNew h hp hq

end

/-! ## Going back -/

theorem restoredRecord_eq (hsound : g.Sound) (h : r.value.bare = g.intent.bare)
    (habsent : g.absent = false) :
    restoredRecord r.value g.prior.instanceID = g.reverted r.value.fencingToken := by
  show { restoredRecord r.value.bare g.prior.instanceID with
    fencingToken := r.value.fencingToken } = _
  rw [h, reverted, habsent, ← hsound.ruleTarget]
  rfl

theorem restoredEmpty_eq (h : r.value.bare = g.intent.bare) (habsent : g.absent = true) :
    restoredEmpty r.value = g.reverted r.value.fencingToken := by
  show { restoredEmpty r.value.bare with fencingToken := r.value.fencingToken } = _
  rw [h, reverted, habsent, absent_iff.mp habsent]
  rfl

theorem existed_of_prior (h : g.prior ≠ {}) : g.existed = true := by
  unfold prior at h
  unfold existed
  cases hfound : g.found with
  | none =>
    rw [hfound] at h
    exact absurd rfl h
  | some r => rfl

/-- Where the rollout can go on, reconciliation sees that it can. -/
theorem canFinish_iff (h : g.InFlight recoverable w r) (hp : r.value.pendingInstance = q)
    (hcandidate : q = [] → w.candidate = []) :
    canFinish r.value (w.observe (inspectRef r.value)) q = true ↔ g.Forward w r.value := by
  have hnew := newInstance_of_candidate hp hcandidate
  have href : r.value.phase = .cutover ∨ r.value.phase = .draining →
      inspectRef r.value = g.app.ruleRef := by
    rintro (hphase | hphase) <;> simp [inspectRef, hphase, ruleRef_eq h.bare]
  rw [Forward, hnew, canFinish, ruleRef_eq h.bare]
  simp only [Bool.and_eq_true, Bool.or_eq_true, beq_iff_eq, bne_iff_ne, ne_eq, decide_eq_true_eq]
  constructor
  · rintro ⟨⟨hphase, hq, hmem⟩, hcut⟩
    rw [href hphase] at hcut
    exact ⟨hphase, hq, hmem, hcut⟩
  · rintro ⟨hphase, hq, hmem, hcut⟩
    rw [href hphase]
    exact ⟨⟨hphase, hq, hmem⟩, hcut⟩

/-- The new instance has a name of its own, so this is no rollback to an earlier
revision. -/
theorem InFlight.not_historical (h : g.InFlight recoverable w r) (hsound : g.Sound) :
    historicalRollbackPending r.value = false := by
  by_contra hpending
  rw [Bool.not_eq_false, historicalRollbackPending, Bool.and_eq_true, bne_iff_ne,
    List.any_eq_true] at hpending
  obtain ⟨hne, rev, hrev, heq⟩ := hpending
  rw [history_eq h.bare] at hrev
  rw [beq_iff_eq] at heq
  have hknown := hsound.knownHistory rev hrev (heq ▸ hne)
  have hfresh := h.fresh
  rw [newInstance_of_pending rfl hne] at hfresh
  exact hfresh.resolve_left hne (heq ▸ hknown)

section Reconciling

variable (hsound : g.Sound) (h : g.InFlight recoverable w r)

include hsound h

/-- Without an instance before, the record before comes back or the record goes. -/
theorem keeps_storeAbsent (habsent : g.absent = true) (post : RuntimeState) (q : Bytes) :
    g.KeepsPublish recoverable steady (storeAbsent r r.value post q) w := by
  unfold storeAbsent
  split_ifs with hrouted hsome
  · exact keeps_release h
  · rw [restoredEmpty_eq h.bare habsent]
    refine keeps_finish (.inFlight h) h.stored rfl rfl rfl ?_
    refine .reverted (lookup_putRecord _ _ _) (existed_of_prior ?_) ?_
    · intro hprior
      rw [priorImage_eq h.bare, priorGeneration_eq h.bare, priorDigest_eq h.bare, hprior] at hsome
      simp at hsome
    · intro hfalse
      simp [habsent] at hfalse
  · refine Always.ask (.inFlight h) ?_
    rintro deletion w' ⟨hresp, -⟩
    have hpair : (deletion, w') =
        w.deleted (w.store.deleteCAS r.value.appID r.version r.value.fencingToken) := hresp
    rw [appID_eq h.bare, deleted_deleteCAS h.stored] at hpair
    cases hpair
    have hended : g.Ended steady { w with store := w.store.erase g.app.id } := by
      refine .gone (lookup_erase_self _ _) (Bool.eq_false_iff.mpr fun hexisted => ?_)
      rw [priorImage_eq h.bare] at hsome
      exact hsome (.inl (hsound.image hexisted (absent_iff.mp habsent)))
    exact ⟨.ended hended, fun _ => hended⟩

/-- With an instance before, its record comes back once it is seen to serve. -/
theorem keeps_storePresent (habsent : g.absent = false) :
    g.KeepsPublish recoverable steady
      (storePresent r r.value (w.observe r.value.priorRuleRef) g.prior.instanceID) w := by
  unfold storePresent
  split_ifs with hgone
  · exact keeps_release h
  · rw [not_or, not_not, Bool.not_eq_false] at hgone
    obtain ⟨hmem, hcut⟩ := hgone
    rw [restoredRecord_eq hsound h.bare habsent]
    refine keeps_finish (.inFlight h) h.stored rfl rfl rfl ?_
    refine .reverted (lookup_putRecord _ _ _) (existed_of_prior ?_) ?_
    · intro hprior
      exact not_absent_iff.mp habsent (congrArg instanceID hprior)
    · intro _
      rw [priorRuleRef_eq h.bare, priorRuleTarget_eq h.bare, hsound.ruleTarget] at hcut
      exact ⟨hmem, target_of_cutOverComplete hcut⟩

theorem keeps_storePrior (q : Bytes) :
    g.KeepsPublish recoverable steady (storePrior r r.value g.prior.instanceID q) w := by
  refine Always.ask (.inFlight h) ?_
  rintro answer w' ⟨⟨hw, hobs⟩, -⟩
  subst w'
  cases answer with
  | error e => exact keeps_release h
  | ok post =>
    obtain rfl := hobs post rfl
    dsimp only
    rw [priorAbsent_eq h.bare]
    split_ifs with habsent
    · exact keeps_release h
    · exact keeps_storeAbsent hsound h habsent _ q
    · exact keeps_release h
    · exact keeps_storePresent hsound h (Bool.eq_false_iff.mpr habsent)

theorem keeps_removeNew (hp : r.value.pendingInstance = q)
    (hback : recoverable → g.Backward w r.value) (newExists : Bool)
    (hexists : newExists = true → q ≠ []) :
    g.KeepsPublish recoverable steady (removeNew r r.value g.prior.instanceID q newExists) w := by
  unfold removeNew
  split_ifs with hnew
  · have hq := hexists hnew
    -- the phase is noted first, so that a stop after the removal is seen as one
    have hput : g.InFlight recoverable
        (w.putRecord g.app.id ⟨r.version + 1, r.value.cleaningUp⟩)
        ⟨r.version + 1, r.value.cleaningUp⟩ := by
      refine h.put _ rfl (by simp [cleaningUp]) h.fresh ?_
      intro hrec
      obtain ⟨hown, hother, -⟩ := h.ready hrec
      exact ⟨hown, hother, .inr (hback hrec)⟩
    refine Always.bind (keeps_persistValue (.inFlight h) h.stored rfl (appID_eq h.bare) rfl
      (.inFlight hput) ?_)
    refine Always.ask (.inFlight hput) ?_
    rintro answer w' ⟨hresp, -⟩
    have hflight : g.InFlight recoverable w' ⟨r.version + 1, r.value.cleaningUp⟩ := by
      rcases World.Attempted.cases hresp with rfl | rfl
      · exact hput
      · exact hput.removed hp hq hsound hback
    exact keeps_orRelease hflight fun _ _ => keeps_storePrior hsound hflight q
  · exact keeps_storePrior hsound h q

theorem keeps_restorePrior (hp : r.value.pendingInstance = q)
    (hback : recoverable → g.Backward w r.value) (state : RuntimeState)
    (priorExists newExists : Bool) (hexists : newExists = true → q ≠ []) :
    g.KeepsPublish recoverable steady
      (restorePrior r r.value state g.prior.instanceID q priorExists newExists) w := by
  unfold restorePrior
  split_ifs with habsent hprior hcut hrouted
  · exact keeps_release h
  · rw [priorAbsent_eq h.bare] at habsent
    have href : g.prior.ruleRef ≠ [] := by
      intro hnil
      rw [priorRuleRef_eq h.bare, hnil] at hcut
      cases hcut
    refine Always.ask (.inFlight h) ?_
    rintro answer w' ⟨hresp, -⟩
    have htarget : r.value.priorRuleTarget = g.prior.instanceID :=
      (priorRuleTarget_eq h.bare).trans hsound.ruleTarget
    rw [priorRuleRef_eq h.bare, htarget] at hresp
    have hflight : g.InFlight recoverable w' r ∧ (recoverable → g.Backward w' r.value) := by
      rcases World.Attempted.cases hresp with rfl | rfl
      · exact ⟨h, hback⟩
      · exact h.routedBack habsent hback href
    exact keeps_orRelease hflight.1 fun _ _ =>
      keeps_removeNew hsound hflight.1 hp hflight.2 newExists hexists
  · exact keeps_removeNew hsound h hp hback newExists hexists
  · exact keeps_release h
  · exact keeps_removeNew hsound h hp hback newExists hexists

/-! ## Reconciliation -/

theorem keeps_reconcileKnown (hp : r.value.pendingInstance = q)
    (hcandidate : q = [] → w.candidate = []) :
    g.KeepsPublish recoverable steady
      (reconcileKnown r r.value (w.observe (inspectRef r.value)) q) w := by
  unfold reconcileKnown
  rw [fallbackInstance_eq h.bare, h.not_historical hsound]
  split_ifs with hunrelated hcan hfalse
  · exact keeps_release h
  · have hforward := (canFinish_iff h hp hcandidate).mp hcan
    refine keeps_finishNew h hp ?_ hsound hforward _
    rintro rfl
    simp [canFinish] at hcan
  · cases hfalse
  · refine keeps_restorePrior hsound h hp ?_ _ _ _ ?_
    · intro hrec
      refine (h.ready hrec).way.resolve_left ?_
      intro hforward
      exact hcan ((canFinish_iff h hp hcandidate).mpr hforward)
    · intro hnew hq
      simp [hq] at hnew

/-- Wherever reconciliation stops, the rollout is in flight or over; it returns no error only
when it is over. -/
theorem keeps_reconcileRecord : g.KeepsPublish recoverable steady (reconcileRecord r) w := by
  refine Always.ask (.inFlight h) ?_
  rintro answer w' ⟨⟨hw, hobs⟩, -⟩
  subst w'
  cases answer with
  | error e => exact keeps_release h
  | ok state =>
    obtain rfl := hobs state rfl
    dsimp only
    by_cases hp : r.value.pendingInstance = []
    · rw [if_pos hp]
      by_cases hc : w.candidate = []
      · rw [if_neg (by simp [observe, hc, hp])]
        have hknown : g.KeepsPublish recoverable steady
            (reconcileKnown r r.value (w.observe (inspectRef r.value)) []) w :=
          keeps_reconcileKnown hsound h hp fun _ => hc
        simpa [observe, hc] using hknown
      · rw [if_pos (by simpa [observe, hp] using hc)]
        -- the executor knows the new instance before the record does
        have hput := h.named hp
        refine Always.bind (keeps_persistValue (.inFlight h) h.stored rfl (appID_eq h.bare) rfl
          (.inFlight hput) ?_)
        exact keeps_reconcileKnown hsound hput rfl fun hnil => absurd hnil hc
    · rw [if_neg hp, if_neg (by simp)]
      exact keeps_reconcileKnown hsound h rfl fun hnil => absurd hnil hp

end Reconciling

end Setting

end NrePlugins.DockerApp
