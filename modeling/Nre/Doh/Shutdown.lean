import Nre.Base.Contract
import Nre.Base.Schedule
import Nre.Doh.Fresh
import Nre.Doh.SlotRuns

/-!
# Slots are given back once, and shutdown is final

`slots_exact`: in every run, no more requests hold a slot than `MaxConcurrency` allows; a slot
is given back at most once, after its request has returned and its last host call has ended,
and it has been given back when the request and its host calls are over. Once `Close` has
returned without an error nobody is inside and nobody can enter. The cache is then empty, if no
`Put` was between its look at the context and the insertion when the cache was reset.

`put_after_close` is a run without that condition.
-/

namespace NrePlugins.Doh.Slots

open List
open Prog (ask)

/-! ## Requests always return -/

def Returns {α : Type} (p : Act α) : Prop :=
  Meets (fun _ => True) (fun _ _ => True) (fun r => ∃ a, r = .ok a ∧ True) p

theorem returns_ask (op : Op) : Returns (ask op) := ⟨trivial, fun answer _ => ⟨answer, rfl, trivial⟩⟩

theorem returns_expand (c : Call) : Returns (expand c) := by
  cases c with
  | beginRequest =>
    refine Meets.ask trivial fun counted _ => ?_
    cases counted with
    | false => exact ⟨_, rfl, trivial⟩
    | true =>
      refine Meets.ask trivial fun err _ => ?_
      cases err with
      | none => exact ⟨_, rfl, trivial⟩
      | some err => exact Meets.ask trivial fun _ _ => ⟨_, rfl, trivial⟩
  | returnSlot =>
    refine Meets.ask trivial fun should _ => ?_
    cases should with
    | false => exact ⟨_, rfl, trivial⟩
    | true => exact returns_ask _
  | host h =>
    refine Meets.ask trivial fun err _ => ?_
    cases err with
    | some err => exact ⟨_, rfl, trivial⟩
    | none => exact Meets.ask trivial fun id _ => returns_ask (.await id h)
  | _ => exact returns_ask _

theorem returns_interpret {α : Type} (p : Serve α) : Returns (p.attempt.interpret expand) := by
  induction p with
  | ret | fail => exact ⟨_, rfl, trivial⟩
  | call c next ih => exact (returns_expand c).bind_ok fun answer _ => ih answer

variable {s : State}

section Service

variable {cfg : Configuration} (lib : HTTPLib) (L : RuneLower)

/-- The result of a request was put into its response. -/
def Served : Task → Except Err Unit → Prop
  | .serve _, r => r = .ok ()
  | _, _ => True

theorem served {s : ServiceSystem} (h : Reachable (Initial cfg) (Step cfg lib L) s)
    {t : Thread Reply Task Err Unit} (ht : t ∈ s.threads) {r : Except Err Unit}
    (hr : t.result = some r) : Served t.request r := by
  have hprogram : ∀ task, Meets (fun _ => True) (fun _ _ => True) (Served task)
      (program cfg lib L task) := by
    intro task
    cases task with
    | serve request =>
      exact (returns_interpret (serve cfg lib L request)).bind_ok fun _ _ => rfl
    | hostCall id => exact meets_trivial (hostCall id)
    | close => exact meets_trivial close
    | closer => exact meets_trivial closer
  obtain ⟨-, hall⟩ := System.meets_of_reachable (fun _ => True)
    (fun s hs => ⟨trivial, hs.1⟩) hprogram (fun _ _ _ _ _ _ _ _ => ⟨trivial, trivial⟩) h
  exact (hall t ht).2 r hr

/-! ## Every run -/

/-- What holds when a thread has returned. -/
def Ended : Task → Nat → State → Unit → Prop
  | .serve _, i, s, _ => Out (s.stage i)
  | .close, _, s, _ => s.closeDone = true ∧ s.closeErr = .ok ()
  | _, _, _, _ => True

theorem ended_stable (task : Task) (i : Nat) (s s' : State) (u : Unit) (hrely : Rely i s s')
    (h : Ended task i s u) : Ended task i s' u := by
  cases task with
  | serve request =>
    show Out (s'.stage i)
    rw [hrely.stage]
    exact h
  | close =>
    obtain ⟨hdone, herr⟩ := hrely.closed h.1
    exact ⟨hdone, herr.trans h.2⟩
  | hostCall | closer => trivial

theorem safe_program {i : Nat} (task : Task) (hfresh : s.stage i = .fresh) :
    SafeAct cfg i (Ended task i) (program cfg lib L task) s := by
  cases task with
  | serve request => exact safe_serveRequest lib L hfresh request
  | hostCall id => exact safe_hostCall id
  | close => exact safe_close
  | closer => exact safe_closer

theorem inv_initial (hcfg : cfg.validate = .ok ()) {s : ServiceSystem} (h : Initial cfg s) :
    Inv cfg s.shared := by
  have hcapacity : 0 ≤ cfg.maxConcurrency := by
    unfold Configuration.validate at hcfg
    split at hcfg
    · cases hcfg
    · omega
  rw [h.2]
  refine ⟨⟨rfl, hcapacity, nodup_nil, ?_⟩, ⟨fun i => ⟨rfl, rfl, rfl, rfl⟩, ?_, ?_⟩,
    ⟨rfl, nodup_nil, ?_, ?_, ?_, ?_⟩, ⟨fun _ => rfl, ?_, ?_, ?_, ?_, ?_, ?_, ?_⟩⟩
  all_goals simp [Stage.admitted, Stage.inside, Closer.isDrained, Closer.isEmptied]

/-- In every step of the run: `Settled`. -/
def Quiet (s : ServiceSystem) : Label Reply Task → Prop
  | .act _ ⟨op, _⟩ => Settled s.shared op
  | _ => True

/-- Slots and shutdown are exact. -/
structure Exact (cfg : Configuration) (s : ServiceSystem) : Prop where
  /-- The semaphore counts the requests that hold a slot, and there are not too many. -/
  bound : s.shared.semaphore = s.shared.holders.length ∧
    (s.shared.holders.length : Int) ≤ cfg.maxConcurrency
  holders : s.shared.holders.Nodup ∧ ∀ i, i ∈ s.shared.holders ↔
    (s.shared.stage i).admitted = true ∧ (s.shared.slot i).gaveBack = 0
  once : ∀ i, (s.shared.slot i).gaveBack ≤ 1
  /-- Not before the request has returned and its last host call has ended. -/
  late : ∀ i, (s.shared.slot i).gaveBack ≠ 0 → (s.shared.stage i).hasReturned = true ∧
    ∀ c ∈ s.shared.calls, c.owner = i → c.stage.pending = false
  /-- A request that was admitted and is over has given its slot back. -/
  back : ∀ i t request, s.threads[i]? = some t → t.request = .serve request → t.result ≠ none →
    (s.shared.stage i).admitted = true →
    (∀ c ∈ s.shared.calls, c.owner = i → c.stage = .delivered) → (s.shared.slot i).gaveBack = 1
  /-- After `Close`. -/
  closed : ∀ t ∈ s.threads, t.request = .close → t.result = some (.ok ()) →
    s.shared.live = false ∧ (∀ i, (s.shared.stage i).inside = false) ∧ s.shared.cache.entries = []

variable {slot : Slot} {stage : Stage}

theorem gaveBack_eq_one (h : SlotOk slot stage 0 0) (hleft : stage = .left) :
    slot.gaveBack = 1 := by
  subst hleft
  have hreleased : slot.released = true := h.released
  have haccount := h.account
  rw [hreleased] at haccount
  exact haccount

theorem SlotOk.once {running ending : Nat} (h : SlotOk slot stage running ending) :
    slot.gaveBack ≤ 1 := by
  have haccount := h.account
  split at haccount <;> split at haccount <;> omega

theorem SlotOk.late {running ending : Nat} (h : SlotOk slot stage running ending)
    (hback : slot.gaveBack ≠ 0) :
    stage.hasReturned = true ∧ running = 0 := by
  have haccount := h.account
  have hreleased : slot.released = true := by
    by_contra hnot
    rw [if_neg hnot] at haccount
    omega
  rw [h.released, Bool.and_eq_true] at hreleased
  exact ⟨hreleased.1, eq_of_beq hreleased.2⟩

theorem Out.eq_left (h : Out stage) (hadmitted : stage.admitted = true) : stage = .left := by
  rcases h with rfl | rfl | rfl
  · cases hadmitted
  · rfl
  · cases hadmitted

/-- Nobody is inside after `Close`, and the cache is empty. -/
theorem Inv.closed (hinv : Inv cfg s) (hdone : s.closeDone = true) (herr : s.closeErr = .ok ()) :
    s.live = false ∧ (∀ i, (s.stage i).inside = false) ∧ s.cache.entries = [] := by
  obtain ⟨r, hcloser⟩ := hinv.closing.finished.mp hdone
  obtain rfl : r = .ok () := (hinv.closing.result r hcloser).symm.trans herr
  have hempty : s.counted = [] := by
    rw [← length_eq_zero_iff, ← hinv.counts.number]
    exact hinv.closing.drained (by rw [hcloser]; rfl)
  refine ⟨hinv.closing.revoked (by rw [hcloser]; nofun), ?_, ?_⟩
  · intro i
    by_contra hnot
    have hmem := (hinv.counts.inside i).mpr (Bool.not_eq_false _ ▸ hnot)
    simp [hempty] at hmem
  · exact (hinv.closing.emptied (by rw [hcloser]; rfl)).1

/-- In every run in which no `Put` is about to insert when the cache is reset, slots and shutdown
are exact. -/
theorem slots_exact (hcfg : cfg.validate = .ok ()) {s : ServiceSystem}
    (h : Reachable (Initial cfg) (Guarded (Step cfg lib L) Quiet) s) : Exact cfg s := by
  have hfollows := System.follows _ _ (fun s (hs : Initial cfg s) => hs.1) h.of_guarded
  have hserved := @served cfg lib L s h.of_guarded
  obtain ⟨hinv, -, hsafe⟩ := System.safe_of_reachable (fun i s => s.stage i = .fresh)
    Rely.refl (fun _ _ _ _ => Rely.trans)
    (fun s hs => ⟨inv_initial hcfg hs, hs.1, fun i => by rw [hs.2]⟩)
    (fun i s s' hrely hfresh => hrely.stage.trans hfresh)
    (fun i s task _ hfresh => safe_program lib L task hfresh) ended_stable
    (fun s i op answer shared hinv hquiet hpre hresp => op_keeps hinv hpre hresp hquiet) h
  have hended : ∀ i t, s.threads[i]? = some t → t.result = some (.ok ()) →
      Ended t.request i s.shared () := by
    intro i t ht hresult
    have hprog := (hfollows t (mem_of_getElem? ht)).2 _ hresult
    have hlast := hsafe i t ht
    rw [hprog] at hlast
    exact hlast
  refine ⟨⟨hinv.held.semaphore, ?_⟩, ⟨hinv.held.nodup, hinv.held.holder⟩,
    fun i => (hinv.kept.slots i).once, ?_, ?_, ?_⟩
  · rw [← hinv.held.semaphore]
    exact hinv.held.bound
  · intro i hback
    obtain ⟨hreturned, hnone⟩ := (hinv.kept.slots i).late hback
    refine ⟨hreturned, ?_⟩
    intro c hc howner
    by_contra hpending
    exact countP_eq_zero.mp hnone c hc (by simp [howner, hpending])
  · intro i t request ht hrequest hresult hadmitted hover
    obtain ⟨r, hr⟩ := Option.ne_none_iff_exists'.mp hresult
    have hok := hserved (mem_of_getElem? ht) hr
    rw [hrequest] at hok
    obtain rfl : r = .ok () := hok
    have hout := hended i t ht hr
    rw [hrequest] at hout
    have hpending : pendingOf s.shared.calls i = 0 :=
      countP_eq_zero.mpr fun c hc => by
        by_cases howner : c.owner = i
        · simp [hover c hc howner, CallStage.pending]
        · simp [howner]
    have hending : endingOf s.shared.calls i = 0 :=
      countP_eq_zero.mpr fun c hc => by
        by_cases howner : c.owner = i
        · simp [hover c hc howner]
        · simp [howner]
    have hslot := hinv.kept.slots i
    rw [hpending, hending] at hslot
    exact gaveBack_eq_one hslot (Out.eq_left hout hadmitted)
  · intro t ht hrequest hresult
    obtain ⟨i, hi⟩ := mem_iff_getElem?.mp ht
    have hclosed := hended i t hi hresult
    rw [hrequest] at hclosed
    exact hinv.closed hclosed.1 hclosed.2

end Service

/-! ## A late `Put` -/

namespace Late

open Sample (config post answer)

/-- What has been delivered. -/
def delivered (s : State) (id : Nat) (h : Host) : Option (Except Err h.Value) :=
  match s.calls[id]? with
  | some ⟨_, h', _, _, some result⟩ => if heq : h' = h then some (heq ▸ result) else none
  | _ => none

/-- The work outside. -/
def external : (h : Host) → Except Err h.Value
  | .clockNow => .ok 5000000000
  | .resolve _ _ => .ok (answer 1 'a')
  | .cacheGet _ _ => .error .canceled
  | .cachePut _ _ => .error .canceled

/-- A host call goes on from `call`. -/
def onCall {α : Type} (s : State) (id : Nat) (other : α) (f : HostCall → α × State) : α × State :=
  match s.calls[id]? with
  | some call => f call
  | none => (other, s)

/-- A request does not wait for a `Put`. -/
def behave (i : Nat) (s : State) : (op : Op) → Reply op × State
  | .parentErr => (none, s)
  | .countRequest => (s.live, if s.live then s.countRequest i else s)
  | .uncount => ((), s.uncount i)
  | .acquireSlot => (true, s.acquireSlot i)
  | .cancel => ((), s.setDone i)
  | .returned => s.returned i
  | .giveBack => ((), (s.giveBack i).setStage i .returned)
  | .ctxErr => if s.done i then (some .canceled, s.setDone i) else (none, s)
  | .isLive => (s.live, s)
  | .checkNow _ => (true, s)
  | .updateStatus _ _ _ => ((), s)
  | .callErr _ => if s.done i then (some .canceled, s.setDone i) else (none, s)
  | .spawn h => (s.calls.length, s.spawn i h)
  | .await id h =>
    match delivered s id h with
    | some result => ((result, false), s)
    | none => ((.error .canceled, true), s.setDone i)
  | .begin id => onCall s id .clockNow fun call =>
      (call.host, s.setCall id { call with stage := .running, runner := some i })
  | .look id => onCall s id none fun call => (none, s.setCall id { call with stage := .checked })
  | .get _ key now => (.ok (s.cache.get key now).1, { s with cache := (s.cache.get key now).2 })
  | .insert id key entry => onCall s id (.ok ()) fun call =>
      ((s.cache.put key entry).1,
        { s with cache := (s.cache.put key entry).2 }.setCall id { call with stage := .running })
  | .external _ h => (external h, s)
  | .endCall id => onCall s id false fun call => s.endCall id call
  | .giveBackFor id => onCall s id () fun call =>
      ((), (s.giveBack call.owner).setCall id { call with stage := .ended })
  | .deliver id h result => onCall s id () fun call =>
      ((), s.setCall id ⟨call.owner, h, .delivered, call.runner, some result⟩)
  | .enterOnce => (true, { s with once := .inside i })
  | .storeLive => ((), { s with live := false })
  | .cancelRoot | .revokeStatuses => ((), s)
  | .launchCloser => ((), { s with once := .complete, closer := .launched })
  | .awaitClose => (s.closeErr, s)
  | .beginCloser => ((), { s with closer := .running i })
  | .readZero => (s.requestZero, { s with closer := .waiting i s.requestZero })
  | .awaitZero _ => ((), { s with closer := .drained i })
  | .resetCache => (.ok (), { s with cache := s.cache.reset, closer := .reset i (.ok ()) })
  | .recordClose result => ((), { s with closeErr := result, closer := .recorded i result })
  | .closeDone => ((), { s with closeDone := true, closer := .finished s.closeErr })

/-- The operations that need not wait. -/
def Enabled (s : State) : Op → Prop
  | .acquireSlot => (s.semaphore : Int) < config.maxConcurrency
  | .begin id => ∃ call ∈ s.calls[id]?, call.stage = .launched
  | .look id => ∃ call ∈ s.calls[id]?, s.done call.owner = false
  | .insert id _ _ | .endCall id | .giveBackFor id => ∃ call ∈ s.calls[id]?, True
  | .deliver id h _ => ∃ call ∈ s.calls[id]?, call.host = h
  | .enterOnce => s.once = .idle
  | .awaitClose => s.closeDone = true
  | .beginCloser => s.closer = .launched
  | .awaitZero channel => channel ∈ s.closedZeros
  | _ => True

instance (s : State) (op : Op) : Decidable (Enabled s op) := by
  cases op <;> unfold Enabled <;> infer_instance

def empty : ServiceSystem :=
  ⟨{ semaphore := 0, slot := fun _ => ⟨0, false, false, 0⟩, requestCount := 0, requestZero := 0,
     closedZeros := [0], live := true, cache := .new config.cacheEntries config.cacheBytes,
     once := .idle, closeErr := .ok (), closeDone := false, done := fun _ => false, calls := [],
     stage := fun _ => .fresh, counted := [], holders := [], closer := .idle }, []⟩

/-- A request, its host calls, and `Close`. -/
def start : ServiceSystem :=
  System.withRequests (program config .plain .asciiOnly) empty
    [.serve (post 1 'a'), .hostCall 0, .hostCall 1, .hostCall 2, .hostCall 3, .hostCall 4,
     .close, .closer]

theorem delivered_eq_some {id : Nat} {h : Host} {result : Except Err h.Value}
    (hdelivered : delivered s id h = some result) :
    ∃ owner stage runner, s.calls[id]? = some ⟨owner, h, stage, runner, some result⟩ := by
  revert hdelivered
  fun_cases delivered s id h with
  | case1 owner stage runner _ hcall =>
    rintro ⟨⟩
    exact ⟨owner, stage, runner, hcall⟩
  | _ => nofun

theorem callDone_setDone (i : Nat) (s : State) (h : Host) : callDone i s (s.setDone i) h := by
  cases h with
  | resolve => exact .inr rfl
  | _ => exact rfl

theorem respond_behave (i : Nat) (s : State) (op : Op) (henabled : Enabled s op) :
    respond config i s op (behave i s op).1 (behave i s op).2 := by
  cases op with
  | acquireSlot =>
    simp only [respond]
    rw [if_pos (show (s.semaphore : Int) < config.maxConcurrency from henabled)]
    exact ⟨rfl, rfl⟩
  | ctxErr =>
    cases hdone : s.done i with
    | true | false => simp [behave, respond, hdone]
  | callErr h =>
    cases hdone : s.done i with
    | true =>
      simp only [behave, hdone, if_true]
      exact callDone_setDone i s h
    | false => simp [behave, respond, hdone]
  | await id h =>
    simp only [behave]
    cases hdelivered : delivered s id h with
    | some result =>
      obtain ⟨owner, stage, runner, hcall⟩ := delivered_eq_some hdelivered
      exact ⟨owner, stage, runner, hcall, rfl⟩
    | none => exact ⟨.inl rfl, callDone_setDone i s h⟩
  | begin id =>
    obtain ⟨call, hcall, hlaunched⟩ := henabled
    simp only [behave, onCall, Option.mem_def.mp hcall]
    exact ⟨call, hcall, hlaunched, rfl, rfl⟩
  | look id =>
    obtain ⟨call, hcall, hdone⟩ := henabled
    simp only [behave, onCall, Option.mem_def.mp hcall]
    exact ⟨call, hcall, hdone, rfl⟩
  | insert id key entry =>
    obtain ⟨call, hcall, -⟩ := henabled
    simp only [behave, onCall, Option.mem_def.mp hcall]
    exact ⟨call, hcall, rfl, rfl⟩
  | endCall id | giveBackFor id =>
    obtain ⟨call, hcall, -⟩ := henabled
    simp only [behave, onCall, Option.mem_def.mp hcall]
    exact ⟨call, hcall, rfl⟩
  | deliver id h result =>
    obtain ⟨⟨owner, h, stage, runner, before⟩, hcall, rfl⟩ := henabled
    simp only [behave, onCall, Option.mem_def.mp hcall]
    exact ⟨owner, stage, runner, before, hcall, rfl⟩
  | awaitClose => exact ⟨.inl ⟨henabled, rfl⟩, rfl⟩
  | enterOnce | beginCloser | awaitZero _ => exact ⟨henabled, rfl⟩
  | countRequest | isLive | spawn _ | get _ _ _ | readZero => exact ⟨rfl, rfl⟩
  | _ => exact rfl

/-- The request asks for its answer to be stored, and the `Put` has looked at its context. -/
def untilPut : List Nat :=
  replicate 9 0 ++ replicate 4 1 ++ replicate 6 0 ++ replicate 5 2 ++
    replicate 5 0 ++ replicate 4 3 ++ replicate 6 0 ++ replicate 4 4 ++
    replicate 6 0 ++ replicate 2 5

/-- The service is being closed, and the request returns without waiting for the `Put`. -/
def closing : List Nat := replicate 5 6 ++ replicate 5 0

/-- The goroutine of `Close` runs, and `Close` returns. -/
def closed : List Nat := replicate 7 7 ++ replicate 2 6

/-- The `Put` inserts, ends, gives the slot back and delivers. -/
def put : List Nat := replicate 5 5

instance (s : State) (op : Op) : Decidable (Settled s op) := by
  cases op with
  | resetCache => exact inferInstanceAs (Decidable (∀ c ∈ s.calls, c.inserting = false))
  | _ => exact .isTrue trivial

theorem reachable_start {schedule : List Nat}
    (h : System.MayRun behave Enabled start schedule) :
    Reachable (Initial config) (Step config .plain .asciiOnly)
      (System.runSchedule behave start schedule) :=
  System.reachable_runSchedule respond_behave
    (System.reachable_withRequests (.start ⟨rfl, rfl⟩) _) h

theorem reachable_quiet {schedule : List Nat}
    (h : System.MayRun behave (fun s op => Enabled s op ∧ Settled s op) start schedule) :
    Reachable (Initial config) (Guarded (Step config .plain .asciiOnly) Quiet)
      (System.runSchedule behave start schedule) := by
  refine (System.reachable_guarded_iff _ _ (fun _ s op _ => Settled s op)
    (fun _ _ => trivial) (fun _ _ => trivial) fun _ _ _ _ => Iff.rfl).mpr ?_
  exact System.reachable_runSchedule (fun i s op h => ⟨respond_behave i s op h.1, h.2⟩)
    (System.reachable_withRequests (.start ⟨rfl, rfl⟩) _) h

/-- The `Put` inserts before the cache is reset, and after it. -/
theorem runs :
    (System.MayRun behave (fun s op => Enabled s op ∧ Settled s op) start
        (untilPut ++ closing ++ put ++ closed) ∧
      (∃ t ∈ (System.runSchedule behave start (untilPut ++ closing ++ put ++ closed)).threads,
        t.request = .close ∧ t.result = some (.ok ())) ∧
      ((System.runSchedule behave start (untilPut ++ closing ++ put ++ closed)).shared.slot
        0).gaveBack = 1) ∧
    System.MayRun behave Enabled start
        (untilPut ++ closing ++ closed ++ put) ∧
      (∃ t ∈ (System.runSchedule behave start (untilPut ++ closing ++ closed ++ put)).threads,
        t.request = .close ∧ t.result = some (.ok ())) ∧
      (System.runSchedule behave start
        (untilPut ++ closing ++ closed ++ put)).shared.cache.entries ≠ [] := by
  decide

end Late

/-- A host call that is still running when its request returns, and a service that is closed after
it: the slot was given back, and the cache is empty. -/
theorem slots_exact_closed :
    ∃ s, Reachable (Initial Sample.config)
        (Guarded (Step Sample.config .plain .asciiOnly) Quiet) s ∧
      (∃ t ∈ s.threads, t.request = .close ∧ t.result = some (.ok ())) ∧
      (s.shared.slot 0).gaveBack = 1 ∧ Exact Sample.config s := by
  obtain ⟨⟨hmay, hclosed, hback⟩, -⟩ := Late.runs
  exact ⟨_, Late.reachable_quiet hmay, hclosed, hback,
    slots_exact .plain .asciiOnly (by decide) (Late.reachable_quiet hmay)⟩

/-- A `Put` whose request was canceled by `Close` inserts after `Close` has returned. -/
theorem put_after_close :
    Sample.config.validate = .ok () ∧
    ∃ s, Reachable (Initial Sample.config) (Step Sample.config .plain .asciiOnly) s ∧
      (∃ t ∈ s.threads, t.request = .close ∧ t.result = some (.ok ())) ∧
      s.shared.cache.entries ≠ [] := by
  obtain ⟨-, hmay, hclosed, hentries⟩ := Late.runs
  exact ⟨by decide, _, Late.reachable_start hmay, hclosed, hentries⟩

end NrePlugins.Doh.Slots
