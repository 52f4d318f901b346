import Nre.Base.Rely
import Nre.Doh.Serve

/-!
# Slots, host calls and shutdown

`service.go` at the level of its locks: `beginRequest`, `requestSlot`, `boundedHostCall` and
`Close`. A step is one section under a mutex, one operation on a channel, or one look at a
context. A host call is a goroutine of its own that may go on after its request has returned;
so is the end of `Close`.

The programs of the requests are those of `serve`, with each large call replaced by what it
consists of (`expand`). The state also records what the source does not: how far each request
and each host call is, and how often each slot was given back.
-/

namespace NrePlugins.Doh.Slots

open Prog (ask)

/-! ## The state -/

/-- How far a request is. -/
inductive Stage where
  | fresh
  /-- Counted by `beginRequest`, without a slot. -/
  | counted
  | holding
  /-- `slot.returned()` has found that the slot is to be given back. -/
  | returning
  | returned
  /-- No longer counted; it had a slot. -/
  | left
  /-- No longer counted; it never had a slot. -/
  | refused
  deriving DecidableEq

def Stage.inside : Stage → Bool
  | .counted | .holding | .returning | .returned => true
  | _ => false

def Stage.admitted : Stage → Bool
  | .holding | .returning | .returned | .left => true
  | _ => false

def Stage.hasReturned : Stage → Bool
  | .returning | .returned | .left => true
  | _ => false

/-- `requestSlot`, and how often it was given back. -/
structure Slot where
  pending : Nat
  returnedToCaller : Bool
  released : Bool
  gaveBack : Nat

/-- How far a host call is. -/
inductive CallStage where
  | launched
  | running
  /-- Its context was not done when it looked. -/
  | checked
  /-- `endCall` has found that the slot is to be given back. -/
  | ending
  | ended
  | delivered
  deriving DecidableEq

/-- `endCall` has not been called yet. -/
def CallStage.pending : CallStage → Bool
  | .launched | .running | .checked => true
  | _ => false

/-- A host call, in a goroutine of its own. -/
structure HostCall where
  owner : Nat
  host : Host
  stage : CallStage
  /-- The goroutine that runs it. -/
  runner : Option Nat
  /-- What is in the channel for the request. -/
  result : Option (Except Err host.Value)

def Host.isPut : Host → Bool
  | .cachePut _ _ => true
  | _ => false

/-- A `Put` between its look at the context and the insertion. -/
def HostCall.inserting (c : HostCall) : Bool := Host.isPut c.host && c.stage == .checked

/-- `closeOnce`. -/
inductive Once where
  | idle
  | inside (thread : Nat)
  | complete
  deriving DecidableEq

/-- How far the goroutine of `Close` is. -/
inductive Closer where
  | idle
  | launched
  | running (thread : Nat)
  /-- It waits for a `requestZero`. -/
  | waiting (thread channel : Nat)
  | drained (thread : Nat)
  | reset (thread : Nat) (result : Except Err Unit)
  | recorded (thread : Nat) (result : Except Err Unit)
  | finished (result : Except Err Unit)
  deriving DecidableEq

def Closer.runner : Closer → Option Nat
  | .running k | .waiting k _ | .drained k | .reset k _ | .recorded k _ => some k
  | _ => none

/-- The service, and how far its threads are. -/
structure State where
  /-- How many are in the channel. -/
  semaphore : Nat
  slot : Nat → Slot
  requestCount : Nat
  /-- The current `requestZero`; they are numbered. -/
  requestZero : Nat
  closedZeros : List Nat
  live : Bool
  cache : MemoryCache
  once : Once
  closeErr : Except Err Unit
  closeDone : Bool
  /-- The contexts of the requests. -/
  done : Nat → Bool
  calls : List HostCall
  stage : Nat → Stage
  /-- The requests that are counted, and those with a slot that was not given back. -/
  counted : List Nat
  holders : List Nat
  closer : Closer

namespace State

variable (s : State) (i : Nat)

def setStage (stage : Stage) : State :=
  { s with stage := Function.update s.stage i stage }

def setSlot (slot : Slot) : State :=
  { s with slot := Function.update s.slot i slot }

def setDone : State := { s with done := Function.update s.done i true }

def setCall (id : Nat) (call : HostCall) : State :=
  { s with calls := s.calls.set id call }

/-- A receive from the semaphore, for the slot of request `i`. -/
def giveBack : State :=
  { s with
    semaphore := s.semaphore - 1
    holders := s.holders.erase i
    slot := Function.update s.slot i { s.slot i with gaveBack := (s.slot i).gaveBack + 1 } }

end State

/-! ## Operations -/

inductive Op where
  -- of a request
  | parentErr
  | countRequest
  | uncount
  | acquireSlot
  | cancel
  | returned
  | giveBack
  | ctxErr
  | isLive
  | checkNow (now : UInt64)
  | updateStatus (id : Bytes) (result : Health) (failed : Bool)
  | callErr (host : Host)
  | spawn (host : Host)
  | await (id : Nat) (host : Host)
  -- of a host call
  | begin (id : Nat)
  | look (id : Nat)
  | get (id : Nat) (key : Bytes) (now : UInt64)
  | insert (id : Nat) (key : Bytes) (entry : CacheEntry)
  | external (id : Nat) (host : Host)
  | endCall (id : Nat)
  | giveBackFor (id : Nat)
  | deliver (id : Nat) (host : Host) (result : Except Err host.Value)
  -- of `Close`
  | enterOnce
  | storeLive
  | cancelRoot
  | revokeStatuses
  | launchCloser
  | awaitClose
  -- of its goroutine
  | beginCloser
  | readZero
  | awaitZero (channel : Nat)
  | resetCache
  | recordClose (result : Except Err Unit)
  | closeDone

abbrev Reply : Op → Type
  | .parentErr | .ctxErr | .callErr _ | .look _ => Option Err
  | .countRequest | .acquireSlot | .returned | .isLive | .checkNow _ | .endCall _ => Bool
  | .enterOnce => Bool
  | .spawn _ | .readZero => Nat
  | .await _ h => Except Err h.Value × Bool
  | .begin _ => Host
  | .get _ _ _ => Except Err (Option CacheEntry)
  | .insert _ _ _ => Except Err Unit
  | .external _ h => Except Err h.Value
  | .awaitClose | .resetCache => Except Err Unit
  | _ => Unit

abbrev Act (α : Type) := Prog Reply Err α

section Requests

/-- `boundedHostCall`. -/
def boundedHostCall (h : Host) : Act (Except Err h.Value × Bool) := do
  match ← ask (Op.callErr h) with
  | some err => return (.error err, false)
  | none =>
    let id ← ask (Op.spawn h)
    ask (Op.await id h)

/-- What the calls of `serve` consist of. -/
def expand : (c : Call) → Act (Answer c)
  | .parentErr => ask Op.parentErr
  | .beginRequest => do
    if ← ask Op.countRequest then
      match ← ask Op.ctxErr with
      | some err =>
        ask Op.uncount
        return .error err
      | none => return .ok ()
    else return .error .revoked
  | .releaseRequest => ask Op.uncount
  | .acquireSlot => ask Op.acquireSlot
  | .cancel => ask Op.cancel
  | .returnSlot => do
    if ← ask Op.returned then ask Op.giveBack
  | .ctxErr => ask Op.ctxErr
  | .isLive => ask Op.isLive
  | .checkNow now => ask (Op.checkNow now)
  | .updateStatus id result failed => ask (Op.updateStatus id result failed)
  | .host h => boundedHostCall h

variable (cfg : Configuration) (lib : HTTPLib) (L : RuneLower)

def serveRequest (request : HTTPRequest) : Act Unit := do
  let _ ← ((serve cfg lib L request).attempt.interpret expand : Act _)
  return ()

end Requests

/-! ## Host calls -/

/-- The work of a host call. -/
def invoke (id : Nat) : (h : Host) → Act (Except Err h.Value)
  | .cacheGet key now => do
    match ← ask (Op.look id) with
    | some err => return .error err
    | none => ask (Op.get id key now)
  | .cachePut key entry => do
    match ← ask (Op.look id) with
    | some err => return .error err
    | none => ask (Op.insert id key entry)
  | .clockNow => ask (Op.external id .clockNow)
  | .resolve endpoint message => ask (Op.external id (.resolve endpoint message))

/-- The goroutine of `boundedHostCall`. -/
def hostCall (id : Nat) : Act Unit := do
  let h ← ask (Op.begin id)
  let result ← invoke id h
  if ← ask (Op.endCall id) then
    ask (Op.giveBackFor id)
  ask (Op.deliver id h result)

/-! ## Close -/

def close : Act Unit := do
  if ← ask Op.enterOnce then
    ask Op.storeLive
    ask Op.cancelRoot
    ask Op.revokeStatuses
    ask Op.launchCloser
  Prog.ofExcept (← ask Op.awaitClose)

def closer : Act Unit := do
  ask Op.beginCloser
  let channel ← ask Op.readZero
  ask (Op.awaitZero channel)
  let result ← ask Op.resetCache
  ask (Op.recordClose result)
  ask Op.closeDone

/-! ## The system -/

/-- What a thread of the system is. -/
inductive Task where
  | serve (request : HTTPRequest)
  | hostCall (id : Nat)
  | close
  | closer
  deriving DecidableEq

section System

variable (cfg : Configuration) (lib : HTTPLib) (L : RuneLower)

def program : Task → Act Unit
  | .serve request => serveRequest cfg lib L request
  | .hostCall id => hostCall id
  | .close => close
  | .closer => closer

/-- A slot is given back once the request has returned and none of its host calls is pending. -/
def Slot.settle (slot : Slot) : Bool × Slot :=
  let shouldRelease := slot.returnedToCaller && slot.pending == 0 && !slot.released
  (shouldRelease, { slot with released := slot.released || shouldRelease })

namespace State

variable (s : State) (i : Nat)

/-- `beginRequest` under `requestMu`, for request `i`. -/
def countRequest : State :=
  { s with
    requestZero := if s.requestCount = 0 then s.requestZero + 1 else s.requestZero
    requestCount := s.requestCount + 1
    counted := i :: s.counted
    stage := Function.update s.stage i .counted }

/-- The release of `beginRequest`. -/
def uncount : State :=
  { s with
    done := Function.update s.done i true
    requestCount := s.requestCount - 1
    closedZeros :=
      if s.requestCount - 1 = 0 then s.requestZero :: s.closedZeros else s.closedZeros
    counted := s.counted.erase i
    stage := Function.update s.stage i (if (s.stage i).admitted then .left else .refused) }

def acquireSlot : State :=
  { s with
    semaphore := s.semaphore + 1
    holders := i :: s.holders
    slot := Function.update s.slot i ⟨0, false, false, 0⟩
    stage := Function.update s.stage i .holding }

/-- `slot.returned()` under `slot.mu`. -/
def returned : Bool × State :=
  let settled := { s.slot i with returnedToCaller := true }.settle
  (settled.1, (s.setSlot i settled.2).setStage i (if settled.1 then .returning else .returned))

/-- `slot.beginCall()`, and the goroutine is launched. -/
def spawn (h : Host) : State :=
  { s.setSlot i { s.slot i with pending := (s.slot i).pending + 1 } with
    calls := s.calls ++ [⟨i, h, .launched, none, none⟩] }

/-- `endCall` under `slot.mu`. -/
def endCall (id : Nat) (call : HostCall) : Bool × State :=
  let slot := s.slot call.owner
  let settled := { slot with pending := slot.pending - 1 }.settle
  (settled.1, (s.setSlot call.owner settled.2).setCall id
    { call with stage := if settled.1 then .ending else .ended })

end State

/-- The context of a host call of request `i` is done. For a question to an upstream it has a
time limit of its own; for the other calls it is the context of the request. -/
def callDone (i : Nat) (s s' : State) : Host → Prop
  | .resolve _ _ => s' = s ∨ s' = s.setDone i
  | _ => s' = s.setDone i

/-- How an operation of thread `i` is answered. A context may be found done at any time; once it
has been, it stays so. -/
def respond (i : Nat) (s : State) : (op : Op) → Reply op → State → Prop
  | .countRequest, answer, s' =>
    answer = s.live ∧ s' = if s.live then s.countRequest i else s
  | .uncount, _, s' => s' = s.uncount i
  | .acquireSlot, answer, s' =>
    if s.semaphore < cfg.maxConcurrency then answer = true ∧ s' = s.acquireSlot i
    else answer = false ∧ s' = s
  | .cancel, _, s' => s' = s.setDone i
  | .returned, answer, s' => (answer, s') = s.returned i
  | .giveBack, _, s' => s' = (s.giveBack i).setStage i .returned
  | .ctxErr, none, s' => s.done i = false ∧ s' = s
  | .ctxErr, some _, s' => s' = s.setDone i
  | .isLive, answer, s' => answer = s.live ∧ s' = s
  | .callErr _, none, s' => s.done i = false ∧ s' = s
  | .callErr h, some _, s' => callDone i s s' h
  | .spawn h, answer, s' => answer = s.calls.length ∧ s' = s.spawn i h
  | .await id h, (result, false), s' =>
    ∃ owner stage runner, s.calls[id]? = some ⟨owner, h, stage, runner, some result⟩ ∧ s' = s
  | .await _ h, (result, true), s' =>
    (result = .error .canceled ∨ result = .error .deadlineExceeded) ∧ callDone i s s' h
  | .begin id, h, s' =>
    ∃ call, s.calls[id]? = some call ∧ call.stage = .launched ∧ h = call.host ∧
      s' = s.setCall id { call with stage := .running, runner := some i }
  | .look id, none, s' =>
    ∃ call, s.calls[id]? = some call ∧ s.done call.owner = false ∧
      s' = s.setCall id { call with stage := .checked }
  | .look id, some _, s' => ∃ call, s.calls[id]? = some call ∧ s' = s.setDone call.owner
  | .get _ key now, answer, s' =>
    answer = .ok (s.cache.get key now).1 ∧ s' = { s with cache := (s.cache.get key now).2 }
  | .insert id key entry, answer, s' =>
    ∃ call, s.calls[id]? = some call ∧ answer = (s.cache.put key entry).1 ∧
      s' = { s with cache := (s.cache.put key entry).2 }.setCall id { call with stage := .running }
  | .endCall id, answer, s' => ∃ call, s.calls[id]? = some call ∧ (answer, s') = s.endCall id call
  | .giveBackFor id, _, s' =>
    ∃ call, s.calls[id]? = some call ∧
      s' = (s.giveBack call.owner).setCall id { call with stage := .ended }
  | .deliver id h result, _, s' =>
    ∃ owner stage runner before, s.calls[id]? = some ⟨owner, h, stage, runner, before⟩ ∧
      s' = s.setCall id ⟨owner, h, .delivered, runner, some result⟩
  | .enterOnce, true, s' => s.once = .idle ∧ s' = { s with once := .inside i }
  | .enterOnce, false, s' => s.once = .complete ∧ s' = s
  | .storeLive, _, s' => s' = { s with live := false }
  | .launchCloser, _, s' => s' = { s with once := .complete, closer := .launched }
  | .awaitClose, answer, s' =>
    (s.closeDone = true ∧ answer = s.closeErr ∨
      answer = .error .canceled ∨ answer = .error .deadlineExceeded) ∧ s' = s
  | .beginCloser, _, s' => s.closer = .launched ∧ s' = { s with closer := .running i }
  | .readZero, answer, s' =>
    answer = s.requestZero ∧ s' = { s with closer := .waiting i s.requestZero }
  | .awaitZero channel, _, s' => channel ∈ s.closedZeros ∧ s' = { s with closer := .drained i }
  | .resetCache, .ok _, s' => s' = { s with cache := s.cache.reset, closer := .reset i (.ok ()) }
  | .resetCache, .error err, s' => s' = { s with closer := .reset i (.error err) }
  | .recordClose result, _, s' => s' = { s with closeErr := result, closer := .recorded i result }
  | .closeDone, _, s' => s' = { s with closeDone := true, closer := .finished s.closeErr }
  | _, _, s' => s' = s

abbrev ServiceSystem := System Reply Task Err Unit State

/-- A service that has just been made. -/
def Initial (s : ServiceSystem) : Prop :=
  s.threads = [] ∧ s.shared =
    { semaphore := 0, slot := fun _ => ⟨0, false, false, 0⟩, requestCount := 0, requestZero := 0,
      closedZeros := [0], live := true, cache := .new cfg.cacheEntries cfg.cacheBytes,
      once := .idle, closeErr := .ok (), closeDone := false, done := fun _ => false, calls := [],
      stage := fun _ => .fresh, counted := [], holders := [], closer := .idle }

abbrev Step : ServiceSystem → Label Reply Task → ServiceSystem → Prop :=
  System.Step (program cfg lib L) (respond cfg)

end System

/-! ## The accounts of slots and requests

Each part of the invariant is about a few fields of the state, and this part says how they
change.

- `SlotOk`: a slot is marked as released exactly when its request has returned and none of its
  host calls is pending, and then it was given back once, or one thread is about to.
- `Held`: the semaphore counts the slots that were not given back.
- `Kept`: all slots are as `SlotOk` says, and only admitted requests have host calls.
- `CountInv`: `requestCount` counts the requests inside, and the current `requestZero` is
  closed exactly when there is none.
-/

open List
open Function

/-! ## Counting -/

variable {id : Nat}

theorem countP_set {α : Type} {l : List α} {old : α} (h : l[id]? = some old) (new : α)
    (p : α → Bool) :
    (l.set id new).countP p + (if p old then 1 else 0) = l.countP p + (if p new then 1 else 0) := by
  obtain ⟨hlt, rfl⟩ := List.getElem?_eq_some_iff.mp h
  have hpos : p l[id] = true → 0 < l.countP p :=
    fun hp => countP_pos_iff.mpr ⟨_, getElem_mem hlt, hp⟩
  rw [List.countP_set hlt]
  split_ifs <;> grind

/-- The host calls of request `i` that are pending. -/
def pendingOf (calls : List HostCall) (i : Nat) : Nat :=
  calls.countP fun c => c.owner == i && c.stage.pending

/-- Those that are about to give the slot back. -/
def endingOf (calls : List HostCall) (i : Nat) : Nat :=
  calls.countP fun c => c.owner == i && c.stage == .ending

variable {calls : List HostCall} {old new : HostCall}

/-- A host call goes on. -/
theorem pendingOf_set (hold : calls[id]? = some old) (howner : new.owner = old.owner) (j : Nat) :
    pendingOf (calls.set id new) j + (if old.owner = j ∧ old.stage.pending = true then 1 else 0) =
      pendingOf calls j + (if old.owner = j ∧ new.stage.pending = true then 1 else 0) := by
  unfold pendingOf
  simpa [howner] using countP_set hold new fun c => c.owner == j && c.stage.pending

theorem endingOf_set (hold : calls[id]? = some old) (howner : new.owner = old.owner) (j : Nat) :
    endingOf (calls.set id new) j + (if old.owner = j ∧ old.stage = .ending then 1 else 0) =
      endingOf calls j + (if old.owner = j ∧ new.stage = .ending then 1 else 0) := by
  unfold endingOf
  simpa [howner] using countP_set hold new fun c => c.owner == j && c.stage == .ending

/-! ## Slots -/

/-- A slot of a request at the given stage, with so many host calls. -/
structure SlotOk (slot : Slot) (stage : Stage) (running ending : Nat) : Prop where
  pending : slot.pending = running
  returned : slot.returnedToCaller = stage.hasReturned
  released : slot.released = (stage.hasReturned && running == 0)
  account : slot.gaveBack + (if stage = .returning then 1 else 0) + ending =
    if slot.released then 1 else 0

namespace SlotOk

variable {slot : Slot} {stage next : Stage} {running ending : Nat}

theorem restage (h : SlotOk slot stage running ending)
    (hreturned : next.hasReturned = stage.hasReturned)
    (hreturning : next = .returning ↔ stage = .returning) : SlotOk slot next running ending := by
  refine ⟨h.pending, ?_, ?_, ?_⟩
  · rw [h.returned, hreturned]
  · rw [h.released, hreturned]
  · simp only [hreturning]
    exact h.account

theorem spawn (h : SlotOk slot .holding running ending) :
    SlotOk { slot with pending := slot.pending + 1 } .holding (running + 1) ending :=
  ⟨congrArg (· + 1) h.pending, h.returned, h.released, h.account⟩

/-- The slot of a request that returns. -/
theorem settle_returned (h : SlotOk slot .holding running ending) :
    SlotOk { slot with returnedToCaller := true }.settle.2
      (if { slot with returnedToCaller := true }.settle.1 then .returning else .returned)
      running ending := by
  have hreleased : slot.released = false := h.released
  have haccount : slot.gaveBack + 0 + ending = 0 := by simpa [hreleased] using h.account
  have hsettled : { slot with returnedToCaller := true }.settle.1 = (running == 0) := by
    simp [Slot.settle, hreleased, h.pending]
  have hreleased' : { slot with returnedToCaller := true }.settle.2.released = (running == 0) := by
    simp [Slot.settle, hreleased, h.pending]
  rw [hsettled]
  by_cases hnone : running = 0
  · subst hnone
    refine ⟨h.pending, rfl, hreleased', ?_⟩
    rw [hreleased']
    show slot.gaveBack + 1 + ending = 1
    omega
  · have hfalse : (running == 0) = false := beq_eq_false_iff_ne.mpr hnone
    rw [hfalse] at hreleased' ⊢
    refine ⟨h.pending, rfl, hreleased'.trans (by rw [hfalse]; rfl), ?_⟩
    rw [hreleased']
    exact haccount

/-- The slot of a request one of whose host calls ends. -/
theorem settle_ended (h : SlotOk slot stage (running + 1) ending) :
    SlotOk { slot with pending := slot.pending - 1 }.settle.2 stage running
      (ending + if { slot with pending := slot.pending - 1 }.settle.1 then 1 else 0) := by
  have hreleased : slot.released = false := by simp [h.released]
  have haccount := h.account
  rw [hreleased] at haccount
  have hpending : slot.pending - 1 = running := by rw [h.pending, Nat.add_sub_cancel]
  have hsettled : { slot with pending := slot.pending - 1 }.settle.1 =
      (stage.hasReturned && running == 0) := by
    simp [Slot.settle, hreleased, hpending, h.returned]
  have hreleased' : { slot with pending := slot.pending - 1 }.settle.2.released =
      (stage.hasReturned && running == 0) := by
    simp [Slot.settle, hreleased, hpending, h.returned]
  refine ⟨hpending, h.returned, hreleased', ?_⟩
  rw [hsettled, hreleased', ← Nat.add_assoc]
  show slot.gaveBack + _ + ending + _ = _
  rw [haccount]
  simp

/-- One of two threads is about to give the slot back: the request itself. -/
theorem giveBack (h : SlotOk slot .returning running ending) :
    slot.gaveBack = 0 ∧
      SlotOk { slot with gaveBack := slot.gaveBack + 1 } .returned running ending := by
  have haccount := h.account
  rw [if_pos rfl] at haccount
  have hone : slot.gaveBack = 0 ∧ ending = 0 ∧ slot.released = true := by
    split at haccount
    · exact ⟨by omega, by omega, ‹_›⟩
    · omega
  obtain ⟨hback, rfl, hreleased⟩ := hone
  refine ⟨hback, h.pending, h.returned, h.released, ?_⟩
  rw [hback, hreleased]
  rfl

/-- And one of its host calls. -/
theorem giveBackFor (h : SlotOk slot stage running (ending + 1)) :
    slot.gaveBack = 0 ∧
      SlotOk { slot with gaveBack := slot.gaveBack + 1 } stage running ending := by
  have haccount := h.account
  have hreleased : slot.released = true := by
    by_contra hnot
    rw [if_neg hnot] at haccount
    omega
  rw [hreleased, if_pos rfl] at haccount
  refine ⟨by omega, h.pending, h.returned, h.released, ?_⟩
  rw [hreleased]
  show slot.gaveBack + 1 + _ + ending = 1
  omega

end SlotOk

/-- The semaphore counts the slots that were not given back. -/
structure Held (capacity : Int) (used : Nat) (holders : List Nat) (slot : Nat → Slot)
    (stage : Nat → Stage) : Prop where
  semaphore : used = holders.length
  bound : used ≤ capacity
  nodup : holders.Nodup
  holder : ∀ i, i ∈ holders ↔ (stage i).admitted = true ∧ (slot i).gaveBack = 0

variable {slot slot' : Nat → Slot} {stage stage' : Nat → Stage} {i : Nat}

namespace Held

variable {capacity : Int} {used : Nat} {holders : List Nat}

theorem keep (h : Held capacity used holders slot stage)
    (hadmitted : ∀ j, (stage' j).admitted = (stage j).admitted)
    (hback : ∀ j, (slot' j).gaveBack = (slot j).gaveBack) :
    Held capacity used holders slot' stage' := by
  refine ⟨h.semaphore, h.bound, h.nodup, ?_⟩
  intro j
  rw [hadmitted, hback, h.holder]

theorem acquire (h : Held capacity used holders slot stage) (hi : (stage i).admitted = false)
    (hroom : (used : Int) < capacity) (hnew : (stage' i).admitted = true ∧ (slot' i).gaveBack = 0)
    (hothers : ∀ j, j ≠ i → stage' j = stage j ∧ slot' j = slot j) :
    Held capacity (used + 1) (i :: holders) slot' stage' := by
  have hnot : i ∉ holders := by
    intro hmem
    simp [((h.holder i).mp hmem).1] at hi
  refine ⟨by simp [h.semaphore], by omega, nodup_cons.mpr ⟨hnot, h.nodup⟩, ?_⟩
  intro j
  by_cases hj : j = i
  · subst hj
    simp [hnew]
  · obtain ⟨hstage, hslot⟩ := hothers j hj
    rw [hstage, hslot, mem_cons, h.holder]
    simp [hj]

theorem giveBack (h : Held capacity used holders slot stage) (hi : (stage i).admitted = true)
    (hback : (slot i).gaveBack = 0) (hnew : (slot' i).gaveBack ≠ 0)
    (hothers : ∀ j, j ≠ i → stage' j = stage j ∧ slot' j = slot j) :
    Held capacity (used - 1) (holders.erase i) slot' stage' := by
  have hmem : i ∈ holders := (h.holder i).mpr ⟨hi, hback⟩
  have hbound := h.bound
  refine ⟨?_, by omega, h.nodup.erase i, ?_⟩
  · rw [length_erase_of_mem hmem, h.semaphore]
  · intro j
    rw [h.nodup.mem_erase_iff]
    by_cases hj : j = i
    · subst hj
      simp [hnew]
    · obtain ⟨hstage, hslot⟩ := hothers j hj
      rw [hstage, hslot, h.holder]
      simp [hj]

end Held

/-- Only host calls of request `i` have changed. -/
structure Change (i : Nat) (calls calls' : List HostCall) : Prop where
  others : ∀ j, j ≠ i → pendingOf calls' j = pendingOf calls j ∧ endingOf calls' j = endingOf calls j
  owners : ∀ c ∈ calls', c.owner = i ∨ c ∈ calls
  launched : ∀ c ∈ calls', c.stage = .launched → c.runner = none ∨ c ∈ calls

theorem Change.refl (i : Nat) (calls : List HostCall) : Change i calls calls :=
  ⟨fun _ _ => ⟨rfl, rfl⟩, fun _ hc => .inr hc, fun _ hc _ => .inr hc⟩

theorem Change.snoc (new : HostCall) (hrunner : new.runner = none) :
    Change new.owner calls (calls ++ [new]) := by
  refine ⟨?_, ?_, ?_⟩
  · intro j hj
    have hne : (new.owner == j) = false := beq_eq_false_iff_ne.mpr (Ne.symm hj)
    constructor
    · simp [pendingOf, countP_append, hne]
    · simp [endingOf, countP_append, hne]
  · intro c hc
    rcases mem_append.mp hc with hc | hc
    · exact .inr hc
    · exact .inl (by rw [mem_singleton.mp hc])
  · intro c hc _
    rcases mem_append.mp hc with hc | hc
    · exact .inr hc
    · exact .inl (by rw [mem_singleton.mp hc, hrunner])

theorem Change.set (hold : calls[id]? = some old) (howner : new.owner = old.owner)
    (hstage : new.stage ≠ .launched) : Change old.owner calls (calls.set id new) := by
  refine ⟨?_, ?_, ?_⟩
  · intro j hj
    constructor
    · simpa [Ne.symm hj] using pendingOf_set hold howner j
    · simpa [Ne.symm hj] using endingOf_set hold howner j
  · intro c hc
    rcases mem_or_eq_of_mem_set hc with hc | rfl
    · exact .inr hc
    · exact .inl howner
  · intro c hc hlaunched
    rcases mem_or_eq_of_mem_set hc with hc | rfl
    · exact .inr hc
    · exact absurd hlaunched hstage

structure Kept (slot : Nat → Slot) (stage : Nat → Stage) (calls : List HostCall) : Prop where
  slots : ∀ i, SlotOk (slot i) (stage i) (pendingOf calls i) (endingOf calls i)
  owners : ∀ c ∈ calls, (stage c.owner).admitted = true
  launched : ∀ c ∈ calls, c.stage = .launched → c.runner = none

namespace Kept

variable {calls' : List HostCall}

theorem change (h : Kept slot stage calls) (hcalls : Change i calls calls')
    (hothers : ∀ j, j ≠ i → stage' j = stage j ∧ slot' j = slot j)
    (hadmitted : (∃ c ∈ calls', c.owner = i) → (stage' i).admitted = true)
    (hok : SlotOk (slot' i) (stage' i) (pendingOf calls' i) (endingOf calls' i)) :
    Kept slot' stage' calls' := by
  refine ⟨?_, ?_, ?_⟩
  · intro j
    by_cases hj : j = i
    · subst hj
      exact hok
    · obtain ⟨hstage, hslot⟩ := hothers j hj
      obtain ⟨hpending, hending⟩ := hcalls.others j hj
      rw [hstage, hslot, hpending, hending]
      exact h.slots j
  · intro c hc
    by_cases hj : c.owner = i
    · rw [hj]
      exact hadmitted ⟨c, hc, hj⟩
    · rw [(hothers _ hj).1]
      exact h.owners c ((hcalls.owners c hc).resolve_left hj)
  · intro c hc hlaunched
    rcases hcalls.launched c hc hlaunched with hnone | hc
    · exact hnone
    · exact h.launched c hc hlaunched

theorem none_of_not_admitted (h : Kept slot stage calls) (hi : (stage i).admitted = false) :
    (∀ c ∈ calls, c.owner ≠ i) ∧ pendingOf calls i = 0 ∧ endingOf calls i = 0 := by
  have hother : ∀ c ∈ calls, c.owner ≠ i := by
    rintro c hc rfl
    simp [h.owners c hc] at hi
  refine ⟨hother, ?_, ?_⟩
  · refine countP_eq_zero.mpr fun c hc => ?_
    simp [hother c hc]
  · refine countP_eq_zero.mpr fun c hc => ?_
    simp [hother c hc]

end Kept

/-! ## Requests inside -/

structure CountInv (count current : Nat) (closedZeros counted : List Nat) (stage : Nat → Stage)
    (done : Nat → Bool) : Prop where
  number : count = counted.length
  nodup : counted.Nodup
  inside : ∀ i, i ∈ counted ↔ (stage i).inside = true
  none : count = 0 ↔ current ∈ closedZeros
  below : ∀ channel ∈ closedZeros, channel ≤ current
  done : ∀ i, stage i = .left ∨ stage i = .refused → done i = true

theorem Stage.eq_left {stage : Stage} (hadmitted : stage.admitted = true)
    (hinside : stage.inside = false) : stage = .left := by
  cases stage with
  | left => rfl
  | fresh | counted | refused => cases hadmitted
  | holding | returning | returned => cases hinside

namespace CountInv

variable {count current : Nat} {closedZeros counted : List Nat} {done : Nat → Bool}

section

variable (h : CountInv count current closedZeros counted stage done)

include h

theorem restage {next : Stage} (hinside : next.inside = true ∧ (stage i).inside = true) :
    CountInv count current closedZeros counted (update stage i next) done := by
  obtain ⟨hnext, hi⟩ := hinside
  refine ⟨h.number, h.nodup, ?_, h.none, h.below, ?_⟩
  · intro j
    by_cases hj : j = i
    · subst hj
      rw [update_self, h.inside, hnext, hi]
    · rw [update_of_ne hj, h.inside]
  · intro j hgone
    by_cases hj : j = i
    · subst hj
      rw [update_self] at hgone
      rcases hgone with rfl | rfl <;> cases hnext
    · rw [update_of_ne hj] at hgone
      exact h.done j hgone

theorem enter (hi : (stage i).inside = false) :
    CountInv (count + 1) (if count = 0 then current + 1 else current) closedZeros (i :: counted)
      (update stage i .counted) done := by
  have hnot : i ∉ counted := by
    intro hmem
    simp [(h.inside i).mp hmem] at hi
  have hopen : (if count = 0 then current + 1 else current) ∉ closedZeros := by
    split
    · intro hmem
      have := h.below _ hmem
      omega
    · rename_i hsome
      exact fun hmem => hsome (h.none.mpr hmem)
  refine ⟨by simp [h.number], nodup_cons.mpr ⟨hnot, h.nodup⟩, ?_, ?_, ?_, ?_⟩
  · intro j
    by_cases hj : j = i
    · subst hj
      simp [Stage.inside]
    · rw [mem_cons, h.inside]
      simp [hj]
  · constructor
    · intro hzero
      omega
    · exact fun hmem => absurd hmem hopen
  · intro channel hchannel
    have := h.below channel hchannel
    split <;> omega
  · intro j hgone
    by_cases hj : j = i
    · subst hj
      rw [update_self] at hgone
      rcases hgone with hgone | hgone <;> cases hgone
    · rw [update_of_ne hj] at hgone
      exact h.done j hgone

theorem leave (hi : (stage i).inside = true) {next : Stage} (hnext : next.inside = false) :
    CountInv (count - 1) current
      (if count - 1 = 0 then current :: closedZeros else closedZeros) (counted.erase i)
      (update stage i next) (update done i true) := by
  have hmem : i ∈ counted := (h.inside i).mpr hi
  have hnumber := h.number
  have hpos : 0 < counted.length := length_pos_of_mem hmem
  have hopen : current ∉ closedZeros := fun hclosed => by
    have := h.none.mpr hclosed
    omega
  refine ⟨?_, h.nodup.erase i, ?_, ?_, ?_, ?_⟩
  · rw [length_erase_of_mem hmem, h.number]
  · intro j
    rw [h.nodup.mem_erase_iff]
    by_cases hj : j = i
    · subst hj
      simp [hnext]
    · rw [h.inside]
      simp [hj]
  · split
    · rename_i hzero
      simp [hzero]
    · rename_i hsome
      exact ⟨fun hzero => absurd hzero hsome, fun hclosed => absurd hclosed hopen⟩
  · intro channel hchannel
    split at hchannel
    · rcases mem_cons.mp hchannel with rfl | hchannel
      · exact Nat.le_refl _
      · exact h.below channel hchannel
    · exact h.below channel hchannel
  · intro j hgone
    by_cases hj : j = i
    · rw [hj, update_self]
    · rw [update_of_ne hj] at hgone ⊢
      exact h.done j hgone

theorem setDone (i : Nat) :
    CountInv count current closedZeros counted stage (update done i true) := by
  refine ⟨h.number, h.nodup, h.inside, h.none, h.below, ?_⟩
  intro j hgone
  by_cases hj : j = i
  · rw [hj, update_self]
  · rw [update_of_ne hj]
    exact h.done j hgone

end

end CountInv

end NrePlugins.Doh.Slots
