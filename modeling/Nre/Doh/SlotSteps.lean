import Nre.Doh.Slots

/-!
# What every step keeps

The invariant is made of the accounts of slots and requests, and of `CloseInv`: from the point
where the goroutine of `Close` goes on, nobody is inside; from the reset on the cache is empty,
provided that no `Put` was about to insert.
-/

namespace NrePlugins.Doh.Slots

open List
open Function

/-! ## Shutdown -/

def Closer.isDrained : Closer → Bool
  | .drained _ | .reset _ _ | .recorded _ _ | .finished _ => true
  | _ => false

/-- The cache has been reset. -/
def Closer.isEmptied : Closer → Bool
  | .reset _ (.ok _) | .recorded _ (.ok _) | .finished (.ok _) => true
  | _ => false

theorem Closer.isDrained_of_isEmptied {c : Closer} (h : c.isEmptied = true) :
    c.isDrained = true := by
  cases c with
  | reset | recorded | finished => rfl
  | _ => cases h

/-- What holds at each stage of `Close`. -/
structure CloseInv (live : Bool) (count current : Nat) (cache : MemoryCache)
    (calls : List HostCall) (once : Once) (closer : Closer) (err : Except Err Unit)
    (closeDone : Bool) : Prop where
  idle : once ≠ .complete → closer = .idle
  revoked : closer ≠ .idle → live = false
  waiting : ∀ k channel, closer = .waiting k channel → channel = current
  drained : closer.isDrained = true → count = 0
  emptied : closer.isEmptied = true → cache.entries = [] ∧ ∀ c ∈ calls, c.inserting = false
  recorded : ∀ k r, closer = .recorded k r → err = r
  finished : closeDone = true ↔ ∃ r, closer = .finished r
  result : ∀ r, closer = .finished r → err = r

section Closing

variable {live : Bool} {count current : Nat} {cache : MemoryCache} {calls : List HostCall}
  {once : Once} {closer : Closer} {err : Except Err Unit} {closeDone : Bool}

/-- The host calls change, and none of them is about to insert once the cache is empty. -/
theorem CloseInv.setCalls (h : CloseInv live count current cache calls once closer err closeDone)
    {calls' : List HostCall}
    (hcalls : ∀ c ∈ calls', c ∈ calls ∨ (closer.isEmptied = true → c.inserting = false)) :
    CloseInv live count current cache calls' once closer err closeDone := by
  refine { h with emptied := fun hemptied => ⟨(h.emptied hemptied).1, ?_⟩ }
  intro c hc
  rcases hcalls c hc with hc | hnot
  · exact (h.emptied hemptied).2 c hc
  · exact hnot hemptied

theorem CloseInv.not_done (h : CloseInv live count current cache calls once closer err closeDone)
    (hnot : ∀ r, closer ≠ .finished r) : closeDone = false := by
  cases closeDone with
  | false => rfl
  | true =>
    obtain ⟨r, hr⟩ := h.finished.mp rfl
    exact absurd hr (hnot r)

end Closing

/-- The accounts are right, and `Close` is in order. -/
structure Inv (cfg : Configuration) (s : State) : Prop where
  held : Held cfg.maxConcurrency s.semaphore s.holders s.slot s.stage
  kept : Kept s.slot s.stage s.calls
  counts : CountInv s.requestCount s.requestZero s.closedZeros s.counted s.stage s.done
  closing : CloseInv s.live s.requestCount s.requestZero s.cache s.calls s.once s.closer
    s.closeErr s.closeDone

/-- What thread `i` relies on. -/
structure Rely (i : Nat) (s s' : State) : Prop where
  stage : s'.stage i = s.stage i
  calls : ∀ (id : Nat) (c : HostCall), s.calls[id]? = some c → c.runner = some i →
    s'.calls[id]? = some c
  live : s.live = false → s'.live = false
  once : s.once = .inside i → s'.once = .inside i
  closer : s.closer.runner = some i → s'.closer = s.closer
  closed : s.closeDone = true → s'.closeDone = true ∧ s'.closeErr = s.closeErr

theorem Rely.refl (i : Nat) (s : State) : Rely i s s :=
  ⟨rfl, fun _ _ h _ => h, id, id, fun _ => rfl, fun h => ⟨h, rfl⟩⟩

variable {i : Nat} {s s' : State}

theorem Rely.trans {s'' : State} (h : Rely i s s') (h' : Rely i s' s'') : Rely i s s'' := by
  refine ⟨h'.stage.trans h.stage, fun id c hc hrunner => h'.calls id c (h.calls id c hc hrunner)
    hrunner, fun hlive => h'.live (h.live hlive), fun honce => h'.once (h.once honce), ?_, ?_⟩
  · intro hrunner
    have hsame := h.closer hrunner
    exact (h'.closer (hsame ▸ hrunner)).trans hsame
  · intro hdone
    obtain ⟨hdone', herr⟩ := h.closed hdone
    obtain ⟨hdone'', herr'⟩ := h'.closed hdone'
    exact ⟨hdone'', herr'.trans herr⟩

/-- A step of thread `i` keeps the invariant, and what the others rely on. -/
def Keeps (cfg : Configuration) (i : Nat) (s s' : State) : Prop :=
  Inv cfg s' ∧ ∀ j, j ≠ i → Rely j s s'

section Steps

variable {cfg : Configuration}

/-- A step that leaves shutdown alone. -/
theorem rely_of (hstage : ∀ j, j ≠ i → s'.stage j = s.stage j)
    (hcalls : ∀ j, j ≠ i → ∀ (id : Nat) (c : HostCall), s.calls[id]? = some c →
      c.runner = some j → s'.calls[id]? = some c)
    (hsame : (s'.live, s'.once, s'.closer, s'.closeDone, s'.closeErr) =
      (s.live, s.once, s.closer, s.closeDone, s.closeErr)) : ∀ j, j ≠ i → Rely j s s' := by
  simp only [Prod.mk.injEq] at hsame
  obtain ⟨hlive, honce, hcloser, hdone, herr⟩ := hsame
  intro j hj
  refine ⟨hstage j hj, hcalls j hj, ?_, ?_, fun _ => hcloser, ?_⟩
  · rw [hlive]
    exact id
  · rw [honce]
    exact id
  · rw [hdone, herr]
    exact fun h => ⟨h, rfl⟩

theorem update_others {α : Type} {f : Nat → α} {a : α} : ∀ j, j ≠ i → update f i a j = f j :=
  fun _ hj => update_of_ne hj a f

variable {calls : List HostCall} {id : Nat} {old : HostCall} {stage : Nat → Stage}
  {slot : Nat → Slot} {next : Slot}

/-- A host call that nobody else runs may change. -/
theorem calls_set (new : HostCall) (hold : calls[id]? = some old)
    (hrunner : old.runner = some i ∨ old.runner = none) :
    ∀ j, j ≠ i → ∀ (id' : Nat) (c : HostCall), calls[id']? = some c → c.runner = some j →
      (calls.set id new)[id']? = some c := by
  intro j hj id' c hc hcj
  by_cases hid : id = id'
  · subst hid
    cases hold.symm.trans hc
    rw [hcj] at hrunner
    rcases hrunner with hrunner | hrunner
    · exact absurd (Option.some.inj hrunner) hj
    · cases hrunner
  · rw [getElem?_set_ne hid]
    exact hc

theorem Keeps.trans {s'' : State} (h : Keeps cfg i s s') (h' : Inv cfg s' → Keeps cfg i s' s'') :
    Keeps cfg i s s'' :=
  ⟨(h' h.1).1, fun j hj => (h.2 j hj).trans ((h' h.1).2 j hj)⟩

theorem keeps_same (hinv : Inv cfg s) : Keeps cfg i s s := ⟨hinv, fun j _ => .refl j s⟩

theorem keeps_setDone (hinv : Inv cfg s) (k : Nat) : Keeps cfg i s (s.setDone k) :=
  ⟨⟨hinv.held, hinv.kept, hinv.counts.setDone k, hinv.closing⟩,
    rely_of (fun _ _ => rfl) (fun _ _ _ _ h _ => h) rfl⟩

/-! ### Requests -/

/-- An update that leaves a part of the value. -/
theorem part_update {α β : Type} {f : Nat → α} {a : α} {part : α → β} (h : part a = part (f i))
    (j : Nat) : part (update f i a j) = part (f j) := by
  by_cases hj : j = i
  · rw [hj, update_self, h]
  · rw [update_of_ne hj]

/-- Request `i` goes on with its slot, or without. -/
theorem Kept.update {calls' : List HostCall} (h : Kept slot stage calls)
    (hcalls : Change i calls calls') {nextStage : Stage}
    (hadmitted : nextStage.admitted = false → (stage i).admitted = false ∧ calls' = calls)
    (hok : SlotOk next nextStage (pendingOf calls' i) (endingOf calls' i)) :
    Kept (update slot i next) (update stage i nextStage) calls' := by
  refine h.change hcalls (fun j hj => ⟨update_others j hj, update_others j hj⟩) ?_ ?_
  · rintro ⟨c, hc, rfl⟩
    by_contra hnot
    obtain ⟨hnone, rfl⟩ := hadmitted (by simpa using hnot)
    simp [h.owners c hc] at hnone
  · rw [update_self, update_self]
    exact hok

/-- A request goes on without touching its slot. -/
theorem Kept.restage (h : Kept slot stage calls) {next : Stage}
    (hadmitted : next.admitted = (stage i).admitted)
    (hreturned : next.hasReturned = (stage i).hasReturned)
    (hreturning : next = .returning ↔ stage i = .returning) :
    Kept slot (Function.update stage i next) calls := by
  have hnext := h.update (.refl i calls) (fun hfalse => ⟨hadmitted ▸ hfalse, rfl⟩)
    ((h.slots i).restage hreturned hreturning)
  rwa [Function.update_eq_self] at hnext

section

variable (hinv : Inv cfg s)

include hinv

theorem keeps_countRequest (hstage : s.stage i = .fresh) (hlive : s.live = true) :
    Keeps cfg i s (s.countRequest i) := by
  have hidle : s.closer = .idle := by
    by_contra hnot
    have := hinv.closing.revoked hnot
    simp [hlive] at this
  have hclosing := hinv.closing
  rw [hidle] at hclosing
  refine ⟨⟨?_, ?_, ?_, ?_⟩, ?_⟩
  · exact hinv.held.keep (part_update (by rw [hstage]; rfl)) fun _ => rfl
  · exact hinv.kept.restage (by rw [hstage]; rfl) (by rw [hstage]; rfl) (by simp [hstage])
  · exact hinv.counts.enter (by rw [hstage]; rfl)
  · show CloseInv _ _ _ _ _ _ s.closer _ _
    rw [hidle]
    exact { hclosing with waiting := nofun, drained := nofun }
  · exact rely_of update_others (fun _ _ _ _ h _ => h) rfl

theorem keeps_uncount (hstage : s.stage i = .counted ∨ s.stage i = .returned) :
    Keeps cfg i s (s.uncount i) := by
  refine ⟨⟨?_, ?_, ?_, ?_⟩, ?_⟩
  · refine hinv.held.keep (part_update ?_) fun _ => rfl
    rcases hstage with hstage | hstage <;> rw [hstage] <;> rfl
  · refine hinv.kept.restage ?_ ?_ ?_ <;> rcases hstage with hstage | hstage <;> rw [hstage] <;>
      simp [Stage.admitted, Stage.hasReturned]
  · refine hinv.counts.leave ?_ ?_
    · rcases hstage with hstage | hstage <;> rw [hstage] <;> rfl
    · rcases hstage with hstage | hstage <;> rw [hstage] <;> rfl
  · refine { hinv.closing with drained := fun hdrained => ?_ }
    show s.requestCount - 1 = 0
    rw [hinv.closing.drained hdrained]
  · exact rely_of update_others (fun _ _ _ _ h _ => h) rfl

theorem keeps_acquireSlot (hstage : s.stage i = .counted)
    (hroom : (s.semaphore : Int) < cfg.maxConcurrency) : Keeps cfg i s (s.acquireSlot i) := by
  have hnone : (s.stage i).admitted = false := by
    rw [hstage]
    rfl
  refine ⟨⟨?_, ?_, ?_, hinv.closing⟩, ?_⟩
  · refine hinv.held.acquire hnone hroom ?_ ?_
    · simp [State.acquireSlot, Stage.admitted]
    · exact fun j hj => ⟨update_others j hj, update_others j hj⟩
  · obtain ⟨-, hpending, hending⟩ := hinv.kept.none_of_not_admitted hnone
    refine hinv.kept.update (.refl i _) nofun ?_
    rw [hpending, hending]
    exact ⟨rfl, rfl, rfl, rfl⟩
  · exact hinv.counts.restage ⟨rfl, by rw [hstage]; rfl⟩
  · exact rely_of update_others (fun _ _ _ _ h _ => h) rfl

theorem keeps_returned (hstage : s.stage i = .holding) : Keeps cfg i s (s.returned i).2 := by
  have hslot := hinv.kept.slots i
  rw [hstage] at hslot
  have hnext : ∀ b : Bool, (if b then Stage.returning else .returned).admitted = true ∧
      (if b then Stage.returning else .returned).inside = true := by decide
  refine ⟨⟨?_, ?_, ?_, hinv.closing⟩, ?_⟩
  · refine hinv.held.keep (part_update ?_) (part_update rfl)
    refine (hnext _).1.trans ?_
    show true = (s.stage i).admitted
    rw [hstage]
    rfl
  · refine hinv.kept.update (.refl i _) ?_ hslot.settle_returned
    intro hfalse
    simp [(hnext _).1] at hfalse
  · exact hinv.counts.restage ⟨(hnext _).2, by rw [hstage]; rfl⟩
  · exact rely_of update_others (fun _ _ _ _ h _ => h) rfl

theorem keeps_giveBack (hstage : s.stage i = .returning) :
    Keeps cfg i s ((s.giveBack i).setStage i .returned) := by
  have hslot := hinv.kept.slots i
  rw [hstage] at hslot
  obtain ⟨hback, hok⟩ := hslot.giveBack
  refine ⟨⟨?_, ?_, ?_, hinv.closing⟩, ?_⟩
  · refine hinv.held.giveBack (by rw [hstage]; rfl) hback ?_ ?_
    · simp [State.giveBack, State.setStage]
    · exact fun j hj => ⟨update_others j hj, update_others j hj⟩
  · exact hinv.kept.update (.refl i _) nofun hok
  · exact hinv.counts.restage ⟨rfl, by rw [hstage]; rfl⟩
  · exact rely_of update_others (fun _ _ _ _ h _ => h) rfl

theorem keeps_spawn (hstage : s.stage i = .holding) (h : Host) : Keeps cfg i s (s.spawn i h) := by
  have hslot := hinv.kept.slots i
  rw [hstage] at hslot
  have hpending : pendingOf (s.spawn i h).calls i = pendingOf s.calls i + 1 := by
    simp [State.spawn, pendingOf, countP_append, CallStage.pending]
  have hending : endingOf (s.spawn i h).calls i = endingOf s.calls i := by
    simp [State.spawn, endingOf, countP_append]
  refine ⟨⟨?_, ?_, hinv.counts, ?_⟩, ?_⟩
  · exact hinv.held.keep (fun _ => rfl) (part_update rfl)
  · have hok := hslot.spawn
    rw [← hpending, ← hending] at hok
    have hkept := hinv.kept.update (Change.snoc ⟨i, h, .launched, none, none⟩ rfl)
      (fun h => by cases h) hok
    rwa [← hstage, update_eq_self] at hkept
  · refine hinv.closing.setCalls fun c hc => (mem_append.mp hc).imp_right fun hc _ => ?_
    rw [mem_singleton.mp hc]
    simp [HostCall.inserting]
  · refine rely_of (fun _ _ => rfl) ?_ rfl
    intro j _ id c hc _
    rw [show (s.spawn i h).calls = s.calls ++ [⟨i, h, .launched, none, none⟩] from rfl,
      getElem?_append_left (List.getElem?_eq_some_iff.mp hc).1]
    exact hc

/-! ### Host calls -/

/-- A host call goes on, and the slot of its request changes with it. -/
theorem keeps_setCallSlot (new : HostCall) (hold : s.calls[id]? = some old)
    (hrunner : old.runner = some i ∨ old.runner = none) (howner : new.owner = old.owner)
    (hlaunched : new.stage ≠ .launched)
    (hinserting : s.closer.isEmptied = true → new.inserting = false) {used : Nat}
    {holders : List Nat}
    (hheld : Held cfg.maxConcurrency used holders (update s.slot old.owner next) s.stage)
    (hok : SlotOk next (s.stage old.owner) (pendingOf (s.calls.set id new) old.owner)
      (endingOf (s.calls.set id new) old.owner)) :
    Keeps cfg i s { s with
      semaphore := used
      holders := holders
      slot := update s.slot old.owner next
      calls := s.calls.set id new } := by
  refine ⟨⟨hheld, ?_, hinv.counts, ?_⟩, ?_⟩
  · refine hinv.kept.change (.set hold howner hlaunched)
      (fun j hj => ⟨rfl, update_of_ne hj _ _⟩) ?_ ?_
    · exact fun _ => hinv.kept.owners old (mem_of_getElem? hold)
    · show SlotOk (update s.slot old.owner next old.owner) _ _ _
      rw [update_self]
      exact hok
  · refine hinv.closing.setCalls fun c hc => (mem_or_eq_of_mem_set hc).imp_right ?_
    rintro rfl
    exact hinserting
  · exact rely_of (fun _ _ => rfl) (calls_set new hold hrunner) rfl

/-- A host call goes on, and its request does not notice. -/
theorem keeps_setCall {new : HostCall} (hold : s.calls[id]? = some old)
    (hrunner : old.runner = some i ∨ old.runner = none) (howner : new.owner = old.owner)
    (hpending : new.stage.pending = old.stage.pending)
    (hending : new.stage = .ending ↔ old.stage = .ending) (hlaunched : new.stage ≠ .launched)
    (hinserting : s.closer.isEmptied = true → new.inserting = false) :
    Keeps cfg i s (s.setCall id new) := by
  have hsame : pendingOf (s.calls.set id new) old.owner = pendingOf s.calls old.owner ∧
      endingOf (s.calls.set id new) old.owner = endingOf s.calls old.owner := by
    constructor
    · simpa [hpending] using pendingOf_set hold howner old.owner
    · simpa [hending] using endingOf_set hold howner old.owner
  have hslot : update s.slot old.owner (s.slot old.owner) = s.slot :=
    update_eq_self _ _
  have hkeeps := keeps_setCallSlot hinv new hold hrunner howner hlaunched hinserting
    (hslot.symm ▸ hinv.held) (by rw [hsame.1, hsame.2]; exact hinv.kept.slots old.owner)
  rwa [hslot] at hkeeps

/-- Once nobody is inside, the contexts of all host calls are done. -/
theorem done_of_emptied (hemptied : s.closer.isEmptied = true) {c : HostCall} (hc : c ∈ s.calls) :
    s.done c.owner = true := by
  have hcounted : s.counted = [] := by
    rw [← length_eq_zero_iff, ← hinv.counts.number]
    exact hinv.closing.drained (Closer.isDrained_of_isEmptied hemptied)
  have hinside : (s.stage c.owner).inside = false := by
    by_contra hnot
    have hmem := (hinv.counts.inside c.owner).mpr (by simpa using hnot)
    simp [hcounted] at hmem
  exact hinv.counts.done c.owner (.inl (Stage.eq_left (hinv.kept.owners c hc) hinside))

theorem keeps_endCall {call : HostCall} (hcall : s.calls[id]? = some call)
    (hrunner : call.runner = some i) (hpending : call.stage.pending = true) :
    Keeps cfg i s (s.endCall id call).2 := by
  have hnot : call.stage ≠ .ending := by
    intro hstage
    rw [hstage] at hpending
    cases hpending
  have hslot := hinv.kept.slots call.owner
  unfold State.endCall
  simp only
  generalize hsettled : { s.slot call.owner with
    pending := (s.slot call.owner).pending - 1 }.settle = settled
  have hback : settled.2.gaveBack = (s.slot call.owner).gaveBack := hsettled ▸ rfl
  -- the stage of the call says whether it has to give the slot back
  obtain ⟨stage, hstage⟩ : ∃ stage, stage = if settled.1 then CallStage.ending else .ended := ⟨_, rfl⟩
  rw [← hstage]
  have hover : stage.pending = false ∧ (stage = .ending ↔ settled.1 = true) ∧
      stage ≠ .launched ∧ stage ≠ .checked := by
    rw [hstage]
    cases settled.1 <;> decide
  obtain ⟨hover, hiff, hlaunched, hchecked⟩ := hover
  have hrunning : pendingOf (s.calls.set id { call with stage }) call.owner + 1 =
      pendingOf s.calls call.owner := by
    have hset := pendingOf_set hcall (show { call with stage }.owner = _ from rfl) call.owner
    simpa [hpending, hover] using hset
  have hending : endingOf (s.calls.set id { call with stage }) call.owner =
      endingOf s.calls call.owner + if settled.1 then 1 else 0 := by
    have hset := endingOf_set hcall (show { call with stage }.owner = _ from rfl) call.owner
    simpa [hnot, hiff] using hset
  rw [← hrunning] at hslot
  have hok := hslot.settle_ended
  rw [hsettled, ← hending] at hok
  refine keeps_setCallSlot hinv { call with stage } hcall (.inl hrunner) rfl hlaunched ?_ ?_ hok
  · simp [HostCall.inserting, hchecked]
  · exact hinv.held.keep (fun _ => rfl) (part_update hback)

theorem keeps_giveBackFor {call : HostCall} (hcall : s.calls[id]? = some call)
    (hrunner : call.runner = some i) (hending : call.stage = .ending) :
    Keeps cfg i s ((s.giveBack call.owner).setCall id { call with stage := .ended }) := by
  have hslot := hinv.kept.slots call.owner
  have hsame : pendingOf (s.calls.set id { call with stage := .ended }) call.owner =
      pendingOf s.calls call.owner := by
    have hset := pendingOf_set hcall (show { call with stage := .ended }.owner = _ from rfl)
      call.owner
    simpa [hending, CallStage.pending] using hset
  have hless : endingOf (s.calls.set id { call with stage := .ended }) call.owner + 1 =
      endingOf s.calls call.owner := by
    have hset := endingOf_set hcall (show { call with stage := .ended }.owner = _ from rfl)
      call.owner
    simpa [hending] using hset
  rw [← hsame, ← hless] at hslot
  obtain ⟨hback, hok⟩ := hslot.giveBackFor
  refine keeps_setCallSlot hinv { call with stage := .ended } hcall (.inl hrunner) rfl (by simp)
    ?_ ?_ hok
  · simp [HostCall.inserting]
  · refine hinv.held.giveBack (hinv.kept.owners call (mem_of_getElem? hcall)) hback ?_ ?_
    · rw [update_self]
      exact Nat.succ_ne_zero _
    · exact fun j hj => ⟨rfl, update_of_ne hj _ _⟩

/-- The cache changes, and gets no new entries once it has been reset. -/
theorem keeps_setCache {cache : MemoryCache}
    (hempty : s.closer.isEmptied = true → cache.entries = []) :
    Keeps cfg i s { s with cache } := by
  refine ⟨{ hinv with closing := { hinv.closing with emptied := fun hemptied => ?_ } },
    rely_of (fun _ _ => rfl) (fun _ _ _ _ h _ => h) rfl⟩
  exact ⟨hempty hemptied, (hinv.closing.emptied hemptied).2⟩

/-! ### Shutdown -/

theorem keeps_enterOnce (honce : s.once = .idle) : Keeps cfg i s { s with once := .inside i } := by
  have hidle : s.closer = .idle := hinv.closing.idle (by rw [honce]; simp)
  refine ⟨{ hinv with closing := { hinv.closing with idle := fun _ => hidle } }, ?_⟩
  intro j _
  refine ⟨rfl, fun _ _ h _ => h, id, ?_, fun _ => rfl, fun h => ⟨h, rfl⟩⟩
  intro hinside
  simp [honce] at hinside

theorem keeps_storeLive : Keeps cfg i s { s with live := false } := by
  refine ⟨{ hinv with closing := { hinv.closing with revoked := fun _ => rfl } }, ?_⟩
  exact fun j _ => ⟨rfl, fun _ _ h _ => h, fun _ => rfl, id, fun _ => rfl, fun h => ⟨h, rfl⟩⟩

theorem keeps_launchCloser (honce : s.once = .inside i) (hlive : s.live = false) :
    Keeps cfg i s { s with once := .complete, closer := .launched } := by
  have hidle : s.closer = .idle := hinv.closing.idle (by rw [honce]; simp)
  have hnotDone : s.closeDone = false := hinv.closing.not_done (by simp [hidle])
  refine ⟨⟨hinv.held, hinv.kept, hinv.counts, ⟨fun h => absurd rfl h, fun _ => hlive, nofun, nofun,
    nofun, nofun, ?_, nofun⟩⟩, ?_⟩
  · show s.closeDone = true ↔ _
    rw [hnotDone]
    simp
  · intro j hj
    refine ⟨rfl, fun _ _ h _ => h, id, ?_, ?_, fun h => ⟨h, rfl⟩⟩
    · intro hinside
      rw [honce] at hinside
      exact absurd (Once.inside.inj hinside).symm hj
    · intro hrunner
      rw [hidle] at hrunner
      cases hrunner

/-- The goroutine of `Close` goes on, before it is finished. -/
theorem keeps_closer {cache : MemoryCache} {err : Except Err Unit} {next : Closer}
    (hbefore : s.closer = .launched ∨ s.closer.runner = some i) (hnext : next.runner = some i)
    (hwaiting : ∀ k channel, next = .waiting k channel → channel = s.requestZero)
    (hdrained : next.isDrained = true → s.requestCount = 0)
    (hemptied : next.isEmptied = true → cache.entries = [] ∧ ∀ c ∈ s.calls, c.inserting = false)
    (hrecorded : ∀ k r, next = .recorded k r → err = r) :
    Keeps cfg i s { s with cache := cache, closeErr := err, closer := next } := by
  have hclosing := hinv.closing
  have hnotIdle : s.closer ≠ .idle := by
    intro hidle
    rw [hidle] at hbefore
    rcases hbefore with hbefore | hbefore <;> cases hbefore
  have hnotFinished : ∀ r, s.closer ≠ .finished r := by
    intro r hfinished
    rw [hfinished] at hbefore
    rcases hbefore with hbefore | hbefore <;> cases hbefore
  have hnotDone : s.closeDone = false := hclosing.not_done hnotFinished
  have hnext' : ∀ r, next ≠ .finished r := by
    rintro r rfl
    cases hnext
  refine ⟨⟨hinv.held, hinv.kept, hinv.counts, ⟨?_, fun _ => hclosing.revoked hnotIdle, hwaiting,
    hdrained, hemptied, hrecorded, ?_, fun r h => absurd h (hnext' r)⟩⟩, ?_⟩
  · intro honce
    exact absurd (hclosing.idle honce) hnotIdle
  · show s.closeDone = true ↔ _
    rw [hnotDone]
    simp [hnext']
  · intro j hj
    refine ⟨rfl, fun _ _ h _ => h, id, id, ?_, ?_⟩
    · intro hrunner
      rcases hbefore with hbefore | hbefore
      · rw [hbefore] at hrunner
        cases hrunner
      · rw [hbefore] at hrunner
        exact absurd (Option.some.inj hrunner).symm hj
    · intro hdone
      simp [hnotDone] at hdone

theorem keeps_closeDone {r : Except Err Unit} (hcloser : s.closer = .recorded i r) :
    Keeps cfg i s { s with closeDone := true, closer := .finished s.closeErr } := by
  have hclosing := hinv.closing
  have herr := hclosing.recorded i r hcloser
  refine ⟨⟨hinv.held, hinv.kept, hinv.counts, ⟨?_, ?_, nofun, ?_, ?_, nofun, ?_,
    fun r h => Closer.finished.inj h⟩⟩, ?_⟩
  · intro honce
    have hidle := hclosing.idle honce
    simp [hcloser] at hidle
  · intro _
    exact hclosing.revoked (by rw [hcloser]; simp)
  · intro _
    exact hclosing.drained (by rw [hcloser]; rfl)
  · intro hemptied
    refine hclosing.emptied ?_
    rw [hcloser]
    rw [herr] at hemptied
    cases r with
    | ok _ => rfl
    | error e => cases hemptied
  · exact ⟨fun _ => ⟨_, rfl⟩, fun _ => rfl⟩
  · intro j hj
    refine ⟨rfl, fun _ _ h _ => h, id, id, ?_, fun _ => ⟨rfl, rfl⟩⟩
    intro hrunner
    rw [hcloser] at hrunner
    exact absurd (Option.some.inj hrunner).symm hj

end

end Steps

/-! ## All operations -/

/-- Thread `i` runs host call `id`. -/
def RunsCall (i : Nat) (s : State) (id : Nat) (h : Host) (stage : CallStage → Prop) : Prop :=
  ∃ call, s.calls[id]? = some call ∧ call.runner = some i ∧ call.host = h ∧ stage call.stage

/-- When thread `i` may make an operation. -/
def Pre (i : Nat) (s : State) : Op → Prop
  | .countRequest => s.stage i = .fresh
  | .uncount => s.stage i = .counted ∨ s.stage i = .returned
  | .acquireSlot => s.stage i = .counted
  | .returned => s.stage i = .holding
  | .giveBack => s.stage i = .returning
  | .spawn _ => s.stage i = .holding
  | .look id => ∃ h, RunsCall i s id h (· = .running)
  | .insert id key entry => RunsCall i s id (.cachePut key entry) (· = .checked)
  | .endCall id => ∃ h, RunsCall i s id h (·.pending = true)
  | .giveBackFor id => ∃ h, RunsCall i s id h (· = .ending)
  | .deliver id h _ => RunsCall i s id h (· = .ended)
  | .launchCloser => s.once = .inside i ∧ s.live = false
  | .readZero => s.closer = .running i
  | .awaitZero channel => s.closer = .waiting i channel
  | .resetCache => s.closer = .drained i
  | .recordClose result => s.closer = .reset i result
  | .closeDone => ∃ r, s.closer = .recorded i r
  | _ => True

/-- The condition: when the cache is reset, no `Put` is between its look at the context and the
insertion. -/
def Settled (s : State) : Op → Prop
  | .resetCache => ∀ c ∈ s.calls, c.inserting = false
  | _ => True

theorem keeps_callDone {cfg : Configuration} (hinv : Inv cfg s) {h : Host}
    (hdone : callDone i s s' h) : Keeps cfg i s s' := by
  cases h with
  | resolve endpoint message =>
    rcases hdone with rfl | rfl
    · exact keeps_same hinv
    · exact keeps_setDone hinv i
  | _ =>
    obtain rfl := hdone
    exact keeps_setDone hinv i

theorem op_keeps {cfg : Configuration} {op : Op} {answer : Reply op} (hinv : Inv cfg s)
    (hpre : Pre i s op) (hresp : respond cfg i s op answer s') (hgood : Settled s op) :
    Keeps cfg i s s' := by
  cases op with
  | countRequest =>
    obtain ⟨-, rfl⟩ := hresp
    split
    · exact keeps_countRequest hinv hpre ‹_›
    · exact keeps_same hinv
  | uncount =>
    obtain rfl := hresp
    exact keeps_uncount hinv hpre
  | acquireSlot =>
    simp only [respond] at hresp
    split at hresp
    · obtain ⟨-, rfl⟩ := hresp
      exact keeps_acquireSlot hinv hpre ‹_›
    · obtain ⟨-, rfl⟩ := hresp
      exact keeps_same hinv
  | cancel =>
    obtain rfl := hresp
    exact keeps_setDone hinv i
  | returned =>
    cases show (answer, s') = s.returned i from hresp
    exact keeps_returned hinv hpre
  | giveBack =>
    obtain rfl := hresp
    exact keeps_giveBack hinv hpre
  | ctxErr =>
    cases answer with
    | none =>
      obtain ⟨-, rfl⟩ := hresp
      exact keeps_same hinv
    | some err =>
      obtain rfl := hresp
      exact keeps_setDone hinv i
  | callErr h =>
    cases answer with
    | none =>
      obtain ⟨-, rfl⟩ := hresp
      exact keeps_same hinv
    | some err => exact keeps_callDone hinv hresp
  | spawn h =>
    obtain ⟨-, rfl⟩ := hresp
    exact keeps_spawn hinv hpre h
  | await id h =>
    obtain ⟨result, timedOut⟩ := answer
    cases timedOut with
    | false =>
      obtain ⟨_, _, _, -, rfl⟩ := hresp
      exact keeps_same hinv
    | true => exact keeps_callDone hinv hresp.2
  | begin id =>
    obtain ⟨call, hcall, hlaunched, -, rfl⟩ := hresp
    have hnone := hinv.kept.launched call (mem_of_getElem? hcall) hlaunched
    refine keeps_setCall hinv hcall (.inr hnone) rfl ?_ ?_ (by simp) ?_
    · rw [hlaunched]
      rfl
    · simp [hlaunched]
    · simp [HostCall.inserting]
  | look id =>
    obtain ⟨h, call, hcall, hrunner, -, hrunning⟩ := hpre
    cases answer with
    | none =>
      obtain ⟨call', hcall', hdone, rfl⟩ := hresp
      cases hcall.symm.trans hcall'
      refine keeps_setCall hinv hcall (.inl hrunner) rfl ?_ ?_ (by simp) ?_
      · rw [hrunning]
        rfl
      · simp [hrunning]
      · -- after the reset the contexts of all host calls are done
        intro hemptied
        simp [done_of_emptied hinv hemptied (mem_of_getElem? hcall)] at hdone
    | some err =>
      obtain ⟨call', -, rfl⟩ := hresp
      exact keeps_setDone hinv call'.owner
  | get id key now =>
    obtain ⟨-, rfl⟩ := hresp
    refine keeps_setCache hinv ?_
    intro hemptied
    have hempty := (hinv.closing.emptied hemptied).1
    refine eq_nil_iff_forall_not_mem.mpr fun x hx => ?_
    have := MemoryCache.mem_get hx
    simp [hempty] at this
  | insert id key entry =>
    obtain ⟨call, hcall, hrunner, hhost, hchecked⟩ := hpre
    obtain ⟨call', hcall', -, rfl⟩ := hresp
    cases hcall.symm.trans hcall'
    have hinserting : call.inserting = true := by
      simp [HostCall.inserting, hhost, hchecked, Host.isPut]
    have hnot : s.closer.isEmptied ≠ true := by
      intro hemptied
      simp [(hinv.closing.emptied hemptied).2 call (mem_of_getElem? hcall)] at hinserting
    have hput : Keeps cfg i s { s with cache := (s.cache.put key entry).2 } :=
      keeps_setCache hinv fun hemptied => absurd hemptied hnot
    refine hput.trans fun hinv' => ?_
    refine keeps_setCall hinv' hcall (.inl hrunner) rfl ?_ ?_ (by simp) ?_
    · rw [hchecked]
      rfl
    · simp [hchecked]
    · simp [HostCall.inserting]
  | endCall id =>
    obtain ⟨h, call, hcall, hrunner, -, hpending⟩ := hpre
    obtain ⟨call', hcall', hend⟩ := hresp
    cases hcall.symm.trans hcall'
    cases show (answer, s') = s.endCall id call from hend
    exact keeps_endCall hinv hcall hrunner hpending
  | giveBackFor id =>
    obtain ⟨h, call, hcall, hrunner, -, hending⟩ := hpre
    obtain ⟨call', hcall', rfl⟩ := hresp
    cases hcall.symm.trans hcall'
    exact keeps_giveBackFor hinv hcall hrunner hending
  | deliver id h result =>
    obtain ⟨call, hcall, hrunner, -, hended⟩ := hpre
    obtain ⟨owner, stage, runner, before, hcall', rfl⟩ := hresp
    cases hcall.symm.trans hcall'
    subst hended
    refine keeps_setCall hinv hcall (.inl hrunner) rfl rfl ?_ (by simp) ?_
    · simp
    · simp [HostCall.inserting]
  | enterOnce =>
    cases answer with
    | true =>
      obtain ⟨honce, rfl⟩ := hresp
      exact keeps_enterOnce hinv honce
    | false =>
      obtain ⟨-, rfl⟩ := hresp
      exact keeps_same hinv
  | storeLive =>
    obtain rfl := hresp
    exact keeps_storeLive hinv
  | launchCloser =>
    obtain rfl := hresp
    exact keeps_launchCloser hinv hpre.1 hpre.2
  | awaitClose =>
    obtain ⟨-, rfl⟩ := hresp
    exact keeps_same hinv
  | beginCloser =>
    obtain ⟨hlaunched, rfl⟩ := hresp
    exact keeps_closer hinv (.inl hlaunched) rfl nofun nofun nofun nofun
  | readZero =>
    obtain ⟨-, rfl⟩ := hresp
    refine keeps_closer hinv (.inr (by rw [hpre]; rfl)) rfl ?_ nofun nofun nofun
    intro k channel h
    exact (Closer.waiting.inj h).2.symm
  | awaitZero channel =>
    obtain ⟨hclosed, rfl⟩ := hresp
    refine keeps_closer hinv (.inr (by rw [hpre]; rfl)) rfl nofun ?_ nofun nofun
    intro _
    rw [hinv.closing.waiting i channel hpre] at hclosed
    exact hinv.counts.none.mpr hclosed
  | resetCache =>
    have hzero : s.requestCount = 0 := hinv.closing.drained (by rw [hpre]; rfl)
    cases answer with
    | ok _ =>
      obtain rfl := hresp
      exact keeps_closer hinv (.inr (by rw [hpre]; rfl)) rfl nofun (fun _ => hzero)
        (fun _ => ⟨rfl, hgood⟩) nofun
    | error err =>
      obtain rfl := hresp
      exact keeps_closer hinv (.inr (by rw [hpre]; rfl)) rfl nofun (fun _ => hzero) nofun nofun
  | recordClose result =>
    obtain rfl := hresp
    refine keeps_closer hinv (.inr (by rw [hpre]; rfl)) rfl nofun
      (fun _ => hinv.closing.drained (by rw [hpre]; rfl)) ?_ ?_
    · intro hemptied
      refine hinv.closing.emptied ?_
      rw [hpre]
      cases result with
      | ok _ => rfl
      | error e => cases hemptied
    · intro k r h
      exact (Closer.recorded.inj h).2
  | closeDone =>
    obtain ⟨r, hcloser⟩ := hpre
    obtain rfl := hresp
    exact keeps_closeDone hinv hcloser
  | parentErr | checkNow _ | updateStatus _ _ _ | external _ _ | cancelRoot | revokeStatuses =>
    obtain rfl := hresp
    exact keeps_same hinv
  | isLive =>
    obtain ⟨-, rfl⟩ := hresp
    exact keeps_same hinv

end NrePlugins.Doh.Slots
