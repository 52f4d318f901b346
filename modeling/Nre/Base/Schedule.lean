import Nre.Base.Interaction

/-!
# Runs by a schedule

Surroundings that answer by a function make a system executable: a schedule says whose
turn it is, and `System.runSchedule` computes the state after it. `reachable_runSchedule`
turns such a computation into a run of the system.
-/

namespace NrePlugins.System

variable {Call : Type} {Answer : Call → Type} {ε α ρ σ : Type}

section Execution

variable (behave : Nat → σ → (c : Call) → Answer c × σ)

/-- Thread `i` makes its next call, or returns. -/
def turn (s : System Answer ρ ε α σ) (i : Nat) : System Answer ρ ε α σ :=
  match s.threads[i]? with
  | none => s
  | some t =>
    match t.prog with
    | .call c next =>
      let answered := behave i s.shared c
      ⟨answered.2, s.threads.set i
        { t with prog := next answered.1, events := t.events ++ [⟨c, answered.1⟩] }⟩
    | .ret a =>
      if t.result.isNone then ⟨s.shared, s.threads.set i { t with result := some (.ok a) }⟩ else s
    | .fail e =>
      if t.result.isNone then ⟨s.shared, s.threads.set i { t with result := some (.error e) }⟩
      else s

def runSchedule (s : System Answer ρ ε α σ) (schedule : List Nat) : System Answer ρ ε α σ :=
  schedule.foldl (turn behave) s

/-- What thread `i` is about to do. -/
def label (s : System Answer ρ ε α σ) (i : Nat) : Option (Label Answer ρ) :=
  s.threads[i]?.map fun t =>
    match t.prog with
    | .call c _ => .act i ⟨c, (behave i s.shared c).1⟩
    | .ret _ | .fail _ => .ret i

/-- All steps of the schedule meet a condition. -/
def Meets (ok : System Answer ρ ε α σ → Label Answer ρ → Prop) :
    System Answer ρ ε α σ → List Nat → Prop
  | _, [] => True
  | s, i :: rest => (∀ l ∈ label behave s i, ok s l) ∧ Meets ok (turn behave s i) rest

instance instDecidableMeets (ok : System Answer ρ ε α σ → Label Answer ρ → Prop)
    [∀ s l, Decidable (ok s l)] :
    ∀ (s : System Answer ρ ε α σ) (schedule : List Nat), Decidable (Meets behave ok s schedule)
  | _, [] => .isTrue trivial
  | s, i :: rest =>
    have := instDecidableMeets ok (turn behave s i) rest
    inferInstanceAs (Decidable (_ ∧ _))

/-- The calls that are allowed, and all other steps. -/
def Allowed (allows : σ → Call → Prop) (s : System Answer ρ ε α σ) : Label Answer ρ → Prop
  | .act _ ⟨c, _⟩ => allows s.shared c
  | _ => True

instance (allows : σ → Call → Prop) [∀ s c, Decidable (allows s c)] (s : System Answer ρ ε α σ) :
    (l : Label Answer ρ) → Decidable (Allowed allows s l)
  | .act _ ⟨c, _⟩ => inferInstanceAs (Decidable (allows s.shared c))
  | .start _ | .ret _ => .isTrue trivial

/-- All calls of the schedule may be made. -/
abbrev MayRun (allows : σ → Call → Prop) : System Answer ρ ε α σ → List Nat → Prop :=
  Meets behave (Allowed allows)

end Execution

variable {program : ρ → Prog Answer ε α} {respond : Nat → σ → (c : Call) → Answer c → σ → Prop}
  {init : System Answer ρ ε α σ → Prop} {behave : Nat → σ → (c : Call) → Answer c × σ}
  {allows : σ → Call → Prop} {s : System Answer ρ ε α σ}

theorem reachable_turn {ok : System Answer ρ ε α σ → Label Answer ρ → Prop}
    (h : Reachable init (Guarded (Step program respond) ok) s) {i : Nat}
    (hresp : ∀ c, .act i ⟨c, (behave i s.shared c).1⟩ ∈ label behave s i →
      respond i s.shared c (behave i s.shared c).1 (behave i s.shared c).2)
    (hok : ∀ l ∈ label behave s i, ok s l) :
    Reachable init (Guarded (Step program respond) ok) (turn behave s i) := by
  unfold turn
  cases ht : s.threads[i]? with
  | none => exact h
  | some t =>
    simp only
    cases hp : t.prog with
    | call c next =>
      exact h.next ⟨.act ht hp (hresp c (by simp [label, ht, hp])), hok _ (by simp [label, ht, hp])⟩
    | ret a =>
      simp only
      split
      · rename_i hnone
        exact h.next ⟨Step.ret_eq program respond ht (show t.prog = .ofExcept (.ok a) from hp)
          (Option.isNone_iff_eq_none.mp hnone) (by rw [hp]), hok _ (by simp [label, ht, hp])⟩
      · exact h
    | fail e =>
      simp only
      split
      · rename_i hnone
        exact h.next ⟨Step.ret_eq program respond ht (show t.prog = .ofExcept (.error e) from hp)
          (Option.isNone_iff_eq_none.mp hnone) (by rw [hp]), hok _ (by simp [label, ht, hp])⟩
      · exact h

/-- What a schedule whose steps all may be made leads to is reached by steps that meet the
condition. -/
theorem reachable_meets {may ok : System Answer ρ ε α σ → Label Answer ρ → Prop}
    (hmay : ∀ s l, may s l → ok s l)
    (hbehave : ∀ s i c, may s (.act i ⟨c, (behave i s.shared c).1⟩) →
      respond i s.shared c (behave i s.shared c).1 (behave i s.shared c).2)
    (h : Reachable init (Guarded (Step program respond) ok) s) {schedule : List Nat}
    (hmeets : Meets behave may s schedule) :
    Reachable init (Guarded (Step program respond) ok) (runSchedule behave s schedule) := by
  induction schedule generalizing s with
  | nil => exact h
  | cons i rest ih =>
    exact ih (reachable_turn h (fun c hc => hbehave s i c (hmeets.1 _ hc))
      fun l hl => hmay s l (hmeets.1 l hl)) hmeets.2

/-- What a schedule leads to is reached. -/
theorem reachable_runSchedule
    (hbehave : ∀ i s c, allows s c → respond i s c (behave i s c).1 (behave i s c).2)
    (h : Reachable init (Step program respond) s) {schedule : List Nat}
    (hmay : MayRun behave allows s schedule) :
    Reachable init (Step program respond) (runSchedule behave s schedule) :=
  (reachable_meets (fun _ _ _ => trivial) (fun s i c => hbehave i s.shared c) h.guarded_true
    hmay).of_guarded

theorem mayRun_true (s : System Answer ρ ε α σ) (schedule : List Nat) :
    MayRun behave (fun _ _ => True) s schedule := by
  induction schedule generalizing s with
  | nil => trivial
  | cons i rest ih => exact ⟨fun l _ => by cases l <;> trivial, ih _⟩

/-- Requests arrive. -/
def withRequests (program : ρ → Prog Answer ε α) (s : System Answer ρ ε α σ) (requests : List ρ) :
    System Answer ρ ε α σ :=
  ⟨s.shared, s.threads ++ requests.map (arrived program)⟩

/-- Under a condition that leaves arrivals free they may arrive at any time. -/
theorem reachable_arrivals {ok : System Answer ρ ε α σ → Label Answer ρ → Prop}
    (hok : ∀ s request, ok s (.start request))
    (h : Reachable init (Guarded (Step program respond) ok) s) (requests : List ρ) :
    Reachable init (Guarded (Step program respond) ok) (withRequests program s requests) := by
  induction requests generalizing s with
  | nil => simpa [withRequests] using h
  | cons request rest ih =>
    have hnext := ih (h.next ⟨.start request, hok s request⟩)
    simpa [withRequests, List.append_assoc] using hnext

theorem reachable_withRequests (h : Reachable init (Step program respond) s) (requests : List ρ) :
    Reachable init (Step program respond) (withRequests program s requests) :=
  (reachable_arrivals (fun _ _ => trivial) h.guarded_true requests).of_guarded

/-- Threads that have returned are known by their request, their events and their result. -/
theorem eq_of_returned (hs : ∀ t ∈ s.threads, t.Follows program)
    (returned : List (ρ × List (Event Answer) × Except ε α)) {shared : σ}
    (hshared : s.shared = shared)
    (hthreads : s.threads.map (fun t => (t.request, t.events, t.result)) =
      returned.map fun t => (t.1, t.2.1, some t.2.2)) :
    s = ⟨shared, returned.map fun t => ⟨t.1, t.2.1, .ofExcept t.2.2, some t.2.2⟩⟩ := by
  obtain ⟨_, threads⟩ := s
  subst hshared
  congr 1
  induction threads generalizing returned with
  | nil =>
    rw [List.map_eq_nil_iff.mp hthreads.symm]
    rfl
  | cons t rest ih =>
    cases returned with
    | nil => cases hthreads
    | cons t' rest' =>
      obtain ⟨hhead, htail⟩ := List.cons.inj hthreads
      obtain ⟨hrequest, hevents, hresult⟩ : t.request = t'.1 ∧ t.events = t'.2.1 ∧
          t.result = some t'.2.2 := by simpa using hhead
      have hprog := (hs t List.mem_cons_self).returned _ hresult
      rw [List.map_cons, ← ih rest' (fun u hu => hs u (List.mem_cons_of_mem _ hu)) htail,
        ← hrequest, ← hevents, ← hprog, ← hresult]

end NrePlugins.System
