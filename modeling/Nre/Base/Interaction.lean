import Nre.Base.Transition

/-!
# Programs that talk to their environment

A request handler is a program that makes calls (reads and writes of shared state,
questions to its host) and goes on with the answers. `Prog` is the tree of all its
continuations over a signature of calls; a program ends with a result or fails.

- `Path p events q`: the answers in `events` take `p` to `q`;
- `Runs respond s p events s' r`: `p` runs alone on the shared state `s`;
- `System`, `System.Step`: any number of programs over one shared state, one call
  at a time, in any order. Every thread keeps the events it has seen.

`Thread.Follows` connects the last to the first: what a thread of a reachable state
still has to do is what its events lead to.
-/

namespace NrePlugins

open List

variable {Call : Type} {Answer : Call → Type} {α β ε ρ σ : Type}

/-! ## Programs -/

/-- A program that makes calls and continues with their answers. -/
inductive Prog (Answer : Call → Type) (ε α : Type) : Type where
  | ret (result : α)
  | fail (error : ε)
  | call (c : Call) (next : Answer c → Prog Answer ε α)

/-- A call that was made, with the answer it got. -/
abbrev Event (Answer : Call → Type) : Type := (c : Call) × Answer c

namespace Prog

def bind : Prog Answer ε α → (α → Prog Answer ε β) → Prog Answer ε β
  | .ret a, f => f a
  | .fail e, _ => .fail e
  | .call c next, f => .call c fun answer => (next answer).bind f

instance : Monad (Prog Answer ε) where
  pure := .ret
  bind := bind

theorem bind_assoc {γ : Type} (x : Prog Answer ε α) (f : α → Prog Answer ε β)
    (g : β → Prog Answer ε γ) : (x >>= f) >>= g = x >>= fun a => f a >>= g := by
  induction x with
  | ret | fail => rfl
  | call c next ih => exact congrArg (Prog.call c) (funext ih)

theorem bind_pure (x : Prog Answer ε α) : x >>= pure = x := by
  induction x with
  | ret | fail => rfl
  | call c next ih => exact congrArg (Prog.call c) (funext ih)

def ofExcept : Except ε α → Prog Answer ε α
  | .ok a => .ret a
  | .error e => .fail e

/-- Run a program and look at its result, failure included. -/
def attempt : Prog Answer ε α → Prog Answer ε (Except ε α)
  | .ret a => .ret (.ok a)
  | .fail e => .ret (.error e)
  | .call c next => .call c fun answer => (next answer).attempt

/-- The same program, whose failure is a result. -/
def caught : Prog Answer ε α → Prog Answer Empty (Except ε α)
  | .ret a => .ret (.ok a)
  | .fail e => .ret (.error e)
  | .call c next => .call c fun answer => (next answer).caught

end Prog

/-! ## Paths -/

/-- The answers in `events` take one program to another. -/
inductive Path : Prog Answer ε α → List (Event Answer) → Prog Answer ε α → Prop
  | nil {p : Prog Answer ε α} : Path p [] p
  | cons {c : Call} {next : Answer c → Prog Answer ε α} {answer : Answer c}
      {events : List (Event Answer)} {q : Prog Answer ε α} :
      Path (next answer) events q → Path (.call c next) (⟨c, answer⟩ :: events) q

variable {c : Call} {next : Answer c → Prog Answer ε α} {xs : List α} {i j : Nat} {x u : α}

theorem Path.snoc {p : Prog Answer ε α} {events : List (Event Answer)}
    (h : Path p events (.call c next)) (answer : Answer c) :
    Path p (events ++ [⟨c, answer⟩]) (next answer) := by
  generalize hq : Prog.call c next = q at h
  induction h with
  | nil =>
    subst hq
    exact .cons .nil
  | cons _ ih => exact .cons (ih hq)

/-! ## Running alone -/

/-- A program runs alone on the shared state, from `s` to `s'`. -/
inductive Runs (respond : σ → (c : Call) → Answer c → σ → Prop) :
    σ → Prog Answer ε α → List (Event Answer) → σ → Except ε α → Prop
  | ret {s : σ} {a : α} : Runs respond s (.ret a) [] s (.ok a)
  | fail {s : σ} {e : ε} : Runs respond s (.fail e) [] s (.error e)
  | call {s s' s'' : σ} {c : Call} {next : Answer c → Prog Answer ε α} {answer : Answer c}
      {events : List (Event Answer)} {r : Except ε α} :
      respond s c answer s' → Runs respond s' (next answer) events s'' r →
      Runs respond s (.call c next) (⟨c, answer⟩ :: events) s'' r

/-! ## Many programs -/

/-- What a list has after a change at `i`. -/
theorem getElem?_set_cases (h : (xs.set i x)[j]? = some u) :
    i = j ∧ u = x ∨ i ≠ j ∧ xs[j]? = some u := by
  by_cases hij : i = j
  · subst hij
    rw [getElem?_set_self (by simpa using (List.getElem?_eq_some_iff.mp h).1)] at h
    exact .inl ⟨rfl, (Option.some.inj h).symm⟩
  · rw [getElem?_set_ne hij] at h
    exact .inr ⟨hij, h⟩

theorem getElem?_set_of_some (h : xs[i]? = some x) (y : α) : (xs.set i y)[i]? = some y :=
  getElem?_set_self (List.getElem?_eq_some_iff.mp h).1

/-- What a list has after an addition at its end. -/
theorem getElem?_snoc_cases (h : (xs ++ [x])[j]? = some u) :
    xs[j]? = some u ∨ xs.length ≤ j ∧ u = x := by
  by_cases hlt : j < xs.length
  · rw [getElem?_append_left hlt] at h
    exact .inl h
  · rw [getElem?_append_right (Nat.le_of_not_lt hlt)] at h
    exact .inr ⟨Nat.le_of_not_lt hlt, mem_singleton.mp (mem_of_getElem? h)⟩

theorem getElem?_snoc_of_some (h : xs[j]? = some u) (x : α) : (xs ++ [x])[j]? = some u :=
  (getElem?_append_left (List.getElem?_eq_some_iff.mp h).1).trans h

/-- One request in progress: what it has seen, what it still has to do, and what it
has returned. -/
structure Thread (Answer : Call → Type) (ρ ε α : Type) where
  request : ρ
  events : List (Event Answer)
  prog : Prog Answer ε α
  result : Option (Except ε α)

/-- What a thread has to do is what its events lead to, and it returns what its
program returns. -/
structure Thread.Follows (program : ρ → Prog Answer ε α) (t : Thread Answer ρ ε α) : Prop where
  path : Path (program t.request) t.events t.prog
  returned : ∀ r, t.result = some r → t.prog = .ofExcept r

/-- Threads that share a state. -/
structure System (Answer : Call → Type) (ρ ε α σ : Type) where
  shared : σ
  threads : List (Thread Answer ρ ε α)

/-- The steps of a system: a request arrives, a thread makes its next call, a thread
returns. -/
inductive Label (Answer : Call → Type) (ρ : Type) where
  | start (request : ρ)
  | act (i : Nat) (event : Event Answer)
  | ret (i : Nat)

namespace System

variable (program : ρ → Prog Answer ε α) (respond : Nat → σ → (c : Call) → Answer c → σ → Prop)

/-- A request that has just arrived. -/
def arrived (request : ρ) : Thread Answer ρ ε α := ⟨request, [], program request, none⟩

inductive Step : System Answer ρ ε α σ → Label Answer ρ → System Answer ρ ε α σ → Prop
  | start {s : System Answer ρ ε α σ} (request : ρ) :
      Step s (.start request) { s with threads := s.threads ++ [arrived program request] }
  | act {s : System Answer ρ ε α σ} {i : Nat} {t : Thread Answer ρ ε α} {c : Call}
      {next : Answer c → Prog Answer ε α} {answer : Answer c} {shared : σ} :
      s.threads[i]? = some t → t.prog = .call c next → respond i s.shared c answer shared →
      Step s (.act i ⟨c, answer⟩)
        { shared, threads := s.threads.set i
            { t with prog := next answer, events := t.events ++ [⟨c, answer⟩] } }
  | ret {s : System Answer ρ ε α σ} {i : Nat} {t : Thread Answer ρ ε α} {r : Except ε α} :
      s.threads[i]? = some t → t.prog = .ofExcept r → t.result = none →
      Step s (.ret i) { s with threads := s.threads.set i { t with result := some r } }

variable {s : System Answer ρ ε α σ} {t : Thread Answer ρ ε α} {init : System Answer ρ ε α σ → Prop}
  {ok : System Answer ρ ε α σ → Label Answer ρ → Prop} {r : Except ε α}

theorem Step.ret_eq {s' : System Answer ρ ε α σ} (hi : s.threads[i]? = some t)
    (hp : t.prog = .ofExcept r) (hnone : t.result = none)
    (hs : s' = ⟨s.shared, s.threads.set i { t with result := some r }⟩) :
    Step program respond s (.ret i) s' := by
  subst hs
  exact .ret hi hp hnone

/-- A request arrives. -/
theorem reachable_start (h : Reachable init (Guarded (Step program respond) ok) s) (request : ρ)
    (hok : ok s (.start request)) :
    Reachable init (Guarded (Step program respond) ok)
      { s with threads := s.threads ++ [arrived program request] } :=
  h.next ⟨.start request, hok⟩

/-- A condition on the calls may be read as a condition on the answers. -/
theorem reachable_guarded_iff (good : Nat → σ → (c : Call) → Answer c → Prop)
    (hstart : ∀ s request, ok s (.start request)) (hret : ∀ s i, ok s (.ret i))
    (hact : ∀ s i c answer, ok s (.act i ⟨c, answer⟩) ↔ good i s.shared c answer) :
    Reachable init (Guarded (Step program respond) ok) s ↔
      Reachable init (Step program fun i s c answer s' =>
        respond i s c answer s' ∧ good i s c answer) s := by
  constructor
  · intro h
    induction h with
    | start hs => exact .start hs
    | next _ hguarded ih =>
      obtain ⟨hstep, hok⟩ := hguarded
      cases hstep with
      | start request => exact ih.next (.start request)
      | act hi hp hresp => exact ih.next (.act hi hp ⟨hresp, (hact _ _ _ _).mp hok⟩)
      | ret hi hp hnone => exact ih.next (.ret hi hp hnone)
  · intro h
    induction h with
    | start hs => exact .start hs
    | next _ hstep ih =>
      cases hstep with
      | start request => exact ih.next ⟨.start request, hstart _ _⟩
      | act hi hp hresp => exact ih.next ⟨.act hi hp hresp.1, (hact _ _ _ _).mpr hresp.2⟩
      | ret hi hp hnone => exact ih.next ⟨.ret hi hp hnone, hret _ _⟩

/-- A program that makes a call has not returned. -/
theorem ofExcept_ne_call : Prog.ofExcept r ≠ .call c next := by
  cases r <;> exact nofun

theorem result_eq_none {program : ρ → Prog Answer ε α} (h : t.Follows program)
    (hp : t.prog = .call c next) :
    t.result = none :=
  Option.eq_none_iff_forall_ne_some.mpr fun r hr =>
    ofExcept_ne_call ((h.returned r hr).symm.trans hp)

/-- The path of a thread that has returned. -/
theorem path_returned {program : ρ → Prog Answer ε α} (h : t.Follows program)
    (hr : t.result = some r) : Path (program t.request) t.events (.ofExcept r) :=
  h.returned r hr ▸ h.path

/-- In every reachable state every thread follows its program. -/
theorem follows (hinit : ∀ s, init s → s.threads = []) (h : Reachable init (Step program respond) s)
    :
    ∀ t ∈ s.threads, t.Follows program := by
  induction h with
  | start hs =>
    intro t ht
    simp [hinit _ hs] at ht
  | next _ hstep ih =>
    cases hstep with
    | start request =>
      exact forall_mem_append.mpr ⟨ih, forall_mem_singleton.mpr ⟨.nil, nofun⟩⟩
    | act hi hp _ =>
      intro t ht
      rcases mem_or_eq_of_mem_set ht with ht | rfl
      · exact ih t ht
      · have hold := ih _ (mem_of_getElem? hi)
        constructor
        · have hpath := hold.path
          rw [hp] at hpath
          exact hpath.snoc _
        · intro r hr
          exact absurd ((hold.returned r hr).symm.trans hp) ofExcept_ne_call
    | ret hi hp _ =>
      intro t ht
      rcases mem_or_eq_of_mem_set ht with ht | rfl
      · exact ih t ht
      · constructor
        · exact (ih _ (mem_of_getElem? hi)).path
        · intro r hr
          cases hr
          exact hp

end System

end NrePlugins
