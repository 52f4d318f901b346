import Mathlib.Logic.Relation
import Mathlib.Tactic.SplitIfs

/-!
# Transition systems

Concurrent code is modelled as a step relation on a state, with a label on every
step. This file has the notions all such models share:

- `Reachable`: the states of all runs from the initial ones;
- `Guarded`: the steps that also meet a condition on the state before the step,
  for statements about the runs all of whose steps meet it;
- `Moves`: finitely many steps with labels from a given set.

An invariant is proved once per step relation and lifted by `Reachable.invariant`.
-/

namespace NrePlugins

variable {σ α : Type}

/-- The states that runs from an initial state reach. -/
inductive Reachable (init : σ → Prop) (step : σ → α → σ → Prop) : σ → Prop
  | start {s : σ} : init s → Reachable init step s
  | next {s s' : σ} {a : α} : Reachable init step s → step s a s' → Reachable init step s'

variable {step : σ → α → σ → Prop}

/-- What holds initially and is kept by every step holds in every reachable
state. -/
theorem Reachable.invariant {init : σ → Prop} {Inv : σ → Prop} (hinit : ∀ s, init s → Inv s)
    (hstep : ∀ s a s', Inv s → step s a s' → Inv s') {s : σ} (h : Reachable init step s) :
    Inv s := by
  induction h with
  | start hs => exact hinit _ hs
  | next _ hs ih => exact hstep _ _ _ ih hs

/-- The steps that meet a condition on their label and the state before. -/
def Guarded (step : σ → α → σ → Prop) (ok : σ → α → Prop) (s : σ) (a : α) (s' : σ) : Prop :=
  step s a s' ∧ ok s a

/-- A guarded run is a run. -/
theorem Reachable.of_guarded {init : σ → Prop} {ok : σ → α → Prop} {s : σ}
    (h : Reachable init (Guarded step ok) s) : Reachable init step s := by
  induction h with
  | start hs => exact .start hs
  | next _ hs ih => exact .next ih hs.1

/-- A condition that always holds restricts nothing. -/
theorem Reachable.guarded_true {init : σ → Prop} {s : σ} (h : Reachable init step s) :
    Reachable init (Guarded step fun _ _ => True) s := by
  induction h with
  | start hs => exact .start hs
  | next _ hs ih => exact .next ih ⟨hs, trivial⟩

/-- Finitely many steps, all with labels in `p`. -/
def Moves (step : σ → α → σ → Prop) (p : α → Prop) : σ → σ → Prop :=
  Relation.ReflTransGen fun s s' => ∃ a, p a ∧ step s a s'

/-- What such steps keep is kept along them. -/
theorem Moves.keeps {p : α → Prop} {K : σ → Prop} (hstep : ∀ s a s', p a → K s → step s a s' → K s')
    {s s' : σ} (h : Moves step p s s') (hs : K s) : K s' := by
  induction h with
  | refl => exact hs
  | tail _ hlast ih =>
    obtain ⟨a, ha, hst⟩ := hlast
    exact hstep _ _ _ ha ih hst

end NrePlugins
