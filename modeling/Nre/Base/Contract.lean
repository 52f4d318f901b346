import Nre.Base.Interrupted

/-!
# Contracts of calls

A simpler rule than rely and guarantee, for systems in which a thread owes the others only
what each of its calls says by itself. Every kind of call has a contract: what its caller
has to see to, and what it may count on in the answer. `Meets` is the judgement about one
program; it does not mention the shared state.

`meets_of_reachable` is the rule. It needs an invariant of the shared state under which
every call is answered as its contract says.
-/

namespace NrePlugins

open List

variable {Call : Type} {Answer : Call → Type} {ε α β ρ σ : Type}

/-- Every call is made as its contract asks for, and `post` holds of the result, provided that
the answers are as their contracts say. -/
def Meets (pre : Call → Prop) (fit : (c : Call) → Answer c → Prop) (post : Except ε α → Prop) :
    Prog Answer ε α → Prop
  | .ret a => post (.ok a)
  | .fail e => post (.error e)
  | .call c next => pre c ∧ ∀ answer, fit c answer → Meets pre fit post (next answer)

variable {pre : Call → Prop} {fit : (c : Call) → Answer c → Prop}

theorem Meets.ask {c : Call} {f : Answer c → Prog Answer ε α} {post : Except ε α → Prop}
    (hpre : pre c) (h : ∀ answer, fit c answer → Meets pre fit post (f answer)) :
    Meets pre fit post (Prog.ask c >>= f) :=
  ⟨hpre, h⟩

variable {p : Prog Answer ε α} {post : Except ε β → Prop}

theorem Meets.bind {f : α → Prog Answer ε β} {mid : Except ε α → Prop} (hp : Meets pre fit mid p)
    (hok : ∀ a, mid (.ok a) → Meets pre fit post (f a))
    (herror : ∀ e, mid (.error e) → post (.error e)) : Meets pre fit post (p >>= f) := by
  induction p with
  | ret a => exact hok a hp
  | fail e => exact herror e hp
  | call c next ih => exact ⟨hp.1, fun answer hfit => ih answer (hp.2 answer hfit)⟩

/-- A part that does not fail. -/
theorem Meets.bind_ok {f : α → Prog Answer ε β} {mid : α → Prop}
    (hp : Meets pre fit (fun r => ∃ a, r = .ok a ∧ mid a) p)
    (hok : ∀ a, mid a → Meets pre fit post (f a)) : Meets pre fit post (p >>= f) := by
  refine hp.bind ?_ ?_
  · rintro a ⟨a', ha, hmid⟩
    cases ha
    exact hok a hmid
  · rintro e ⟨a, ha, -⟩
    cases ha

/-- A part whose failure is looked at. -/
theorem Meets.attempt_bind {f : Except ε α → Prog Answer ε β} {mid : Except ε α → Prop}
    (hp : Meets pre fit mid p) (hnext : ∀ r, mid r → Meets pre fit post (f r)) :
    Meets pre fit post (p.attempt >>= f) := by
  induction p with
  | ret a => exact hnext (.ok a) hp
  | fail e => exact hnext (.error e) hp
  | call c next ih => exact ⟨hp.1, fun answer hfit => ih answer (hp.2 answer hfit)⟩

theorem meets_ofExcept_iff {r : Except ε α} {post : Except ε α → Prop} :
    Meets pre fit post (Prog.ofExcept r : Prog Answer ε α) ↔ post r := by
  cases r with
  | ok | error => exact Iff.rfl

theorem Meets.ofExcept {r : Except ε α} {post : Except ε α → Prop} (h : post r) :
    Meets pre fit post (Prog.ofExcept r : Prog Answer ε α) :=
  meets_ofExcept_iff.mpr h

/-- Nothing is asked for and nothing is promised. -/
theorem meets_trivial (p : Prog Answer ε α) : Meets (fun _ => True) fit (fun _ => True) p := by
  induction p with
  | ret | fail => trivial
  | call c next ih => exact ⟨trivial, fun answer _ => ih answer⟩

/-- The rule: in every state that a run reaches the invariant holds, and every thread meets its
contracts; what a thread has returned is what its program promises. -/
theorem System.meets_of_reachable {program : ρ → Prog Answer ε α}
    {respond : Nat → σ → (c : Call) → Answer c → σ → Prop} (inv : σ → Prop)
    {init : System Answer ρ ε α σ → Prop} {post : ρ → Except ε α → Prop}
    (hinit : ∀ s, init s → inv s.shared ∧ s.threads = [])
    (hprogram : ∀ request, Meets pre fit (post request) (program request))
    (hstep : ∀ i s c answer s', inv s → pre c → respond i s c answer s' → inv s' ∧ fit c answer)
    {s : System Answer ρ ε α σ} (h : Reachable init (Step program respond) s) :
    inv s.shared ∧ ∀ t ∈ s.threads, Meets pre fit (post t.request) t.prog ∧
      ∀ r, t.result = some r → post t.request r := by
  induction h with
  | start hs =>
    obtain ⟨hinv, hnone⟩ := hinit _ hs
    refine ⟨hinv, ?_⟩
    simp [hnone]
  | next _ hstep' ih =>
    obtain ⟨hinv, hthreads⟩ := ih
    cases hstep' with
    | start request =>
      exact ⟨hinv, forall_mem_append.mpr
        ⟨hthreads, forall_mem_singleton.mpr ⟨hprogram request, nofun⟩⟩⟩
    | @act i t c next answer shared hi hp hresp =>
      obtain ⟨hmeets, hresult⟩ := hthreads t (mem_of_getElem? hi)
      rw [hp] at hmeets
      obtain ⟨hinv', hfit⟩ := hstep _ _ c answer shared hinv hmeets.1 hresp
      refine ⟨hinv', ?_⟩
      intro u hu
      rcases mem_or_eq_of_mem_set hu with hu | rfl
      · exact hthreads u hu
      · exact ⟨hmeets.2 answer hfit, hresult⟩
    | @ret i t r hi hp hnone =>
      obtain ⟨hmeets, -⟩ := hthreads t (mem_of_getElem? hi)
      refine ⟨hinv, ?_⟩
      intro u hu
      rcases mem_or_eq_of_mem_set hu with hu | rfl
      · exact hthreads u hu
      · refine ⟨hmeets, ?_⟩
        intro r' hr'
        cases hr'
        rw [hp] at hmeets
        exact meets_ofExcept_iff.mp hmeets

end NrePlugins
