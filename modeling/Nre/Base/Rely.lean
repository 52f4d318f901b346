import Nre.Base.Interrupted

/-!
# Rely and guarantee

A rule for systems of programs. Every thread relies on what the steps of the other
threads keep (`rely`, one relation for each thread), and every step keeps an invariant
of the shared state and what the other threads rely on. `Safe` is the judgement about
one program: whatever the others do between its calls, each call is made under its
precondition.

`safe_of_reachable` is the rule; the steps may be restricted to those that meet a
condition, as in `Guarded`.
-/

namespace NrePlugins.System

open List

variable {Call : Type} {Answer : Call → Type} {α β ε ρ σ : Type}
  (respond : Nat → σ → (c : Call) → Answer c → σ → Prop) (rely : Nat → σ → σ → Prop)
  (inv : σ → Prop) (pre : Nat → σ → Call → Prop)

/-- From the shared state `s`, thread `i` makes every call of its program under the
call's precondition, and ends in `post` when it returns. -/
def Safe (i : Nat) (post : σ → α → Prop) : Prog Answer ε α → σ → Prop
  | .ret a, s => post s a
  | .fail _, _ => True
  | .call c next, s =>
    -- the others move from `s` to `s'` before the call is made
    ∀ s', rely i s s' → inv s' →
      pre i s' c ∧ ∀ answer s'', respond i s' c answer s'' → inv s'' → Safe i post (next answer) s''

variable {respond rely inv pre}

variable {i : Nat} {p : Prog Answer ε α} {s : σ}

theorem Safe.bind {post : σ → β → Prop} {f : α → Prog Answer ε β}
    (h : Safe respond rely inv pre i (fun s a => Safe respond rely inv pre i post (f a) s) p s) :
    Safe respond rely inv pre i post (p >>= f) s := by
  induction p generalizing s with
  | ret a => exact h
  | fail e => trivial
  | call c next ih =>
    intro s' hrely hinv
    obtain ⟨hpre, hnext⟩ := h s' hrely hinv
    refine ⟨hpre, ?_⟩
    intro answer s'' hresp hinv''
    exact ih answer (hnext answer s'' hresp hinv'')

variable {post : σ → α → Prop}

theorem Safe.mono {post' : σ → α → Prop} (h : Safe respond rely inv pre i post p s)
    (himp : ∀ s a, post s a → post' s a) :
    Safe respond rely inv pre i post' p s := by
  induction p generalizing s with
  | ret a => exact himp s a h
  | fail e => trivial
  | call c next ih =>
    intro s' hrely hinv
    obtain ⟨hpre, hnext⟩ := h s' hrely hinv
    refine ⟨hpre, ?_⟩
    intro answer s'' hresp hinv''
    exact ih answer (hnext answer s'' hresp hinv'')

theorem Safe.ofExcept {r : Except ε α} (h : ∀ a, r = .ok a → post s a) :
    Safe respond rely inv pre i post (.ofExcept r : Prog Answer ε α) s := by
  cases r with
  | ok a => exact h a rfl
  | error e => trivial

/-- What is safe stays safe while the others move. -/
theorem Safe.stable (htrans : ∀ s s' s'', rely i s s' → rely i s' s'' → rely i s s'') {s' : σ}
    (hrely : rely i s s') (hpost : ∀ a, post s a → post s' a)
    (h : Safe respond rely inv pre i post p s) :
    Safe respond rely inv pre i post p s' := by
  cases p with
  | ret a => exact hpost a h
  | fail e => trivial
  | call c next =>
    intro s'' hrely' hinv
    exact h s'' (htrans _ _ _ hrely hrely') hinv

/-! ## The rule -/

variable {program : ρ → Prog Answer ε α} {post : ρ → Nat → σ → α → Prop}
  {init : System Answer ρ ε α σ → Prop} {ok : System Answer ρ ε α σ → Label Answer ρ → Prop}

/-- The rule: the invariant holds in every state that a run reaches, and all threads
are safe there. What a thread promises for its end has to be something the others keep, and so
has what it finds at its start (`unborn`). -/
theorem safe_of_reachable (unborn : Nat → σ → Prop)
    (hrefl : ∀ i s, rely i s s)
    (htrans : ∀ i s s' s'', rely i s s' → rely i s' s'' → rely i s s'')
    (hinit : ∀ s, init s → inv s.shared ∧ s.threads = [] ∧ ∀ i, unborn i s.shared)
    (hunborn : ∀ i s s', rely i s s' → unborn i s → unborn i s')
    (hprogram : ∀ i s request, inv s → unborn i s →
      Safe respond rely inv pre i (post request i) (program request) s)
    (hpost : ∀ request i s s' a, rely i s s' → post request i s a → post request i s' a)
    (hstep : ∀ (s : System Answer ρ ε α σ) (i : Nat) (c : Call) (answer : Answer c) (shared : σ),
      inv s.shared → ok s (.act i ⟨c, answer⟩) → pre i s.shared c →
      respond i s.shared c answer shared →
      inv shared ∧ ∀ j, j ≠ i → rely j s.shared shared)
    {s : System Answer ρ ε α σ} (h : Reachable init (Guarded (Step program respond) ok) s) :
    inv s.shared ∧ (∀ i, s.threads.length ≤ i → unborn i s.shared) ∧
      ∀ i t, s.threads[i]? = some t →
        Safe respond rely inv pre i (post t.request i) t.prog s.shared := by
  induction h with
  | start hs =>
    obtain ⟨hinv, hnone, hall⟩ := hinit _ hs
    refine ⟨hinv, fun i _ => hall i, ?_⟩
    intro i t ht
    simp [hnone] at ht
  | next hreach hguarded ih =>
    rename_i before label after
    obtain ⟨hinv, hlater, hsafe⟩ := ih
    obtain ⟨hstep', hok⟩ := hguarded
    cases hstep' with
    | start request =>
      refine ⟨hinv, fun i hi => hlater i ?_, ?_⟩
      · rw [length_append] at hi
        omega
      intro i t ht
      rcases getElem?_snoc_cases ht with ht | ⟨hge, rfl⟩
      · exact hsafe i t ht
      · exact hprogram i _ request hinv (hlater i hge)
    | @act i t c goOn answer shared hi hp hresp =>
      have hcall := hsafe i t hi
      rw [hp] at hcall
      obtain ⟨hpre, hnext⟩ := hcall _ (hrefl i _) hinv
      obtain ⟨hinv', hrely⟩ := hstep before i c answer shared hinv hok hpre hresp
      have hlt : i < before.threads.length := (List.getElem?_eq_some_iff.mp hi).1
      refine ⟨hinv', ?_, ?_⟩
      · intro j hj
        rw [length_set] at hj
        exact hunborn j _ _ (hrely j (by omega)) (hlater j hj)
      intro j u hu
      rcases getElem?_set_cases hu with ⟨rfl, rfl⟩ | ⟨hij, hu⟩
      · exact hnext answer shared hresp hinv'
      · have hmoved := hrely j (Ne.symm hij)
        exact (hsafe j u hu).stable (htrans j) hmoved fun a => hpost _ j _ _ a hmoved
    | @ret i t r hi hp hnone =>
      refine ⟨hinv, fun j hj => hlater j (length_set ▸ hj), ?_⟩
      intro j u hu
      rcases getElem?_set_cases hu with ⟨rfl, rfl⟩ | ⟨-, hu⟩
      · exact hsafe i t hi
      · exact hsafe j u hu

end NrePlugins.System

/-!
## Calls that consist of calls

A program is first written with large calls, and each of them is then replaced by a program
with smaller ones (`Prog.interpret`). What holds of the large program by its calls alone
carries over: a part that makes only certain calls keeps every assertion that the programs
of these calls keep (`Safe.interpret`).
-/

namespace NrePlugins

variable {Call Small : Type} {Answer : Call → Type} {Reply : Small → Type} {ε α β σ : Type}

namespace Prog

/-- Every call is replaced by its program. -/
def interpret (f : (c : Call) → Prog Reply ε (Answer c)) : Prog Answer ε α → Prog Reply ε α
  | .ret a => .ret a
  | .fail e => .fail e
  | .call c next => f c >>= fun answer => interpret f (next answer)

variable {f : (c : Call) → Prog Reply ε (Answer c)}

theorem interpret_bind (p : Prog Answer ε α) (g : α → Prog Answer ε β) :
    interpret f (p >>= g) = interpret f p >>= fun a => interpret f (g a) := by
  induction p with
  | ret | fail => rfl
  | call c next ih =>
    show f c >>= (fun answer => interpret f (next answer >>= g)) = _
    simp only [ih]
    exact (bind_assoc (f c) (fun answer => interpret f (next answer)) _).symm

/-- What does not fail need not be attempted again. -/
theorem attempt_bind_attempt (p : Prog Answer ε α) (g : Except ε α → Prog Answer ε β) :
    (p.attempt >>= g).attempt = p.attempt >>= fun r => (g r).attempt := by
  induction p with
  | ret | fail => rfl
  | call c next ih =>
    show Prog.call c (fun answer => ((next answer).attempt >>= g).attempt) = _
    simp only [ih]
    rfl

end Prog

theorem Only.attempt {permitted : Call → Prop} {p : Prog Answer ε α} (h : Only permitted p) :
    Only permitted p.attempt :=
  Cautious.attempt (fun _ _ => trivial) h

namespace System

variable {respond : Nat → σ → (c : Small) → Reply c → σ → Prop} {rely : Nat → σ → σ → Prop}
  {inv : σ → Prop} {pre : Nat → σ → Small → Prop}

/-- A part whose calls all keep an assertion keeps it. -/
theorem Safe.interpret {f : (c : Call) → Prog Reply ε (Answer c)} {permitted : Call → Prop} {i : Nat}
    {holds : σ → Prop}
    (hcall : ∀ c, permitted c → ∀ s, holds s →
      Safe respond rely inv pre i (fun s' _ => holds s') (f c) s)
    {p : Prog Answer ε α} (h : Only permitted p) {s : σ} (hs : holds s) :
    Safe respond rely inv pre i (fun s' _ => holds s') (Prog.interpret f p) s := by
  induction p generalizing s with
  | ret a => exact hs
  | fail e => trivial
  | call c next ih =>
    refine Safe.bind ((hcall c h.1 s hs).mono ?_)
    intro s' answer hs'
    exact ih answer (h.2 answer () trivial) hs'

end System

end NrePlugins
