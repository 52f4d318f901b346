import Nre.Base.Interaction

/-!
# Interrupted programs

A program may stop between any two of its calls: the process crashes, or is killed. This
file is about the states in which a program leaves its surroundings then.

- `Stops respond s p s'`: a run of `p` from `s` may stop in `s'`;
- `Always`: a judgement about one program, that an invariant holds before and after each of
  its calls and a postcondition when it ends;
- `Prog.runWith`: the run over surroundings that answer every call in one way, and
  `Prog.stopAfter`: where that run is after some of its calls.

- `Makes respond s p calls s'`: a run of `p` from `s` that stops in `s'` has made `calls`, and
  `Cautious`: every call that is made is one of those allowed.

- `Only permitted p`: the same for programs whose calls are of few kinds.

`Always` is proved along the program with `Always.ask`, `Always.bind` and `Always.attempt`,
and `Always.stops` turns it into a statement about every stop. `Cautious` has the same rules,
and `Cautious.makes`.
-/

namespace NrePlugins

variable {Call : Type} {Answer : Call → Type} {α β ε σ : Type}
  (respond : σ → (c : Call) → Answer c → σ → Prop)

namespace Prog

/-- One call. -/
def ask (c : Call) : Prog Answer ε (Answer c) := .call c .ret

/-- Run a program over surroundings that always answer. -/
def runWith (behave : σ → (c : Call) → Answer c × σ) : Prog Answer ε α → σ → Except ε α × σ
  | .ret a, s => (.ok a, s)
  | .fail e, s => (.error e, s)
  | .call c next, s => (next (behave s c).1).runWith behave (behave s c).2

/-- The calls of that run, and the states in which they are made. -/
def callsWith (behave : σ → (c : Call) → Answer c × σ) : Prog Answer ε α → σ → List (σ × Call)
  | .ret _, _ => []
  | .fail _, _ => []
  | .call c next, s => (s, c) :: (next (behave s c).1).callsWith behave (behave s c).2

/-- Those calls with their answers. -/
def eventsWith (behave : σ → (c : Call) → Answer c × σ) (p : Prog Answer ε α) (s : σ) :
    List (Event Answer) :=
  (p.callsWith behave s).map fun made => ⟨made.2, (behave made.1 made.2).1⟩

/-- The state after the first calls of that run. -/
def stopAfter (behave : σ → (c : Call) → Answer c × σ) : Nat → Prog Answer ε α → σ → σ
  | n + 1, .call c next, s => (next (behave s c).1).stopAfter behave n (behave s c).2
  | _, _, s => s

variable {behave : σ → (c : Call) → Answer c × σ}

/-- The first part of a program returned or failed. -/
theorem runWith_bind {p : Prog Answer ε α} {f : α → Prog Answer ε β} {s s' : σ} {r : Except ε α} :
    p.runWith behave s = (r, s') → (p >>= f).runWith behave s = match r with
      | .ok a => (f a).runWith behave s'
      | .error e => (.error e, s') := by
  induction p generalizing s with
  | ret | fail =>
    rintro ⟨⟩
    rfl
  | call c next ih => exact ih _

/-- The calls of the first part, and of the second if the first returned. -/
theorem callsWith_bind (p : Prog Answer ε α) (f : α → Prog Answer ε β) (s : σ) :
    (p >>= f).callsWith behave s = p.callsWith behave s ++
      match p.runWith behave s with
      | (.ok a, s') => (f a).callsWith behave s'
      | (.error _, _) => [] := by
  induction p generalizing s with
  | ret | fail => rfl
  | call c next ih =>
    show (s, c) :: (next (behave s c).1 >>= f).callsWith behave (behave s c).2 = _
    rw [ih]
    rfl

end Prog

/-- A run of a program from `s` may stop in `s'`. -/
inductive Stops : σ → Prog Answer ε α → σ → Prop
  | here {s : σ} {p : Prog Answer ε α} : Stops s p s
  | call {s s' s'' : σ} {c : Call} {next : Answer c → Prog Answer ε α} {answer : Answer c} :
      respond s c answer s' → Stops s' (next answer) s'' → Stops s (.call c next) s''

/-- The invariant holds before and after each call, and `post` of the end. -/
def Always (inv : σ → Prop) (post : σ → Except ε α → Prop) : Prog Answer ε α → σ → Prop
  | .ret a, s => inv s ∧ post s (.ok a)
  | .fail e, s => inv s ∧ post s (.error e)
  | .call c next, s =>
    inv s ∧ ∀ answer s', respond s c answer s' → Always inv post (next answer) s'

variable {respond} {inv : σ → Prop} {post post' : σ → Except ε α → Prop}
  {last : σ → Except ε β → Prop}

variable {p : Prog Answer ε α} {s s' : σ} {events : List (Event Answer)} {r : Except ε α} {c : Call}
  {behave : σ → (c : Call) → Answer c × σ} {f : α → Prog Answer ε β}

theorem Always.now (h : Always respond inv post p s) : inv s := by
  cases p with
  | ret | fail | call => exact h.1

/-- The invariant holds wherever the program stops. -/
theorem Always.stops (h : Always respond inv post p s) (hstop : Stops respond s p s') : inv s' := by
  induction hstop with
  | here => exact h.now
  | call hresp _ ih => exact ih (h.2 _ _ hresp)

/-- A run alone ends as the judgement says. -/
theorem Always.runs (h : Always respond inv post p s)
    (hruns : Runs respond s p events s' r) : inv s' ∧ post s' r := by
  induction hruns with
  | ret | fail => exact h
  | call hresp _ ih => exact ih (h.2 _ _ hresp)

/-- A run all of whose events meet a condition. -/
theorem Runs.guard {good : Event Answer → Prop} (h : Runs respond s p events s' r)
    (hgood : ∀ event ∈ events, good event) :
    Runs (fun s c answer s' => respond s c answer s' ∧ good ⟨c, answer⟩) s p events s' r := by
  induction h with
  | ret => exact .ret
  | fail => exact .fail
  | call hresp _ ih =>
    rw [List.forall_mem_cons] at hgood
    exact .call ⟨hresp, hgood.1⟩ (ih hgood.2)

/-- Surroundings that keep a record of what happened. -/
def recorded (respond : σ → (c : Call) → Answer c → σ → Prop) (s : σ × List (Event Answer))
    (c : Call) (answer : Answer c) (s' : σ × List (Event Answer)) : Prop :=
  respond s.1 c answer s'.1 ∧ s'.2 = s.2 ++ [⟨c, answer⟩]

theorem Runs.record (h : Runs respond s p events s' r) (log : List (Event Answer)) :
    Runs (recorded respond) (s, log) p events (s', log ++ events) r := by
  induction h generalizing log with
  | ret =>
    rw [List.append_nil]
    exact .ret
  | fail =>
    rw [List.append_nil]
    exact .fail
  | @call s s₁ _ c _ answer _ _ hresp _ ih =>
    have hfirst : recorded respond (s, log) c answer (s₁, log ++ [⟨c, answer⟩]) := ⟨hresp, rfl⟩
    have hrest := ih (log ++ [⟨c, answer⟩])
    rw [List.append_assoc] at hrest
    exact .call hfirst hrest

/-- Surroundings with more answers have more stops. -/
theorem Stops.mono {respond' : σ → (c : Call) → Answer c → σ → Prop}
    (himp : ∀ s c answer s', respond s c answer s' → respond' s c answer s')
    (h : Stops respond s p s') : Stops respond' s p s' := by
  induction h with
  | here => exact .here
  | call hresp _ ih => exact .call (himp _ _ _ _ hresp) ih

theorem Always.ask {f : Answer c → Prog Answer ε α} (hs : inv s)
    (h : ∀ answer s', respond s c answer s' → Always respond inv post (f answer) s') :
    Always respond inv post (Prog.ask c >>= f) s :=
  ⟨hs, h⟩

theorem Always.mono (hpost : ∀ s r, inv s → post s r → post' s r) (h : Always respond inv post p s)
    : Always respond inv post' p s := by
  induction p generalizing s with
  | ret | fail => exact ⟨h.1, hpost _ _ h.1 h.2⟩
  | call c next ih => exact ⟨h.1, fun answer s' hresp => ih answer (h.2 answer s' hresp)⟩

theorem Always.bind (h : Always respond inv (fun s r => match r with
      | .ok a => Always respond inv last (f a) s
      | .error e => last s (.error e)) p s) :
    Always respond inv last (p >>= f) s := by
  induction p generalizing s with
  | ret a => exact h.2
  | fail e => exact h
  | call c next ih => exact ⟨h.1, fun answer s' hresp => ih answer (h.2 answer s' hresp)⟩

/-- A part that may fail, and what follows where it does not. -/
theorem Always.then (h : Always respond inv post' p s)
    (hfail : ∀ s e, inv s → post' s (.error e) → last s (.error e))
    (hok : ∀ s a, inv s → post' s (.ok a) → Always respond inv last (f a) s) :
    Always respond inv last (p >>= f) s := by
  refine Always.bind (Always.mono ?_ h)
  rintro s (e | a) hs hpost
  · exact hfail s e hs hpost
  · exact hok s a hs hpost

/-- A program whose failure is looked at by what follows. -/
theorem Always.attempt {post : σ → Except ε (Except ε α) → Prop}
    (h : Always respond inv (fun s r => post s (.ok r)) p s) :
    Always respond inv post p.attempt s := by
  induction p generalizing s with
  | ret | fail => exact h
  | call c next ih => exact ⟨h.1, fun answer s' hresp => ih answer (h.2 answer s' hresp)⟩

theorem Always.attemptThen {g : Except ε α → Prog Answer ε β} (h : Always respond inv post' p s)
    (hnext : ∀ s r, inv s → post' s r → Always respond inv last (g r) s) :
    Always respond inv last (p.attempt >>= g) s :=
  Always.bind (Always.attempt (Always.mono hnext h))

/-! ## The calls of a program -/

variable (respond)

/-- A run of a program from `s` stops in `s'`, and has made the given calls in the given
states. -/
inductive Makes : σ → Prog Answer ε α → List (σ × Call) → σ → Prop
  | here {s : σ} {p : Prog Answer ε α} : Makes s p [] s
  | call {s s' s'' : σ} {c : Call} {next : Answer c → Prog Answer ε α} {answer : Answer c}
      {calls : List (σ × Call)} : respond s c answer s' → Makes s' (next answer) calls s'' →
      Makes s (.call c next) ((s, c) :: calls) s''

/-- Every call is one of those allowed, and `post` holds of what is returned. -/
def Cautious (allowed : σ → Call → Prop) (post : σ → α → Prop) : Prog Answer ε α → σ → Prop
  | .ret a, s => post s a
  | .fail _, _ => True
  | .call c next, s =>
    allowed s c ∧ ∀ answer s', respond s c answer s' → Cautious allowed post (next answer) s'

variable {respond} {allowed : σ → Call → Prop} {kept kept' : σ → α → Prop}

theorem Cautious.makes {calls : List (σ × Call)} (h : Cautious respond allowed kept p s)
    (hmakes : Makes respond s p calls s') :
    ∀ call ∈ calls, allowed call.1 call.2 := by
  induction hmakes with
  | here => simp
  | call hresp _ ih =>
    rw [List.forall_mem_cons]
    exact ⟨h.1, ih (h.2 _ _ hresp)⟩

theorem Cautious.ask {f : Answer c → Prog Answer ε α} (hs : allowed s c)
    (h : ∀ answer s', respond s c answer s' → Cautious respond allowed kept (f answer) s') :
    Cautious respond allowed kept (Prog.ask c >>= f) s :=
  ⟨hs, h⟩

theorem Cautious.mono (hkept : ∀ s a, kept s a → kept' s a) (h : Cautious respond allowed kept p s)
    : Cautious respond allowed kept' p s := by
  induction p generalizing s with
  | ret a => exact hkept _ _ h
  | fail e => exact h
  | call c next ih => exact ⟨h.1, fun answer s' hresp => ih answer (h.2 answer s' hresp)⟩

theorem Cautious.bind {kept : σ → β → Prop}
    (h : Cautious respond allowed (fun s a => Cautious respond allowed kept (f a) s) p s) :
    Cautious respond allowed kept (p >>= f) s := by
  induction p generalizing s with
  | ret | fail => exact h
  | call c next ih => exact ⟨h.1, fun answer s' hresp => ih answer (h.2 answer s' hresp)⟩

theorem Cautious.attempt {kept : σ → Except ε α → Prop} (hfail : ∀ s e, kept s (.error e))
    (h : Cautious respond allowed (fun s a => kept s (.ok a)) p s) :
    Cautious respond allowed kept p.attempt s := by
  induction p generalizing s with
  | ret a => exact h
  | fail e => exact hfail s e
  | call c next ih => exact ⟨h.1, fun answer s' hresp => ih answer (h.2 answer s' hresp)⟩

/-! ## Surroundings that answer in one way -/

section RunWith

variable (hbehave : ∀ s c, respond s c (behave s c).1 (behave s c).2)

include hbehave

/-- A whole run is among the stops. -/
theorem Stops.runWith (p : Prog Answer ε α) (s : σ) : Stops respond s p (p.runWith behave s).2 := by
  induction p generalizing s with
  | ret | fail => exact .here
  | call c next ih => exact .call (hbehave s c) (ih _ _)

theorem Stops.stopAfter (n : Nat) (p : Prog Answer ε α) (s : σ) :
    Stops respond s p (p.stopAfter behave n s) := by
  induction p generalizing n s with
  | ret | fail => cases n <;> exact .here
  | call c next ih =>
    cases n with
    | zero => exact .here
    | succ n => exact .call (hbehave s c) (ih _ n _)

/-- It is a run alone. -/
theorem Runs.runWith (p : Prog Answer ε α) (s : σ) :
    Runs respond s p (p.eventsWith behave s) (p.runWith behave s).2 (p.runWith behave s).1 := by
  induction p generalizing s with
  | ret a => exact .ret
  | fail e => exact .fail
  | call c next ih => exact .call (hbehave s c) (ih _ _)

/-- What the judgement says about it. -/
theorem Always.runWith (h : Always respond inv post p s) :
    inv (p.runWith behave s).2 ∧ post (p.runWith behave s).2 (p.runWith behave s).1 := by
  exact h.runs (Runs.runWith hbehave p s)

/-- It makes the calls that `callsWith` lists. -/
theorem Makes.runWith (p : Prog Answer ε α) (s : σ) :
    Makes respond s p (p.callsWith behave s) (p.runWith behave s).2 := by
  induction p generalizing s with
  | ret | fail => exact .here
  | call c next ih => exact .call (hbehave s c) (ih _ _)

end RunWith

/-! ## Programs with few kinds of calls -/

/-- Every call of the program is one of those allowed, whatever it is answered. -/
abbrev Only (permitted : Call → Prop) (p : Prog Answer ε α) : Prop :=
  Cautious (fun _ _ _ _ => True) (fun (_ : Unit) c => permitted c) (fun _ _ => True) p ()

variable {permitted : Call → Prop}

theorem Only.bind (hp : Only permitted p) (hf : ∀ a, Only permitted (f a)) :
    Only permitted (p >>= f) :=
  Cautious.bind (Cautious.mono (fun _ a _ => hf a) hp)

theorem Only.ask (hc : permitted c) : Only permitted (Prog.ask c : Prog Answer ε (Answer c)) :=
  ⟨hc, fun _ _ _ => trivial⟩

theorem Only.ofExcept (r : Except ε α) : Only permitted (Prog.ofExcept r : Prog Answer ε α) := by
  cases r <;> trivial

end NrePlugins
