import Mathlib.Data.List.TakeWhile
import Nre.Base.Bytes

/-!
# Scanners

Hand-written parsers that move an offset through a byte string are read here as
computations over the bytes not yet consumed, with an error type of their own.

- `space`, `peek`, `take`, `expect`, `consume`: the steps such parsers share;
- `membersLoop`, `elementsLoop`: the loops over the members of an object and the elements
  of an array in which the closing bracket is looked for before every item;
- `string`, `object`: strings whose escapes are a parameter, and objects in which the
  closing brace is looked for after every member.

The `_eq_ok` rules say which texts a scanner accepts, and take a successful run apart; the
`_ok` rules give loops their invariants. The `_of_skip` rules run a scanner on a text whose
next token is known.
-/

namespace NrePlugins

open List

/-- A parser over the bytes left, with errors in `ε`. -/
abbrev Scanner (ε α : Type) := StateT Bytes (Except ε) α

/-- White space between tokens. -/
def isJsonSpace (b : UInt8) : Bool :=
  b == ch ' ' || b == 0x0a || b == 0x0d || b == 0x09

namespace Scanner

variable {ε α β σ : Type}

def space : Scanner ε Unit := fun input => .ok ((), input.dropWhile isJsonSpace)

def peek : Scanner ε (Option UInt8) := fun input => .ok (input.head?, input)

def take : Scanner ε (Option UInt8) := fun input => .ok (input.head?, input.tail)

/-- The next token is this byte. -/
def expect (error : ε) (c : UInt8) : Scanner ε Unit := do
  space
  if (← take) = some c then return () else throw error

/-- Take the byte if it is the next token. -/
def consume (c : UInt8) : Scanner ε Bool := do
  space
  if (← peek) = some c then
    let _ ← take
    return true
  else return false

def ofExcept : Except ε α → Scanner ε α
  | .ok a => pure a
  | .error e => throw e

/-! ## Taking a run apart -/

variable {p : Scanner ε α} {r : α × Bytes} {input rest : Bytes}

theorem bind_eq_ok {f : α → Scanner ε β} {r : β × Bytes} :
    (p >>= f) input = .ok r ↔ ∃ a rest, p input = .ok (a, rest) ∧ f a rest = .ok r := by
  show (p input >>= fun x => f x.1 x.2) = .ok r ↔ _
  rw [NrePlugins.bind_eq_ok]
  constructor
  · rintro ⟨⟨a, rest⟩, hp, hf⟩
    exact ⟨a, rest, hp, hf⟩
  · rintro ⟨a, rest, hp, hf⟩
    exact ⟨(a, rest), hp, hf⟩

theorem pure_eq_ok {a : α} : (pure a : Scanner ε α) input = .ok r ↔ r = (a, input) := by
  show Except.ok (a, input) = .ok r ↔ _
  rw [Except.ok.injEq, eq_comm]

/-- What was read is put into a value. -/
theorem map_eq_ok {f : α → β} {r : β × Bytes} :
    (p >>= fun a => pure (f a)) input = .ok r ↔ ∃ a rest, p input = .ok (a, rest) ∧
      r = (f a, rest) := by
  simp only [bind_eq_ok, pure_eq_ok]

theorem throw_ne_ok {e : ε} : (throw e : Scanner ε α) input ≠ .ok r := by
  intro h
  cases h

theorem ite_throw_eq_ok {c : Prop} [Decidable c] {e : ε} :
    (if c then throw e else p) input = .ok r ↔ ¬ c ∧ p input = .ok r := by
  split_ifs with hc
  · exact iff_of_false throw_ne_ok fun h => h.1 hc
  · exact (and_iff_right hc).symm

variable {c : UInt8} {fuel : Nat}

/-- The step between two items: a comma that is not followed by the closing bracket, or
the closing bracket itself, which stays. -/
def itemEnd (error : ε) (close : UInt8) : Scanner ε Unit := do
  space
  let next ← peek
  if next = some (ch ',') then
    let _ ← take
    space
    if (← peek) = some close then throw error else return ()
  else if next = some close then return ()
  else throw error

/-- The loop over the members of an object. `member` reads the value of a key and returns
the bit of the key, `seen` has the bits of the keys read so far. Each turn consumes a
key, so `fuel` is the number of bytes left. -/
def membersLoop (invalid duplicate : ε) (key : Scanner ε Bytes)
    (member : σ → Bytes → Scanner ε (σ × Nat)) : Nat → σ → Nat → Scanner ε (σ × Nat)
  | 0, _, _ => throw invalid
  | fuel + 1, s, seen => do
    if ← consume (ch '}') then return (s, seen)
    else
      let name ← key
      expect invalid (ch ':')
      let (s, bit) ← member s name
      if seen &&& bit ≠ 0 then throw duplicate
      else
        itemEnd invalid (ch '}')
        membersLoop invalid duplicate key member fuel s (seen ||| bit)

/-- The loop over the elements of an array. -/
def elementsLoop (invalid : ε) (element : σ → Scanner ε σ) : Nat → σ → Scanner ε σ
  | 0, _ => throw invalid
  | fuel + 1, s => do
    if ← consume (ch ']') then return s
    else
      let s ← element s
      itemEnd invalid (ch ']')
      elementsLoop invalid element fuel s

/-- What every member keeps, with the bits seen, the loop keeps. A member whose bit was
seen before ends the loop with an error, so nothing need be shown for it. -/
theorem membersLoop_ok {invalid duplicate : ε} {key : Scanner ε Bytes}
    {member : σ → Bytes → Scanner ε (σ × Nat)} {P : σ → Nat → Prop}
    (hstep : ∀ s seen name input s' bit rest, P s seen →
      member s name input = .ok ((s', bit), rest) → seen &&& bit = 0 → P s' (seen ||| bit))
    {s s' : σ} {seen seen' : Nat} (hs : P s seen)
    (h : membersLoop invalid duplicate key member fuel s seen input = .ok ((s', seen'), rest)) :
    P s' seen' := by
  induction fuel generalizing s seen input with
  | zero => exact absurd h throw_ne_ok
  | succ fuel ih =>
    obtain ⟨done, rest1, -, h⟩ := bind_eq_ok.mp h
    split_ifs at h
    · cases pure_eq_ok.mp h
      exact hs
    · obtain ⟨name, rest2, -, h⟩ := bind_eq_ok.mp h
      obtain ⟨-, rest3, -, h⟩ := bind_eq_ok.mp h
      obtain ⟨⟨t, bit⟩, rest4, hmember, h⟩ := bind_eq_ok.mp h
      obtain ⟨hbit, h⟩ := ite_throw_eq_ok.mp h
      obtain ⟨-, rest5, -, h⟩ := bind_eq_ok.mp h
      exact ih (hstep _ _ _ _ _ _ _ hs hmember (by simpa using hbit)) h

theorem elementsLoop_ok {invalid : ε} {element : σ → Scanner ε σ} {P : σ → Prop}
    (hstep : ∀ s input s' rest, P s → element s input = .ok (s', rest) → P s')
    {s s' : σ} (hs : P s)
    (h : elementsLoop invalid element fuel s input = .ok (s', rest)) : P s' := by
  induction fuel generalizing s input with
  | zero => exact absurd h throw_ne_ok
  | succ fuel ih =>
    obtain ⟨done, rest1, -, h⟩ := bind_eq_ok.mp h
    split_ifs at h
    · cases pure_eq_ok.mp h
      exact hs
    · obtain ⟨t, rest2, helement, h⟩ := bind_eq_ok.mp h
      obtain ⟨-, rest3, -, h⟩ := bind_eq_ok.mp h
      exact ih (hstep _ _ _ _ hs helement) h

/-! ## Strings -/

/-- What a byte of a string stands for, with the escape it may start. -/
def stringPiece (error : ε) (escape : Scanner ε Bytes) (raw : UInt8 → Bool) (c : UInt8) :
    Scanner ε Bytes :=
  if c = ch '\\' then escape else if raw c then pure [c] else throw error

/-- The rest of a string of fewer than `fuel` pieces. -/
def stringLoop (error : ε) (escape : Scanner ε Bytes) (raw : UInt8 → Bool) :
    Nat → Scanner ε Bytes
  | 0 => throw error
  | fuel + 1 => do
    match ← take with
    | none => throw error
    | some c =>
      if c = ch '"' then return []
      else
        let piece ← stringPiece error escape raw c
        let more ← stringLoop error escape raw fuel
        return piece ++ more

/-- A string of `capacity` pieces at most; `opening` is the error where there is none. -/
def string (opening error : ε) (escape : Scanner ε Bytes) (raw : UInt8 → Bool)
    (capacity : Option Nat) : Scanner ε Bytes := do
  space
  if (← take) = some (ch '"') then
    fun input => stringLoop error escape raw (capacity.getD input.length + 1) input
  else throw opening

variable {error opening : ε} {escape : Scanner ε Bytes} {raw : UInt8 → Bool}

/-- The members of an object that has some. -/
def objectLoop (error : ε) (member : σ → Scanner ε σ) : Nat → σ → Scanner ε σ
  | 0, _ => throw error
  | fuel + 1, s => do
    let s ← member s
    if ← consume (ch '}') then return s
    else
      expect error (ch ',')
      objectLoop error member fuel s

/-- An object in which the closing bracket is looked for after every member. -/
def object (error : ε) (member : σ → Scanner ε σ) (init : σ) : Scanner ε σ := do
  expect error (ch '{')
  if ← consume (ch '}') then return init
  else fun input => objectLoop error member (input.length + 1) init input

variable {member : σ → Scanner ε σ} {init : σ} {body : Bytes}

end Scanner

end NrePlugins
