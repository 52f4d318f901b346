import Mathlib.Data.List.Infix
import Mathlib.Data.List.Lex
import Mathlib.Data.List.Pairwise
import Mathlib.Data.List.Sort
import Mathlib.Tactic.Ring

/-!
# Byte strings

Go's `[]byte` and `string` and Rust's `&[u8]` and `&str` are all read here as
the list of their bytes. This file has what the models share:

- `ascii`, `utf8`, `ch`: literals;
- `beBytes`, `readBE`: fixed-width big-endian integers (`encoding/binary`);
- `indexByte`, `lastIndexByte`: the two scans of Go's `bytealg`;
- `itoa`, `parseUint`: decimal text (`strconv`).
-/

namespace NrePlugins

open List

/-- A byte string. -/
abbrev Bytes := List UInt8

instance lawfulBytes : LawfulBEq Bytes := inferInstance

/-- The byte of an ASCII character. -/
abbrev ch (c : Char) : UInt8 := c.toUInt8

/-- The bytes of an ASCII literal. -/
def ascii (s : String) : Bytes := s.toList.map ch

/-- The bytes of any literal. -/
def utf8 (s : String) : Bytes := s.toList.flatMap String.utf8EncodeChar

/-- The Go slice `s[i:j]`. -/
def slice (s : Bytes) (i j : Nat) : Bytes := (s.take j).drop i

variable {s : Bytes} {c : UInt8} {i j : Nat}

theorem length_slice (h : j ≤ s.length) : (slice s i j).length = j - i := by
  rw [slice, length_drop, length_take, Nat.min_eq_left h]

/-- A slice that starts after a head. -/
theorem slice_append (a s : Bytes) (n : Nat) :
    slice (a ++ s) a.length (a.length + n) = s.take n := by
  rw [slice, take_length_add_append, drop_left]

/-- The slice between a head and a tail. -/
theorem slice_mid {a m : Bytes} (hi : a.length = i) (hj : i + m.length = j) :
    slice (a ++ m ++ s) i j = m := by
  subst hi hj
  rw [append_assoc, slice_append, take_left]

variable {n : Nat}

/-- A slice does not see what follows its end. -/
theorem slice_take (h : j ≤ n) : slice (s.take n) i j = slice s i j := by
  rw [slice, slice, take_take, Nat.min_eq_left h]

@[simp] theorem slice_self (s : Bytes) (i : Nat) : slice s i i = [] := by
  rw [slice, drop_eq_nil_iff, length_take]
  exact Nat.min_le_left _ _

/-- Two slices that meet. -/
theorem slice_append_slice {k : Nat} (hij : i ≤ j) (hjk : j ≤ k) :
    slice s i j ++ slice s j k = slice s i k := by
  have hsplit : k - i = (j - i) + (k - j) := by omega
  have hmid : i + (j - i) = j := by omega
  simp only [slice, drop_take]
  rw [hsplit, take_add, drop_drop, hmid]

/-- A statement about all bytes is a finite check. -/
instance decidableForallByte {p : UInt8 → Prop} [DecidablePred p] : Decidable (∀ b, p b) :=
  decidable_of_iff (∀ n : Fin 256, p (UInt8.ofNat n)) <| by
    refine ⟨fun h b => ?_, fun h n => h _⟩
    have hb := h ⟨b.toNat, b.toNat_lt⟩
    rwa [UInt8.ofNat_toNat] at hb

/-! ## Fallible code -/

/-- A step after another returns exactly when both do. -/
theorem bind_eq_ok {ε α β : Type} {x : Except ε α} {f : α → Except ε β} {b : β} :
    (x >>= f) = .ok b ↔ ∃ a, x = .ok a ∧ f a = .ok b := by
  cases x with
  | error err =>
    constructor
    · intro h
      cases h
    · rintro ⟨a, ha, -⟩
      cases ha
  | ok a =>
    refine ⟨fun h => ⟨a, rfl, h⟩, ?_⟩
    rintro ⟨a', ha, h⟩
    cases ha
    exact h

/-- Whether code returns something with a property can be computed. -/
instance decidableExistsOk {ε α : Type} (x : Except ε α) (p : α → Prop) [DecidablePred p] :
    Decidable (∃ a, x = .ok a ∧ p a) :=
  match x with
  | .ok a => decidable_of_iff (p a) (by simp)
  | .error _ => .isFalse (by simp)

/-- A check that passed. -/
theorem ite_error_eq_ok {ε α : Type} {p : Prop} [Decidable p] {e : ε} {x : Except ε α} {a : α} :
    (if p then .error e else x) = .ok a ↔ ¬ p ∧ x = .ok a := by
  by_cases hp : p
  · simp [hp]
  · simp [hp]

/-- What every turn of a fallible loop keeps, the loop keeps. -/
theorem foldlM_ok {ε α β : Type} {f : β → α → Except ε β} {P : β → Prop} {l : List α} {b b' : β}
    (hstep : ∀ b a b', a ∈ l → P b → f b a = .ok b' → P b') (hb : P b)
    (h : l.foldlM f b = .ok b') : P b' := by
  induction l generalizing b with
  | nil =>
    cases h
    exact hb
  | cons a rest ih =>
    obtain ⟨c, hc, h⟩ := bind_eq_ok.mp h
    exact ih (fun b a' b' ha' => hstep b a' b' (mem_cons_of_mem _ ha'))
      (hstep b a c mem_cons_self hb hc) h

/-! ## Big-endian integers -/

/-- `binary.BigEndian.PutUint…`: the low `w` bytes of `n`, most significant
first. -/
def beBytes : Nat → Nat → Bytes
  | 0, _ => []
  | w + 1, n => UInt8.ofNat (n / 256 ^ w) :: beBytes w n

/-- `binary.BigEndian.Uint…`: the value of a big-endian byte string. -/
def readBE (b : Bytes) : Nat := b.foldl (fun acc x => acc * 256 + x.toNat) 0

@[simp] theorem length_beBytes (w n : Nat) : (beBytes w n).length = w := by
  induction w with
  | zero => rfl
  | succ w ih => simp [beBytes, ih]

theorem readBE_foldl (b : Bytes) (acc : Nat) :
    b.foldl (fun acc x => acc * 256 + x.toNat) acc = acc * 256 ^ b.length + readBE b := by
  induction b generalizing acc with
  | nil => simp [readBE]
  | cons x b ih =>
    have hx : readBE (x :: b) = x.toNat * 256 ^ b.length + readBE b := by
      rw [← ih x.toNat]
      simp [readBE]
    rw [foldl_cons, ih, hx, length_cons]
    ring

theorem readBE_cons (x : UInt8) (b : Bytes) :
    readBE (x :: b) = x.toNat * 256 ^ b.length + readBE b := by
  rw [readBE, foldl_cons, readBE_foldl]
  simp

/-- Reading back what was written gives the value modulo the width. -/
theorem readBE_beBytes (w n : Nat) : readBE (beBytes w n) = n % 256 ^ w := by
  induction w with
  | zero => simp [beBytes, readBE, Nat.mod_one]
  | succ w ih =>
    have hx : (UInt8.ofNat (n / 256 ^ w)).toNat = n / 256 ^ w % 256 := by simp
    rw [beBytes, readBE_cons, ih, length_beBytes, hx, Nat.pow_succ, Nat.mod_mul]
    ring

theorem readBE_lt (b : Bytes) : readBE b < 256 ^ b.length := by
  induction b with
  | nil => simp [readBE]
  | cons x b ih =>
    have hx : x.toNat < 256 := x.toNat_lt
    rw [readBE_cons, length_cons]
    calc x.toNat * 256 ^ b.length + readBE b
        < x.toNat * 256 ^ b.length + 256 ^ b.length := by omega
      _ = (x.toNat + 1) * 256 ^ b.length := by ring
      _ ≤ 256 * 256 ^ b.length := Nat.mul_le_mul_right _ (by omega)
      _ = 256 ^ b.length * 256 := by ring

/-- A field of `n` bytes holds a number of as many bytes. -/
theorem readBE_slice_lt (s : Bytes) (i n : Nat) : readBE (slice s i (i + n)) < 256 ^ n := by
  refine (readBE_lt _).trans_le (Nat.pow_le_pow_right (by decide) ?_)
  rw [slice, drop_take, length_take]
  omega

/-! ## Scans -/

/-- `bytealg.IndexByteString`: the first position of `c`. -/
def indexByte (s : Bytes) (c : UInt8) : Option Nat := s.findIdx? (· == c)

/-- `bytealg.LastIndexByteString`: the last position of `c`. -/
def lastIndexByte : Bytes → UInt8 → Option Nat
  | [], _ => none
  | b :: rest, c =>
    match lastIndexByte rest c with
    | some i => some (i + 1)
    | none => if b = c then some 0 else none

theorem lastIndexByte_eq_none (h : c ∉ s) : lastIndexByte s c = none := by
  induction s with
  | nil => rfl
  | cons b s ih =>
    have hb : b ≠ c := fun hbc => h (by simp [hbc])
    have hs : c ∉ s := fun hs => h (mem_cons_of_mem _ hs)
    rw [lastIndexByte, ih hs, if_neg hb]

/-- The last occurrence stands before a `c`-free tail. -/
theorem lastIndexByte_append {t : Bytes} (h : c ∉ t) :
    lastIndexByte (s ++ c :: t) c = some s.length := by
  induction s with
  | nil => simp [lastIndexByte, lastIndexByte_eq_none h]
  | cons b s ih => simp [lastIndexByte, ih]

theorem indexByte_eq_none (h : c ∉ s) : indexByte s c = none := by
  rw [indexByte, findIdx?_eq_none_iff]
  intro x hx
  simpa using fun hxc : x = c => h (hxc ▸ hx)

/-- The first occurrence stands after a `c`-free head. -/
theorem indexByte_append {t : Bytes} (h : c ∉ s) : indexByte (s ++ c :: t) c = some s.length := by
  rw [indexByte, findIdx?_append, ← indexByte, indexByte_eq_none h]
  simp [findIdx?_cons]

/-- Before the first occurrence there is none. -/
theorem indexByte_some (h : indexByte s c = some i) : c ∉ s.take i := by
  rw [indexByte, findIdx?_eq_some_iff_getElem] at h
  obtain ⟨hi, -, hbefore⟩ := h
  intro hmem
  obtain ⟨j, hj, hc⟩ := mem_take_iff_getElem.mp hmem
  have hne := hbefore j (by omega)
  simp only [Bool.not_eq_true, beq_eq_false_iff_ne, ne_eq] at hne
  exact hne hc

/-! ## Decimal text -/

/-- Is the byte a decimal digit? -/
def isDigit (b : UInt8) : Bool := ch '0' ≤ b && b ≤ ch '9'

/-- The digit of a value below ten. -/
def digit (n : Nat) : UInt8 := UInt8.ofNat (48 + n)

/-- Decimal digits of `n`, with `fuel` bounding their number. -/
def itoaLoop : Nat → Nat → Bytes
  | 0, _ => []
  | fuel + 1, n => if n < 10 then [digit n] else itoaLoop fuel (n / 10) ++ [digit (n % 10)]

/-- `strconv.Itoa` on a non-negative value. -/
def itoa (n : Nat) : Bytes := itoaLoop (n + 1) n

/-- The value of a string of decimal digits. -/
def digitsVal (s : Bytes) : Nat := s.foldl (fun acc b => acc * 10 + (b.toNat - 48)) 0

/-- `strconv.ParseUint(s, 10, 16)`: digits only, at most `0xffff`. -/
def parseUint16 (s : Bytes) : Option Nat :=
  if s ≠ [] ∧ s.all isDigit ∧ digitsVal s < 65536 then some (digitsVal s) else none

theorem parseUint16_lt (h : parseUint16 s = some n) : n < 65536 := by
  rw [parseUint16] at h
  split_ifs at h with hs
  cases h
  exact hs.2.2

theorem isDigit_digit (h : n < 10) : isDigit (digit n) = true := by
  revert n
  decide

theorem toNat_digit (h : n < 10) : (digit n).toNat = 48 + n := by
  have : 48 + n < 256 := by omega
  simp [digit, Nat.mod_eq_of_lt this]

theorem digitsVal_append (s : Bytes) (b : UInt8) :
    digitsVal (s ++ [b]) = digitsVal s * 10 + (b.toNat - 48) := by
  simp [digitsVal]

/-- With enough fuel, `itoaLoop` writes digits whose value is `n`. -/
theorem itoaLoop_spec (fuel n : Nat) (h : n < fuel) :
    itoaLoop fuel n ≠ [] ∧ (itoaLoop fuel n).all isDigit = true ∧
      digitsVal (itoaLoop fuel n) = n := by
  induction fuel generalizing n with
  | zero => omega
  | succ fuel ih =>
    rw [itoaLoop]
    split
    case isTrue hn =>
      refine ⟨by simp, by simp [isDigit_digit hn], ?_⟩
      simp [digitsVal, toNat_digit hn]
    case isFalse hn =>
      obtain ⟨-, hall, hval⟩ := ih (n / 10) (by omega)
      have hm : n % 10 < 10 := Nat.mod_lt _ (by decide)
      refine ⟨by simp, ?_, ?_⟩
      · rw [all_append, hall]
        simp [isDigit_digit hm]
      · rw [digitsVal_append, toNat_digit hm]
        omega

theorem itoa_spec (n : Nat) : itoa n ≠ [] ∧ (itoa n).all isDigit = true ∧ digitsVal (itoa n) = n :=
  itoaLoop_spec (n + 1) n (Nat.lt_succ_self n)

/-- A 16-bit value survives its decimal text. -/
theorem parseUint16_itoa (h : n < 65536) : parseUint16 (itoa n) = some n := by
  obtain ⟨hne, hall, hval⟩ := itoa_spec n
  rw [parseUint16, hval, if_pos ⟨hne, hall, h⟩]

/-- No byte outside the digits occurs in a decimal text. -/
theorem not_mem_itoa (hc : isDigit c = false) : c ∉ itoa n := by
  intro hmem
  have hall := (itoa_spec n).2.1
  rw [all_eq_true] at hall
  simp [hall c hmem] at hc

/-! ## Code that reads from a connection

A function that calls `io.ReadFull` several times and may block in each of them
is a tree: it returns, or it needs a number of bytes and goes on with them, or
with `none` when the connection ends first. A scheduler can then run it one read
at a time, and `ReadProg.run` says whether the bytes that have arrived suffice.
-/

/-- A resumable reader with result in `α`. -/
inductive ReadProg (α : Type) where
  | ret (value : α)
  | need (n : Nat) (next : Option Bytes → ReadProg α)

namespace ReadProg

variable {α β : Type}

/-- Apply a function to the result. -/
def map (f : α → β) : ReadProg α → ReadProg β
  | .ret value => .ret (f value)
  | .need n next => .need n fun data => (next data).map f

/-- The result and the rest of the bytes, if the reader finishes on them. -/
def run : ReadProg α → Bytes → Option (α × Bytes)
  | .ret value, input => some (value, input)
  | .need n next, input =>
    if n ≤ input.length then (next (some (input.take n))).run (input.drop n) else none

/-- Bytes that arrive later do not change what was already complete. -/
theorem run_append {prog : ReadProg α} {input rest : Bytes} {value : α}
    (h : prog.run input = some (value, rest)) (more : Bytes) :
    prog.run (input ++ more) = some (value, rest ++ more) := by
  induction prog generalizing input with
  | ret v =>
    cases h
    rfl
  | need n next ih =>
    rw [run] at h
    split_ifs at h with hn
    rw [run, if_pos (by rw [List.length_append]; omega), List.take_append_of_le_length hn,
      List.drop_append_of_le_length hn]
    exact ih _ h

end ReadProg

end NrePlugins
