import Nre.Base.Bytes

/-!
# Times as text

A time of Go's package `time` in UTC, to the second, with the two layouts in which the code
writes it and the one which it reads. `time.Parse` is as lenient as Go's: an hour may have one
digit, and a fraction of a second is skipped.
-/

namespace NrePlugins.GoTime

open List

def isLeap (year : Int) : Bool := year % 4 = 0 && (year % 100 ≠ 0 || year % 400 = 0)

def daysIn (month : Nat) (year : Int) : Nat :=
  if month = 2 then (if isLeap year then 29 else 28)
  else if month = 4 ∨ month = 6 ∨ month = 9 ∨ month = 11 then 30
  else 31

/-- A second of the calendar. -/
structure Instant where
  year : Int
  month : Nat
  day : Nat
  hour : Nat
  minute : Nat
  second : Nat
  month_pos : 1 ≤ month
  month_le : month ≤ 12
  day_pos : 1 ≤ day
  day_le : day ≤ daysIn month year
  hour_lt : hour < 24
  minute_lt : minute < 60
  second_lt : second < 60

/-! ## Writing -/

def two (n : Nat) : Bytes := [digit (n / 10 % 10), digit (n % 10)]

/-- At least four digits. -/
def four (n : Nat) : Bytes := if n < 10000 then two (n / 100) ++ two (n % 100) else itoa n

def yearText (year : Int) : Bytes :=
  if year < 0 then ch '-' :: four year.natAbs else four year.natAbs

/-- `Format(time.RFC3339)`. -/
def Instant.rfc3339 (t : Instant) : Bytes :=
  yearText t.year ++ ch '-' :: (two t.month ++ ch '-' :: (two t.day ++ ch 'T' ::
    (two t.hour ++ ch ':' :: (two t.minute ++ ch ':' :: (two t.second ++ [ch 'Z'])))))

/-- `Format("20060102T150405Z")`. -/
def Instant.compact (t : Instant) : Bytes :=
  yearText t.year ++ two t.month ++ two t.day ++ ch 'T' ::
    (two t.hour ++ two t.minute ++ two t.second ++ [ch 'Z'])

/-! ## Reading -/

/-- A number of exactly `k` digits. -/
def number (k : Nat) (s : Bytes) : Option (Nat × Bytes) :=
  if k ≤ s.length ∧ (s.take k).all isDigit then some (digitsVal (s.take k), s.drop k) else none

def expect (c : UInt8) : Bytes → Option Bytes
  | b :: rest => if b = c then some rest else none
  | [] => none

/-- The hour: one digit will do. -/
def hourNumber (s : Bytes) : Option (Nat × Bytes) := number 2 s <|> number 1 s

/-- A fraction of a second is skipped. -/
def skipFraction : Bytes → Bytes
  | c :: d :: rest =>
    if (c = ch '.' ∨ c = ch ',') ∧ isDigit d then rest.dropWhile isDigit else c :: d :: rest
  | s => s

def validZone : Bytes → Bool
  | [c] => c = ch 'Z'
  | [sign, h₁, h₂, colon, m₁, m₂] =>
    (sign = ch '+' || sign = ch '-') && colon = ch ':' && [h₁, h₂, m₁, m₂].all isDigit &&
      digitsVal [h₁, h₂] ≤ 24 && digitsVal [m₁, m₂] ≤ 60
  | _ => false

/-- `time.Parse(time.RFC3339, s)` succeeds. -/
def parses (s : Bytes) : Bool :=
  (do
    let (year, s) ← number 4 s
    let (month, s) ← number 2 (← expect (ch '-') s)
    let (day, s) ← number 2 (← expect (ch '-') s)
    let (hour, s) ← hourNumber (← expect (ch 'T') s)
    let (minute, s) ← number 2 (← expect (ch ':') s)
    let (second, s) ← number 2 (← expect (ch ':') s)
    return decide (1 ≤ month ∧ month ≤ 12 ∧ 1 ≤ day ∧ day ≤ daysIn month year ∧ hour < 24 ∧
      minute < 60 ∧ second < 60) && validZone (skipFraction s)) = some true

/-! ## What is written is read -/

theorem number_append {k : Nat} {d : Bytes} (hlen : d.length = k) (hall : d.all isDigit = true)
    (rest : Bytes) : number k (d ++ rest) = some (digitsVal d, rest) := by
  subst hlen
  rw [number, take_left, drop_left, if_pos ⟨by simp, hall⟩]

theorem two_all (n : Nat) : (two n).all isDigit = true := by
  have h₁ : isDigit (digit (n / 10 % 10)) = true := isDigit_digit (Nat.mod_lt _ (by decide))
  have h₂ : isDigit (digit (n % 10)) = true := isDigit_digit (Nat.mod_lt _ (by decide))
  simp [two, h₁, h₂]

theorem digitsVal_two {n : Nat} (h : n < 100) : digitsVal (two n) = n := by
  have h₁ := toNat_digit (Nat.mod_lt (n / 10) (by decide : 10 > 0))
  have h₂ := toNat_digit (Nat.mod_lt n (by decide : 10 > 0))
  simp only [digitsVal, two, foldl_cons, foldl_nil, h₁, h₂]
  omega

theorem number_two {n : Nat} (h : n < 100) (rest : Bytes) :
    number 2 (two n ++ rest) = some (n, rest) := by
  rw [number_append (k := 2) rfl (two_all n), digitsVal_two h]

theorem number_four {n : Nat} (h : n < 10000) (rest : Bytes) :
    number 4 (four n ++ rest) = some (n, rest) := by
  have hval : digitsVal (two (n / 100) ++ two (n % 100)) = n := by
    have h₁ := digitsVal_two (show n / 100 < 100 by omega)
    have h₂ := digitsVal_two (show n % 100 < 100 by omega)
    simp only [digitsVal, two, foldl_cons, foldl_nil, foldl_append] at h₁ h₂ ⊢
    omega
  rw [four, if_pos h, number_append (k := 4) rfl (by rw [all_append, two_all, two_all]; rfl), hval]

@[simp] theorem expect_self (c : UInt8) (rest : Bytes) : expect c (c :: rest) = some rest :=
  if_pos rfl

/-- A separator and a field of two digits. -/
theorem field_append {α : Type} {c : UInt8} {n : Nat} (h : n < 100) (rest : Bytes)
    (f : Nat × Bytes → Option α) :
    ((expect c (c :: (two n ++ rest))).bind fun text => (number 2 text).bind f) = f (n, rest) := by
  rw [expect_self, Option.bind_some, number_two h, Option.bind_some]

theorem daysIn_le (month : Nat) (year : Int) : daysIn month year ≤ 31 := by
  unfold daysIn
  split_ifs <;> decide

/-- A time of a year with four digits is read back. -/
theorem Instant.parses_rfc3339 (t : Instant) (hpos : 0 ≤ t.year) (hlt : t.year < 10000) :
    parses t.rfc3339 = true := by
  obtain ⟨year, hyear⟩ := Int.eq_ofNat_of_zero_le hpos
  have hday := t.day_le
  have hday' := daysIn_le t.month t.year
  have hmonth := t.month_le
  have hhour := t.hour_lt
  have hminute := t.minute_lt
  have hsecond := t.second_lt
  have hrange : 1 ≤ t.month ∧ t.month ≤ 12 ∧ 1 ≤ t.day ∧ t.day ≤ daysIn t.month year ∧
      t.hour < 24 ∧ t.minute < 60 ∧ t.second < 60 :=
    ⟨t.month_pos, hmonth, t.day_pos, hyear ▸ hday, hhour, hminute, hsecond⟩
  have htext : yearText t.year = four year := by
    rw [yearText, hyear]
    rfl
  have hzone : validZone (skipFraction [ch 'Z']) = true := by decide
  have hhours : hourNumber (two t.hour ++ ch ':' ::
      (two t.minute ++ ch ':' :: (two t.second ++ [ch 'Z']))) =
      some (t.hour, ch ':' :: (two t.minute ++ ch ':' :: (two t.second ++ [ch 'Z']))) := by
    rw [hourNumber, number_two (by omega)]
    rfl
  unfold parses Instant.rfc3339
  refine decide_eq_true ?_
  simp only [Option.bind_eq_bind]
  rw [htext, number_four (by omega), Option.bind_some]
  dsimp only
  rw [field_append (show t.month < 100 by omega)]
  rw [field_append (show t.day < 100 by omega)]
  rw [expect_self, Option.bind_some, hhours, Option.bind_some]
  rw [field_append (show t.minute < 100 by omega)]
  rw [field_append (show t.second < 100 by omega)]
  rw [hzone, Bool.and_true]
  exact congrArg some (decide_eq_true hrange)

end NrePlugins.GoTime
