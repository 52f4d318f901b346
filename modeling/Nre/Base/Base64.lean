import Nre.Base.Bytes

/-!
# Standard Base64

`base64.StdEncoding` of Go: `encode` is `EncodeToString`, `decodeStrict` is
`Strict().DecodeString`, which skips line ends, wants the padding and rejects unused
bits that are not zero. `decodeStrict_encode` is the round trip.
-/

namespace NrePlugins.Base64

open List

/-- The character of a value below 64. -/
def symbol (v : Nat) : UInt8 :=
  if v < 26 then UInt8.ofNat (65 + v)
  else if v < 52 then UInt8.ofNat (71 + v)
  else if v < 62 then UInt8.ofNat (v - 4)
  else if v = 62 then ch '+'
  else ch '/'

/-- The value of a character. -/
def value (b : UInt8) : Option Nat :=
  if ch 'A' ≤ b ∧ b ≤ ch 'Z' then some (b.toNat - 65)
  else if ch 'a' ≤ b ∧ b ≤ ch 'z' then some (b.toNat - 71)
  else if ch '0' ≤ b ∧ b ≤ ch '9' then some (b.toNat + 4)
  else if b = ch '+' then some 62
  else if b = ch '/' then some 63
  else none

def pad : UInt8 := ch '='

def encode : Bytes → Bytes
  | [] => []
  | [a] => [symbol (a.toNat / 4), symbol (a.toNat % 4 * 16), pad, pad]
  | [a, b] =>
    [symbol (a.toNat / 4), symbol (a.toNat % 4 * 16 + b.toNat / 16), symbol (b.toNat % 16 * 4), pad]
  | a :: b :: c :: rest =>
    symbol (a.toNat / 4) :: symbol (a.toNat % 4 * 16 + b.toNat / 16) ::
      symbol (b.toNat % 16 * 4 + c.toNat / 64) :: symbol (c.toNat % 64) :: encode rest

/-- Two characters before two pads: one byte. -/
def decodeOne (p q : UInt8) : Option Bytes := do
  let p ← value p
  let q ← value q
  if q % 16 = 0 then some [UInt8.ofNat (p * 4 + q / 16)] else none

/-- Three characters before a pad: two bytes. -/
def decodeTwo (p q r : UInt8) : Option Bytes := do
  let p ← value p
  let q ← value q
  let r ← value r
  if r % 4 = 0 then some [UInt8.ofNat (p * 4 + q / 16), UInt8.ofNat (q % 16 * 16 + r / 4)] else none

/-- Four characters: three bytes. -/
def decodeQuad (p q r s : UInt8) : Option Bytes := do
  let p ← value p
  let q ← value q
  let r ← value r
  let s ← value s
  some [UInt8.ofNat (p * 4 + q / 16), UInt8.ofNat (q % 16 * 16 + r / 4),
    UInt8.ofNat (r % 4 * 64 + s)]

def decodeGroups : Bytes → Option Bytes
  | [] => some []
  | p :: q :: r :: s :: rest =>
    if s = pad then
      if rest ≠ [] then none else if r = pad then decodeOne p q else decodeTwo p q r
    else do
      let head ← decodeQuad p q r s
      let tail ← decodeGroups rest
      some (head ++ tail)
  | _ => none

/-- Line ends are skipped wherever they stand. -/
def isLineEnd (b : UInt8) : Bool := b == ch '\r' || b == ch '\n'

def decodeStrict (s : Bytes) : Option Bytes := decodeGroups (s.filter fun b => !isLineEnd b)

/-! ## Round trip -/

theorem symbol_facts : ∀ v : Fin 64,
    value (symbol v) = some v.val ∧ symbol v ≠ pad ∧ isLineEnd (symbol v) = false := by
  decide

theorem value_symbol {v : Nat} (h : v < 64) : value (symbol v) = some v :=
  (symbol_facts ⟨v, h⟩).1

theorem symbol_ne_pad {v : Nat} (h : v < 64) : symbol v ≠ pad :=
  (symbol_facts ⟨v, h⟩).2.1

theorem isLineEnd_symbol {v : Nat} (h : v < 64) : isLineEnd (symbol v) = false :=
  (symbol_facts ⟨v, h⟩).2.2

theorem ofNat_toNat_eq {a : UInt8} {n : Nat} (h : n = a.toNat) : UInt8.ofNat n = a := by
  rw [h]
  exact UInt8.ofNat_toNat

theorem decodeGroups_encode (s : Bytes) : decodeGroups (encode s) = some s := by
  induction s using encode.induct with
  | case1 => rfl
  | case2 a =>
    have ha := a.toNat_lt
    have hone : decodeOne (symbol (a.toNat / 4)) (symbol (a.toNat % 4 * 16)) = some [a] := by
      unfold decodeOne
      rw [value_symbol (by omega), value_symbol (by omega)]
      simp only [Option.bind_eq_bind, Option.bind_some]
      rw [if_pos (by omega), ofNat_toNat_eq (a := a) (by omega)]
    simpa [encode, decodeGroups] using hone
  | case3 a b =>
    have ha := a.toNat_lt
    have hb := b.toNat_lt
    have hpad : symbol (b.toNat % 16 * 4) ≠ pad := symbol_ne_pad (by omega)
    have htwo : decodeTwo (symbol (a.toNat / 4)) (symbol (a.toNat % 4 * 16 + b.toNat / 16))
        (symbol (b.toNat % 16 * 4)) = some [a, b] := by
      unfold decodeTwo
      rw [value_symbol (by omega), value_symbol (by omega), value_symbol (by omega)]
      simp only [Option.bind_eq_bind, Option.bind_some]
      rw [if_pos (by omega), ofNat_toNat_eq (a := a) (by omega), ofNat_toNat_eq (a := b) (by omega)]
    simpa [encode, decodeGroups, hpad] using htwo
  | case4 a b c rest ih =>
    have ha := a.toNat_lt
    have hb := b.toNat_lt
    have hc := c.toNat_lt
    have hpad : symbol (c.toNat % 64) ≠ pad := symbol_ne_pad (by omega)
    have hquad : decodeQuad (symbol (a.toNat / 4)) (symbol (a.toNat % 4 * 16 + b.toNat / 16))
        (symbol (b.toNat % 16 * 4 + c.toNat / 64)) (symbol (c.toNat % 64)) = some [a, b, c] := by
      unfold decodeQuad
      rw [value_symbol (by omega), value_symbol (by omega), value_symbol (by omega),
        value_symbol (by omega)]
      simp only [Option.bind_eq_bind, Option.bind_some]
      rw [ofNat_toNat_eq (a := a) (by omega), ofNat_toNat_eq (a := b) (by omega),
        ofNat_toNat_eq (a := c) (by omega)]
    rw [encode, decodeGroups, if_neg hpad, hquad, ih]
    rfl

/-- An encoding consists of characters of the alphabet and pads. -/
theorem forall_mem_encode {P : UInt8 → Prop} (hsymbol : ∀ v < 64, P (symbol v)) (hpad : P pad)
    (s : Bytes) : ∀ b ∈ encode s, P b := by
  fun_induction encode s with
  | case1 => nofun
  | case2 a =>
    have ha := a.toNat_lt
    simp only [forall_mem_cons]
    exact ⟨hsymbol _ (by omega), hsymbol _ (by omega), hpad, hpad, nofun⟩
  | case3 a b =>
    have ha := a.toNat_lt
    have hb := b.toNat_lt
    simp only [forall_mem_cons]
    exact ⟨hsymbol _ (by omega), hsymbol _ (by omega), hsymbol _ (by omega), hpad, nofun⟩
  | case4 a b c rest ih =>
    have ha := a.toNat_lt
    have hb := b.toNat_lt
    have hc := c.toNat_lt
    simp only [forall_mem_cons]
    exact ⟨hsymbol _ (by omega), hsymbol _ (by omega), hsymbol _ (by omega), hsymbol _ (by omega),
      ih⟩

/-- Other characters do not occur in an encoding. -/
theorem not_mem_encode {c : UInt8} (hvalue : value c = none) (hpad : c ≠ pad) (s : Bytes) :
    c ∉ encode s := by
  intro h
  refine forall_mem_encode (P := fun b => c ≠ b) ?_ hpad s c h rfl
  rintro v hv rfl
  simp [value_symbol hv] at hvalue

theorem encode_ne_nil {s : Bytes} (h : s ≠ []) : encode s ≠ [] := by
  match s with
  | [] => exact absurd rfl h
  | [_] | [_, _] | _ :: _ :: _ :: _ => simp [encode]

theorem filter_encode (s : Bytes) : ((encode s).filter fun b => !isLineEnd b) = encode s := by
  rw [filter_eq_self]
  refine forall_mem_encode (fun v hv => ?_) ?_ s
  · rw [isLineEnd_symbol hv]
    rfl
  · rfl

/-- Decoding inverts encoding. -/
theorem decodeStrict_encode (s : Bytes) : decodeStrict (encode s) = some s := by
  rw [decodeStrict, filter_encode, decodeGroups_encode]

end NrePlugins.Base64
