import Nre.Base.GoStrings

/-!
# The wire format of the policy ABI

Model of `wire.rs`, `reason.rs` and `WireLimits` of `budget.rs`: a protobuf reader
and writer that allocate nothing, with a bound on the bytes of a frame and on the
number of fields read from one message.

- `readVarint`, `readField`: what `WireCursor::next_field` reads;
- `fieldsLoop`, `forEachField`: the loop `while let Some(field) = cursor.next_field()?`
  of every decoder, with the field budget;
- `FrameWriter`: the writer over a buffer of a given capacity.

`readField_encode` says that the reader inverts the writer, `fieldsLoop_encode` that
a decoder sees exactly the fields of a frame as long as its budget lasts, and `Emits`
what a writer operation appends.
-/

namespace NrePlugins.PolicyGuest

open List

variable {σ : Type}

/-! ## Errors -/

inductive AbiStatus where
  | ok | invalidArgument | permissionDenied | resourceExhausted | deadlineExceeded | unavailable
  | incompatibleAbi | internal
  deriving DecidableEq

def AbiStatus.toU32 : AbiStatus → Nat
  | ok => 0
  | invalidArgument => 1
  | permissionDenied => 2
  | resourceExhausted => 3
  | deadlineExceeded => 4
  | unavailable => 5
  | incompatibleAbi => 6
  | internal => 7

def AbiStatus.fromU32 : Nat → Option AbiStatus
  | 0 => some ok
  | 1 => some invalidArgument
  | 2 => some permissionDenied
  | 3 => some resourceExhausted
  | 4 => some deadlineExceeded
  | 5 => some unavailable
  | 6 => some incompatibleAbi
  | 7 => some internal
  | _ => none

inductive ReasonCode where
  | invalidWire | nonCanonicalWire | invalidUtf8 | duplicateField | missingResult
  | conflictingResult | inputBudgetExceeded | outputBudgetExceeded | fieldBudgetExceeded
  | hostCallBudgetExceeded | hostResponseBudgetExceeded | unknownHostStatus | hostInvalidArgument
  | hostPermissionDenied | hostResourceExhausted | hostDeadlineExceeded | hostUnavailable
  | hostIncompatibleAbi | hostInternal | invalidAction | invalidRuntimeError
  | invalidResourceBudget
  deriving DecidableEq

structure GuestError where
  status : AbiStatus
  reason : ReasonCode
  deriving DecidableEq

def invalidWire : GuestError := ⟨.invalidArgument, .invalidWire⟩

def outputExhausted : GuestError := ⟨.resourceExhausted, .outputBudgetExceeded⟩

def fieldBudgetExceeded : GuestError := ⟨.resourceExhausted, .fieldBudgetExceeded⟩

/-- Limits of one cursor. -/
structure WireLimits where
  maxFrameBytes : Nat
  maxFields : Nat

def maxInputFrameBytes : Nat := 131072

def maxOutputFrameBytes : Nat := 4096

def WireLimits.policyOutput : WireLimits := ⟨maxOutputFrameBytes, 64⟩

def maxFieldNumber : Nat := 2 ^ 29 - 1

/-! ## Varints -/

/-- The loop of `read_varint`. The groups of seven bits do not overlap, so `|` of the
shifted groups is their sum. -/
def readVarintLoop : Nat → Nat → Nat → Bytes → Except GuestError (Nat × Bytes)
  | 0, _, _, _ => .error invalidWire
  | _ + 1, _, _, [] => .error invalidWire
  | turns + 1, index, value, byte :: rest =>
    if index = 9 ∧ 1 < byte then .error invalidWire
    else if byte < 0x80 then
      if 0 < index ∧ byte = 0 then .error ⟨.invalidArgument, .nonCanonicalWire⟩
      else .ok (value + byte.toNat % 128 * 128 ^ index, rest)
    else readVarintLoop turns (index + 1) (value + byte.toNat % 128 * 128 ^ index) rest

/-- `read_varint`: the value and the bytes after it. -/
def readVarint (input : Bytes) : Except GuestError (Nat × Bytes) := readVarintLoop 10 0 0 input

/-- The loop of `write_varint`. -/
def varintLoop : Nat → Nat → Bytes
  | 0, _ => []
  | turns + 1, value =>
    if value / 128 = 0 then [UInt8.ofNat (value % 128)]
    else UInt8.ofNat (value % 128 + 128) :: varintLoop turns (value / 128)

/-- The bytes of `write_varint`; ten groups of seven bits hold any `u64`. -/
def varint (value : Nat) : Bytes := varintLoop 10 value

/-- The loop of `varint_len`. -/
def varintLenLoop : Nat → Nat → Nat
  | 0, _ => 0
  | turns + 1, value => if 128 ≤ value then varintLenLoop turns (value / 128) + 1 else 1

/-- `varint_len`. -/
def varintLen (value : Nat) : Nat := varintLenLoop 10 value

theorem length_varintLoop (turns value : Nat) :
    (varintLoop turns value).length = varintLenLoop turns value := by
  induction turns generalizing value with
  | zero => rfl
  | succ turns ih =>
    rw [varintLoop, varintLenLoop]
    by_cases h : 128 ≤ value
    · rw [if_pos h, if_neg (by omega), length_cons, ih]
    · rw [if_neg h, if_pos (by omega)]
      rfl

@[simp] theorem length_varint (value : Nat) : (varint value).length = varintLen value :=
  length_varintLoop 10 value

variable {value : Nat}

/-- A value of at most `n` groups takes at most `n` bytes. -/
theorem varintLenLoop_le {turns n : Nat} (hn : 0 < n) (h : value < 128 ^ n) :
    varintLenLoop turns value ≤ n := by
  induction turns generalizing value n with
  | zero => exact Nat.zero_le n
  | succ turns ih =>
    rw [varintLenLoop]
    by_cases hv : 128 ≤ value
    · obtain ⟨m, rfl⟩ : ∃ m, n = m + 1 := ⟨n - 1, by omega⟩
      have hm : 0 < m := by
        rcases Nat.eq_zero_or_pos m with rfl | hm
        · omega
        · exact hm
      rw [if_pos hv]
      have := ih hm (Nat.div_lt_of_lt_mul (by rw [Nat.mul_comm, ← Nat.pow_succ]; exact h))
      omega
    · rw [if_neg hv]
      exact hn

theorem varintLen_le {n : Nat} (hn : 0 < n) (h : value < 128 ^ n) : varintLen value ≤ n :=
  varintLenLoop_le hn h

theorem varint_ne_nil (value : Nat) : varint value ≠ [] := by
  rw [varint, varintLoop]
  split_ifs <;> exact cons_ne_nil _ _

/-- The reader's loop inverts the writer's, from any group on. Beyond the first group
the value is not zero, which is what the check for canonical form wants. -/
theorem readVarintLoop_varintLoop {turns index : Nat} (acc : Nat) (rest : Bytes)
    (hturns : turns + index = 10) (hindex : index ≤ 9) (hvalue : value * 128 ^ index < 2 ^ 64)
    (hpos : 0 < index → value ≠ 0) :
    readVarintLoop turns index acc (varintLoop turns value ++ rest) =
      .ok (acc + value * 128 ^ index, rest) := by
  induction turns generalizing index value acc with
  | zero => omega
  | succ turns ih =>
    have hlast : index = 9 → value ≤ 1 := by
      rintro rfl
      by_contra hv
      have : 2 * 128 ^ 9 ≤ value * 128 ^ 9 := Nat.mul_le_mul_right _ (by omega)
      omega
    rw [varintLoop]
    by_cases hv : value / 128 = 0
    · -- the last group
      have hmod : value % 128 = value := Nat.mod_eq_of_lt (by omega)
      have hbyte : (UInt8.ofNat value).toNat = value := by
        rw [UInt8.toNat_ofNat']
        omega
      rw [if_pos hv, hmod, singleton_append, readVarintLoop]
      simp only [UInt8.lt_iff_toNat_lt, ← UInt8.toNat_inj, hbyte, hmod, UInt8.reduceToNat]
      rw [if_neg (by omega), if_pos (by omega), if_neg (fun h => hpos h.1 h.2)]
    · -- a group with the continuation bit
      have hbyte : (UInt8.ofNat (value % 128 + 128)).toNat = value % 128 + 128 := by
        rw [UInt8.toNat_ofNat']
        omega
      have hmod : (value % 128 + 128) % 128 = value % 128 := by omega
      have hsplit : value % 128 * 128 ^ index + value / 128 * 128 ^ (index + 1) =
          value * 128 ^ index := by
        have hdiv := Nat.mod_add_div value 128
        calc value % 128 * 128 ^ index + value / 128 * 128 ^ (index + 1)
            = (value % 128 + 128 * (value / 128)) * 128 ^ index := by ring
          _ = value * 128 ^ index := by rw [hdiv]
      rw [if_neg hv, cons_append, readVarintLoop]
      simp only [UInt8.lt_iff_toNat_lt, hbyte, hmod, UInt8.reduceToNat]
      rw [if_neg (by omega), if_neg (by omega),
        ih _ (by omega) (by omega) (by omega) (fun _ => hv), Nat.add_assoc, hsplit]

/-- Reading back a varint. -/
theorem readVarint_varint (h : value < 2 ^ 64) (rest : Bytes) :
    readVarint (varint value ++ rest) = .ok (value, rest) := by
  rw [readVarint, varint,
    readVarintLoop_varintLoop 0 rest rfl (by omega) (by simpa using h) (fun h => absurd h (by omega))]
  simp

/-! ## Fields -/

inductive FieldValue where
  | varint (value : Nat)
  | fixed64 (data : Bytes)
  | bytes (data : Bytes)
  | fixed32 (data : Bytes)
  deriving DecidableEq

structure Field where
  number : Nat
  value : FieldValue

/-- `read_slice`. -/
def readSlice (input : Bytes) (length : Nat) : Except GuestError (Bytes × Bytes) :=
  if length ≤ input.length then .ok (input.take length, input.drop length)
  else .error invalidWire

/-- The value after a tag with the given wire type. -/
def readValue (wireType : Nat) (input : Bytes) : Except GuestError (FieldValue × Bytes) :=
  match wireType with
  | 0 => do
    let (value, rest) ← readVarint input
    return (.varint value, rest)
  | 1 => do
    let (value, rest) ← readSlice input 8
    return (.fixed64 value, rest)
  | 2 => do
    let (length, rest) ← readVarint input
    let (value, rest) ← readSlice rest length
    return (.bytes value, rest)
  | 5 => do
    let (value, rest) ← readSlice input 4
    return (.fixed32 value, rest)
  | _ => .error invalidWire

/-- The part of `next_field` after the budget check: a tag and its value. -/
def readField (input : Bytes) : Except GuestError (Field × Bytes) := do
  let (tag, rest) ← readVarint input
  if tag / 8 = 0 ∨ maxFieldNumber < tag / 8 then .error invalidWire
  else
    let (value, rest) ← readValue (tag % 8) rest
    return (⟨tag / 8, value⟩, rest)

/-- The loop `while let Some(field) = cursor.next_field()?` of a decoder. `left` is the
number of fields the cursor still allows, `max_fields - fields`. -/
def fieldsLoop (step : σ → Field → Except GuestError σ) :
    Nat → Bytes → σ → Except GuestError σ
  | _, [], s => .ok s
  | 0, _ :: _, _ => .error fieldBudgetExceeded
  | left + 1, b :: input, s => do
    let (field, rest) ← readField (b :: input)
    let s ← step s field
    fieldsLoop step left rest s

/-- `WireCursor::new`, then the loop over its fields. -/
def forEachField (frame : Bytes) (limits : WireLimits) (init : σ)
    (step : σ → Field → Except GuestError σ) : Except GuestError σ :=
  if limits.maxFrameBytes < frame.length then .error ⟨.resourceExhausted, .inputBudgetExceeded⟩
  else fieldsLoop step limits.maxFields frame init

/-! ## Encoded fields -/

/-- The tag of a field and its wire type. -/
def tagBytes (number wireType : Nat) : Bytes := varint (number * 8 + wireType)

/-- The bytes of a field, as `FrameWriter` writes it. -/
def Field.encode (f : Field) : Bytes :=
  match f.value with
  | .varint value => tagBytes f.number 0 ++ varint value
  | .fixed64 data => tagBytes f.number 1 ++ data
  | .bytes data => tagBytes f.number 2 ++ varint data.length ++ data
  | .fixed32 data => tagBytes f.number 5 ++ data

/-- A frame of fields. -/
def encodeFields (fields : List Field) : Bytes := fields.flatMap Field.encode

/-- A value fits its wire type. -/
def FieldValue.Fits : FieldValue → Prop
  | .varint value => value < 2 ^ 64
  | .fixed64 data => data.length = 8
  | .bytes data => data.length < 2 ^ 64
  | .fixed32 data => data.length = 4

/-- A field that can be written: its number is in range and its value fits. -/
structure Field.Valid (f : Field) : Prop where
  pos : 0 < f.number
  le : f.number ≤ maxFieldNumber
  fits : f.value.Fits

@[simp] theorem encodeFields_nil : encodeFields [] = [] := rfl

@[simp] theorem encodeFields_cons (f : Field) (fields : List Field) :
    encodeFields (f :: fields) = f.encode ++ encodeFields fields := rfl

theorem Field.encode_ne_nil (f : Field) : f.encode ≠ [] := by
  have htag : ∀ n t, tagBytes n t ≠ [] := fun n t => varint_ne_nil _
  unfold Field.encode
  split <;> simp [htag]

theorem readSlice_append (a rest : Bytes) : readSlice (a ++ rest) a.length = .ok (a, rest) := by
  rw [readSlice, if_pos (by simp), take_left, drop_left]

variable {number wireType : Nat}

theorem readVarint_tag (hnumber : number ≤ maxFieldNumber) (htype : wireType < 8) (rest : Bytes) :
    readVarint (tagBytes number wireType ++ rest) = .ok (number * 8 + wireType, rest) := by
  apply readVarint_varint
  unfold maxFieldNumber at hnumber
  omega

/-- A tag is read back as its number, followed by the value of its wire type. -/
theorem readField_tag (hpos : 0 < number) (hle : number ≤ maxFieldNumber) (htype : wireType < 8)
    (rest : Bytes) :
    readField (tagBytes number wireType ++ rest) =
      readValue wireType rest >>= fun p => .ok (⟨number, p.1⟩, p.2) := by
  have hdiv : (number * 8 + wireType) / 8 = number := by omega
  have hmod : (number * 8 + wireType) % 8 = wireType := by omega
  rw [readField, readVarint_tag hle htype]
  show (if (number * 8 + wireType) / 8 = 0 ∨ maxFieldNumber < (number * 8 + wireType) / 8
    then _ else _) = _
  rw [hdiv, hmod, if_neg (by omega)]
  rfl

/-- The reader inverts the writer, field by field. -/
theorem readField_encode {f : Field} (h : f.Valid) (rest : Bytes) :
    readField (f.encode ++ rest) = .ok (f, rest) := by
  obtain ⟨number, value⟩ := f
  obtain ⟨hpos, hle, hfits⟩ := h
  cases value with
  | varint value =>
    show readField (tagBytes number 0 ++ varint value ++ rest) = _
    rw [append_assoc, readField_tag hpos hle (by omega), readValue, readVarint_varint hfits]
    rfl
  | fixed64 data =>
    have hlen : data.length = 8 := hfits
    show readField (tagBytes number 1 ++ data ++ rest) = _
    rw [append_assoc, readField_tag hpos hle (by omega), readValue, ← hlen, readSlice_append]
    rfl
  | bytes data =>
    show readField (tagBytes number 2 ++ varint data.length ++ data ++ rest) = _
    rw [append_assoc, append_assoc, readField_tag hpos hle (by omega), readValue,
      readVarint_varint hfits]
    show (readSlice (data ++ rest) data.length >>= fun p => _) >>= _ = _
    rw [readSlice_append]
    rfl
  | fixed32 data =>
    have hlen : data.length = 4 := hfits
    show readField (tagBytes number 5 ++ data ++ rest) = _
    rw [append_assoc, readField_tag hpos hle (by omega), readValue, ← hlen, readSlice_append]
    rfl

section

variable (step : σ → Field → Except GuestError σ) {fields : List Field}

include step

theorem fieldsLoop_cons {f : Field} (h : f.Valid) (left : Nat) (rest : Bytes) (s : σ) :
    fieldsLoop step (left + 1) (f.encode ++ rest) s =
      step s f >>= fun s => fieldsLoop step left rest s := by
  obtain ⟨b, tail, hb⟩ := exists_cons_of_ne_nil f.encode_ne_nil
  have hread := readField_encode h rest
  rw [hb, cons_append] at hread ⊢
  rw [fieldsLoop, hread]
  rfl

/-- A decoder goes through the fields of a frame in order, and fails after those within its
budget if there are more. -/
theorem fieldsLoop_encode (hvalid : ∀ f ∈ fields, f.Valid) (left : Nat) (s : σ) :
    fieldsLoop step left (encodeFields fields) s = (fields.take left).foldlM step s >>= fun s =>
      if fields.length ≤ left then .ok s else .error fieldBudgetExceeded := by
  induction fields generalizing left s with
  | nil =>
    rw [encodeFields_nil, fieldsLoop, take_nil]
    rfl
  | cons f fields ih =>
    rw [encodeFields_cons]
    cases left with
    | zero =>
      obtain ⟨b, tail, hb⟩ := exists_cons_of_ne_nil f.encode_ne_nil
      rw [hb, cons_append]
      rfl
    | succ left =>
      rw [fieldsLoop_cons step (hvalid f mem_cons_self), take_succ_cons, foldlM_cons, bind_assoc]
      congr 1
      funext s'
      simp only [length_cons, Nat.add_le_add_iff_right]
      exact ih (fun g hg => hvalid g (mem_cons_of_mem _ hg)) left s'

/-- A decoder goes through the fields of a frame within its limits. -/
theorem forEachField_encode (hvalid : ∀ f ∈ fields, f.Valid) {limits : WireLimits}
    (hbytes : (encodeFields fields).length ≤ limits.maxFrameBytes)
    (hfields : fields.length ≤ limits.maxFields) (s : σ) :
    forEachField (encodeFields fields) limits s step = fields.foldlM step s := by
  rw [forEachField, if_neg (by omega), fieldsLoop_encode step hvalid, take_of_length_le hfields]
  simp only [hfields, if_true]
  exact bind_pure _

end

/-! ## Lengths -/

/-- `field_key_len`. -/
def fieldKeyLen (number : Nat) : Nat := varintLen (number * 8)

/-- `bytes_field_len`. -/
def bytesFieldLen (number length : Nat) : Nat := fieldKeyLen number + varintLen length + length

/-- `varint_field_len`. -/
def varintFieldLen (number value : Nat) : Nat := fieldKeyLen number + varintLen value

/-- The wire type does not change the length of a tag: it lies in the three bits below
the field number. -/
theorem varintLenLoop_tag (turns number : Nat) (h : wireType < 8) :
    varintLenLoop turns (number * 8 + wireType) = varintLenLoop turns (number * 8) := by
  cases turns with
  | zero => rfl
  | succ turns =>
    have hdiv : (number * 8 + wireType) / 128 = number * 8 / 128 := by omega
    rw [varintLenLoop, varintLenLoop, hdiv]
    by_cases hn : 128 ≤ number * 8
    · rw [if_pos hn, if_pos (by omega)]
    · rw [if_neg hn, if_neg (by omega)]

@[simp] theorem length_tagBytes (number : Nat) (h : wireType < 8) :
    (tagBytes number wireType).length = fieldKeyLen number := by
  rw [tagBytes, length_varint]
  exact varintLenLoop_tag 10 number h

theorem length_encode_bytes (number : Nat) (data : Bytes) :
    (Field.encode ⟨number, .bytes data⟩).length = bytesFieldLen number data.length := by
  simp [Field.encode, bytesFieldLen, Nat.add_assoc]

theorem length_encode_varint (number value : Nat) :
    (Field.encode ⟨number, .varint value⟩).length = varintFieldLen number value := by
  simp [Field.encode, varintFieldLen]

/-- Field numbers below sixteen have a tag of one byte. -/
theorem fieldKeyLen_small (h : number < 16) : fieldKeyLen number = 1 := by
  rw [fieldKeyLen, varintLen, varintLenLoop, if_neg (by omega)]

/-! ## The writer -/

/-- `FrameWriter`: the bytes written so far into a buffer of the given capacity. -/
structure FrameWriter where
  capacity : Nat
  written : Bytes
  fits : written.length ≤ capacity

namespace FrameWriter

def new (capacity : Nat) : FrameWriter := ⟨capacity, [], Nat.zero_le _⟩

variable (w : FrameWriter)

/-- `write_bytes`; `write_byte` is the case of one byte. -/
def writeBytes (data : Bytes) : Except GuestError FrameWriter :=
  if h : (w.written ++ data).length ≤ w.capacity then .ok ⟨w.capacity, w.written ++ data, h⟩
  else .error outputExhausted

/-- `write_varint`. It writes byte by byte; a varint that does not fit is an error at
its first byte beyond the buffer. -/
def writeVarint (value : Nat) : Except GuestError FrameWriter :=
  w.writeBytes (varint value)

def writeTag (number wireType : Nat) : Except GuestError FrameWriter :=
  if number = 0 ∨ maxFieldNumber < number then .error invalidWire
  else w.writeVarint (number * 8 + wireType)

def writeVarintField (number value : Nat) : Except GuestError FrameWriter := do
  let w ← w.writeTag number 0
  w.writeVarint value

def writeMessageHeader (number length : Nat) : Except GuestError FrameWriter := do
  let w ← w.writeTag number 2
  w.writeVarint length

def writeBytesField (number : Nat) (data : Bytes) : Except GuestError FrameWriter := do
  let w ← w.writeMessageHeader number data.length
  w.writeBytes data

/-- Two writes in a row are one write of both: when the first does not fit, neither
does the whole. -/
theorem writeBytes_append (a b : Bytes) :
    (w.writeBytes a >>= fun w => w.writeBytes b) = w.writeBytes (a ++ b) := by
  by_cases ha : (w.written ++ a).length ≤ w.capacity
  · rw [writeBytes, dif_pos ha]
    show writeBytes ⟨w.capacity, w.written ++ a, ha⟩ b = _
    simp only [writeBytes, append_assoc]
  · have hab : ¬ (w.written ++ (a ++ b)).length ≤ w.capacity := by
      simp only [length_append] at ha ⊢
      omega
    rw [writeBytes, dif_neg ha, writeBytes, dif_neg hab]
    rfl

end FrameWriter

/-- A writer operation appends these bytes, or finds the buffer too small for them. -/
def Emits (op : FrameWriter → Except GuestError FrameWriter) (data : Bytes) : Prop :=
  ∀ w, op w = w.writeBytes data

open FrameWriter

namespace Emits

variable {op next : FrameWriter → Except GuestError FrameWriter} {a b : Bytes}

theorem nil : Emits (fun w => .ok w) [] := by
  intro w
  obtain ⟨capacity, written, fits⟩ := w
  simp [writeBytes, fits]

theorem bind (hop : Emits op a) (hnext : Emits next b) :
    Emits (fun w => op w >>= next) (a ++ b) := by
  intro w
  show (op w >>= next) = _
  rw [hop w, ← w.writeBytes_append, funext hnext]

/-- A loop that writes one thing after another. -/
theorem foldlM {α : Type} {write : FrameWriter → α → Except GuestError FrameWriter}
    {bytes : α → Bytes} {l : List α} (h : ∀ x ∈ l, Emits (write · x) (bytes x)) :
    Emits (fun w => l.foldlM write w) (l.flatMap bytes) := by
  induction l with
  | nil => exact nil
  | cons x l ih =>
    exact bind (h x mem_cons_self) (ih fun y hy => h y (mem_cons_of_mem _ hy))

/-- What an encoder returns: its bytes when they fit the buffer. -/
theorem run (hop : Emits op a) (capacity : Nat) :
    (op (.new capacity) >>= fun w => .ok w.written) =
      if a.length ≤ capacity then .ok a else .error outputExhausted := by
  rw [hop, writeBytes, new]
  by_cases h : a.length ≤ capacity
  · rw [dif_pos (by simpa using h), if_pos h]
    rfl
  · rw [dif_neg (by simpa using h), if_neg h]
    rfl

end Emits

section Writes

variable {number : Nat}

section

variable (hpos : 0 < number) (hle : number ≤ maxFieldNumber)

include hpos hle

theorem emits_tag (wireType : Nat) :
    Emits (writeTag · number wireType) (tagBytes number wireType) := by
  intro w
  show w.writeTag number wireType = _
  rw [writeTag, if_neg (by omega)]
  rfl

theorem emits_varintField (value : Nat) :
    Emits (writeVarintField · number value) (Field.encode ⟨number, .varint value⟩) :=
  (emits_tag hpos hle 0).bind fun _ => rfl

theorem emits_messageHeader (length : Nat) :
    Emits (writeMessageHeader · number length) (tagBytes number 2 ++ varint length) :=
  (emits_tag hpos hle 2).bind fun _ => rfl

theorem emits_bytesField (data : Bytes) :
    Emits (writeBytesField · number data) (Field.encode ⟨number, .bytes data⟩) :=
  (emits_messageHeader hpos hle data.length).bind fun _ => rfl

/-- A header with the length of the message that follows it makes a field of it. -/
theorem emits_message {op : FrameWriter → Except GuestError FrameWriter} {data : Bytes}
    (hop : Emits op data) :
    Emits (fun w => w.writeMessageHeader number data.length >>= op)
      (Field.encode ⟨number, .bytes data⟩) :=
  (emits_messageHeader hpos hle data.length).bind hop

end

end Writes

end NrePlugins.PolicyGuest
