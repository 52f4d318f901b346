import Nre.PolicyGuest.Answers
import Nre.PolicyGuest.Messages

/-!
# The codec as a bijection

`WireCursor` reads a frame as a list of fields and `FrameWriter` writes such a list.
The reader accepts one spelling of every field: a varint has no superfluous group, a
length is the length of its value. So the two are inverse to each other on the field
types the writer has.

- `readFields`: all fields of a frame, `writeFields`: a frame of fields;
- `readVarint_sound`, `readField_sound`: what the reader accepts is what the writer
  writes for the value that was read;
- `contains_of_decode`: the scopes of an accepted init request;
- `Outgoing`: the messages with messages inside, whose lengths are computed in advance.
-/

namespace NrePlugins.PolicyGuest

open List
open FrameWriter

/-! ## Reading and writing whole frames -/

/-- Every field of a frame, as `WireCursor` reads them. -/
def readFields (frame : Bytes) (limits : WireLimits) : Except GuestError (List Field) :=
  forEachField frame limits [] fun fields field => .ok (fields ++ [field])

/-- The field types `FrameWriter` can write. -/
def FieldValue.plain : FieldValue → Bool
  | .varint _ => true
  | .bytes _ => true
  | .fixed64 _ => false
  | .fixed32 _ => false

/-- `write_varint_field` or `write_bytes_field`; the writer has no operation for the
values of fixed width. -/
def FrameWriter.writeField (w : FrameWriter) (f : Field) : Except GuestError FrameWriter :=
  match f.value with
  | .varint value => w.writeVarintField f.number value
  | .bytes data => w.writeBytesField f.number data
  | .fixed64 _ => .error invalidWire
  | .fixed32 _ => .error invalidWire

/-- A frame of fields in a buffer of the given capacity. -/
def writeFields (fields : List Field) (capacity : Nat) : Except GuestError Bytes :=
  fields.foldlM FrameWriter.writeField (.new capacity) >>= fun w => .ok w.written

/-! ## The reader accepts one spelling -/

variable {input rest : Bytes}

/-- What the loop of `read_varint` accepts is what the loop of `write_varint` writes. A
value that starts after the first group is not zero: its last group was checked. -/
theorem readVarintLoop_sound {turns index acc : Nat} {v : Nat}
    (h : readVarintLoop turns index acc input = .ok (v, rest)) :
    ∃ value, v = acc + value * 128 ^ index ∧ input = varintLoop turns value ++ rest ∧
      (0 < index → value ≠ 0) := by
  induction turns generalizing index acc input with
  | zero => cases h
  | succ turns ih =>
    cases input with
    | nil => cases h
    | cons byte tail =>
      have hbyte : byte.toNat < 256 := byte.toNat_lt
      have hcont : byte < 0x80 ↔ byte.toNat < 128 := UInt8.lt_iff_toNat_lt
      rw [readVarintLoop] at h
      split_ifs at h with hlast hsmall hzero
      · -- the last group
        have hlt := hcont.mp hsmall
        cases h
        refine ⟨byte.toNat, by rw [Nat.mod_eq_of_lt hlt], ?_, ?_⟩
        · rw [varintLoop, if_pos (by omega), Nat.mod_eq_of_lt hlt, UInt8.ofNat_toNat]
          rfl
        · intro hindex hvalue
          exact hzero ⟨hindex, UInt8.toNat_inj.mp hvalue⟩
      · -- a group with the continuation bit: the rest is a value of its own, not zero
        obtain ⟨value, hv, htail, hne⟩ := ih h
        have hge : 128 ≤ byte.toNat := by
          by_contra hlt
          exact hsmall (hcont.mpr (by omega))
        have hvalue : value ≠ 0 := hne (by omega)
        have hdiv : (byte.toNat % 128 + 128 * value) / 128 = value := by omega
        have hmod : (byte.toNat % 128 + 128 * value) % 128 + 128 = byte.toNat := by omega
        refine ⟨byte.toNat % 128 + 128 * value, ?_, ?_, by omega⟩
        · rw [hv]
          ring
        · rw [varintLoop, hdiv, if_neg hvalue, hmod, UInt8.ofNat_toNat, cons_append, ← htail]

/-- A varint that was read is spelled the way it is written. -/
theorem readVarint_sound {v : Nat} (h : readVarint input = .ok (v, rest)) :
    input = varint v ++ rest := by
  obtain ⟨value, hv, hinput, -⟩ := readVarintLoop_sound h
  obtain rfl : v = value := by simpa using hv
  exact hinput

theorem readSlice_sound {data : Bytes} {length : Nat}
    (h : readSlice input length = .ok (data, rest)) :
    data.length = length ∧ input = data ++ rest := by
  unfold readSlice at h
  split_ifs at h with hle
  cases h
  exact ⟨length_take_of_le hle, (take_append_drop length input).symm⟩

/-- A field that was read has a number in range, and the bytes it was read from are
those the writer writes for it. -/
theorem readField_sound {f : Field} (h : readField input = .ok (f, rest)) :
    0 < f.number ∧ f.number ≤ maxFieldNumber ∧
      (f.value.plain = true → input = f.encode ++ rest) := by
  obtain ⟨⟨tag, afterTag⟩, htag, h⟩ := bind_eq_ok.mp h
  obtain ⟨hrange, h⟩ := ite_error_eq_ok.mp h
  obtain ⟨⟨value, afterValue⟩, hvalue, h⟩ := bind_eq_ok.mp h
  cases h
  push Not at hrange
  refine ⟨Nat.pos_of_ne_zero hrange.1, hrange.2, fun hplain => ?_⟩
  have hspelled : ∀ wireType, tag % 8 = wireType → input = tagBytes (tag / 8) wireType ++ afterTag := by
    rintro _ rfl
    rw [tagBytes, Nat.div_add_mod']
    exact readVarint_sound htag
  unfold readValue at hvalue
  split at hvalue
  · -- a varint
    next htype =>
    obtain ⟨⟨v, after⟩, hv, hvalue⟩ := bind_eq_ok.mp hvalue
    cases hvalue
    rw [hspelled 0 htype, readVarint_sound hv, ← append_assoc]
    rfl
  · obtain ⟨p, -, hvalue⟩ := bind_eq_ok.mp hvalue
    cases hvalue
    cases hplain
  · -- a byte string
    next htype =>
    obtain ⟨⟨n, afterLength⟩, hn, hvalue⟩ := bind_eq_ok.mp hvalue
    obtain ⟨⟨data, after⟩, hdata, hvalue⟩ := bind_eq_ok.mp hvalue
    cases hvalue
    obtain ⟨rfl, hslice⟩ := readSlice_sound hdata
    rw [hspelled 2 htype, readVarint_sound hn, hslice, ← append_assoc, ← append_assoc]
    rfl
  · obtain ⟨p, -, hvalue⟩ := bind_eq_ok.mp hvalue
    cases hvalue
    cases hplain
  · cases hvalue

/-! ## Frames -/

theorem foldlM_collect (fields acc : List Field) :
    fields.foldlM (fun acc f => (.ok (acc ++ [f]) : Except GuestError _)) acc =
      .ok (acc ++ fields) := by
  induction fields generalizing acc with
  | nil =>
    rw [append_nil]
    rfl
  | cons f fields ih =>
    show List.foldlM _ (acc ++ [f]) fields = _
    rw [ih, append_assoc]
    rfl

variable {fields : List Field}

/-- A frame of valid fields is read as these fields. -/
theorem readFields_encode (hvalid : ∀ f ∈ fields, f.Valid) {limits : WireLimits}
    (hbytes : (encodeFields fields).length ≤ limits.maxFrameBytes)
    (hfields : fields.length ≤ limits.maxFields) :
    readFields (encodeFields fields) limits = .ok fields := by
  rw [readFields, forEachField_encode _ hvalid hbytes hfields, foldlM_collect]
  rfl

/-- A frame whose fields were all read is the frame of these fields. -/
theorem fieldsLoop_collect_sound {left : Nat} {acc : List Field}
    (h : fieldsLoop (fun acc f => .ok (acc ++ [f])) left input acc = .ok fields)
    (hplain : ∀ f ∈ fields, f.value.plain = true) :
    ∃ new, fields = acc ++ new ∧ input = encodeFields new ∧
      ∀ f ∈ new, 0 < f.number ∧ f.number ≤ maxFieldNumber := by
  fun_induction fieldsLoop _ left input acc with
  | case1 => exact ⟨[], by rw [append_nil, Except.ok.inj h], rfl, by simp⟩
  | case2 => cases h
  | case3 left b input acc ih =>
    obtain ⟨⟨f, rest⟩, hread, h⟩ := bind_eq_ok.mp h
    obtain ⟨new, rfl, hrest, hnew⟩ := ih _ _ h
    obtain ⟨hpos, hle, hspelled⟩ := readField_sound hread
    refine ⟨f :: new, by simp, ?_, ?_⟩
    · rw [encodeFields_cons, ← hrest]
      exact hspelled (hplain f (by simp))
    · exact forall_mem_cons.mpr ⟨⟨hpos, hle⟩, hnew⟩

theorem emits_field {f : Field} (hpos : 0 < f.number) (hle : f.number ≤ maxFieldNumber)
    (hplain : f.value.plain = true) : Emits (FrameWriter.writeField · f) f.encode := by
  obtain ⟨number, value⟩ := f
  cases value with
  | varint value => exact emits_varintField hpos hle value
  | bytes data => exact emits_bytesField hpos hle data
  | fixed64 | fixed32 => cases hplain

/-- What the writer makes of a list of fields, in a buffer that is large enough. -/
theorem writeFields_eq
    (hfields : ∀ f ∈ fields, 0 < f.number ∧ f.number ≤ maxFieldNumber ∧ f.value.plain = true)
    {capacity : Nat} (hcapacity : (encodeFields fields).length ≤ capacity) :
    writeFields fields capacity = .ok (encodeFields fields) := by
  have hemits : Emits (fun w => fields.foldlM FrameWriter.writeField w) (encodeFields fields) :=
    Emits.foldlM fun f hf => emits_field (hfields f hf).1 (hfields f hf).2.1 (hfields f hf).2.2
  rw [writeFields, hemits.run capacity, if_pos hcapacity]

/-- The codec is a bijection between lists of fields and accepted frames: reading what
was written gives the fields back, and writing what was read gives the frame back byte
for byte. -/
theorem codec_bijective :
    (∀ fields : List Field, (∀ f ∈ fields, f.Valid ∧ f.value.plain = true) →
      ∃ size frame, (∀ capacity, size ≤ capacity → writeFields fields capacity = .ok frame) ∧
        ∀ limits : WireLimits, frame.length ≤ limits.maxFrameBytes →
          fields.length ≤ limits.maxFields → readFields frame limits = .ok fields) ∧
    (∀ (frame : Bytes) (limits : WireLimits) (fields : List Field),
      readFields frame limits = .ok fields → (∀ f ∈ fields, f.value.plain = true) →
        ∀ capacity, frame.length ≤ capacity → writeFields fields capacity = .ok frame) := by
  constructor
  · intro fields hfields
    refine ⟨(encodeFields fields).length, encodeFields fields, fun capacity hcapacity => ?_,
      fun limits hbytes hcount => ?_⟩
    · exact writeFields_eq
        (fun f hf => ⟨(hfields f hf).1.pos, (hfields f hf).1.le, (hfields f hf).2⟩) hcapacity
    · exact readFields_encode (fun f hf => (hfields f hf).1) hbytes hcount
  · intro frame limits fields hread hplain capacity hcapacity
    obtain ⟨new, hfields, rfl, hrange⟩ :=
      fieldsLoop_collect_sound (ite_error_eq_ok.mp hread).2 hplain
    obtain rfl : fields = new := by simpa using hfields
    exact writeFields_eq (fun f hf => ⟨(hrange f hf).1, (hrange f hf).2, hplain f hf⟩) hcapacity

/-- The bijection on a frame with one field of each kind. -/
theorem codec_bijective_two :
    (∃ size frame, (∀ capacity, size ≤ capacity →
      writeFields [⟨1, .varint 300⟩, ⟨2, .bytes [7, 8]⟩] capacity = .ok frame) ∧
        ∀ limits : WireLimits, frame.length ≤ limits.maxFrameBytes → 2 ≤ limits.maxFields →
          readFields frame limits = .ok [⟨1, .varint 300⟩, ⟨2, .bytes [7, 8]⟩]) ∧
    writeFields [⟨1, .varint 300⟩, ⟨2, .bytes [7, 8]⟩] 7 =
      .ok [0x08, 0xac, 0x02, 0x12, 0x02, 7, 8] := by
  refine ⟨codec_bijective.1 [⟨1, .varint 300⟩, ⟨2, .bytes [7, 8]⟩] ?_,
    codec_bijective.2 [0x08, 0xac, 0x02, 0x12, 0x02, 7, 8] .policyOutput _ (by rfl) (by decide) 7
      (by decide)⟩
  intro f hf
  simp only [mem_cons, not_mem_nil, or_false] at hf
  rcases hf with rfl | rfl
  · exact ⟨⟨by decide, by decide, by simp [FieldValue.Fits]⟩, rfl⟩
  · exact ⟨⟨by decide, by decide, by simp [FieldValue.Fits]⟩, rfl⟩

/-! ## Granted scopes -/

theorem asStr_sound {value : FieldValue} {text : Str} (h : asStr value = .ok text) :
    value = .bytes text.bytes := by
  obtain ⟨data, hdata, htext⟩ := bind_eq_ok.mp h
  cases value <;> cases hdata
  unfold Str.fromUTF8 at htext
  split_ifs at htext
  cases htext
  rfl

def Field.grants (scope : Bytes) (f : Field) : Bool := f.number == 2 && f.value == .bytes scope

/-- The second pass, from any place of the first. -/
theorem containsLoop_eq {left : Nat} {slots slots'} (acc : List Field)
    (h : fieldsLoop initStep left input slots = .ok slots') :
    ∃ new, fieldsLoop (fun acc f => .ok (acc ++ [f])) left input acc = .ok (acc ++ new) ∧
      ∀ scope, GrantedScopes.containsLoop scope left input =
        .ok (new.any (Field.grants scope)) := by
  fun_induction fieldsLoop initStep left input slots generalizing acc with
  | case1 => exact ⟨[], by simp [fieldsLoop], by simp [GrantedScopes.containsLoop]⟩
  | case2 => cases h
  | case3 left b input slots ih =>
    obtain ⟨⟨f, rest⟩, hread, h⟩ := bind_eq_ok.mp h
    obtain ⟨slots₁, hstep, h⟩ := bind_eq_ok.mp h
    obtain ⟨new, hnew, hcontains⟩ := ih rest slots₁ (acc ++ [f]) h
    rw [append_assoc] at hnew
    rw [fieldsLoop, hread]
    refine ⟨f :: new, hnew, fun scope => ?_⟩
    rw [GrantedScopes.containsLoop, hread]
    by_cases hnumber : f.number = 2
    · -- the first pass has read the scope as a text
      simp only [initStep, hnumber] at hstep
      obtain ⟨text, htext, -⟩ := bind_eq_ok.mp hstep
      obtain rfl | hscope := eq_or_ne text.bytes scope <;>
        simp_all [bind, Except.bind, pure, Except.pure, Field.grants, asStr_sound htext]
    · simp [bind, Except.bind, hnumber, hcontains, Field.grants]

/-- Once an init request is accepted, asking for a scope never fails, and the scopes it grants are
the fields of its frame with number 2. -/
theorem contains_of_decode {frame : Bytes} {limits : WireLimits} {r : InitRequest}
    (h : InitRequest.decode frame limits = .ok r) :
    ∃ fields, readFields frame limits = .ok fields ∧
      ∀ scope, r.grantedScopes.contains scope = .ok (fields.any (Field.grants scope)) := by
  obtain ⟨slots, hslots, h⟩ := bind_eq_ok.mp h
  cases h
  obtain ⟨hshort, hslots⟩ := ite_error_eq_ok.mp hslots
  simp only [readFields, forEachField, GrantedScopes.contains, if_neg hshort]
  exact containsLoop_eq [] hslots

/-- A frame with a configuration and two scopes: both scopes are granted, and neither the bytes of
the configuration nor another text is. -/
theorem contains_of_decode_two :
    let scopes := GrantedScopes.mk [10, 1, 99, 18, 1, 97, 18, 1, 98] ⟨9, 3⟩
    scopes.contains [97] = .ok true ∧ scopes.contains [98] = .ok true ∧
      scopes.contains [99] = .ok false ∧ scopes.contains [] = .ok false := by
  have h : InitRequest.decode [10, 1, 99, 18, 1, 97, 18, 1, 98] ⟨9, 3⟩ =
    .ok ⟨[99], ⟨[10, 1, 99, 18, 1, 97, 18, 1, 98], ⟨9, 3⟩⟩, default⟩ := rfl
  obtain ⟨_, hfields, hcontains⟩ := contains_of_decode h
  cases hfields
  exact ⟨hcontains [97], hcontains [98], hcontains [99], hcontains []⟩

/-! ## Messages inside of messages -/

def PolicyAction.toU32 (a : PolicyAction) : Nat := a.ctorIdx

def PolicyAction.isDecision (a : PolicyAction) : Bool := a != .unspecified

def RuntimeErrorCode.toU32 (c : RuntimeErrorCode) : Nat := c.ctorIdx

def RuntimeErrorCode.isFailure (c : RuntimeErrorCode) : Bool := c != .unspecified

def encodeEvaluateSuccess (action : PolicyAction) (payload : Bytes) (capacity : Nat) :
    Except GuestError Bytes :=
  if !action.isDecision then .error ⟨.invalidArgument, .invalidAction⟩
  else do
    let nestedLength := varintFieldLen 1 action.toU32 + bytesFieldLen 2 payload.length
    let w ← (new capacity).writeMessageHeader 1 nestedLength
    let w ← w.writeVarintField 1 action.toU32
    let w ← w.writeBytesField 2 payload
    .ok w.written

def encodeEvaluateError (code : RuntimeErrorCode) (message : Str) (retryable : Bool)
    (capacity : Nat) : Except GuestError Bytes :=
  if !code.isFailure then .error ⟨.invalidArgument, .invalidRuntimeError⟩
  else do
    let nestedLength := varintFieldLen 1 code.toU32 + bytesFieldLen 2 message.bytes.length +
      varintFieldLen 3 retryable.toNat
    let w ← (new capacity).writeMessageHeader 2 nestedLength
    let w ← w.writeVarintField 1 code.toU32
    let w ← w.writeBytesField 2 message.bytes
    let w ← w.writeVarintField 3 retryable.toNat
    .ok w.written

/-- What the guest sends in nested messages. -/
inductive Outgoing where
  | query (request : DatasetQueryRequest)
  | success (action : PolicyAction) (payload : Bytes)
  | error (code : RuntimeErrorCode) (message : Str) (retryable : Bool)

namespace Outgoing

def encode : Outgoing → Nat → Except GuestError Bytes
  | query request => request.encode
  | success action payload => encodeEvaluateSuccess action payload
  | error code message retryable => encodeEvaluateError code message retryable

/-- The checks before anything is written. -/
def Accepted : Outgoing → Prop
  | query request => request.Proper
  | success action _ => action.isDecision = true
  | error code _ _ => code.isFailure = true

/-- The nested messages: their numbers and their fields. -/
def nested : Outgoing → List (Nat × List Field)
  | query r => (1, referenceFields r.reference) ::
      r.classifications.map fun c => (2, classificationFields c)
  | success action payload => [(1, [⟨1, .varint action.toU32⟩, ⟨2, .bytes payload⟩])]
  | error code message retryable => [(2, [⟨1, .varint code.toU32⟩, ⟨2, .bytes message.bytes⟩,
      ⟨3, .varint retryable.toNat⟩])]

/-- The fields after them. -/
def scalars : Outgoing → List Field
  | query r => [⟨3, .varint r.maxDurationMicros⟩, ⟨4, .varint r.maxResponseBytes⟩]
  | _ => []

/-- The span of a nested message is the frame of its fields. -/
def parts (m : Outgoing) : List Field :=
  (m.nested.map fun x => ⟨x.1, .bytes (encodeFields x.2)⟩) ++ m.scalars

/-- The numbers that the messages have, and values that a machine word holds. -/
def Small (f : Field) : Prop :=
  (0 < f.number ∧ f.number < 16) ∧
    match f.value with
    | .varint value => value < 2 ^ 64
    | .bytes _ => True
    | _ => False

/-- Such a field is valid in a frame whose length is a machine word. -/
theorem Small.valid {f : Field} (h : Small f) (hlength : f.encode.length < 2 ^ 64) : f.Valid := by
  obtain ⟨number, value⟩ := f
  refine Field.valid_of_small h.1 ?_
  cases value with
  | varint value => exact h.2
  | bytes data =>
    rw [length_encode_bytes, bytesFieldLen] at hlength
    exact Nat.lt_of_le_of_lt (Nat.le_add_left _ _) hlength
  | fixed64 | fixed32 => exact h.2.elim

theorem length_encode_le {f : Field} (h : f ∈ fields) :
    f.encode.length ≤ (encodeFields fields).length :=
  (sublist_flatten_of_mem (mem_map_of_mem h)).length_le

/-- What was written for such fields is read back, inside of a frame or as a frame. -/
theorem readFields_small (hsmall : ∀ f ∈ fields, Small f) {limits : WireLimits}
    (hword : (encodeFields fields).length < 2 ^ 64)
    (hbytes : (encodeFields fields).length ≤ limits.maxFrameBytes)
    (hcount : fields.length ≤ limits.maxFields) :
    readFields (encodeFields fields) limits = .ok fields := by
  refine readFields_encode (fun f hf => (hsmall f hf).valid ?_) hbytes hcount
  exact Nat.lt_of_le_of_lt (length_encode_le hf) hword

variable {m : Outgoing}

theorem small_parts (hm : m.Accepted) :
    (∀ f ∈ m.parts, Small f) ∧ ∀ x ∈ m.nested, ∀ f ∈ x.2, Small f := by
  cases m with
  | query r =>
    have hbounds := hm.inBounds
    simp only [DatasetQueryRequest.inBounds, Bool.and_eq_true, decide_eq_true_eq] at hbounds
    have hword : r.maxDurationMicros < 2 ^ 64 ∧ r.maxResponseBytes < 2 ^ 64 := by omega
    have hkind : ∀ c : DatasetClassification, c.kind.toU32 < 2 ^ 64 := by
      intro c
      cases c.kind <;> decide
    simpa [parts, nested, scalars, referenceFields, classificationFields, Small, or_imp,
      forall_and] using ⟨hword, fun c _ => hkind c⟩
  | success action payload =>
    have haction : action.toU32 < 2 ^ 64 := by cases action <;> decide
    simpa [parts, nested, scalars, Small] using haction
  | error code message retryable =>
    have hcode : code.toU32 < 2 ^ 64 := by cases code <;> decide
    have hretryable : retryable.toNat < 2 ^ 64 := by cases retryable <;> decide
    simpa [parts, nested, scalars, Small] using ⟨hcode, hretryable⟩

theorem encode_parts (hm : m.Accepted) (capacity : Nat) :
    m.encode capacity =
      if (encodeFields m.parts).length ≤ capacity then .ok (encodeFields m.parts)
      else .error outputExhausted := by
  cases m with
  | query r =>
    rw [show (query r).parts = requestFields r by simp [parts, nested, scalars, requestFields]]
    exact r.encode_eq hm capacity
  | success action payload =>
    have hdecision : action.isDecision = true := hm
    have hbody := (emits_small_varint (by decide : 0 < 1 ∧ 1 < 16) action.toU32).bind
      (emits_small_bytes (by decide : 0 < 2 ∧ 2 < 16) payload)
    simpa [encode, encodeEvaluateSuccess, hdecision, parts, nested, scalars, length_encode_varint,
      length_encode_bytes] using (emits_message Nat.one_pos (by decide) hbody).run capacity
  | error code message retryable =>
    have hfailure : code.isFailure = true := hm
    have hbody := (emits_small_varint (by decide : 0 < 1 ∧ 1 < 16) code.toU32).bind
      ((emits_small_bytes (by decide : 0 < 2 ∧ 2 < 16) message.bytes).bind
        (emits_small_varint (by decide : 0 < 3 ∧ 3 < 16) retryable.toNat))
    simpa [encode, encodeEvaluateError, hfailure, parts, nested, scalars, length_encode_varint,
      length_encode_bytes, Nat.add_assoc] using
      (emits_message Nat.two_pos (by decide) hbody).run capacity

/-- A message that does not pass the checks is refused, whatever the buffer. -/
theorem encode_refused (hm : ¬ m.Accepted) (capacity : Nat) :
    ∃ reason, m.encode capacity = .error ⟨.invalidArgument, reason⟩ := by
  cases m with
  | query r =>
    refine ⟨.invalidWire, ?_⟩
    show r.encode capacity = .error invalidWire
    unfold DatasetQueryRequest.encode DatasetReference.validate
    by_cases hreference : r.reference.valid = true
    · rw [if_pos hreference]
      show (if _ then _ else if _ then _ else _) = _
      split_ifs with hbounds hdistinct
      · rfl
      · rfl
      · simp only [Bool.not_eq_true', Bool.not_eq_false] at hbounds hdistinct
        exact absurd ⟨hreference, hbounds, hdistinct⟩ hm
    · rw [if_neg hreference]
      rfl
  | success action payload => exact ⟨.invalidAction, if_pos (by simpa [Accepted] using hm)⟩
  | error code message retryable =>
    exact ⟨.invalidRuntimeError, if_pos (by simpa [Accepted] using hm)⟩

/-- A message that does not pass the checks is refused as an invalid argument. One that passes them
is written if the buffer has room for its fields, and the budget is reported as exceeded otherwise.
A cursor whose limits it is within reads its fields, in order, and those of each nested message
from the span of that message. -/
theorem nested_exact (m : Outgoing) (capacity : UInt64) :
    (¬ m.Accepted → ∃ reason, m.encode capacity.toNat = .error ⟨.invalidArgument, reason⟩) ∧
    (m.Accepted → m.encode capacity.toNat =
      if (m.parts.map (·.encode.length)).sum ≤ capacity.toNat then .ok (encodeFields m.parts)
      else .error outputExhausted) ∧
    ∀ frame, m.encode capacity.toNat = .ok frame → ∀ limits : WireLimits,
      frame.length ≤ limits.maxFrameBytes →
        (m.parts.length ≤ limits.maxFields → readFields frame limits = .ok m.parts) ∧
        ∀ x ∈ m.nested, ⟨x.1, .bytes (encodeFields x.2)⟩ ∈ m.parts ∧
          (x.2.length ≤ limits.maxFields → readFields (encodeFields x.2) limits = .ok x.2) := by
  by_cases hm : m.Accepted
  case neg =>
    obtain ⟨reason, hreason⟩ := encode_refused hm capacity.toNat
    refine ⟨fun _ => ⟨reason, hreason⟩, fun h => absurd h hm, fun frame hframe => ?_⟩
    rw [hreason] at hframe
    cases hframe
  have hencode := encode_parts hm capacity.toNat
  rw [show (m.parts.map (·.encode.length)).sum = (encodeFields m.parts).length from
    length_flatMap.symm]
  refine ⟨fun h => absurd hm h, fun _ => hencode, ?_⟩
  intro frame hframe limits hbytes
  rw [hencode] at hframe
  split_ifs at hframe with hroom
  cases hframe
  have hword := Nat.lt_of_le_of_lt hroom capacity.toNat_lt
  refine ⟨readFields_small (small_parts hm).1 hword hbytes, ?_⟩
  intro x hx
  have hpart : ⟨x.1, .bytes (encodeFields x.2)⟩ ∈ m.parts :=
    mem_append_left _ (mem_map_of_mem hx)
  have hle : (encodeFields x.2).length ≤ (encodeFields m.parts).length := by
    have hspan := length_encode_le hpart
    rw [length_encode_bytes, bytesFieldLen] at hspan
    exact Nat.le_trans (Nat.le_add_left _ _) hspan
  exact ⟨hpart, readFields_small ((small_parts hm).2 x hx) (Nat.lt_of_le_of_lt hle hword)
    (Nat.le_trans hle hbytes)⟩

/-- Denials are decisions. -/
theorem nested_exact_deny :
    encodeEvaluateSuccess .deny [7] 7 = .ok [0x0a, 5, 0x08, 2, 0x12, 1, 7] ∧
      readFields [0x0a, 5, 0x08, 2, 0x12, 1, 7] .policyOutput =
        .ok [⟨1, .bytes [0x08, 2, 0x12, 1, 7]⟩] := by
  obtain ⟨-, hwritten, hread⟩ := nested_exact (success .deny [7]) 7
  have hframe := (hwritten rfl).trans rfl
  exact ⟨hframe, (hread _ hframe .policyOutput (by decide)).1 (by decide)⟩

/-- An action that is no decision is refused, whatever the buffer. -/
theorem unspecified_refused :
    encodeEvaluateSuccess .unspecified [] 4096 = .error ⟨.invalidArgument, .invalidAction⟩ := rfl

end Outgoing

end NrePlugins.PolicyGuest
