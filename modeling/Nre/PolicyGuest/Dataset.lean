import Nre.PolicyGuest.Wire

/-!
# Dataset messages

Model of `dataset.rs`: the references, queries and answers a policy guest exchanges
with its host about a dataset, and `RuntimeFailure`.

- `DatasetQueryRequest.encode` writes a query, `DatasetQueryResponse.decode` reads an
  answer, `DatasetQueryResponse.datasetMatches` goes through it a second time;
- `decodeReference`, `decodeMatch`: the nested messages, each with a cursor and a field
  budget of its own.
-/

namespace NrePlugins.PolicyGuest

open List

variable {α : Type}

/-! ## Field values -/

/-- `set_once`. -/
def setOnce (slot : Option α) (value : α) : Except GuestError (Option α) :=
  if slot.isSome then .error ⟨.invalidArgument, .duplicateField⟩ else .ok (some value)

/-- `ok_or_else(invalid_wire)`. -/
def orInvalid : Option α → Except GuestError α
  | some value => .ok value
  | none => .error invalidWire

def asBytes : FieldValue → Except GuestError Bytes
  | .bytes data => .ok data
  | _ => .error invalidWire

def asStr (value : FieldValue) : Except GuestError Str := do
  let data ← asBytes value
  match Str.fromUTF8 data with
  | some text => .ok text
  | none => .error ⟨.invalidArgument, .invalidUtf8⟩

def asVarint : FieldValue → Except GuestError Nat
  | .varint value => .ok value
  | _ => .error invalidWire

/-- `u32::try_from(as_varint(value)?)`. -/
def asU32 (value : FieldValue) : Except GuestError Nat := do
  let raw ← asVarint value
  if raw < 2 ^ 32 then .ok raw else .error invalidWire

def asBool (value : FieldValue) : Except GuestError Bool := do
  match ← asVarint value with
  | 0 => .ok false
  | 1 => .ok true
  | _ => .error invalidWire

@[simp] theorem setOnce_none (value : α) : setOnce none value = .ok (some value) := rfl

@[simp] theorem asBytes_bytes (data : Bytes) : asBytes (.bytes data) = .ok data := rfl

@[simp] theorem asStr_bytes (text : Str) : asStr (.bytes text.bytes) = .ok text := by
  show (match Str.fromUTF8 text.bytes with
    | some text => Except.ok text
    | none => .error _) = _
  rw [Str.fromUTF8_bytes]

theorem asU32_varint {value : Nat} (h : value < 2 ^ 32) : asU32 (.varint value) = .ok value := by
  show (if value < 2 ^ 32 then Except.ok value else .error invalidWire) = _
  rw [if_pos h]

/-! ## References -/

structure DatasetReference where
  handle : Str
  instanceId : Str
  generation : Str
  sourceId : Str
  versionDigest : Str
  deriving DecidableEq

/-- `u8::is_ascii_whitespace`. -/
def isAsciiWhitespace (b : UInt8) : Bool :=
  b == 0x20 || b == 0x09 || b == 0x0a || b == 0x0c || b == 0x0d

/-- `u8::is_ascii_alphanumeric`. -/
def isAsciiAlphanumeric (b : UInt8) : Bool :=
  isDigit b || within (ch 'a') (ch 'z') b || within (ch 'A') (ch 'Z') b

/-- `valid_identity`. -/
def validIdentity (value : Str) : Bool :=
  value.bytes != [] && value.bytes.length ≤ 512 &&
    !value.bytes.head?.any isAsciiWhitespace && !value.bytes.getLast?.any isAsciiWhitespace &&
    !value.bytes.any fun b => b == 0x0d || b == 0x0a || b == 0

namespace DatasetReference

def valid (r : DatasetReference) : Bool :=
  32 ≤ r.handle.bytes.length && r.handle.bytes.length ≤ 256 &&
    (r.handle.bytes.all fun b => isAsciiAlphanumeric b || b == ch '_' || b == ch '-') &&
    validIdentity r.instanceId && validIdentity r.generation &&
    r.sourceId.bytes != [] && r.sourceId.bytes.length ≤ 128 &&
    r.versionDigest.bytes.length == 71 && r.versionDigest.bytes.take 7 == ascii "sha256:" &&
    (r.versionDigest.bytes.drop 7).all fun b => isDigit b || within (ch 'a') (ch 'f') b

def validate (r : DatasetReference) : Except GuestError Unit :=
  if r.valid then .ok () else .error invalidWire

end DatasetReference

/-- One field of a reference goes to its slot: `fields.get_mut(number - HANDLE)`. -/
def referenceStep (slots : List (Option Str)) (field : Field) :
    Except GuestError (List (Option Str)) := do
  let slot ← orInvalid (slots[field.number - 1]?)
  let text ← asStr field.value
  let slot ← setOnce slot text
  return slots.set (field.number - 1) slot

/-- `decode_reference`. -/
def decodeReference (frame : Bytes) (limits : WireLimits) : Except GuestError DatasetReference := do
  let slots ← forEachField frame limits (replicate 5 none) referenceStep
  let handle ← orInvalid slots[0]?.join
  let instanceId ← orInvalid slots[1]?.join
  let generation ← orInvalid slots[2]?.join
  let sourceId ← orInvalid slots[3]?.join
  let versionDigest ← orInvalid slots[4]?.join
  let reference : DatasetReference := ⟨handle, instanceId, generation, sourceId, versionDigest⟩
  reference.validate
  return reference

/-- `write_reference`. -/
def writeReference (w : FrameWriter) (r : DatasetReference) : Except GuestError FrameWriter := do
  let w ← w.writeBytesField 1 r.handle.bytes
  let w ← w.writeBytesField 2 r.instanceId.bytes
  let w ← w.writeBytesField 3 r.generation.bytes
  let w ← w.writeBytesField 4 r.sourceId.bytes
  w.writeBytesField 5 r.versionDigest.bytes

/-- `reference_encoded_len`. -/
def referenceEncodedLen (r : DatasetReference) : Nat :=
  bytesFieldLen 1 r.handle.bytes.length + bytesFieldLen 2 r.instanceId.bytes.length +
    bytesFieldLen 3 r.generation.bytes.length + bytesFieldLen 4 r.sourceId.bytes.length +
    bytesFieldLen 5 r.versionDigest.bytes.length

/-! ## Queries -/

inductive DatasetClassificationKind where
  | unspecified | country | region | cidr
  deriving DecidableEq

def DatasetClassificationKind.toU32 : DatasetClassificationKind → Nat
  | unspecified => 0
  | country => 1
  | region => 2
  | cidr => 3

structure DatasetClassification where
  name : Str
  kind : DatasetClassificationKind
  deriving DecidableEq

structure DatasetQueryRequest where
  reference : DatasetReference
  classifications : List DatasetClassification
  maxDurationMicros : Nat
  maxResponseBytes : Nat

def maxQueryClassifications : Nat := 64

/-- The length `encode` puts before a classification. -/
def classificationLen (c : DatasetClassification) : Nat :=
  bytesFieldLen 1 c.name.bytes.length + varintFieldLen 2 c.kind.toU32

def writeClassification (w : FrameWriter) (c : DatasetClassification) :
    Except GuestError FrameWriter := do
  let w ← w.writeMessageHeader 2 (classificationLen c)
  let w ← w.writeBytesField 1 c.name.bytes
  w.writeVarintField 2 c.kind.toU32

namespace DatasetQueryRequest

/-- The bounds `encode` checks before it writes. -/
def inBounds (r : DatasetQueryRequest) : Bool :=
  r.classifications != [] && r.classifications.length ≤ maxQueryClassifications &&
    r.maxDurationMicros != 0 && r.maxDurationMicros ≤ 2000 &&
    r.maxResponseBytes != 0 && r.maxResponseBytes ≤ 4096

/-- The check of the classifications: names are not empty, none is asked for twice. -/
def distinct : List DatasetClassification → List DatasetClassification → Bool
  | _, [] => true
  | seen, c :: rest => c.name.bytes != [] && !seen.contains c && distinct (seen ++ [c]) rest

def encode (r : DatasetQueryRequest) (capacity : Nat) : Except GuestError Bytes := do
  r.reference.validate
  if !r.inBounds then .error invalidWire
  else if !distinct [] r.classifications then .error invalidWire
  else
    let w := FrameWriter.new capacity
    let w ← w.writeMessageHeader 1 (referenceEncodedLen r.reference)
    let w ← writeReference w r.reference
    let w ← r.classifications.foldlM writeClassification w
    let w ← w.writeVarintField 3 r.maxDurationMicros
    let w ← w.writeVarintField 4 r.maxResponseBytes
    return w.written

end DatasetQueryRequest

/-- `DatasetResolveRequest`. -/
structure DatasetResolveRequest where
  sourceId : Str
  maxDurationMicros : Nat
  maxResponseBytes : Nat

def DatasetResolveRequest.encode (r : DatasetResolveRequest) (capacity : Nat) :
    Except GuestError Bytes := do
  if r.sourceId.bytes = [] ∨ r.maxDurationMicros = 0 ∨ 2000 < r.maxDurationMicros ∨
      r.maxResponseBytes = 0 ∨ 4096 < r.maxResponseBytes then .error invalidWire
  else
    let w := FrameWriter.new capacity
    let w ← w.writeBytesField 1 r.sourceId.bytes
    let w ← w.writeVarintField 2 r.maxDurationMicros
    let w ← w.writeVarintField 3 r.maxResponseBytes
    return w.written

/-! ## Answers -/

inductive DatasetMatchCoverage where
  | unspecified | covered | unknown | unsupportedFamily
  deriving DecidableEq

def DatasetMatchCoverage.toU32 : DatasetMatchCoverage → Nat
  | unspecified => 0
  | covered => 1
  | unknown => 2
  | unsupportedFamily => 3

def DatasetMatchCoverage.fromU32 : Nat → Option DatasetMatchCoverage
  | 0 => some unspecified
  | 1 => some covered
  | 2 => some unknown
  | 3 => some unsupportedFamily
  | _ => none

inductive DatasetQueryStatus where
  | unspecified | ok | unavailable | missingClassification | budgetExceeded | unauthorized
  | staleReference | invalidData
  deriving DecidableEq

def DatasetQueryStatus.fromU32 : Nat → Option DatasetQueryStatus
  | 0 => some unspecified
  | 1 => some ok
  | 2 => some unavailable
  | 3 => some missingClassification
  | 4 => some budgetExceeded
  | 5 => some unauthorized
  | 6 => some staleReference
  | 7 => some invalidData
  | _ => none

structure DatasetMatch where
  index : Nat
  matched : Bool
  coverage : DatasetMatchCoverage

/-- The three optional fields of a match. -/
structure MatchSlots where
  index : Option Nat := none
  matched : Option Bool := none
  coverage : Option DatasetMatchCoverage := none

def decodeCoverage (value : FieldValue) : Except GuestError DatasetMatchCoverage := do
  let raw ← asU32 value
  orInvalid ((DatasetMatchCoverage.fromU32 raw).filter (· != .unspecified))

def matchStep (slots : MatchSlots) (field : Field) : Except GuestError MatchSlots :=
  match field.number with
  | 1 => do
    let value ← asU32 field.value
    return { slots with index := ← setOnce slots.index value }
  | 2 => do
    let value ← asBool field.value
    return { slots with matched := ← setOnce slots.matched value }
  | 3 => do
    let value ← decodeCoverage field.value
    return { slots with coverage := ← setOnce slots.coverage value }
  | _ => .error invalidWire

/-- `decode_match`. -/
def decodeMatch (frame : Bytes) (limits : WireLimits) (expectedIndex : Nat) :
    Except GuestError DatasetMatch := do
  let slots ← forEachField frame limits {} matchStep
  let coverage ← orInvalid slots.coverage
  let result : DatasetMatch := ⟨slots.index.getD 0, slots.matched.getD false, coverage⟩
  if result.index ≠ expectedIndex ∨ (result.coverage ≠ .covered ∧ result.matched = true) then
    .error invalidWire
  else return result

structure DatasetQueryResponse where
  reference : DatasetReference
  status : DatasetQueryStatus
  frame : Bytes
  limits : WireLimits
  matchCount : Nat

/-- What `DatasetQueryResponse::decode` has read so far. -/
structure ResponseSlots where
  reference : Option DatasetReference := none
  status : Option DatasetQueryStatus := none
  matchCount : Nat := 0

def decodeStatus (value : FieldValue) : Except GuestError DatasetQueryStatus := do
  let raw ← asU32 value
  orInvalid ((DatasetQueryStatus.fromU32 raw).filter (· != .unspecified))

def responseStep (limits : WireLimits) (slots : ResponseSlots) (field : Field) :
    Except GuestError ResponseSlots :=
  match field.number with
  | 1 => do
    let data ← asBytes field.value
    let value ← decodeReference data limits
    return { slots with reference := ← setOnce slots.reference value }
  | 2 => do
    let value ← decodeStatus field.value
    return { slots with status := ← setOnce slots.status value }
  | 3 => do
    let data ← asBytes field.value
    let _ ← decodeMatch data limits slots.matchCount
    if maxQueryClassifications < slots.matchCount + 1 then .error invalidWire
    else return { slots with matchCount := slots.matchCount + 1 }
  | _ => .error invalidWire

namespace DatasetQueryResponse

def decode (frame : Bytes) (limits : WireLimits) : Except GuestError DatasetQueryResponse := do
  let slots ← forEachField frame limits {} (responseStep limits)
  let reference ← orInvalid slots.reference
  let status ← orInvalid slots.status
  if (status == .ok) != (slots.matchCount != 0) then .error invalidWire
  else return ⟨reference, status, frame, limits, slots.matchCount⟩

/-- `validate_for`. -/
def validateFor (response : DatasetQueryResponse) (request : DatasetQueryRequest) :
    Except GuestError DatasetQueryResponse :=
  if response.reference ≠ request.reference ∨
      (response.status = .ok ∧ response.matchCount ≠ request.classifications.length) then
    .error invalidWire
  else .ok response

/-- The items of `DatasetMatches`: it skips the other fields and stops after an error.
`left` is as in `fieldsLoop`. -/
def matchesLoop (limits : WireLimits) :
    Nat → Bytes → Nat → List (Except GuestError DatasetMatch)
  | _, [], _ => []
  | 0, _ :: _, _ => [.error fieldBudgetExceeded]
  | left + 1, b :: input, next =>
    match readField (b :: input) with
    | .error e => [.error e]
    | .ok (field, rest) =>
      if field.number = 3 then
        match asBytes field.value >>= fun data => decodeMatch data limits next with
        | .error e => [.error e]
        | .ok item => .ok item :: matchesLoop limits left rest (next + 1)
      else matchesLoop limits left rest next

/-- `matches`. -/
def datasetMatches (response : DatasetQueryResponse) : List (Except GuestError DatasetMatch) :=
  if response.limits.maxFrameBytes < response.frame.length then []
  else matchesLoop response.limits response.limits.maxFields response.frame 0

end DatasetQueryResponse

/-! ## The matches of an answer -/

variable {limits : WireLimits} {frame : Bytes} {slots slots' : ResponseSlots} {field : Field}
  {response : DatasetQueryResponse} {item : DatasetMatch}

theorem decodeMatch_ok {expected : Nat} (h : decodeMatch frame limits expected = .ok item) :
    item.index = expected ∧ (item.matched = true → item.coverage = .covered) := by
  obtain ⟨slots, -, h⟩ := bind_eq_ok.mp h
  obtain ⟨coverage, -, h⟩ := bind_eq_ok.mp h
  obtain ⟨hproper, h⟩ := ite_error_eq_ok.mp h
  cases h
  exact ⟨not_not.mp fun hne => hproper (.inl hne),
    fun hmatched => not_not.mp fun hne => hproper (.inr ⟨hne, hmatched⟩)⟩

/-- The other fields of a response do not count as matches. -/
theorem responseStep_matchCount
    (hnumber : field.number ≠ 3) (h : responseStep limits slots field = .ok slots') :
    slots'.matchCount = slots.matchCount := by
  unfold responseStep at h
  split at h
  · obtain ⟨_, -, h⟩ := bind_eq_ok.mp h
    obtain ⟨_, -, h⟩ := bind_eq_ok.mp h
    obtain ⟨_, -, h⟩ := bind_eq_ok.mp h
    cases h
    rfl
  · obtain ⟨_, -, h⟩ := bind_eq_ok.mp h
    obtain ⟨_, -, h⟩ := bind_eq_ok.mp h
    cases h
    rfl
  · rename_i hthree
    exact absurd hthree hnumber
  · exact nomatch h

/-- A match that was counted is decoded again at the same place. -/
theorem responseStep_match
    (hnumber : field.number = 3) (h : responseStep limits slots field = .ok slots') :
    ∃ item, (asBytes field.value >>= fun data => decodeMatch data limits slots.matchCount) = .ok item ∧
      slots'.matchCount = slots.matchCount + 1 ∧ slots'.matchCount ≤ 64 := by
  simp only [responseStep, hnumber] at h
  obtain ⟨data, hdata, h⟩ := bind_eq_ok.mp h
  obtain ⟨item, hitem, h⟩ := bind_eq_ok.mp h
  obtain ⟨hroom, h⟩ := ite_error_eq_ok.mp h
  cases h
  exact ⟨item, bind_eq_ok.mpr ⟨data, hdata, hitem⟩, rfl, Nat.le_of_not_lt hroom⟩

/-- The second pass, from any place of the first: its items are the matches that are counted from
there on. -/
theorem matchesLoop_eq {left : Nat} {input : Bytes}
    (h : fieldsLoop (responseStep limits) left input slots = .ok slots')
    (hcount : slots.matchCount ≤ 64) :
    slots'.matchCount ≤ 64 ∧ ∃ items : List DatasetMatch,
      DatasetQueryResponse.matchesLoop limits left input slots.matchCount = items.map .ok ∧
      slots'.matchCount = slots.matchCount + items.length ∧
      items.map (·.index) = range' slots.matchCount items.length ∧
      ∀ item ∈ items, item.matched = true → item.coverage = .covered := by
  fun_induction fieldsLoop (responseStep limits) left input slots with
  | case1 left slots =>
    cases h
    exact ⟨hcount, [], by cases left <;> rfl, rfl, rfl, nofun⟩
  | case2 => exact nomatch h
  | case3 left b input slots ih =>
    obtain ⟨⟨field, rest⟩, hfield, h⟩ := bind_eq_ok.mp h
    obtain ⟨slots₁, hstep, h⟩ := bind_eq_ok.mp h
    rw [DatasetQueryResponse.matchesLoop, hfield]
    dsimp only
    by_cases hnumber : field.number = 3
    · obtain ⟨item, hitem, hnext, hroom⟩ := responseStep_match hnumber hstep
      obtain ⟨data, -, hdecode⟩ := bind_eq_ok.mp hitem
      obtain ⟨hindex, hcovered⟩ := decodeMatch_ok hdecode
      obtain ⟨hend, items, hitems, hlength, hindices, hall⟩ := ih rest slots₁ h hroom
      rw [hnext] at hitems hlength hindices
      refine ⟨hend, item :: items, ?_, ?_, ?_, forall_mem_cons.mpr ⟨hcovered, hall⟩⟩
      · rw [if_pos hnumber, hitem, map_cons, ← hitems]
      · rw [length_cons]
        omega
      · rw [map_cons, hindex, hindices, length_cons, range'_succ]
    · rw [if_neg hnumber, ← responseStep_matchCount hnumber hstep]
      exact ih rest slots₁ h (responseStep_matchCount hnumber hstep ▸ hcount)

/-- A decoded response yields as many matches as it has counted, each at its place. -/
theorem DatasetQueryResponse.matches_of_decode (h : decode frame limits = .ok response) :
    response.matchCount ≤ 64 ∧ (response.status = .ok ↔ response.matchCount ≠ 0) ∧
    ∃ items : List DatasetMatch, response.datasetMatches = items.map .ok ∧
      items.map (·.index) = range response.matchCount ∧
      ∀ item ∈ items, item.matched = true → item.coverage = .covered := by
  obtain ⟨slots, hslots, h⟩ := bind_eq_ok.mp h
  obtain ⟨reference, -, h⟩ := bind_eq_ok.mp h
  obtain ⟨status, -, h⟩ := bind_eq_ok.mp h
  obtain ⟨hstatus, h⟩ := ite_error_eq_ok.mp h
  cases h
  obtain ⟨hshort, hslots⟩ := ite_error_eq_ok.mp hslots
  obtain ⟨hle, items, hitems, hlength, hindices, hall⟩ := matchesLoop_eq hslots (Nat.zero_le 64)
  rw [Nat.zero_add] at hlength
  refine ⟨hle, ?_, items, ?_, ?_, hall⟩
  · rw [bne_iff_ne, not_not, Bool.eq_iff_iff, beq_iff_eq, bne_iff_ne] at hstatus
    exact hstatus
  · rw [datasetMatches, if_neg hshort]
    exact hitems
  · rw [hindices, hlength, range_eq_range']

/-- A decoded response has no match beyond the classifications that can be asked for. -/
theorem DatasetQueryResponse.index_lt (h : decode frame limits = .ok response)
    (hitem : .ok item ∈ response.datasetMatches) : item.index < 64 := by
  obtain ⟨hle, -, items, hitems, hindices, -⟩ := matches_of_decode h
  rw [hitems] at hitem
  obtain ⟨other, hmem, heq⟩ := mem_map.mp hitem
  cases heq
  exact (mem_range.mp (hindices ▸ mem_map_of_mem hmem)).trans_le hle

end NrePlugins.PolicyGuest
