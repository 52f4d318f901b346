import Nre.PolicyGuest.Dataset

/-!
# Complete answers

What a host sends when it can answer a query: the reference of the query, the status
OK and one match for each classification, in order, as protobuf writes them (fields in
the order of their numbers, scalars with the value zero left out).

- `referenceFields`, `matchFields`, `answerFields`: the messages as lists of fields;
- `requestFields`: the query as the list of fields that `encode` writes.

`decode_answer` says what a guest makes of a complete answer. It has two fields more than the
query has classifications, and the field budget of the decoder counts them all.
-/

namespace NrePlugins.PolicyGuest

open List
open DatasetQueryResponse
open DatasetReference
open DatasetQueryRequest
open PolicyGuest.Field

/-! ## References -/

def referenceFields (r : DatasetReference) : List Field :=
  [⟨1, .bytes r.handle.bytes⟩, ⟨2, .bytes r.instanceId.bytes⟩, ⟨3, .bytes r.generation.bytes⟩,
    ⟨4, .bytes r.sourceId.bytes⟩, ⟨5, .bytes r.versionDigest.bytes⟩]

variable {number : Nat} {r : DatasetReference}

/-- A field with a small number and a value that fits. -/
theorem Field.valid_of_small {value : FieldValue} (h : 0 < number ∧ number < 16)
    (hfits : value.Fits) : Field.Valid ⟨number, value⟩ :=
  ⟨h.1, by show number ≤ maxFieldNumber; unfold maxFieldNumber; omega, hfits⟩

theorem DatasetReference.lengths (h : r.valid = true) :
    r.handle.bytes.length ≤ 256 ∧ r.instanceId.bytes.length ≤ 512 ∧
      r.generation.bytes.length ≤ 512 ∧ r.sourceId.bytes.length ≤ 128 ∧
      r.versionDigest.bytes.length = 71 := by
  simp only [valid, validIdentity, Bool.and_eq_true, decide_eq_true_eq, beq_iff_eq] at h
  omega

theorem length_encode_reference (r : DatasetReference) :
    (encodeFields (referenceFields r)).length = referenceEncodedLen r := by
  simp [referenceFields, referenceEncodedLen, length_encode_bytes, Nat.add_assoc]

/-- A bytes field with a small number costs at most three bytes more than its value. -/
theorem bytesFieldLen_le {length : Nat} (hsmall : number < 16) (h : length < 128 ^ 2) :
    bytesFieldLen number length ≤ length + 3 := by
  rw [bytesFieldLen, fieldKeyLen_small hsmall]
  have := varintLen_le (by omega) h
  omega

theorem referenceEncodedLen_le (h : r.valid = true) : referenceEncodedLen r ≤ 1494 := by
  obtain ⟨h1, h2, h3, h4, h5⟩ := lengths h
  have hfield : ∀ number length, number < 16 → length ≤ 512 →
      bytesFieldLen number length ≤ length + 3 :=
    fun number length hsmall hlen => bytesFieldLen_le hsmall (by omega)
  have b1 := hfield 1 r.handle.bytes.length (by omega) (by omega)
  have b2 := hfield 2 r.instanceId.bytes.length (by omega) (by omega)
  have b3 := hfield 3 r.generation.bytes.length (by omega) (by omega)
  have b4 := hfield 4 r.sourceId.bytes.length (by omega) (by omega)
  have b5 := hfield 5 r.versionDigest.bytes.length (by omega) (by omega)
  unfold referenceEncodedLen
  omega

theorem referenceFields_valid (h : r.valid = true) : ∀ f ∈ referenceFields r, f.Valid := by
  obtain ⟨h1, h2, h3, h4, h5⟩ := lengths h
  intro f hf
  simp only [referenceFields, mem_cons, not_mem_nil, or_false] at hf
  rcases hf with rfl | rfl | rfl | rfl | rfl <;>
    exact valid_of_small (by omega) (by simp only [FieldValue.Fits]; omega)

/-- Limits under which every message of an answer can be read. -/
structure WireLimits.Roomy (limits : WireLimits) : Prop where
  bytes : maxOutputFrameBytes ≤ limits.maxFrameBytes
  fields : 5 ≤ limits.maxFields

theorem WireLimits.policyOutput_roomy : WireLimits.policyOutput.Roomy :=
  ⟨Nat.le_refl _, by decide⟩

variable {limits : WireLimits}

/-- A valid reference is read back from its message. -/
theorem decodeReference_encode (h : r.valid = true) (hroomy : limits.Roomy) :
    decodeReference (encodeFields (referenceFields r)) limits = .ok r := by
  have hlen := referenceEncodedLen_le h
  have hbytes : 4096 ≤ _ := hroomy.bytes
  have hloop : forEachField (encodeFields (referenceFields r)) limits (replicate 5 none)
      referenceStep = .ok [some r.handle, some r.instanceId, some r.generation,
        some r.sourceId, some r.versionDigest] := by
    rw [forEachField_encode referenceStep (referenceFields_valid h)
      (by rw [length_encode_reference]; omega) hroomy.fields]
    simp [referenceFields, referenceStep, orInvalid, replicate, bind, Except.bind, pure,
      Except.pure]
  rw [decodeReference, hloop]
  show (r.validate >>= fun _ => Except.ok r) = .ok r
  rw [validate, if_pos h]
  rfl

/-! ## Matches -/

/-- An answer about one classification; `Lookup` of the runtime. -/
structure Lookup where
  matched : Bool
  coverage : DatasetMatchCoverage

/-- What a host may answer: the coverage is said, and nothing matches beyond it. -/
def Lookup.Proper (l : Lookup) : Prop :=
  l.coverage ≠ .unspecified ∧ (l.matched = true → l.coverage = .covered)

instance (l : Lookup) : Decidable l.Proper := inferInstanceAs (Decidable (_ ∧ _))

def matchFields (index : Nat) (l : Lookup) : List Field :=
  (if index = 0 then [] else [⟨1, .varint index⟩]) ++
    (if l.matched then [⟨2, .varint 1⟩] else []) ++ [⟨3, .varint l.coverage.toU32⟩]

theorem DatasetMatchCoverage.toU32_le (c : DatasetMatchCoverage) : c.toU32 ≤ 3 := by
  cases c <;> decide

variable {index : Nat} {l : Lookup}

theorem mem_matchFields {f : Field} (h : f ∈ matchFields index l) :
    f = ⟨1, .varint index⟩ ∨ f = ⟨2, .varint 1⟩ ∨ f = ⟨3, .varint l.coverage.toU32⟩ := by
  unfold matchFields at h
  split_ifs at h <;> simp at h <;> tauto

theorem matchFields_valid (hindex : index < 64) (l : Lookup) :
    ∀ f ∈ matchFields index l, f.Valid := by
  have hcov := l.coverage.toU32_le
  intro f hf
  rcases mem_matchFields hf with rfl | rfl | rfl <;>
    exact valid_of_small (by omega) (by simp only [FieldValue.Fits]; omega)

theorem length_matchFields (index : Nat) (l : Lookup) : (matchFields index l).length ≤ 3 := by
  unfold matchFields
  split_ifs <;> simp

theorem varintFieldLen_small {value : Nat} (hnumber : number < 16) (hvalue : value < 128) :
    varintFieldLen number value = 2 := by
  rw [varintFieldLen, fieldKeyLen_small hnumber, varintLen, varintLenLoop, if_neg (by omega)]

/-- A match takes at most six bytes: three fields of two. -/
theorem length_encode_match (hindex : index < 64) (l : Lookup) :
    (encodeFields (matchFields index l)).length ≤ 6 := by
  have hcov := l.coverage.toU32_le
  have h1 : varintFieldLen 1 index = 2 := varintFieldLen_small (by omega) (by omega)
  have h3 : varintFieldLen 3 l.coverage.toU32 = 2 := varintFieldLen_small (by omega) (by omega)
  unfold matchFields
  split_ifs <;> simp [length_encode_varint, varintFieldLen_small, h1, h3]

theorem decodeCoverage_toU32 {c : DatasetMatchCoverage} (h : c ≠ .unspecified) :
    decodeCoverage (.varint c.toU32) = .ok c := by
  cases c with
  | unspecified => exact absurd rfl h
  | covered | unknown | unsupportedFamily => rfl

/-- The slots after the fields of a match. -/
theorem foldlM_matchFields (hindex : index < 64) :
    (matchFields index l).foldlM matchStep {} =
      (decodeCoverage (.varint l.coverage.toU32)).map fun coverage =>
        ⟨if index = 0 then none else some index, if l.matched then some true else none,
          some coverage⟩ := by
  have hindex' : asU32 (.varint index) = .ok index := asU32_varint (by omega)
  unfold matchFields
  by_cases h0 : index = 0 <;> cases hm : l.matched <;>
    cases hcov : decodeCoverage (.varint l.coverage.toU32) <;>
    simp [h0, matchStep, hcov, hindex', asBool, asVarint, bind, Except.bind, pure, Except.pure,
      Except.map]

/-- The fields of a match are gone through one by one. -/
theorem forEachField_match (hindex : index < 64) (l : Lookup) (hroomy : limits.Roomy) :
    forEachField (encodeFields (matchFields index l)) limits {} matchStep =
      (matchFields index l).foldlM matchStep {} := by
  have hbytes : 4096 ≤ _ := hroomy.bytes
  have hfields := hroomy.fields
  have hlen := length_encode_match hindex l
  have hcount := length_matchFields index l
  rw [forEachField_encode matchStep (matchFields_valid hindex l) (by omega) (by omega)]

/-- A match is read back from its message at its own place, if it says its coverage. -/
theorem decodeMatch_encode (hindex : index < 64) (hroomy : limits.Roomy)
    (hl : l.matched = true → l.coverage = .covered) :
    decodeMatch (encodeFields (matchFields index l)) limits index =
      if l.coverage = .unspecified then .error invalidWire
      else .ok ⟨index, l.matched, l.coverage⟩ := by
  rw [decodeMatch, forEachField_match hindex l hroomy, foldlM_matchFields hindex]
  by_cases hcov : l.coverage = .unspecified
  · rw [if_pos hcov, hcov]
    rfl
  rw [if_neg hcov, decodeCoverage_toU32 hcov]
  have hindex' : (if index = 0 then none else some index).getD 0 = index := by
    split_ifs with h0 <;> simp [h0]
  have hmatched : (if l.matched then some true else none).getD false = l.matched := by
    cases l.matched <;> rfl
  show (if _ ≠ index ∨ (_ ≠ _ ∧ _ = true) then Except.error invalidWire else Except.ok _) = _
  rw [hindex', hmatched, if_neg]
  rintro (h | ⟨hc, hm⟩)
  · exact h rfl
  · exact hc (hl hm)

/-! ## Answers -/

/-- The matches of an answer, from an index on. -/
def numberFrom : Nat → List Lookup → List DatasetMatch
  | _, [] => []
  | index, l :: rest => ⟨index, l.matched, l.coverage⟩ :: numberFrom (index + 1) rest

/-- The match messages of an answer, from an index on. -/
def matchMessages : Nat → List Lookup → List Field
  | _, [] => []
  | index, l :: rest =>
    ⟨3, .bytes (encodeFields (matchFields index l))⟩ :: matchMessages (index + 1) rest

/-- A complete answer: the reference, the status OK and every match. -/
def answerFields (reference : DatasetReference) (lookups : List Lookup) : List Field :=
  ⟨1, .bytes (encodeFields (referenceFields reference))⟩ :: ⟨2, .varint 1⟩ ::
    matchMessages 0 lookups

def answerFrame (reference : DatasetReference) (lookups : List Lookup) : Bytes :=
  encodeFields (answerFields reference lookups)

theorem length_matchMessages (index : Nat) (lookups : List Lookup) :
    (matchMessages index lookups).length = lookups.length := by
  induction lookups generalizing index with
  | nil => rfl
  | cons l rest ih => rw [matchMessages, length_cons, ih, length_cons]

theorem take_matchMessages (n index : Nat) (lookups : List Lookup) :
    (matchMessages index lookups).take n = matchMessages index (lookups.take n) := by
  induction lookups generalizing n index with
  | nil => simp [matchMessages]
  | cons l rest ih =>
    cases n with
    | zero => rfl
    | succ n => rw [matchMessages, take_succ_cons, ih, take_succ_cons, matchMessages]

variable {lookups : List Lookup}

theorem matchMessages_valid (hlen : index + lookups.length ≤ 64) :
    ∀ f ∈ matchMessages index lookups, f.Valid := by
  induction lookups generalizing index with
  | nil => nofun
  | cons l rest ih =>
    rw [length_cons] at hlen
    refine forall_mem_cons.mpr ⟨?_, ih (by omega)⟩
    have := length_encode_match (by omega : index < 64) l
    exact valid_of_small (by omega) (by simp only [FieldValue.Fits]; omega)

/-- Eight bytes are enough for a match with its header. -/
theorem length_encode_matchMessages (hlen : index + lookups.length ≤ 64) :
    (encodeFields (matchMessages index lookups)).length ≤ 8 * lookups.length := by
  induction lookups generalizing index with
  | nil => simp [matchMessages]
  | cons l rest ih =>
    rw [length_cons] at hlen
    have hmatch := length_encode_match (by omega : index < 64) l
    have hvarint : varintLen (encodeFields (matchFields index l)).length ≤ 1 :=
      varintLen_le (by omega) (by omega)
    have hrest : (encodeFields (matchMessages (index + 1) rest)).length ≤ 8 * rest.length :=
      ih (by omega)
    rw [matchMessages, encodeFields_cons, length_append, length_encode_bytes, bytesFieldLen,
      fieldKeyLen_small (by omega), length_cons]
    omega

theorem length_answerFields (reference : DatasetReference) (lookups : List Lookup) :
    (answerFields reference lookups).length = lookups.length + 2 := by
  simp [answerFields, length_matchMessages]

section Answers

variable {reference : DatasetReference}

theorem answerFields_valid (h : reference.valid = true) (hlen : lookups.length ≤ 64) :
    ∀ f ∈ answerFields reference lookups, f.Valid := by
  have href := referenceEncodedLen_le h
  rw [← length_encode_reference] at href
  refine forall_mem_cons.mpr ⟨?_, forall_mem_cons.mpr ⟨?_, matchMessages_valid (by omega)⟩⟩ <;>
    exact valid_of_small (by omega) (by simp only [FieldValue.Fits]; omega)

/-- A complete answer is far below the bound on a frame. -/
theorem length_answerFrame (h : reference.valid = true) (hlen : lookups.length ≤ 64) :
    (answerFrame reference lookups).length ≤ maxOutputFrameBytes := by
  have href := referenceEncodedLen_le h
  rw [← length_encode_reference] at href
  have hmatches := length_encode_matchMessages (by omega : 0 + lookups.length ≤ 64)
  have hmessage : bytesFieldLen 1 (encodeFields (referenceFields reference)).length ≤ _ :=
    bytesFieldLen_le (by omega) (by omega)
  have hstatus : varintFieldLen 2 1 = 2 := rfl
  rw [answerFrame, answerFields, encodeFields_cons, encodeFields_cons, length_append,
    length_append, length_encode_bytes, length_encode_varint]
  unfold maxOutputFrameBytes
  omega

/-- The slots after the reference and the status. -/
theorem responseStep_head (h : reference.valid = true) (hroomy : limits.Roomy)
    (rest : List Field) :
    (⟨1, .bytes (encodeFields (referenceFields reference))⟩ :: ⟨2, .varint 1⟩ ::
      rest).foldlM (responseStep limits) {} =
        rest.foldlM (responseStep limits) ⟨some reference, some .ok, 0⟩ := by
  have href := decodeReference_encode h hroomy
  have hstatus : decodeStatus (.varint 1) = .ok .ok := rfl
  simp [responseStep, href, hstatus, bind, Except.bind, pure, Except.pure]

/-- Each match message is counted, if it says its coverage. -/
theorem foldlM_matchMessages (hroomy : limits.Roomy)
    (hmatched : ∀ l ∈ lookups, l.matched = true → l.coverage = .covered)
    (hlen : index + lookups.length ≤ 64) (slots : ResponseSlots)
    (hslots : slots.matchCount = index) :
    (matchMessages index lookups).foldlM (responseStep limits) slots =
      if ∀ l ∈ lookups, l.coverage ≠ .unspecified then
        .ok { slots with matchCount := index + lookups.length }
      else .error invalidWire := by
  subst hslots
  induction lookups generalizing slots with
  | nil => simp [matchMessages, pure, Except.pure]
  | cons l rest ih =>
    rw [length_cons] at hlen
    obtain ⟨hl, hrest⟩ := forall_mem_cons.mp hmatched
    have hmatch := decodeMatch_encode (by omega : slots.matchCount < 64) hroomy hl
    have hnext := ih hrest { slots with matchCount := slots.matchCount + 1 }
      (by show slots.matchCount + 1 + _ ≤ _; omega)
    have hmax : ¬ maxQueryClassifications < slots.matchCount + 1 := by
      unfold maxQueryClassifications
      omega
    simp only [matchMessages, foldlM_cons, responseStep, asBytes_bytes, hmatch, forall_mem_cons,
      bind, Except.bind, pure, Except.pure]
    split_ifs with hcov <;> simp_all [Nat.add_assoc, Nat.add_comm 1]

/-- A guest accepts a complete answer when its fields are within the budget. If there are more,
the reference, the status and the matches within the budget go through, the next field does not. -/
theorem decode_answer (h : reference.valid = true) (hroomy : limits.Roomy)
    (hproper : ∀ l ∈ lookups, l.Proper) (hpos : lookups ≠ []) (hlen : lookups.length ≤ 64) :
    decode (answerFrame reference lookups) limits =
      if lookups.length + 2 ≤ limits.maxFields then
        .ok ⟨reference, .ok, answerFrame reference lookups, limits, lookups.length⟩
      else .error fieldBudgetExceeded := by
  have hframe := length_answerFrame h hlen
  have hbytes := hroomy.bytes
  have hfields := hroomy.fields
  obtain ⟨n, hn⟩ : ∃ n, limits.maxFields = n + 2 := ⟨limits.maxFields - 2, by omega⟩
  have htake : (answerFields reference lookups).take limits.maxFields =
      answerFields reference (lookups.take n) := by
    rw [hn, answerFields, take_succ_cons, take_succ_cons, take_matchMessages, answerFields]
  have hshort : 0 + (lookups.take n).length ≤ 64 := by
    rw [length_take]
    omega
  have hloop : forEachField (answerFrame reference lookups) limits {} (responseStep limits) =
      if lookups.length + 2 ≤ limits.maxFields then
        .ok ⟨some reference, some .ok, 0 + (lookups.take n).length⟩
      else .error fieldBudgetExceeded := by
    rw [forEachField, if_neg (by omega), answerFrame, fieldsLoop_encode _ (answerFields_valid h hlen),
      htake, answerFields, responseStep_head h hroomy,
      foldlM_matchMessages hroomy (fun l hl => (hproper l (mem_of_mem_take hl)).2) hshort _ rfl,
      if_pos fun l hl => (hproper l (mem_of_mem_take hl)).1, length_answerFields]
    rfl
  rw [decode, hloop]
  split_ifs with hbudget
  · have hne : lookups.length ≠ 0 := fun h0 => hpos (length_eq_zero_iff.mp h0)
    rw [take_of_length_le (by omega), Nat.zero_add]
    show (if (DatasetQueryStatus.ok == .ok) != (lookups.length != 0) then _ else _) = _
    rw [if_neg (by simp [hne])]
    rfl
  · rfl

/-- One field of a frame in the second pass. -/
theorem matchesLoop_cons {f : Field} (h : f.Valid) (left : Nat) (rest : Bytes) (next : Nat) :
    matchesLoop limits (left + 1) (f.encode ++ rest) next =
      if f.number = 3 then
        match asBytes f.value >>= fun data => decodeMatch data limits next with
        | .error e => [.error e]
        | .ok item => .ok item :: matchesLoop limits left rest (next + 1)
      else matchesLoop limits left rest next := by
  obtain ⟨b, tail, hb⟩ := exists_cons_of_ne_nil f.encode_ne_nil
  have hread := readField_encode h rest
  rw [hb, cons_append] at hread ⊢
  rewrite [matchesLoop, hread]
  rfl

/-- Going through the match messages a second time yields the matches. -/
theorem matchesLoop_matchMessages (hroomy : limits.Roomy) (hproper : ∀ l ∈ lookups, l.Proper)
    {left : Nat} (hlen : index + lookups.length ≤ 64) (hleft : lookups.length ≤ left) :
    matchesLoop limits left (encodeFields (matchMessages index lookups))
      index = (numberFrom index lookups).map .ok := by
  induction lookups generalizing index left with
  | nil => cases left <;> rfl
  | cons l rest ih =>
    have hvalid := matchMessages_valid hlen
    rw [length_cons] at hlen hleft
    obtain ⟨n, rfl⟩ : ∃ n, left = n + 1 := ⟨left - 1, by omega⟩
    obtain ⟨hl, hproper⟩ := forall_mem_cons.mp hproper
    have hmatch := decodeMatch_encode (by omega : index < 64) hroomy hl.2
    rw [if_neg hl.1] at hmatch
    have hrest := ih hproper (by omega : index + 1 + rest.length ≤ 64) (by omega : rest.length ≤ n)
    rw [matchMessages, encodeFields_cons, matchesLoop_cons (hvalid _ mem_cons_self),
      if_pos rfl, asBytes_bytes, numberFrom, map_cons, ← hrest]
    simp only [bind, Except.bind, hmatch]

/-- The items a guest sees in a complete answer are the matches, in order. -/
theorem datasetMatches_answer (h : reference.valid = true) (hroomy : limits.Roomy)
    (hproper : ∀ l ∈ lookups, l.Proper) (hlen : lookups.length ≤ 64)
    (hbudget : lookups.length + 2 ≤ limits.maxFields) (count : Nat) :
    datasetMatches
      ⟨reference, .ok, answerFrame reference lookups, limits, count⟩ =
        (numberFrom 0 lookups).map .ok := by
  have hframe := length_answerFrame h hlen
  have hbytes := hroomy.bytes
  have hvalid := answerFields_valid h hlen
  obtain ⟨n, hn⟩ : ∃ n, limits.maxFields = n + 2 := ⟨limits.maxFields - 2, by omega⟩
  unfold datasetMatches
  rw [if_neg (by
    show ¬ limits.maxFrameBytes < (answerFrame reference lookups).length
    omega)]
  show matchesLoop limits limits.maxFields _ 0 = _
  rw [hn, answerFrame, answerFields, encodeFields_cons, encodeFields_cons,
    matchesLoop_cons (hvalid _ mem_cons_self), if_neg (Nat.ne_of_beq_eq_false rfl),
    matchesLoop_cons (hvalid _ (mem_cons_of_mem _ mem_cons_self)),
    if_neg (Nat.ne_of_beq_eq_false rfl),
    matchesLoop_matchMessages hroomy hproper (by omega) (by omega)]

end Answers

/-! ## Queries -/

def classificationFields (c : DatasetClassification) : List Field :=
  [⟨1, .bytes c.name.bytes⟩, ⟨2, .varint c.kind.toU32⟩]

/-- The fields of a query, in the order in which `encode` writes them. -/
def requestFields (r : DatasetQueryRequest) : List Field :=
  ⟨1, .bytes (encodeFields (referenceFields r.reference))⟩ ::
    (r.classifications.map fun c => ⟨2, .bytes (encodeFields (classificationFields c))⟩) ++
      [⟨3, .varint r.maxDurationMicros⟩, ⟨4, .varint r.maxResponseBytes⟩]

theorem emits_small_bytes (h : 0 < number ∧ number < 16) (data : Bytes) :
    Emits (FrameWriter.writeBytesField · number data) (encode ⟨number, .bytes data⟩) :=
  emits_bytesField h.1 (by unfold maxFieldNumber; omega) data

theorem emits_small_varint (h : 0 < number ∧ number < 16) (value : Nat) :
    Emits (FrameWriter.writeVarintField · number value) (encode ⟨number, .varint value⟩) :=
  emits_varintField h.1 (by unfold maxFieldNumber; omega) value

theorem emits_reference (r : DatasetReference) :
    Emits (writeReference · r) (encodeFields (referenceFields r)) := by
  have hbytes : encodeFields (referenceFields r) = _ ++ (_ ++ (_ ++ (_ ++ (_ ++ [])))) := rfl
  rw [hbytes, append_nil]
  exact (emits_small_bytes (by omega) r.handle.bytes).bind
    ((emits_small_bytes (by omega) r.instanceId.bytes).bind
      ((emits_small_bytes (by omega) r.generation.bytes).bind
        ((emits_small_bytes (by omega) r.sourceId.bytes).bind
          (emits_small_bytes (by omega) r.versionDigest.bytes))))

theorem length_encode_classification (c : DatasetClassification) :
    (encodeFields (classificationFields c)).length = classificationLen c := by
  simp [classificationFields, classificationLen, length_encode_bytes, length_encode_varint]

/-- The header of a classification announces the length of what follows it. -/
theorem emits_classification (c : DatasetClassification) :
    Emits (writeClassification · c)
      (encode ⟨2, .bytes (encodeFields (classificationFields c))⟩) := by
  have hbody : Emits (fun w => w.writeBytesField 1 c.name.bytes >>= fun w =>
      w.writeVarintField 2 c.kind.toU32) (encodeFields (classificationFields c)) := by
    have hbytes : encodeFields (classificationFields c) = _ ++ (_ ++ []) := rfl
    rw [hbytes, append_nil]
    exact (emits_small_bytes (by omega) c.name.bytes).bind
      (emits_small_varint (by omega) c.kind.toU32)
  have h := emits_message (by omega : 0 < 2) (by decide) hbody
  rw [length_encode_classification] at h
  exact h

namespace DatasetQueryRequest

variable {r : DatasetQueryRequest}

/-- The checks of `encode` before it writes. -/
structure Proper (r : DatasetQueryRequest) : Prop where
  reference : r.reference.valid = true
  inBounds : r.inBounds = true
  distinct : distinct [] r.classifications = true

theorem encode_requestFields (r : DatasetQueryRequest) :
    encodeFields (requestFields r) =
      Field.encode ⟨1, .bytes (encodeFields (referenceFields r.reference))⟩ ++
        (r.classifications.flatMap (fun c =>
            Field.encode ⟨2, .bytes (encodeFields (classificationFields c))⟩) ++
          (Field.encode ⟨3, .varint r.maxDurationMicros⟩ ++
            Field.encode ⟨4, .varint r.maxResponseBytes⟩)) := by
  simp [requestFields, encodeFields, flatMap_map]

/-- A query that `encode` accepted passed its checks. -/
theorem proper_of_encode {capacity : Nat} {frame : Bytes} (h : r.encode capacity = .ok frame) :
    r.Proper := by
  obtain ⟨u, hreference, h⟩ := bind_eq_ok.mp h
  obtain ⟨hbounds, h⟩ := ite_error_eq_ok.mp h
  obtain ⟨hdistinct, -⟩ := ite_error_eq_ok.mp h
  refine ⟨?_, by simpa using hbounds, by simpa using hdistinct⟩
  by_contra hne
  simp [validate, if_neg hne] at hreference

theorem Proper.length_pos (h : r.Proper) : r.classifications ≠ [] := by
  have hbounds := h.inBounds
  simp only [DatasetQueryRequest.inBounds, Bool.and_eq_true, bne_iff_ne] at hbounds
  exact hbounds.1.1.1.1.1

theorem Proper.length_le (h : r.Proper) : r.classifications.length ≤ 64 := by
  have hbounds := h.inBounds
  simp only [DatasetQueryRequest.inBounds, Bool.and_eq_true, decide_eq_true_eq] at hbounds
  exact hbounds.1.1.1.1.2

/-- What `encode` writes for a query that passes its checks. -/
theorem encode_eq (h : r.Proper) (capacity : Nat) :
    r.encode capacity =
      if (encodeFields (requestFields r)).length ≤ capacity then
        .ok (encodeFields (requestFields r))
      else .error outputExhausted := by
  have href := emits_message (by omega : 0 < 1) (by decide) (emits_reference r.reference)
  rw [length_encode_reference] at href
  have hclasses : Emits (fun w => r.classifications.foldlM writeClassification w) _ :=
    Emits.foldlM fun c _ => emits_classification c
  have hall := href.bind (hclasses.bind
    ((emits_small_varint (by omega : 0 < 3 ∧ 3 < 16) r.maxDurationMicros).bind
      (emits_small_varint (by omega : 0 < 4 ∧ 4 < 16) r.maxResponseBytes)))
  have hrun := hall.run capacity
  rw [← encode_requestFields] at hrun
  simp only [bind_assoc] at hrun
  rw [encode, validate, if_pos h.reference, ← hrun]
  show (if (!r.inBounds) = true then _ else if (!distinct [] r.classifications) = true then _
    else _) = _
  rw [if_neg (by simp [h.inBounds]), if_neg (by simp [h.distinct])]
  rfl

end DatasetQueryRequest

/-! ## Which complete answers are decodable -/

theorem policyOutput_fields : WireLimits.policyOutput.maxFields = 64 := rfl

/-- A guest decodes a complete answer, and sees exactly its matches, if and only if the
answer leaves room for the reference and the status in the field budget of 64 and says
the coverage of every match. A query may have 64 classifications; the complete answers
to queries about 63 or 64 are refused. -/
theorem answer_decodable_iff {request : DatasetQueryRequest} {capacity : Nat} {frame : Bytes}
    (hencode : request.encode capacity = .ok frame) {lookups : List Lookup}
    (hlen : lookups.length = request.classifications.length)
    (hmatched : ∀ l ∈ lookups, l.matched = true → l.coverage = .covered) :
    (∃ response,
      decode (answerFrame request.reference lookups) .policyOutput = .ok response ∧
      response.validateFor request = .ok response ∧
      response.datasetMatches = (numberFrom 0 lookups).map .ok) ↔
    lookups.length ≤ 62 ∧ ∀ l ∈ lookups, l.coverage ≠ .unspecified := by
  have hproper := proper_of_encode hencode
  have hle : lookups.length ≤ 64 := hlen ▸ hproper.length_le
  have hroomy := WireLimits.policyOutput_roomy
  constructor
  · rintro ⟨response, hdecode, -, -⟩
    obtain ⟨slots, hloop, -⟩ := bind_eq_ok.mp hdecode
    have hloop := (ite_error_eq_ok.mp hloop).2
    rw [answerFrame, fieldsLoop_encode _ (answerFields_valid hproper.reference hle)] at hloop
    obtain ⟨s, hloop, hend⟩ := bind_eq_ok.mp hloop
    -- the budget counts the reference, the status and every match
    split_ifs at hend with hfits
    have hcount := length_answerFields request.reference lookups
    rw [take_of_length_le hfits, answerFields, responseStep_head hproper.reference hroomy] at hloop
    rw [policyOutput_fields] at hfits
    rw [foldlM_matchMessages hroomy hmatched (by omega : 0 + _ ≤ 64) _ rfl] at hloop
    split_ifs at hloop with hspecified
    exact ⟨by omega, hspecified⟩
  · rintro ⟨hshort, hspecified⟩
    have hlookups : ∀ l ∈ lookups, l.Proper := fun l hl => ⟨hspecified l hl, hmatched l hl⟩
    have hne : lookups ≠ [] := by
      rintro rfl
      exact hproper.length_pos (length_eq_zero_iff.mp hlen.symm)
    have hbudget : lookups.length + 2 ≤ WireLimits.policyOutput.maxFields := by
      rw [policyOutput_fields]
      omega
    refine ⟨_, (decode_answer hproper.reference hroomy hlookups hne hle).trans (if_pos hbudget), ?_,
      datasetMatches_answer hproper.reference hroomy hlookups hle hbudget _⟩
    rw [validateFor, if_neg]
    rintro (h | ⟨-, h⟩)
    · exact h rfl
    · exact h hlen

theorem validUTF8_mod (i : Nat) : validUTF8 [UInt8.ofNat (i % 128)] = true := by
  refine validUTF8_of_isAscii ?_
  simp only [isAscii, all_cons, all_nil, Bool.and_true, decide_eq_true_eq, UInt8.lt_iff_toNat_lt,
    UInt8.toNat_ofNat']
  have : (128 : UInt8).toNat = 128 := rfl
  omega

/-- A query about `n` one-letter classifications of one dataset. -/
def sampleQuery (n : Nat) : DatasetQueryRequest where
  reference :=
    ⟨⟨replicate 32 (ch 'h'), by decide⟩, str "instance", str "generation", str "geoip",
      ⟨ascii "sha256:" ++ replicate 64 (ch '0'), by decide⟩⟩
  classifications := (range n).map fun i =>
    ⟨⟨[UInt8.ofNat (i % 128)], validUTF8_mod i⟩, .country⟩
  maxDurationMicros := 1200
  maxResponseBytes := 4096

theorem sampleQuery_proper : (sampleQuery 2).Proper ∧ (sampleQuery 63).Proper := by
  constructor <;> constructor <;> decide

theorem sampleQuery_encode : ∀ n ∈ [2, 63], (sampleQuery n).encode 16384 =
    .ok (encodeFields (requestFields (sampleQuery n))) := by
  refine forall_mem_cons.mpr ⟨?_, forall_mem_singleton.mpr ?_⟩
  · rw [encode_eq sampleQuery_proper.1, if_pos (by decide +kernel)]
  · rw [encode_eq sampleQuery_proper.2, if_pos (by decide +kernel)]

/-- The answers to a query about two classifications reach the guest. -/
theorem answer_decodable_two :
    ∃ response,
      decode
        (answerFrame (sampleQuery 2).reference [⟨true, .covered⟩, ⟨false, .unknown⟩])
        .policyOutput = .ok response ∧
      response.validateFor (sampleQuery 2) = .ok response ∧
      response.datasetMatches = (numberFrom 0 [⟨true, .covered⟩, ⟨false, .unknown⟩]).map .ok :=
  (answer_decodable_iff (sampleQuery_encode 2 (by simp)) (by decide) (by decide)).mpr
    ⟨by decide, by decide⟩

/-- The complete answer to a query about 63 classifications is refused: it has 65 fields. -/
theorem answer_refused_long :
    (sampleQuery 63).encode 16384 = .ok (encodeFields (requestFields (sampleQuery 63))) ∧
    (replicate 63 (⟨true, .covered⟩ : Lookup)).length =
      (sampleQuery 63).classifications.length ∧
    (∀ l ∈ replicate 63 (⟨true, .covered⟩ : Lookup), l.matched = true → l.coverage = .covered) ∧
    (answerFrame (sampleQuery 63).reference (replicate 63 ⟨true, .covered⟩)).length ≤ 4096 ∧
    decode
      (answerFrame (sampleQuery 63).reference (replicate 63 ⟨true, .covered⟩))
      .policyOutput = .error fieldBudgetExceeded := by
  have hlookups : ∀ l ∈ replicate 63 (⟨true, .covered⟩ : Lookup), l.Proper := by decide
  refine ⟨sampleQuery_encode 63 (by simp), by decide, by decide,
    length_answerFrame sampleQuery_proper.2.reference (by decide), ?_⟩
  exact (decode_answer sampleQuery_proper.2.reference WireLimits.policyOutput_roomy hlookups
    (by decide) (by decide)).trans (if_neg (by decide))

end NrePlugins.PolicyGuest
