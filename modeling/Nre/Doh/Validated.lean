import Nre.Doh.Clamp

/-!
# What a validated answer is

`validateDNSResponse` read as a statement about the message: it is a response with the id
and the question of the query, its records take it to its end, and its TTL is the least of
its answer records, or of the SOA records of its authority section if it is negative.

The question of a message depends only on the bytes up to its end, so that an answer from
the cache still has it after its TTLs have been lowered.
-/

namespace NrePlugins.Doh

open List

/-! ## Questions -/

/-- The question with its name in lower case. -/
def canonicalQuestion (wire : Bytes) : Option Bytes :=
  match parseQuestionName wire 12 with
  | .ok (questionEnd, name) => some (name ++ slice wire questionEnd (questionEnd + 4))
  | .error _ => none

variable {wire : Bytes} {metadata : ResponseMetadata} {records : List ResourceRecord}
  {name canonical : Bytes} {labels offset stop : Nat}

/-- The name ends behind its start, and its text is as long as the name. -/
theorem parseQuestionNameLoop_ok
    (h : parseQuestionNameLoop wire labels offset canonical = .ok (stop, name)) :
    offset < stop ∧ stop ≤ wire.length ∧ name.length + offset = canonical.length + stop := by
  fun_induction parseQuestionNameLoop wire labels offset canonical with
  | case5 labels offset canonical length hbyte =>
    have hlt : offset < wire.length := (List.getElem?_eq_some_iff.mp hbyte).1
    cases h
    simp only [length_append, length_singleton]
    omega
  | case7 labels offset canonical length hbyte _ _ _ ih =>
    obtain ⟨hstop, hinside, hsum⟩ := ih h
    have hslice : (slice wire (offset + 1) (offset + 1 + length.toNat)).length = length.toNat := by
      rw [length_slice (by omega)]
      omega
    simp only [length_append, length_singleton, asciiLower, length_map, hslice] at hsum
    omega
  | _ => cases h

/-- The length of a label is not the code of a letter. -/
theorem lowerByte_length (b length : UInt8) (h : length.toNat ≤ 63) :
    lowerByte b = length ↔ b = length := by
  have hsmall : length < ch 'A' := UInt8.lt_iff_toNat_lt.mpr (by
    have : (ch 'A').toNat = 65 := by decide
    omega)
  have hall : ∀ b : UInt8, lowerByte b < ch 'A' → lowerByte b = b := by decide +kernel
  constructor
  · rintro rfl
    exact (hall b hsmall).symm
  · rintro rfl
    have hkept : ∀ b : UInt8, b < ch 'A' → lowerByte b = b := by decide +kernel
    exact hkept b hsmall

theorem lowerByte_label {length : UInt8}
    (h : ¬ (length.toNat &&& 0xc0 ≠ 0 ∨ length.toNat > 63)) : lowerByte length = length :=
  (lowerByte_length length length (Nat.le_of_not_lt (not_or.mp h).2)).mpr rfl

variable {a b : Bytes}

/-- Only the bytes of the name matter, and not the case of its letters. -/
theorem parseQuestionNameLoop_congr (hlength : a.length ≤ b.length)
    (hsame : ∀ i, offset ≤ i → i < stop → b[i]?.map lowerByte = a[i]?.map lowerByte)
    (h : parseQuestionNameLoop a labels offset canonical = .ok (stop, name)) :
    parseQuestionNameLoop b labels offset canonical = .ok (stop, name) := by
  -- what the first byte of a label says is the same in both
  have hfirst : ∀ {offset : Nat} {length : UInt8}, a[offset]? = some length →
      ¬ (length.toNat &&& 0xc0 ≠ 0 ∨ length.toNat > 63) →
      b[offset]?.map lowerByte = a[offset]?.map lowerByte → b[offset]? = some length := by
    intro offset length hbyte hlabel hsame
    rw [hbyte, Option.map_some, lowerByte_label hlabel] at hsame
    obtain ⟨x, hx, hlower⟩ := Option.map_eq_some_iff.mp hsame
    rwa [(lowerByte_length x length (Nat.le_of_not_lt (not_or.mp hlabel).2)).mp hlower] at hx
  fun_induction parseQuestionNameLoop a labels offset canonical with
  | case5 labels offset canonical length hbyte hlabel hroot hshort =>
    cases h
    rw [parseQuestionNameLoop, hfirst hbyte hlabel (hsame offset (Nat.le_refl _) (by omega))]
    simp only
    rw [if_neg hlabel, if_pos hroot, if_neg hshort]
  | case7 labels offset canonical length hbyte hlabel hroot hshort ih =>
    have hnext := (parseQuestionNameLoop_ok h).1
    rw [parseQuestionNameLoop, hfirst hbyte hlabel (hsame offset (Nat.le_refl _) (by omega))]
    simp only
    have hslice : asciiLower (slice b (offset + 1) (offset + 1 + length.toNat)) =
        asciiLower (slice a (offset + 1) (offset + 1 + length.toNat)) := by
      apply ext_getElem?
      intro k
      rw [asciiLower, asciiLower, getElem?_map, getElem?_map, getElem?_slice, getElem?_slice]
      split
      · exact hsame _ (by omega) (by omega)
      · rfl
    rw [if_neg hlabel, if_neg hroot, if_neg (by omega), hslice]
    exact ih (fun i hi hstop => hsame i (by omega) hstop) h
  | _ => cases h

/-- The same for the whole question. -/
theorem canonicalQuestion_congr (hlength : a.length ≤ b.length)
    (h : parseQuestionName a 12 = .ok (stop, name))
    (hname : ∀ i, 12 ≤ i → i < stop → b[i]?.map lowerByte = a[i]?.map lowerByte)
    (hrest : ∀ i, stop ≤ i → i < stop + 4 → b[i]? = a[i]?) :
    canonicalQuestion b = canonicalQuestion a := by
  have hb : parseQuestionName b 12 = .ok (stop, name) :=
    parseQuestionNameLoop_congr hlength hname h
  unfold canonicalQuestion
  rw [h, hb]
  simp only [Option.some.injEq, append_cancel_left_eq]
  apply ext_getElem?
  intro k
  rw [getElem?_slice, getElem?_slice]
  split
  · rename_i hlt
    exact hrest _ (by omega) hlt
  · rfl

/-- The name is the text up to its end, in lower case. -/
theorem parseQuestionNameLoop_name
    (h : parseQuestionNameLoop wire labels offset canonical = .ok (stop, name)) :
    name = canonical ++ asciiLower (slice wire offset stop) := by
  have hcons : ∀ {offset stop : Nat} {length : UInt8}, wire[offset]? = some length →
      offset < stop → slice wire offset stop = length :: slice wire (offset + 1) stop := by
    intro offset stop length hbyte hlt
    apply ext_getElem?
    intro k
    cases k with
    | zero => rw [getElem?_slice, if_pos (by omega), Nat.add_zero, hbyte, getElem?_cons_zero]
    | succ k =>
      rw [getElem?_cons_succ, getElem?_slice, getElem?_slice,
        show offset + (k + 1) = offset + 1 + k by omega]
  fun_induction parseQuestionNameLoop wire labels offset canonical with
  | case5 labels offset canonical length hbyte hlabel =>
    cases h
    rw [hcons hbyte (Nat.lt_succ_self _), slice_self, asciiLower, map_cons, lowerByte_label hlabel,
      map_nil]
  | case7 labels offset canonical length hbyte hlabel _ _ ih =>
    have hnext := (parseQuestionNameLoop_ok h).1
    rw [ih h, hcons hbyte (by omega),
      ← slice_append_slice (show offset + 1 ≤ offset + 1 + length.toNat by omega)
        (show offset + 1 + length.toNat ≤ stop by omega)]
    simp [asciiLower, lowerByte_label hlabel]
  | _ => cases h

theorem uint16At_congr {p : Nat} (h : ∀ i < p + 2, a[i]? = b[i]?) :
    uint16At a p = uint16At b p := by
  unfold uint16At
  congr 1
  apply ext_getElem?
  intro k
  rw [getElem?_slice, getElem?_slice]
  split
  · rename_i hlt
    exact h _ hlt
  · rfl

/-! ## The TTL of an answer -/

/-- The least of a list. -/
def leastOf (values : List Nat) : Option Nat := values.foldl least none

theorem least_some (b value : Nat) : least (some b) value = some (min b value) := by
  unfold least
  dsimp only
  split
  · rw [Nat.min_eq_right (by omega)]
  · rw [Nat.min_eq_left (by omega)]

theorem leastOf_eq (values : List Nat) : leastOf values = values.min? := by
  cases values with
  | nil => rfl
  | cons first rest =>
    rw [min?_cons']
    change rest.foldl least (some first) = _
    induction rest generalizing first with
    | nil => rfl
    | cons v rest ih => rw [foldl_cons, least_some, ih, foldl_cons]

/-- It is one of them, and none is smaller. -/
theorem leastOf_some {values : List Nat} {m : Nat} (h : leastOf values = some m) :
    m ∈ values ∧ ∀ v ∈ values, m ≤ v := by
  rw [leastOf_eq] at h
  exact min?_eq_some_iff.mp h

/-- The TTLs of the answer section; the first record has the given index. -/
def answerTTLs (c : Counts) : Nat → List ResourceRecord → List Nat
  | _, [] => []
  | index, r :: rest =>
    (if index < c.answers then [r.ttl] else []) ++ answerTTLs c (index + 1) rest

/-- The negative TTLs of the SOA records in the authority section. -/
def negativeTTLs (wire : Bytes) (c : Counts) : Nat → List ResourceRecord → List Nat
  | _, [] => []
  | index, r :: rest =>
    (if c.isSOA index r then [min r.ttl (uint32At wire (r.rdataEnd - 4))] else []) ++
      negativeTTLs wire c (index + 1) rest

/-- The TTL of an answer with the given records: the least of its answers, or of its SOA
records if it has no answers or says that the name does not exist. -/
def answerTTL (wire : Bytes) (records : List ResourceRecord) : Option Nat :=
  let c := countsOf wire
  if uint16At wire 2 &&& 0x000f = 0 ∧ c.answers > 0 then leastOf (answerTTLs c 0 records)
  else leastOf (negativeTTLs wire c 0 records)

variable {c : Counts} {index : Nat} {seen : Seen}

theorem scanRecord_ok {seen' : Seen} (h : scanRecord wire c index seen = .ok seen') :
    ∃ r, parseResourceRecord wire seen.offset = .ok r ∧ seen'.offset = r.rdataEnd ∧
      seen'.answer = (if index < c.answers then [r.ttl] else []).foldl least seen.answer ∧
      seen'.negative =
        (if c.isSOA index r then [min r.ttl (uint32At wire (r.rdataEnd - 4))] else []).foldl least
          seen.negative := by
  have hanswer : ∀ r : ResourceRecord,
      (if index < c.answers then least seen.answer r.ttl else seen.answer) =
        (if index < c.answers then [r.ttl] else []).foldl least seen.answer := by
    intro r
    split <;> rfl
  revert h
  fun_cases scanRecord wire c index seen with
  | case4 r hr _ answer hsoa minimum hminimum =>
    rintro ⟨⟩
    obtain ⟨-, -, rfl⟩ := parseSOAMinimum_ok hminimum
    refine ⟨r, hr, rfl, hanswer r, ?_⟩
    rw [if_pos hsoa]
    simp only [foldl_cons, foldl_nil]
    congr 1
    split <;> omega
  | case5 r hr _ answer hsoa =>
    rintro ⟨⟩
    refine ⟨r, hr, rfl, hanswer r, ?_⟩
    rw [if_neg hsoa]
    rfl
  | _ => nofun

theorem scanRecords_ok {remaining : Nat} {seen' : Seen}
    (h : scanRecords wire c remaining index seen = .ok seen') :
    ∃ records, recordsFrom wire remaining seen.offset = .ok records ∧
      seen'.answer = (answerTTLs c index records).foldl least seen.answer ∧
      seen'.negative = (negativeTTLs wire c index records).foldl least seen.negative := by
  induction remaining generalizing index seen with
  | zero =>
    cases h
    exact ⟨[], rfl, rfl, rfl⟩
  | succ remaining ih =>
    obtain ⟨next, hnext, hrest⟩ := bind_eq_ok.mp h
    obtain ⟨r, hr, hoffset, hanswer, hnegative⟩ := scanRecord_ok hnext
    obtain ⟨records, hrecords, hanswer', hnegative'⟩ := ih hrest
    rw [hoffset] at hrecords
    refine ⟨r :: records, ?_, ?_, ?_⟩
    · exact bind_eq_ok.mpr ⟨r, hr, bind_eq_ok.mpr ⟨records, hrecords, rfl⟩⟩
    · rw [answerTTLs, foldl_append, ← hanswer, hanswer']
    · rw [negativeTTLs, foldl_append, ← hnegative, hnegative']

/-! ## Accepted answers -/

/-- A message that `validateDNSResponse` accepts for a query. -/
structure Accepted (query : ParsedQuery) (wire : Bytes) (metadata : ResponseMetadata) : Prop where
  short : wire.length ≤ maxDNSResponseBytes
  long : 17 ≤ wire.length
  id : uint16At wire 0 = query.id
  isResponse : uint16At wire 2 &&& 0x8000 ≠ 0
  question : canonicalQuestion wire = some query.question
  records : ∃ records, recordsOf wire = .ok records ∧ answerTTL wire records = some metadata.ttl
  cacheable : metadata.cacheable = decide (metadata.ttl > 0)

theorem metadataOf_ok {rcode answers : Nat} (h : metadataOf rcode answers seen = .ok metadata) :
    (if rcode = 0 ∧ answers > 0 then seen.answer else seen.negative) = some metadata.ttl ∧
      metadata.cacheable = decide (metadata.ttl > 0) := by
  revert h
  fun_cases metadataOf rcode answers seen with
  | case2 hpositive ttl hseen =>
    rintro ⟨⟩
    rw [if_pos hpositive]
    exact ⟨hseen, rfl⟩
  | case4 hpositive _ ttl hseen =>
    rintro ⟨⟩
    rw [if_neg hpositive]
    exact ⟨hseen, rfl⟩
  | _ => nofun

variable {query : ParsedQuery}

theorem validateDNSResponse_ok {normalized : Bytes}
    (h : validateDNSResponse query wire = .ok (metadata, normalized)) :
    Accepted query wire metadata ∧ normalized = putAt wire 0 [0, 0] := by
  revert h
  fun_cases validateDNSResponse query wire with
  | case7 _ _ _ hflags questionEnd name hname _ hquestion =>
    intro h
    obtain ⟨seen, hseen, h⟩ := bind_eq_ok.mp h
    obtain ⟨-, h⟩ := ite_error_eq_ok.mp h
    obtain ⟨metadata', hmetadata, h⟩ := bind_eq_ok.mp h
    cases h
    obtain ⟨records, hrecords, hanswer, hnegative⟩ := scanRecords_ok hseen
    obtain ⟨httl, hcacheable⟩ := metadataOf_ok hmetadata
    refine ⟨⟨by omega, by omega, by omega, fun hzero => hflags (.inl hzero), ?_, ⟨records, ?_, ?_⟩,
      hcacheable⟩, rfl⟩
    · unfold canonicalQuestion
      rw [hname]
      exact congrArg some (not_not.mp hquestion)
    · exact bind_eq_ok.mpr ⟨(questionEnd, name), hname, hrecords⟩
    · rw [hanswer, hnegative] at httl
      exact httl
  | _ => nofun

theorem mem_recordsFrom {remaining : Nat} (h : recordsFrom wire remaining offset = .ok records) :
    ∀ r ∈ records, r.ttl = uint32At wire r.ttlOffset := by
  induction remaining generalizing offset records with
  | zero =>
    cases h
    exact fun _ hr => absurd hr not_mem_nil
  | succ remaining ih =>
    obtain ⟨r, hr, hmore⟩ := bind_eq_ok.mp h
    obtain ⟨rest, hrest, hpure⟩ := bind_eq_ok.mp hmore
    cases hpure
    rw [forall_mem_cons]
    exact ⟨(recordAt_of_parse hr).ttl, ih hrest⟩

theorem mem_answerTTLs {v : Nat} (h : v ∈ answerTTLs c index records) : ∃ r ∈ records, v ≤ r.ttl := by
  induction records generalizing index with
  | nil => cases h
  | cons r rest ih =>
    rcases mem_append.mp h with hfirst | hrest
    · split at hfirst
      · exact ⟨r, mem_cons_self, Nat.le_of_eq (mem_singleton.mp hfirst)⟩
      · cases hfirst
    · obtain ⟨r', hr', hle⟩ := ih hrest
      exact ⟨r', mem_cons_of_mem _ hr', hle⟩

theorem mem_negativeTTLs {v : Nat} (h : v ∈ negativeTTLs wire c index records) :
    ∃ r ∈ records, v ≤ r.ttl := by
  induction records generalizing index with
  | nil => cases h
  | cons r rest ih =>
    rcases mem_append.mp h with hfirst | hrest
    · split at hfirst
      · rw [mem_singleton.mp hfirst]
        exact ⟨r, mem_cons_self, Nat.min_le_left _ _⟩
      · cases hfirst
    · obtain ⟨r', hr', hle⟩ := ih hrest
      exact ⟨r', mem_cons_of_mem _ hr', hle⟩

theorem uint32At_lt (wire : Bytes) (i : Nat) : uint32At wire i < 2 ^ 32 :=
  readBE_slice_lt wire i 4

/-- TTLs are numbers of 32 bits. -/
theorem Accepted.ttl_lt (h : Accepted query wire metadata) : metadata.ttl < 2 ^ 32 := by
  obtain ⟨records, hrecords, httl⟩ := h.records
  obtain ⟨⟨questionEnd, name⟩, -, hfrom⟩ := bind_eq_ok.mp hrecords
  have hbound : ∃ r ∈ records, metadata.ttl ≤ r.ttl := by
    unfold answerTTL at httl
    simp only at httl
    split at httl
    · exact mem_answerTTLs (leastOf_some httl).1
    · exact mem_negativeTTLs (leastOf_some httl).1
  obtain ⟨r, hr, hle⟩ := hbound
  rw [mem_recordsFrom hfrom r hr] at hle
  exact Nat.lt_of_le_of_lt hle (uint32At_lt wire r.ttlOffset)

/-! ## Queries and cached answers -/

theorem putAt_zero (wire text : Bytes) : putAt wire 0 text = text ++ wire.drop text.length := by
  simp [putAt]

section

variable {questionEnd : Nat} (hname : name.length + 12 = questionEnd)
  (hroom : questionEnd + 4 ≤ wire.length)

include hname hroom

/-- Only the id and the name of the question are replaced. -/
theorem normalizeQuery_spec : (normalizeQuery wire questionEnd name).length = wire.length ∧
    ∀ i, 12 ≤ i → (normalizeQuery wire questionEnd name)[i]? =
      if i < questionEnd then name[i - 12]? else wire[i]? := by
  have htake : name.take (questionEnd - 12) = name := take_of_length_le (by omega)
  have hzero : (putAt wire 0 [0, 0]).length = wire.length := length_putAt (by simp; omega)
  have hput : 12 + name.length ≤ (putAt wire 0 [0, 0]).length := by omega
  unfold normalizeQuery
  rw [htake]
  refine ⟨(length_putAt hput).trans hzero, fun i hi => ?_⟩
  have hold : (putAt wire 0 [0, 0])[i]? = wire[i]? := by
    rw [getElem?_putAt (by simp; omega), if_neg (by omega), if_neg (by simp; omega)]
  rw [getElem?_putAt hput, if_neg (by omega), Nat.add_comm 12, hname, hold]

theorem normalizeQuery_slice : slice (normalizeQuery wire questionEnd name) 12 (questionEnd + 4) =
    name ++ slice wire questionEnd (questionEnd + 4) := by
  apply ext_getElem?
  intro k
  rw [getElem?_slice, getElem?_append, getElem?_slice,
    (normalizeQuery_spec hname hroom).2 _ (by omega)]
  by_cases hk : k < name.length
  · rw [if_pos (by omega), if_pos hk, if_pos (by omega), Nat.add_sub_cancel_left]
  · rw [if_neg hk, if_neg (by omega : ¬ 12 + k < questionEnd),
      show questionEnd + (k - name.length) = 12 + k by omega]

end

/-- What a query is read from a message. -/
structure ReadFrom (query : ParsedQuery) (wire : Bytes) : Prop where
  message : query.wire = wire
  id : query.id = uint16At wire 0
  question : canonicalQuestion wire = some query.question
  name : ∃ questionEnd name, parseQuestionName wire 12 = .ok (questionEnd, name) ∧
    questionEnd + 4 ≤ wire.length ∧ query.normalized = normalizeQuery wire questionEnd name

theorem parseDNSQuery_ok (h : parseDNSQuery wire = .ok query) : ReadFrom query wire := by
  have hread : ∀ {questionEnd : Nat} {name : Bytes} {hasECS : Bool},
      parseQuestionName wire 12 = .ok (questionEnd, name) → ¬ questionEnd + 4 > wire.length →
      ReadFrom ⟨wire, normalizeQuery wire questionEnd name,
        slice (normalizeQuery wire questionEnd name) 12 (questionEnd + 4), uint16At wire 0, hasECS⟩
        wire := by
    intro questionEnd name hasECS hname hroom
    obtain ⟨hstart, -, hlength⟩ := parseQuestionNameLoop_ok hname
    rw [length_nil] at hlength
    refine ⟨rfl, rfl, ?_, questionEnd, name, hname, by omega, rfl⟩
    rw [normalizeQuery_slice (by omega) (by omega), canonicalQuestion, hname]
  revert h
  fun_cases parseDNSQuery wire with
  | case7 _ _ _ _ questionEnd name hname hroom =>
    intro h
    obtain ⟨_, -, h⟩ := bind_eq_ok.mp h
    cases h
    exact hread hname hroom
  | case8 _ _ _ _ questionEnd name hname hroom =>
    rintro ⟨⟩
    exact hread hname hroom
  | _ => nofun

/-- A stored answer with the id of a query is the answer with that id. -/
theorem responseWithID_normalized (id : Nat) :
    responseWithID (putAt wire 0 [0, 0]) id = putUint16 wire 0 id := by
  unfold responseWithID putUint16
  rw [putAt_zero, putAt_zero, putAt_zero]
  simp

/-- An answer with its own id is the answer. -/
theorem putUint16_self (h : 2 ≤ wire.length) : putUint16 wire 0 (uint16At wire 0) = wire := by
  obtain ⟨a, b, rest, rfl⟩ : ∃ a b rest, wire = a :: b :: rest := by
    match wire, h with
    | a :: b :: rest, _ => exact ⟨a, b, rest, rfl⟩
  have hread : uint16At (a :: b :: rest) 0 = a.toNat * 256 + b.toNat := by
    simp [uint16At, slice, readBE]
  have hhigh : (a.toNat * 256 + b.toNat) / 256 = a.toNat := by
    have := b.toNat_lt
    omega
  have hbytes : beBytes 2 (uint16At (a :: b :: rest) 0) = [a, b] := by
    simp [beBytes, hread, hhigh]
  rw [putUint16, hbytes]
  rfl

/-- Numbers that stand before all lowered ones are not changed. -/
theorem Lowers.before {limit : Nat} {places : List Nat} (h : Lowers limit places a b)
    (hbehind : ∀ p ∈ places, stop < p) : ∀ i < stop, a[i]? = b[i]? := by
  intro i hi
  refine (h.rest i ?_).symm
  rintro p hp ⟨hle, -⟩
  have := hbehind p hp
  omega

end NrePlugins.Doh
