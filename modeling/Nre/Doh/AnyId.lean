import Nre.Doh.Request
import Nre.Doh.Validated

/-!
# The id of a message does not matter

Two messages that differ only in their id are read in the same way: names start behind the
header, and so do records. An answer that was accepted for one query is accepted, with
another id, for every query with the same question; its TTLs can be lowered either way.

The same holds for the question of a query after it has been normalized, and after a client
subnet has been added to the message for the upstream.
-/

namespace NrePlugins.Doh

open List

variable {a b : Bytes} {wire : Bytes} {query : ParsedQuery}

theorem agree_putUint16 (h : 2 ≤ wire.length) (id : Nat) : Agree 2 wire (putUint16 wire 0 id) := by
  have hlength : (beBytes 2 id).length = 2 := length_beBytes 2 id
  refine ⟨(length_putAt (by omega)).symm, ?_⟩
  rw [putUint16, putAt_zero, hlength, drop_left' hlength]

theorem uint16At_lt (wire : Bytes) (i : Nat) : uint16At wire i < 2 ^ 16 :=
  readBE_slice_lt wire i 2

theorem uint16At_putUint16 {id : Nat} (h : 2 ≤ wire.length) (hid : id < 2 ^ 16) :
    uint16At (putUint16 wire 0 id) 0 = id := by
  have hroom : 0 + (beBytes 2 id).length ≤ wire.length := by rwa [length_beBytes, Nat.zero_add]
  have hslice := slice_putAt_self hroom
  rw [length_beBytes] at hslice
  rw [uint16At, putUint16, hslice, readBE_beBytes]
  exact Nat.mod_eq_of_lt hid

/-! ## Names and records -/

section

variable (h : Agree 2 a b)

include h

theorem parseQuestionNameLoop_body (labels : Nat) {offset : Nat} (canonical : Bytes)
    (hoffset : 2 ≤ offset) :
    parseQuestionNameLoop a labels offset canonical =
      parseQuestionNameLoop b labels offset canonical := by
  induction labels generalizing offset canonical with
  | zero => rfl
  | succ labels ih =>
    unfold parseQuestionNameLoop
    rw [h.getElem? hoffset, h.length]
    split
    · rfl
    · rw [h.slice (by omega), ih _ (by omega)]

theorem skipDNSNameLoop_body (labels offset : Nat) (consumedEnd : Option Nat) (expanded : Nat)
    (visited : List Nat) :
    skipDNSNameLoop a labels offset consumedEnd expanded visited =
      skipDNSNameLoop b labels offset consumedEnd expanded visited := by
  induction labels generalizing offset consumedEnd expanded visited with
  | zero => rfl
  | succ labels ih =>
    unfold skipDNSNameLoop
    by_cases hearly : offset < 12 ∨ offset ∈ visited
    · rw [if_pos hearly, if_pos hearly]
    · rw [if_neg hearly, if_neg hearly, h.getElem? (by omega), h.length, h.uint16At (by omega)]
      simp only [ih]

theorem parseResourceRecord_body {offset : Nat} (hoffset : 2 ≤ offset) :
    parseResourceRecord a offset = parseResourceRecord b offset := by
  unfold parseResourceRecord
  have hskip : skipDNSName a offset = skipDNSName b offset := skipDNSNameLoop_body h _ _ _ _ _
  rw [hskip]
  split
  · rfl
  · rename_i next hnext
    have hlt : offset < next := skipDNSNameLoop_end hnext
    rw [h.length, h.uint16At (show 2 ≤ next by omega), h.uint16At (show 2 ≤ next + 2 by omega),
      h.uint16At (show 2 ≤ next + 8 by omega), h.uint32At (show 2 ≤ next + 4 by omega)]

theorem parseSOAMinimum_body (start stop : Nat) :
    parseSOAMinimum a start stop = parseSOAMinimum b start stop := by
  have hskip : ∀ offset, skipDNSName a offset = skipDNSName b offset :=
    fun offset => skipDNSNameLoop_body h _ offset _ _ _
  unfold parseSOAMinimum
  by_cases hroom : 6 ≤ stop
  · simp only [h.length, hskip, h.uint32At (show 2 ≤ stop - 4 by omega)]
  · have hshort : ∀ next, next + 20 ≠ stop := fun next => by omega
    simp only [h.length, hskip, if_pos (hshort _)]

/-! ## Answers -/

theorem scanRecord_body (c : Counts) (index : Nat) {seen : Seen} (hoffset : 2 ≤ seen.offset) :
    scanRecord a c index seen = scanRecord b c index seen := by
  unfold scanRecord
  rw [parseResourceRecord_body h hoffset]
  simp only [parseSOAMinimum_body h]

theorem scanRecords_body (c : Counts) (remaining index : Nat) {seen : Seen}
    (hoffset : 2 ≤ seen.offset) :
    scanRecords a c remaining index seen = scanRecords b c remaining index seen := by
  induction remaining generalizing index seen with
  | zero => rfl
  | succ remaining ih =>
    unfold scanRecords
    rw [scanRecord_body h c index hoffset]
    cases hnext : scanRecord b c index seen with
    | error e => rfl
    | ok next =>
      obtain ⟨r, hr, hend, -⟩ := scanRecord_ok hnext
      have hlt := (recordAt_of_parse hr).lt
      exact ih (index + 1) (by omega)

theorem countsOf_body : countsOf a = countsOf b := by
  unfold countsOf
  rw [h.uint16At (by omega), h.uint16At (by omega), h.uint16At (by omega)]

/-- An accepted answer is accepted with the id of another query for the same question. -/
theorem validateDNSResponse_body {query' : ParsedQuery} {normalized : Bytes}
    {metadata : ResponseMetadata} (hquestion : query'.question = query.question)
    (hid : uint16At b 0 = query'.id)
    (ha : validateDNSResponse query a = .ok (metadata, normalized)) :
    validateDNSResponse query' b = .ok (metadata, putAt b 0 [0, 0]) := by
  have hname : parseQuestionName a 12 = parseQuestionName b 12 :=
    parseQuestionNameLoop_body h _ _ (by omega)
  revert ha
  fun_cases validateDNSResponse query a with
  | case7 hlong hshort _ hflags questionEnd name hquestionEnd hroom hsame =>
    intro ha
    obtain ⟨hstart, -⟩ := parseQuestionNameLoop_ok hquestionEnd
    obtain ⟨seen, hseen, ha⟩ := bind_eq_ok.mp ha
    obtain ⟨hend, ha⟩ := ite_error_eq_ok.mp ha
    obtain ⟨metadata', hmetadata, ha⟩ := bind_eq_ok.mp ha
    obtain ⟨rfl, -⟩ := Prod.mk.inj (Except.ok.inj ha)
    rw [scanRecords_body h _ _ 0 (show 2 ≤ questionEnd + 4 by omega)] at hseen
    unfold validateDNSResponse
    rw [hquestion, ← hname, ← h.uint16At (show 2 ≤ 2 by omega),
      ← h.uint16At (show 2 ≤ 4 by omega), ← h.length, ← countsOf_body h, hquestionEnd,
      if_neg hlong, if_neg (by omega)]
    simp only
    rw [← h.slice (show 2 ≤ questionEnd by omega), if_neg hflags, if_neg hroom, if_neg hsame]
    refine bind_eq_ok.mpr ⟨seen, hseen, ?_⟩
    rw [if_neg hend]
    exact bind_eq_ok.mpr ⟨metadata', hmetadata, rfl⟩
  | _ => rintro ⟨⟩

end

theorem Agree.putAt {o p : Nat} {text : Bytes} (h : Agree o a b)
    (hroom : p + text.length ≤ a.length) : Agree o (Doh.putAt a p text) (Doh.putAt b p text) := by
  have hroom' : p + text.length ≤ b.length := h.length ▸ hroom
  refine ⟨by rw [length_putAt hroom, length_putAt hroom', h.length], ?_⟩
  apply ext_getElem?
  intro j
  rw [getElem?_drop, getElem?_drop, getElem?_putAt hroom, getElem?_putAt hroom',
    h.getElem? (Nat.le_add_right o j)]

theorem Agree.putUint32 {o p : Nat} (h : Agree o a b) (hroom : p + 4 ≤ a.length) (v : Nat) :
    Agree o (Doh.putUint32 a p v) (Doh.putUint32 b p v) :=
  h.putAt (by rwa [length_beBytes])

theorem clampRecord_body (h : Agree 2 a b) {c : Counts} {limit index offset : Nat}
    {record : ResourceRecord} {result : Bytes} (hrecord : RecordAt a offset record)
    (ha : clampRecord c limit index a record = .ok result) :
    ∃ result', clampRecord c limit index b record = .ok result' ∧ Agree 2 result result' := by
  have hstart := hrecord.rdataStart
  have hordered := hrecord.ordered
  have hinside := hrecord.inside
  -- the TTL first
  have hlowered : Agree 2
      (if record.rrType ≠ 41 ∧ record.ttl > limit then putUint32 a record.ttlOffset limit else a)
      (if record.rrType ≠ 41 ∧ record.ttl > limit then putUint32 b record.ttlOffset limit
        else b) := by
    split
    · exact h.putUint32 (by omega) limit
    · exact h
  unfold clampRecord at ha ⊢
  by_cases hsoa : c.isSOA index record
  · simp only [if_pos hsoa, ← apply_ite pure] at ha ⊢
    obtain ⟨minimum, hminimum, hresult⟩ := bind_eq_ok.mp ha
    cases hresult
    rw [parseSOAMinimum_body hlowered] at hminimum
    obtain ⟨hroom, hstop, -⟩ := parseSOAMinimum_ok hminimum
    have hlength := hlowered.length
    refine ⟨_, bind_eq_ok.mpr ⟨minimum, hminimum, rfl⟩, ?_⟩
    split
    · exact hlowered.putUint32 (by omega) limit
    · exact hlowered
  · simp only [if_neg hsoa] at ha ⊢
    cases ha
    exact ⟨_, rfl, hlowered⟩

theorem clampRecords_body (h : Agree 2 a b) {c : Counts} {limit remaining index offset stop : Nat}
    {result : Bytes} (hoffset : 2 ≤ offset)
    (ha : clampRecords c limit remaining index offset a = .ok (stop, result)) :
    ∃ result', clampRecords c limit remaining index offset b = .ok (stop, result') ∧
      result'.length = result.length := by
  induction remaining generalizing index offset a b with
  | zero =>
    cases ha
    exact ⟨b, rfl, h.length.symm⟩
  | succ remaining ih =>
    obtain ⟨record, hrecord, hrest⟩ := bind_eq_ok.mp ha
    obtain ⟨clamped, hclamped, hmore⟩ := bind_eq_ok.mp hrest
    have hat := recordAt_of_parse hrecord
    obtain ⟨clamped', hclamped', hagree⟩ := clampRecord_body h hat hclamped
    obtain ⟨result', hresult', hlength⟩ := ih hagree (hoffset.trans hat.lt.le) hmore
    rw [parseResourceRecord_body h hoffset] at hrecord
    have hrest' := bind_eq_ok.mpr ⟨clamped', hclamped', hresult'⟩
    exact ⟨result', bind_eq_ok.mpr ⟨record, hrecord, hrest'⟩, hlength⟩

/-- If the TTLs of an answer can be lowered, they can be with any id. -/
theorem clampDNSResponseTTLs_body (h : Agree 2 a b) {limit : Nat} {body : Bytes}
    (ha : clampDNSResponseTTLs a limit = .ok body) :
    ∃ body', clampDNSResponseTTLs b limit = .ok body' := by
  have hname : parseQuestionName a 12 = parseQuestionName b 12 :=
    parseQuestionNameLoop_body h _ _ (by omega)
  revert ha
  fun_cases clampDNSResponseTTLs a limit with
  | case4 hlong questionEnd name hquestionEnd hroom =>
    intro ha
    obtain ⟨⟨stop, result⟩, hclamp, ha⟩ := bind_eq_ok.mp ha
    obtain ⟨hend, -⟩ := ite_error_eq_ok.mp ha
    obtain ⟨result', hclamp', hlength⟩ :=
      clampRecords_body h (show 2 ≤ questionEnd + 4 by omega) hclamp
    unfold clampDNSResponseTTLs
    rw [← h.length, ← hname, ← countsOf_body h, hquestionEnd, if_neg hlong]
    simp only
    rw [if_neg hroom]
    refine ⟨result', bind_eq_ok.mpr ⟨(stop, result'), hclamp', ?_⟩⟩
    simp only
    rw [hlength, if_neg hend]
    rfl
  | _ => nofun

/-! ## Queries -/

/-- A normalized query has the same question. -/
theorem canonicalQuestion_normalizeQuery {name : Bytes} {questionEnd : Nat}
    (h : parseQuestionName wire 12 = .ok (questionEnd, name))
    (hroom : questionEnd + 4 ≤ wire.length) :
    canonicalQuestion (normalizeQuery wire questionEnd name) = canonicalQuestion wire := by
  obtain ⟨hstart, -, hlength⟩ := parseQuestionNameLoop_ok h
  have hname : name = asciiLower (slice wire 12 questionEnd) := parseQuestionNameLoop_name h
  have hlong : name.length + 12 = questionEnd := by
    rw [length_nil] at hlength
    omega
  obtain ⟨hsame, hat⟩ := normalizeQuery_spec hlong hroom
  refine canonicalQuestion_congr hsame.ge h ?_ ?_
  · intro i hi hstop
    rw [hat i (by omega), if_pos (by omega), hname, asciiLower, getElem?_map, getElem?_slice,
      if_pos (by omega), show 12 + (i - 12) = i by omega, Option.map_map]
    congr 1
    exact funext lowerByte_lowerByte
  · intro i hi _
    rw [hat i (by omega), if_neg (by omega)]

/-- Queries that are the same up to the id and the case of the name ask the same. -/
theorem ReadFrom.question_eq {query' : ParsedQuery} {wire' : Bytes} (h : ReadFrom query wire)
    (h' : ReadFrom query' wire') (hsame : query.normalized = query'.normalized) :
    query.question = query'.question := by
  obtain ⟨questionEnd, name, hname, hroom, hnormalized⟩ := h.name
  obtain ⟨questionEnd', name', hname', hroom', hnormalized'⟩ := h'.name
  have hquestion := canonicalQuestion_normalizeQuery hname hroom
  rw [← hnormalized, hsame, hnormalized', canonicalQuestion_normalizeQuery hname' hroom',
    h.question, h'.question] at hquestion
  exact (Option.some.inj hquestion).symm

/-- Bytes are appended, and two bytes outside of the question are overwritten. -/
theorem question_of_append {name tail : Bytes} {questionEnd place v : Nat}
    (h : parseQuestionName wire 12 = .ok (questionEnd, name))
    (hroom : questionEnd + 4 ≤ wire.length) (hplace : 2 ≤ place ∧ place + 2 ≤ wire.length)
    (hout : place + 2 ≤ 12 ∨ questionEnd + 4 ≤ place) :
    uint16At (putUint16 (wire ++ tail) place v) 0 = uint16At wire 0 ∧
      canonicalQuestion (putUint16 (wire ++ tail) place v) = canonicalQuestion wire := by
  obtain ⟨hstart, -⟩ := parseQuestionNameLoop_ok h
  have hlength : (beBytes 2 v).length = 2 := length_beBytes 2 v
  have hput : place + (beBytes 2 v).length ≤ (wire ++ tail).length := by
    rw [length_append]
    omega
  have hsame : ∀ i, i < place ∨ place + 2 ≤ i → i < wire.length →
      (putUint16 (wire ++ tail) place v)[i]? = wire[i]? := by
    intro i hi hlt
    rw [putUint16, getElem?_putAt hput, getElem?_append_left hlt]
    split
    · rfl
    · rw [if_neg (by omega)]
  refine ⟨uint16At_congr fun i hi => hsame i (by omega) (by omega), ?_⟩
  refine canonicalQuestion_congr ?_ h ?_ ?_
  · rw [putUint16, length_putAt hput, length_append]
    exact Nat.le_add_right _ _
  · intro i hi hstop
    rw [hsame i (by omega) (by omega)]
  · intro i hi hstop
    exact hsame i (by omega) (by omega)

/-- The message for the upstream has the id and the question of the query. -/
theorem ReadFrom.outbound (h : ReadFrom query wire) (forwarded : Option Bytes) :
    uint16At (applyOutboundECS query forwarded).1 0 = query.id ∧
      canonicalQuestion (applyOutboundECS query forwarded).1 = some query.question := by
  obtain ⟨questionEnd, name, hname, hroom, -⟩ := h.name
  obtain rfl := h.message
  have hself : uint16At query.wire 0 = query.id ∧
      canonicalQuestion query.wire = some query.question :=
    ⟨h.id.symm, h.question⟩
  unfold applyOutboundECS
  split
  · exact hself
  split
  · exact hself
  split
  · exact hself
  rename_i ip _ injected hinject
  rw [h.id, ← h.question]
  revert hinject
  fun_cases injectECS query.wire ip with
  | case3 =>
    rintro ⟨⟩
    exact question_of_append hname hroom (by omega) (.inl (by omega))
  | case8 _ _ _ _ _ hparsed =>
    simp [hname] at hparsed
    rintro ⟨⟩
    exact question_of_append hname hroom (by omega) (.inr (by omega))
  | _ => nofun

/-- The query of a request is read from its message. -/
theorem parseHTTPRequest_ok {lib : HTTPLib} {request : HTTPRequest}
    (h : parseHTTPRequest lib request = .ok query) : ReadFrom query query.wire := by
  obtain ⟨-, h⟩ := ite_error_eq_ok.mp h
  obtain ⟨wire, -, h⟩ := bind_eq_ok.mp h
  have hread := parseDNSQuery_ok (ite_error_eq_ok.mp h).2
  rwa [hread.message]

end NrePlugins.Doh
