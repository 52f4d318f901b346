import Nre.Doh.Wire

/-!
# Lowering TTLs in place

`clampDNSResponseTTLs` walks over the records of a message while it changes them. A
pointer of a later name may lead into a TTL that has been lowered, so that the walk
fails; but when it comes to its end, it has met the same records as a walk over the
message as it was. The reason is that the place where a name ends, and with it every
place in its record, depends only on the bytes from the start of the record on
(`skipDNSNameLoop_agree`), and these have not been changed yet.

`clampDNSResponseTTLs_ok`: the TTLs of all records but OPT, and the minimum of every
SOA in the authority section, are the smaller of what they were and the limit; nothing
else changes.
-/

namespace NrePlugins.Doh

open List

/-! ## Overwriting -/

section PutAt

variable {wire text : Bytes} {i : Nat}

theorem length_putAt (h : i + text.length ≤ wire.length) :
    (putAt wire i text).length = wire.length := by
  simp only [putAt, length_append, length_take, length_drop]
  omega

theorem getElem?_putAt (h : i + text.length ≤ wire.length) (j : Nat) :
    (putAt wire i text)[j]? =
      if j < i then wire[j]? else if j < i + text.length then text[j - i]? else wire[j]? := by
  have hi : (wire.take i).length = i := by
    rw [length_take]
    omega
  unfold putAt
  split_ifs with hbefore hinside
  · rw [append_assoc, getElem?_append_left (by omega), getElem?_take_of_lt hbefore]
  · rw [append_assoc, getElem?_append_right (by omega), hi, getElem?_append_left (by omega)]
  · rw [getElem?_append_right (by simp [hi]; omega), getElem?_drop]
    congr 1
    rw [length_append]
    omega

theorem slice_eq_take_drop (s : Bytes) (i j : Nat) : slice s i j = (s.drop i).take (j - i) := by
  rw [slice, drop_take]

theorem slice_putAt_self (h : i + text.length ≤ wire.length) :
    slice (putAt wire i text) i (i + text.length) = text := by
  exact slice_mid (by rw [length_take]; omega) rfl

theorem uint32At_putUint32 {v : Nat} (h : i + 4 ≤ wire.length) (hv : v < 2 ^ 32) :
    uint32At (putUint32 wire i v) i = v := by
  have hroom : i + (beBytes 4 v).length ≤ wire.length := by rwa [length_beBytes]
  have hslice := slice_putAt_self hroom
  rw [length_beBytes] at hslice
  rw [uint32At, putUint32, hslice, readBE_beBytes]
  exact Nat.mod_eq_of_lt hv

end PutAt

/-! ## Messages that agree from a place on -/

variable {o i limit : Nat} {a b : Bytes} {wire : Bytes} {offset : Nat} {r : ResourceRecord}
  {labels expanded : Nat} {visited : List Nat} {result : Bytes}

/-- The messages are equally long, and equal from `o` on. -/
structure Agree (o : Nat) (a b : Bytes) : Prop where
  length : a.length = b.length
  drop : a.drop o = b.drop o

namespace Agree

theorem mono (h : Agree o a b) {o' : Nat} (ho : o ≤ o') : Agree o' a b := by
  refine ⟨h.length, ?_⟩
  rw [show o' = o + (o' - o) by omega, ← drop_drop, ← drop_drop, h.drop]

theorem getElem? (h : Agree o a b) (hi : o ≤ i) : a[i]? = b[i]? := by
  have hdrop := congrArg (fun l : Bytes => l[0]?) (h.mono hi).drop
  simpa [getElem?_drop] using hdrop

theorem slice (h : Agree o a b) (hi : o ≤ i) (j : Nat) :
    NrePlugins.slice a i j = NrePlugins.slice b i j := by
  rw [slice_eq_take_drop, slice_eq_take_drop, (h.mono hi).drop]

theorem uint16At (h : Agree o a b) (hi : o ≤ i) : Doh.uint16At a i = Doh.uint16At b i := by
  rw [Doh.uint16At, Doh.uint16At, h.slice hi]

theorem uint32At (h : Agree o a b) (hi : o ≤ i) : Doh.uint32At a i = Doh.uint32At b i := by
  rw [Doh.uint32At, Doh.uint32At, h.slice hi]

end Agree

/-! ## Names and records end where they end -/

/-- Once a pointer has been followed, the end of the name is known; before, it lies ahead. -/
theorem skipDNSNameLoop_end {consumedEnd : Option Nat} {r : Nat}
    (h : skipDNSNameLoop wire labels offset consumedEnd expanded visited = .ok r) :
    consumedEnd.elim (offset < r) (r = ·) := by
  fun_induction skipDNSNameLoop wire labels offset consumedEnd expanded visited with
  | case6 _ offset consumedEnd _ _ _ _ _ _ _ _ _ ih =>
    obtain rfl : r = consumedEnd.getD (offset + 2) := ih h
    cases consumedEnd with
    | none => exact Nat.lt_add_of_pos_right Nat.two_pos
    | some consumed => rfl
  | case9 _ offset consumedEnd =>
    cases h
    cases consumedEnd with
    | none => exact Nat.lt_succ_self offset
    | some consumed => rfl
  | case10 _ offset consumedEnd _ _ _ length _ _ _ _ _ ih =>
    have hlater := ih h
    cases consumedEnd with
    | none => exact Nat.lt_trans (Nat.lt_add_right _ (Nat.lt_succ_self offset)) hlater
    | some consumed => exact hlater
  | _ => cases h

theorem skipDNSNameLoop_agree {consumedEnd : Option Nat} {r r' : Nat} (hagree : Agree o a b)
    (ho : o ≤ offset)
    (ha : skipDNSNameLoop a labels offset consumedEnd expanded visited = .ok r)
    (hb : skipDNSNameLoop b labels offset consumedEnd expanded visited = .ok r') : r = r' := by
  fun_induction skipDNSNameLoop a labels offset consumedEnd expanded visited with
  | case6 _ _ _ _ _ hearly _ hbyte hpointer =>
    -- both follow a pointer, whatever it leads to
    rw [skipDNSNameLoop, if_neg hearly, ← hagree.getElem? ho, hbyte] at hb
    simp only [if_pos hpointer, ite_error_eq_ok] at hb
    exact (skipDNSNameLoop_end ha).trans (skipDNSNameLoop_end hb.2.2).symm
  | case9 _ _ _ _ _ hearly _ hbyte hpointer _ _ hroot =>
    rw [skipDNSNameLoop, if_neg hearly, ← hagree.getElem? ho, hbyte] at hb
    simp only [if_neg hpointer, if_pos hroot, ite_error_eq_ok] at hb
    exact Except.ok.inj (ha.symm.trans hb.2.2)
  | case10 _ _ _ _ _ hearly _ hbyte hpointer _ _ hroot ih =>
    rw [skipDNSNameLoop, if_neg hearly, ← hagree.getElem? ho, hbyte] at hb
    simp only [if_neg hpointer, if_neg hroot, ite_error_eq_ok] at hb
    exact ih (by omega) ha hb.2.2
  | _ => cases ha

/-- What is known about a record that was read at `offset`. -/
structure RecordAt (wire : Bytes) (offset : Nat) (r : ResourceRecord) : Prop where
  after : offset < r.ttlOffset
  rdataStart : r.rdataStart = r.ttlOffset + 6
  ordered : r.rdataStart ≤ r.rdataEnd
  inside : r.rdataEnd ≤ wire.length
  ttl : r.ttl = uint32At wire r.ttlOffset

theorem RecordAt.lt (h : RecordAt wire offset r) : offset < r.rdataEnd := by
  obtain ⟨hafter, hstart, hordered, -, -⟩ := h
  omega

theorem parseResourceRecord_ok (h : parseResourceRecord wire offset = .ok r) :
    ∃ next, skipDNSName wire offset = .ok next ∧
      r = { rrType := uint16At wire next, rrClass := uint16At wire (next + 2),
            ttl := uint32At wire (next + 4), ttlOffset := next + 4, rdataStart := next + 10,
            rdataEnd := next + 10 + uint16At wire (next + 8) } ∧
      next + 10 + uint16At wire (next + 8) ≤ wire.length := by
  revert h
  fun_cases parseResourceRecord wire offset with
  | case4 next hnext _ _ _ hinside =>
    rintro ⟨⟩
    exact ⟨next, hnext, rfl, Nat.le_of_not_lt hinside⟩
  | _ => nofun

theorem recordAt_of_parse (h : parseResourceRecord wire offset = .ok r) :
    RecordAt wire offset r := by
  obtain ⟨next, hnext, rfl, hinside⟩ := parseResourceRecord_ok h
  have hlt : offset < next := skipDNSNameLoop_end hnext
  exact ⟨Nat.lt_add_right 4 hlt, rfl, Nat.le_add_right _ _, hinside, rfl⟩

theorem parseResourceRecord_agree {r' : ResourceRecord} (hagree : Agree o a b)
    (ha : parseResourceRecord a o = .ok r) (hb : parseResourceRecord b o = .ok r') : r = r' := by
  obtain ⟨next, hnext, rfl, -⟩ := parseResourceRecord_ok ha
  obtain ⟨next', hnext', rfl, -⟩ := parseResourceRecord_ok hb
  obtain rfl : next = next' := skipDNSNameLoop_agree hagree (Nat.le_refl o) hnext hnext'
  have hlt : o < next := skipDNSNameLoop_end hnext
  simp only [hagree.uint16At (show o ≤ next by omega), hagree.uint16At (show o ≤ next + 2 by omega),
    hagree.uint32At (show o ≤ next + 4 by omega), hagree.uint16At (show o ≤ next + 8 by omega)]

theorem parseSOAMinimum_ok {start stop m : Nat} (h : parseSOAMinimum wire start stop = .ok m) :
    start + 20 < stop ∧ stop ≤ wire.length ∧ m = uint32At wire (stop - 4) := by
  revert h
  fun_cases parseSOAMinimum wire start stop with
  | case6 _ first hfirst _ second hsecond =>
    rintro ⟨⟩
    have hlt : start < first := skipDNSNameLoop_end hfirst
    have hlt' : first < second := skipDNSNameLoop_end hsecond
    exact ⟨by omega, by omega, rfl⟩
  | _ => nofun

/-! ## The records of a message -/

def recordsFrom (wire : Bytes) : Nat → Nat → Except Err (List ResourceRecord)
  | 0, _ => .ok []
  | remaining + 1, offset => do
    let record ← parseResourceRecord wire offset
    let rest ← recordsFrom wire remaining record.rdataEnd
    return record :: rest

/-- All records of a message, in order. -/
def recordsOf (wire : Bytes) : Except Err (List ResourceRecord) := do
  let (questionEnd, _) ← parseQuestionName wire 12
  recordsFrom wire (countsOf wire).total (questionEnd + 4)

/-- The four bytes of a number at `place`. -/
def InField (place i : Nat) : Prop := place ≤ i ∧ i < place + 4

/-- The numbers of a record that are subject to the limit: the TTL unless it is an OPT
record, and the minimum of an SOA in the authority section. -/
def limitedPlaces (c : Counts) (index : Nat) (r : ResourceRecord) : List Nat :=
  (if r.rrType ≠ 41 then [r.ttlOffset] else []) ++ if c.isSOA index r then [r.rdataEnd - 4] else []

/-- The same for all records; the first has the given index. -/
def placesFrom (c : Counts) : Nat → List ResourceRecord → List Nat
  | _, [] => []
  | index, r :: rest => limitedPlaces c index r ++ placesFrom c (index + 1) rest

/-- The numbers at `places` are lowered to the limit, and nothing else changes. -/
structure Lowers (limit : Nat) (places : List Nat) (a b : Bytes) : Prop where
  length : b.length = a.length
  low : ∀ p ∈ places, uint32At b p = min (uint32At a p) limit
  rest : ∀ i, (∀ p ∈ places, ¬ InField p i) → b[i]? = a[i]?

theorem getElem?_slice (s : Bytes) (i j k : Nat) :
    (slice s i j)[k]? = if i + k < j then s[i + k]? else none := by
  rw [slice, getElem?_drop]
  split
  · rename_i hlt
    exact getElem?_take_of_lt hlt
  · exact getElem?_take_eq_none (by omega)

/-- A number is given by its four bytes. -/
theorem uint32At_congr {p : Nat} (h : ∀ i, InField p i → a[i]? = b[i]?) :
    uint32At a p = uint32At b p := by
  unfold uint32At
  congr 1
  apply ext_getElem?
  intro k
  rw [getElem?_slice, getElem?_slice]
  split
  · rename_i hlt
    exact h _ ⟨by omega, hlt⟩
  · rfl

namespace Lowers

variable {places later : List Nat} {d : Bytes}

theorem nil (limit : Nat) (a : Bytes) : Lowers limit [] a a :=
  ⟨rfl, fun _ hp => absurd hp not_mem_nil, fun _ _ => rfl⟩

/-- A number that meets none of the places is not changed. -/
theorem other (h : Lowers limit places a b) {p : Nat}
    (hp : ∀ q ∈ places, q + 4 ≤ p ∨ p + 4 ≤ q) : uint32At b p = uint32At a p := by
  refine uint32At_congr fun i hi => h.rest i ?_
  intro q hq hin
  obtain ⟨hle, hlt⟩ := hi
  obtain ⟨hle', hlt'⟩ := hin
  rcases hp q hq with hbefore | hafter
  · omega
  · omega

theorem append (h : Lowers limit places a b) (h' : Lowers limit later b d)
    (hordered : ∀ p ∈ places, ∀ q ∈ later, p + 4 ≤ q) : Lowers limit (places ++ later) a d := by
  refine ⟨h'.length.trans h.length, ?_, ?_⟩
  · intro p hp
    rcases mem_append.mp hp with hp | hp
    · rw [h'.other fun q hq => .inr (hordered p hp q hq)]
      exact h.low p hp
    · rw [h'.low p hp, h.other fun q hq => .inl (hordered q hq p hp)]
  · intro i hi
    rw [h'.rest i fun p hp => hi p (mem_append_right _ hp)]
    exact h.rest i fun p hp => hi p (mem_append_left _ hp)

/-- From a place on that lies behind all of them, nothing changes. -/
theorem agree (h : Lowers limit places a b) (ho : ∀ p ∈ places, p + 4 ≤ o) : Agree o a b := by
  refine ⟨h.length.symm, ?_⟩
  apply ext_getElem?
  intro j
  rw [getElem?_drop, getElem?_drop]
  refine (h.rest _ ?_).symm
  rintro p hp ⟨-, hlt⟩
  have hle := ho p hp
  omega

/-- One number. -/
theorem single (h : p + 4 ≤ a.length) (hlimit : limit < 2 ^ 32) :
    Lowers limit [p] a (if uint32At a p > limit then putUint32 a p limit else a) := by
  split
  · refine ⟨length_putAt (by rwa [length_beBytes]), ?_, ?_⟩
    · intro q hq
      obtain rfl := mem_singleton.mp hq
      rw [uint32At_putUint32 h hlimit]
      omega
    · intro i hi
      have hout := hi p (mem_singleton_self p)
      rw [putUint32, getElem?_putAt (by rwa [length_beBytes])]
      split
      · rfl
      · rw [if_neg]
        intro hlt
        exact hout ⟨by omega, hlt⟩
  · refine ⟨rfl, ?_, fun _ _ => rfl⟩
    intro q hq
    obtain rfl := mem_singleton.mp hq
    omega

end Lowers

/-- The TTL of one record. -/
theorem lowers_ttl (hlimit : limit < 2 ^ 32) (httl : r.ttl = uint32At wire r.ttlOffset)
    (hroom : r.ttlOffset + 4 ≤ wire.length) :
    Lowers limit (if r.rrType ≠ 41 then [r.ttlOffset] else []) wire
      (if r.rrType ≠ 41 ∧ r.ttl > limit then putUint32 wire r.ttlOffset limit else wire) := by
  rw [ite_and, httl]
  by_cases hopt : r.rrType ≠ 41
  · rw [if_pos hopt, if_pos hopt]
    exact .single hroom hlimit
  · rw [if_neg hopt, if_neg hopt]
    exact .nil limit wire

/-- One record: its numbers lie inside of it. -/
theorem clampRecord_ok {c : Counts} {index : Nat} (hlimit : limit < 2 ^ 32)
    (hr : RecordAt wire offset r) (h : clampRecord c limit index wire r = .ok result) :
    Lowers limit (limitedPlaces c index r) wire result ∧
      ∀ p ∈ limitedPlaces c index r, offset < p ∧ p + 4 ≤ r.rdataEnd := by
  obtain ⟨hafter, hstart, hordered, hinside, httl⟩ := hr
  have hlowers := lowers_ttl hlimit httl (by omega)
  unfold clampRecord at h
  generalize (if r.rrType ≠ 41 ∧ r.ttl > limit then putUint32 wire r.ttlOffset limit
    else wire) = lowered at h hlowers
  have hplaces : ∀ p ∈ (if r.rrType ≠ 41 then [r.ttlOffset] else []), p = r.ttlOffset := by
    intro p hp
    split at hp
    · exact mem_singleton.mp hp
    · cases hp
  unfold limitedPlaces
  by_cases hsoa : c.isSOA index r
  · simp only [if_pos hsoa] at h ⊢
    obtain ⟨minimum, hminimum, hresult⟩ := bind_eq_ok.mp h
    obtain ⟨hroom, hlength, rfl⟩ := parseSOAMinimum_ok hminimum
    rw [← apply_ite pure] at hresult
    cases hresult
    constructor
    · refine hlowers.append (.single (by omega) hlimit) ?_
      intro p hp q hq
      rw [hplaces p hp, mem_singleton.mp hq]
      omega
    · intro p hp
      rcases mem_append.mp hp with hp | hp
      · rw [hplaces p hp]
        omega
      · rw [mem_singleton.mp hp]
        omega
  · simp only [if_neg hsoa, append_nil] at h ⊢
    cases h
    refine ⟨hlowers, ?_⟩
    intro p hp
    rw [hplaces p hp]
    omega

/-- The walk over the message that is being changed meets the records of the message `a`,
which it agrees with from the next record on. -/
theorem clampRecords_ok {c : Counts} {remaining index stop : Nat} {records : List ResourceRecord}
    (hlimit : limit < 2 ^ 32) (hagree : Agree offset a wire)
    (hrecords : recordsFrom a remaining offset = .ok records)
    (h : clampRecords c limit remaining index offset wire = .ok (stop, result)) :
    Lowers limit (placesFrom c index records) wire result ∧
      ∀ p ∈ placesFrom c index records, offset < p := by
  induction remaining generalizing index offset wire records with
  | zero =>
    cases hrecords
    obtain ⟨-, rfl⟩ := Prod.mk.inj (Except.ok.inj h)
    exact ⟨.nil limit wire, fun _ hp => absurd hp not_mem_nil⟩
  | succ remaining ih =>
    obtain ⟨r, hr, hmore⟩ := bind_eq_ok.mp hrecords
    obtain ⟨rest, hrest, hpure⟩ := bind_eq_ok.mp hmore
    cases hpure
    obtain ⟨r', hr', hnext⟩ := bind_eq_ok.mp h
    obtain ⟨lowered, hlowered, hnext⟩ := bind_eq_ok.mp hnext
    obtain rfl := parseResourceRecord_agree hagree hr hr'
    have hat := recordAt_of_parse hr'
    obtain ⟨hlowers, hplaces⟩ := clampRecord_ok hlimit hat hlowered
    have hbehind := hlowers.agree fun p hp => (hplaces p hp).2
    have hagree' : Agree r.rdataEnd a lowered := by
      have hlater := hagree.mono hat.lt.le
      exact ⟨hlater.length.trans hbehind.length, hlater.drop.trans hbehind.drop⟩
    obtain ⟨hlowers', hplaces'⟩ := ih hagree' hrest hnext
    refine ⟨hlowers.append hlowers' ?_, ?_⟩
    · intro p hp q hq
      have hend := (hplaces p hp).2
      have hlater := hplaces' q hq
      omega
    · intro p hp
      rcases mem_append.mp hp with hp | hp
      · exact (hplaces p hp).1
      · exact hat.lt.trans (hplaces' p hp)

/-- The numbers of a message that are subject to the limit. -/
def limitedIn (wire : Bytes) (records : List ResourceRecord) : List Nat :=
  placesFrom (countsOf wire) 0 records

/-- Whatever is returned has all TTLs and negative TTLs within the limit, and is the
message in everything else. They all stand behind the question. -/
theorem clampDNSResponseTTLs_ok {name : Bytes} {questionEnd : Nat} {records : List ResourceRecord}
    (hlimit : limit < 2 ^ 32) (hquestion : parseQuestionName wire 12 = .ok (questionEnd, name))
    (hrecords : recordsOf wire = .ok records) (h : clampDNSResponseTTLs wire limit = .ok result) :
    Lowers limit (limitedIn wire records) wire result ∧
      ∀ p ∈ limitedIn wire records, questionEnd + 4 < p := by
  obtain ⟨-, h⟩ := ite_error_eq_ok.mp h
  unfold recordsOf at hrecords
  rw [hquestion] at h hrecords
  obtain ⟨-, h⟩ := ite_error_eq_ok.mp h
  obtain ⟨⟨stop, lowered⟩, hlowered, h⟩ := bind_eq_ok.mp h
  obtain ⟨-, h⟩ := ite_error_eq_ok.mp h
  cases h
  exact clampRecords_ok hlimit ⟨rfl, rfl⟩ hrecords hlowered

end NrePlugins.Doh
