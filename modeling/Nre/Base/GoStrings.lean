import Nre.Base.Bytes

/-!
# UTF-8 and lower case in Go

Go strings are byte strings; `range`, `strings.Map` and `strings.ToLower` decode
them as UTF-8 and read every byte that starts no valid encoding as U+FFFD.

- `decodeRune`: `utf8.DecodeRuneInString`, the rune and its width;
- `mapRunes`: `strings.Map` for a mapping that drops no rune;
- `trimSpace`: `strings.TrimSpace`;
- `toLower`: `strings.ToLower`, with the table of `unicode.ToLower` as the
  parameter `RuneLower`;
- `validUTF8`, `Str`: Rust's `core::str::from_utf8` and `&str`, by the same table of
  encodings.

Two facts say what `toLower` keeps of a text: letter case in the ASCII range is
lost (`toLower_asciiLower`), a final dot stays (`toLower_dot`). Trimming twice is trimming
once (`trimSpace_trimSpace`).
-/

namespace NrePlugins

open List

/-! ## Runes -/

/-- `utf8.RuneError`. -/
def runeError : Nat := 0xfffd

/-- Is the byte in the range? -/
def within (lo hi b : UInt8) : Bool := lo ≤ b && b ≤ hi

variable (b : UInt8)

/-- A continuation byte. -/
def isCont : Bool := within 0x80 0xbf b

/-- The six low bits of a continuation byte. -/
def contBits : Nat := b.toNat - 0x80

/-- The second byte allowed after a given first one: overlong forms, surrogates and
runes beyond U+10FFFF are excluded there. -/
def acceptSecond (b0 b1 : UInt8) : Bool :=
  if b0 = 0xe0 then within 0xa0 0xbf b1
  else if b0 = 0xed then within 0x80 0x9f b1
  else if b0 = 0xf0 then within 0x90 0xbf b1
  else if b0 = 0xf4 then within 0x80 0x8f b1
  else isCont b1

def decodeTwo (b0 : UInt8) : Bytes → Nat × Nat
  | b1 :: _ =>
    if acceptSecond b0 b1 then ((b0.toNat - 0xc0) * 64 + contBits b1, 2) else (runeError, 1)
  | _ => (runeError, 1)

def decodeThree (b0 : UInt8) : Bytes → Nat × Nat
  | b1 :: b2 :: _ =>
    if acceptSecond b0 b1 && isCont b2 then
      (((b0.toNat - 0xe0) * 64 + contBits b1) * 64 + contBits b2, 3)
    else (runeError, 1)
  | _ => (runeError, 1)

def decodeFour (b0 : UInt8) : Bytes → Nat × Nat
  | b1 :: b2 :: b3 :: _ =>
    if acceptSecond b0 b1 && isCont b2 && isCont b3 then
      ((((b0.toNat - 0xf0) * 64 + contBits b1) * 64 + contBits b2) * 64 + contBits b3, 4)
    else (runeError, 1)
  | _ => (runeError, 1)

/-- `utf8.DecodeRuneInString` of a text that starts with `b0`. -/
def decodeRune (b0 : UInt8) (rest : Bytes) : Nat × Nat :=
  if b0 < 0x80 then (b0.toNat, 1)
  else if within 0xc2 0xdf b0 then decodeTwo b0 rest
  else if within 0xe0 0xef b0 then decodeThree b0 rest
  else if within 0xf0 0xf4 b0 then decodeFour b0 rest
  else (runeError, 1)

/-- `utf8.AppendRune`. -/
def encodeRune (r : Nat) : Bytes :=
  if r < 0x80 then [UInt8.ofNat r]
  else if r < 0x800 then [UInt8.ofNat (0xc0 + r / 64), UInt8.ofNat (0x80 + r % 64)]
  else if 0x10ffff < r ∨ (0xd800 ≤ r ∧ r ≤ 0xdfff) then [0xef, 0xbf, 0xbd]
  else if r < 0x10000 then
    [UInt8.ofNat (0xe0 + r / 4096), UInt8.ofNat (0x80 + r / 64 % 64), UInt8.ofNat (0x80 + r % 64)]
  else
    [UInt8.ofNat (0xf0 + r / 262144), UInt8.ofNat (0x80 + r / 4096 % 64),
      UInt8.ofNat (0x80 + r / 64 % 64), UInt8.ofNat (0x80 + r % 64)]

/-- The loop of `mapRunes`; the first `skip` bytes belong to the rune read last. -/
def mapRunesLoop (f : Nat → Nat) : Nat → Bytes → Bytes
  | _, [] => []
  | skip + 1, _ :: rest => mapRunesLoop f skip rest
  | 0, b :: rest =>
    encodeRune (f (decodeRune b rest).1) ++ mapRunesLoop f ((decodeRune b rest).2 - 1) rest

/-- `strings.Map` for a mapping that drops no rune. -/
def mapRunes (f : Nat → Nat) (s : Bytes) : Bytes := mapRunesLoop f 0 s

/-! ## Space -/

/-- `unicode.IsSpace`. -/
def isSpaceRune (r : Nat) : Bool :=
  (0x09 ≤ r && r ≤ 0x0d) || r == 0x20 || r == 0x85 || r == 0xa0 || r == 0x1680 ||
    (0x2000 ≤ r && r ≤ 0x200a) || r == 0x2028 || r == 0x2029 || r == 0x202f || r == 0x205f ||
    r == 0x3000

/-- The left half of `strings.TrimSpace`; `skip` is as in `mapRunesLoop`. -/
def trimLeftSpace : Nat → Bytes → Bytes
  | _, [] => []
  | skip + 1, _ :: rest => trimLeftSpace skip rest
  | 0, b :: rest =>
    if isSpaceRune (decodeRune b rest).1 then trimLeftSpace ((decodeRune b rest).2 - 1) rest
    else b :: rest

/-- `utf8.DecodeLastRuneInString` of a text whose last byte is `b`, with the bytes
before it in reverse: it looks back for a byte that starts an encoding and accepts
that encoding when it ends the text. -/
def decodeLastRune (before : Bytes) : Nat × Nat :=
  if b < 0x80 then (b.toNat, 1)
  else
    let conts := (before.take 3).takeWhile isCont
    match (before.drop conts.length).head? with
    | none => (runeError, 1)
    | some start =>
      let decoded := decodeRune start (conts.reverse ++ [b])
      if decoded.2 = conts.length + 2 then decoded else (runeError, 1)

/-- The right half of `strings.TrimSpace`, on the reversed text. -/
def trimRightSpace : Nat → Bytes → Bytes
  | _, [] => []
  | skip + 1, _ :: rest => trimRightSpace skip rest
  | 0, b :: rest =>
    if isSpaceRune (decodeLastRune b rest).1 then
      trimRightSpace ((decodeLastRune b rest).2 - 1) rest
    else b :: rest

/-- `strings.TrimSpace`. -/
def trimSpace (s : Bytes) : Bytes := (trimRightSpace 0 (trimLeftSpace 0 s).reverse).reverse

/-! ## Lower case -/

/-- One ASCII letter in lower case. -/
def lowerByte : UInt8 := if ch 'A' ≤ b ∧ b ≤ ch 'Z' then b + 32 else b

def asciiLower (s : Bytes) : Bytes := s.map lowerByte

def isAscii (s : Bytes) : Bool := s.all (· < 128)

/-- The table of `unicode.ToLower`, which lowers the ASCII letters and leaves the
other ASCII characters alone. -/
structure RuneLower where
  map : Nat → Nat
  ascii : ∀ b : UInt8, b < 128 → map b.toNat = (lowerByte b).toNat

/-- The table restricted to ASCII. -/
def RuneLower.asciiOnly : RuneLower where
  map r := if 65 ≤ r ∧ r ≤ 90 then r + 32 else r
  ascii := by decide +kernel

/-- `strings.ToLower`: ASCII strings have their own path. -/
def toLower (L : RuneLower) (s : Bytes) : Bytes :=
  if isAscii s then asciiLower s else mapRunes L.map s

/-- What single bytes do, gone through once. -/
theorem byte_facts : ∀ b : UInt8, lowerByte (lowerByte b) = lowerByte b ∧
    (lowerByte b < 128 ↔ b < 128) ∧ (lowerByte b = ch '.' ↔ b = ch '.') ∧
    (¬ b < 128 → lowerByte b = b) ∧ (isCont b = true → ¬ b < 128) ∧
    (b < 128 → encodeRune b.toNat = [b]) ∧
    (within 0xa0 0xbf b ∨ within 0x80 0x9f b ∨ within 0x90 0xbf b ∨ within 0x80 0x8f b →
      isCont b = true) := by
  decide +kernel

theorem lowerByte_lowerByte : lowerByte (lowerByte b) = lowerByte b := (byte_facts b).1

theorem lowerByte_lt : lowerByte b < 128 ↔ b < 128 := (byte_facts b).2.1

theorem lowerByte_dot : lowerByte b = ch '.' ↔ b = ch '.' := (byte_facts b).2.2.1

/-- Lower-casing changes no byte of a longer encoding. -/
theorem lowerByte_of_not_lt : ¬ b < 128 → lowerByte b = b := (byte_facts b).2.2.2.1

theorem isCont_not_lt : isCont b = true → ¬ b < 128 := (byte_facts b).2.2.2.2.1

theorem encodeRune_ascii : b < 128 → encodeRune b.toNat = [b] :=
  (byte_facts b).2.2.2.2.2.1

theorem isAscii_asciiLower (s : Bytes) : isAscii (asciiLower s) = isAscii s := by
  simp [isAscii, asciiLower, lowerByte_lt, Function.comp_def]

theorem asciiLower_asciiLower (s : Bytes) : asciiLower (asciiLower s) = asciiLower s := by
  simp [asciiLower, lowerByte_lowerByte, Function.comp_def]

theorem decodeRune_ascii {b : UInt8} (h : b < 128) (rest : Bytes) :
    decodeRune b rest = (b.toNat, 1) := by
  rw [decodeRune, if_pos h]

/-- A second byte is a continuation byte, whatever the first one. -/
theorem acceptSecond_isCont {b0 b1 : UInt8} (h : acceptSecond b0 b1 = true) : isCont b1 = true := by
  have hranges : ∀ b : UInt8, within 0xa0 0xbf b ∨ within 0x80 0x9f b ∨ within 0x90 0xbf b ∨
      within 0x80 0x8f b → isCont b = true := fun b => (byte_facts b).2.2.2.2.2.2
  rw [acceptSecond] at h
  split_ifs at h
  · exact hranges b1 (.inl h)
  · exact hranges b1 (.inr (.inl h))
  · exact hranges b1 (.inr (.inr (.inl h)))
  · exact hranges b1 (.inr (.inr (.inr h)))
  · exact h

theorem acceptSecond_of_not_isCont (b0 : UInt8) {b1 : UInt8} (h : isCont b1 = false) :
    acceptSecond b0 b1 = false := by
  by_contra hne
  simp [acceptSecond_isCont (by simpa using hne)] at h

/-! ## What decoding reads -/

/-- The continuation bytes a text starts with: all that decoding reads of what
follows a first byte. -/
def contRun (s : Bytes) : Bytes := s.takeWhile isCont

theorem decodeTwo_contRun (b0 : UInt8) (rest : Bytes) :
    decodeTwo b0 (contRun rest) = decodeTwo b0 rest := by
  cases rest with
  | nil => rfl
  | cons b1 rest =>
    cases h1 : isCont b1 with
    | false => simp [contRun, h1, decodeTwo, acceptSecond_of_not_isCont b0 h1]
    | true => simp [contRun, h1, decodeTwo]

theorem decodeThree_contRun (b0 : UInt8) (rest : Bytes) :
    decodeThree b0 (contRun rest) = decodeThree b0 rest := by
  match rest with
  | [] => rfl
  | [b1] => cases h1 : isCont b1 <;> simp [contRun, h1, decodeThree]
  | b1 :: b2 :: rest =>
    cases h1 : isCont b1 with
    | false => simp [contRun, h1, decodeThree, acceptSecond_of_not_isCont b0 h1]
    | true => cases h2 : isCont b2 <;> simp [contRun, h1, h2, decodeThree]

theorem decodeFour_contRun (b0 : UInt8) (rest : Bytes) :
    decodeFour b0 (contRun rest) = decodeFour b0 rest := by
  match rest with
  | [] => rfl
  | [b1] => cases h1 : isCont b1 <;> simp [contRun, h1, decodeFour]
  | [b1, b2] => cases h1 : isCont b1 <;> cases h2 : isCont b2 <;> simp [contRun, h1, h2, decodeFour]
  | b1 :: b2 :: b3 :: rest =>
    cases h1 : isCont b1 with
    | false => simp [contRun, h1, decodeFour, acceptSecond_of_not_isCont b0 h1]
    | true =>
      cases h2 : isCont b2 <;> cases h3 : isCont b3 <;> simp [contRun, h1, h2, h3, decodeFour]

theorem decodeRune_contRun (rest : Bytes) : decodeRune b (contRun rest) = decodeRune b rest := by
  simp only [decodeRune, decodeTwo_contRun, decodeThree_contRun, decodeFour_contRun]

/-- Decoding takes no more than the text has. -/
theorem decodeRune_width (rest : Bytes) : (decodeRune b rest).2 ≤ rest.length + 1 := by
  have h2 : (decodeTwo b rest).2 ≤ rest.length + 1 := by
    fun_cases decodeTwo b rest <;> simp
  have h3 : (decodeThree b rest).2 ≤ rest.length + 1 := by
    fun_cases decodeThree b rest <;> simp
  have h4 : (decodeFour b rest).2 ≤ rest.length + 1 := by
    fun_cases decodeFour b rest <;> simp
  rw [decodeRune]
  split_ifs
  · simp
  · exact h2
  · exact h3
  · exact h4
  · simp

theorem contRun_asciiLower (s : Bytes) : contRun (asciiLower s) = contRun s := by
  induction s with
  | nil => rfl
  | cons b s ih =>
    by_cases hb : b < 128
    · have hcont : ∀ c : UInt8, c < 128 → isCont c = false := fun c hc =>
        Bool.eq_false_iff.mpr fun h => isCont_not_lt c h hc
      simp [contRun, asciiLower, hcont b hb, hcont _ ((lowerByte_lt b).2 hb)]
    · have ih' : List.takeWhile isCont (List.map lowerByte s) = List.takeWhile isCont s := ih
      simp only [contRun, asciiLower, map_cons, lowerByte_of_not_lt b hb, takeWhile_cons, ih']

theorem contRun_dot (s : Bytes) : contRun (s ++ [ch '.']) = contRun s := by
  have hdot : isCont (ch '.') = false := by decide
  induction s with
  | nil => simp [contRun, hdot]
  | cons b s ih =>
    have ih' : List.takeWhile isCont (s ++ [ch '.']) = List.takeWhile isCont s := ih
    simp only [contRun, cons_append, takeWhile_cons, ih']

/-- Letter case in the ASCII range does not reach the runes of a mapping that ignores it. -/
theorem mapRunesLoop_asciiLower (L : RuneLower) (skip : Nat) (s : Bytes) :
    mapRunesLoop L.map skip (asciiLower s) = mapRunesLoop L.map skip s := by
  fun_induction mapRunesLoop L.map skip s with
  | case1 => rfl
  | case2 _ _ _ ih => exact ih
  | case3 b s ih =>
    show mapRunesLoop L.map 0 (lowerByte b :: asciiLower s) = _
    by_cases hb : b < 128
    · have hlow := (lowerByte_lt b).2 hb
      rw [decodeRune_ascii hb] at ih ⊢
      rw [mapRunesLoop, decodeRune_ascii hlow, ih, L.ascii b hb, L.ascii _ hlow,
        lowerByte_lowerByte]
    · have hsame : decodeRune b (asciiLower s) = decodeRune b s := by
        rw [← decodeRune_contRun, contRun_asciiLower, decodeRune_contRun]
      rw [lowerByte_of_not_lt b hb, mapRunesLoop, hsame, ih]

/-- A final dot is a rune of its own, whatever stands before it. -/
theorem mapRunesLoop_dot (L : RuneLower) {skip : Nat} {s : Bytes} (hskip : skip ≤ s.length) :
    mapRunesLoop L.map skip (s ++ [ch '.']) = mapRunesLoop L.map skip s ++ [ch '.'] := by
  fun_induction mapRunesLoop L.map skip s with
  | case1 skip =>
    obtain rfl : skip = 0 := by simpa using hskip
    have hdot : ch '.' < 128 := by decide
    have hsame : lowerByte (ch '.') = ch '.' := by decide
    show encodeRune (L.map (decodeRune (ch '.') []).1) ++ [] = [ch '.']
    rw [decodeRune_ascii hdot, L.ascii _ hdot, hsame, encodeRune_ascii _ hdot, append_nil]
  | case2 skip _ _ ih => exact ih (by simpa using hskip)
  | case3 b s ih =>
    have hsame : decodeRune b (s ++ [ch '.']) = decodeRune b s := by
      rw [← decodeRune_contRun, contRun_dot, decodeRune_contRun]
    have hwidth := decodeRune_width b s
    rw [cons_append, mapRunesLoop, hsame, ih (by omega), append_assoc]

/-- Letter case is lost. -/
theorem toLower_asciiLower (L : RuneLower) (s : Bytes) :
    toLower L (asciiLower s) = toLower L s := by
  rw [toLower, isAscii_asciiLower, asciiLower_asciiLower, mapRunes, mapRunesLoop_asciiLower,
    ← mapRunes, toLower]

/-- A final dot stays. -/
theorem toLower_dot (L : RuneLower) (s : Bytes) :
    toLower L (s ++ [ch '.']) = toLower L s ++ [ch '.'] := by
  have hascii : isAscii (s ++ [ch '.']) = isAscii s := by
    have : (ch '.' < 128) = True := by decide
    simp [isAscii, this]
  have hlower : asciiLower (s ++ [ch '.']) = asciiLower s ++ [ch '.'] := by
    have : lowerByte (ch '.') = ch '.' := by decide
    simp [asciiLower, this]
  rw [toLower, toLower, hascii, hlower, mapRunes, mapRunesLoop_dot L (Nat.zero_le _),
    ← mapRunes]
  split_ifs
  · rfl
  · rfl

/-! ## Trimming -/

/-- A rune read from the beginning of a text is the same one, or none. -/
theorem decodeRune_append (b0 : UInt8) (rest more : Bytes) :
    decodeRune b0 rest = decodeRune b0 (rest ++ more) ∨ decodeRune b0 rest = (runeError, 1) := by
  have htwo : decodeTwo b0 rest = decodeTwo b0 (rest ++ more) ∨
      decodeTwo b0 rest = (runeError, 1) := by
    fun_cases decodeTwo b0 rest <;> simp [decodeTwo, *]
  have hthree : decodeThree b0 rest = decodeThree b0 (rest ++ more) ∨
      decodeThree b0 rest = (runeError, 1) := by
    fun_cases decodeThree b0 rest <;> simp [decodeThree, *]
  have hfour : decodeFour b0 rest = decodeFour b0 (rest ++ more) ∨
      decodeFour b0 rest = (runeError, 1) := by
    fun_cases decodeFour b0 rest <;> simp [decodeFour, *]
  unfold decodeRune
  split_ifs
  · exact .inl rfl
  · exact htwo
  · exact hthree
  · exact hfour
  · exact .inl rfl

/-- What is left begins with a rune that is no space. -/
theorem trimLeftSpace_head (skip : Nat) (s : Bytes) : trimLeftSpace skip s = [] ∨
    ∃ b rest, trimLeftSpace skip s = b :: rest ∧ isSpaceRune (decodeRune b rest).1 = false := by
  fun_induction trimLeftSpace skip s with
  | case1 => exact .inl rfl
  | case2 _ _ _ ih | case3 _ _ _ ih => exact ih
  | case4 b rest hspace => exact .inr ⟨b, rest, rfl, Bool.eq_false_iff.mpr hspace⟩

theorem trimRightSpace_head (skip : Nat) (s : Bytes) : trimRightSpace skip s = [] ∨
    ∃ b rest, trimRightSpace skip s = b :: rest ∧
      isSpaceRune (decodeLastRune b rest).1 = false := by
  fun_induction trimRightSpace skip s with
  | case1 => exact .inl rfl
  | case2 _ _ _ ih | case3 _ _ _ ih => exact ih
  | case4 b rest hspace => exact .inr ⟨b, rest, rfl, Bool.eq_false_iff.mpr hspace⟩

theorem trimRightSpace_suffix (skip : Nat) (s : Bytes) : trimRightSpace skip s <:+ s := by
  fun_induction trimRightSpace skip s with
  | case1 | case4 => exact suffix_refl _
  | case2 _ _ _ ih | case3 _ _ _ ih => exact ih.trans (suffix_cons _ _)

theorem trimLeftSpace_of_head {b : UInt8} {rest : Bytes}
    (h : isSpaceRune (decodeRune b rest).1 = false) :
    trimLeftSpace 0 (b :: rest) = b :: rest := by
  rw [trimLeftSpace, if_neg (Bool.eq_false_iff.mp h)]

theorem trimRightSpace_of_head {b : UInt8} {rest : Bytes}
    (h : isSpaceRune (decodeLastRune b rest).1 = false) :
    trimRightSpace 0 (b :: rest) = b :: rest := by
  rw [trimRightSpace, if_neg (Bool.eq_false_iff.mp h)]

theorem trimRightSpace_idem (s : Bytes) :
    trimRightSpace 0 (trimRightSpace 0 s) = trimRightSpace 0 s := by
  rcases trimRightSpace_head 0 s with h | ⟨b, rest, h, hspace⟩
  · rw [h]
    rfl
  · rw [h, trimRightSpace_of_head hspace]

/-- Trimming twice is trimming once. -/
@[simp] theorem trimSpace_trimSpace (s : Bytes) : trimSpace (trimSpace s) = trimSpace s := by
  -- the first rune stays what it is, or breaks off, when the end is cut
  have hleft : trimLeftSpace 0 (trimSpace s) = trimSpace s := by
    obtain ⟨cut, hcut⟩ := trimRightSpace_suffix 0 (trimLeftSpace 0 s).reverse
    have happend : trimSpace s ++ cut.reverse = trimLeftSpace 0 s := by
      rw [trimSpace, ← reverse_append, hcut, reverse_reverse]
    cases htrim : trimSpace s with
    | nil => rfl
    | cons b rest =>
      rw [htrim] at happend
      refine trimLeftSpace_of_head ?_
      rcases trimLeftSpace_head 0 s with h | ⟨b', rest', h, hspace⟩
      · simp [h] at happend
      · rw [h] at happend
        obtain ⟨rfl, rfl⟩ := List.cons.inj happend
        rcases decodeRune_append b rest cut.reverse with hsame | herror
        · rw [hsame]
          exact hspace
        · rw [herror]
          rfl
  rw [trimSpace, hleft, trimSpace, reverse_reverse, trimRightSpace_idem]

/-- In a text of ASCII bytes trimming looks at each byte alone. -/
theorem trimSpace_of_ascii {s : Bytes} {p : UInt8 → Bool}
    (hs : ∀ b ∈ s, b < 128 ∧ isSpaceRune b.toNat = p b) :
    trimSpace s = ((s.dropWhile p).reverse.dropWhile p).reverse := by
  -- from either end
  have hdrop : ∀ trim : Bytes → Bytes, trim [] = [] → (∀ (b : UInt8) (rest : Bytes), b < 128 →
      trim (b :: rest) = if isSpaceRune b.toNat then trim rest else b :: rest) →
      ∀ l : Bytes, (∀ b ∈ l, b < 128 ∧ isSpaceRune b.toNat = p b) → trim l = l.dropWhile p := by
    intro trim hnil hcons l hl
    induction l with
    | nil => exact hnil
    | cons b rest ih =>
      obtain ⟨hb, hp⟩ := hl b mem_cons_self
      rw [hcons b rest hb, hp, ih fun b hb => hl b (mem_cons_of_mem _ hb), dropWhile_cons]
  rw [trimSpace, hdrop (trimLeftSpace 0) rfl _ s hs, hdrop (trimRightSpace 0) rfl]
  · intro b rest hb
    rw [trimRightSpace, decodeLastRune, if_pos hb]
    rfl
  · intro b hb
    exact hs b ((dropWhile_suffix _).subset (mem_reverse.mp hb))
  · intro b rest hb
    rw [trimLeftSpace, decodeRune_ascii hb]
    rfl

/-- Without spaces there is nothing to trim. -/
theorem trimSpace_of_visible {s : Bytes} (hs : ∀ b ∈ s, b < 128 ∧ isSpaceRune b.toNat = false) :
    trimSpace s = s := by
  have hnone : ∀ l : Bytes, l.dropWhile (fun _ => false) = l := by
    intro l
    cases l <;> rfl
  rw [trimSpace_of_ascii (p := fun _ => false) hs, hnone, hnone, reverse_reverse]

/-! ## Valid text -/

/-- The loop of `core::str::from_utf8`; `skip` is as in `mapRunesLoop`. U+FFFD itself is
three bytes wide, so a width of one tells it from a decoding error. -/
def validUTF8Loop : Nat → Bytes → Bool
  | _, [] => true
  | skip + 1, _ :: rest => validUTF8Loop skip rest
  | 0, b :: rest =>
    decodeRune b rest != (runeError, 1) && validUTF8Loop ((decodeRune b rest).2 - 1) rest

/-- `core::str::from_utf8` accepts the bytes. -/
def validUTF8 (s : Bytes) : Bool := validUTF8Loop 0 s

theorem validUTF8_of_isAscii {s : Bytes} (h : isAscii s = true) : validUTF8 s = true := by
  unfold validUTF8
  induction s with
  | nil => rfl
  | cons b s ih =>
    rw [isAscii, all_cons, Bool.and_eq_true, decide_eq_true_eq] at h
    have hne : decodeRune b s ≠ (runeError, 1) := by
      rw [decodeRune_ascii h.1]
      intro heq
      have hb := congrArg Prod.fst heq
      have : b.toNat < 256 := b.toNat_lt
      simp only [runeError] at hb
      omega
    rw [validUTF8Loop, Bool.and_eq_true]
    refine ⟨bne_iff_ne.mpr hne, ?_⟩
    rw [decodeRune_ascii h.1]
    exact ih h.2

/-- Rust's `&str`: bytes that are valid UTF-8. -/
@[ext] structure Str where
  bytes : Bytes
  valid : validUTF8 bytes = true
  deriving DecidableEq

/-- `core::str::from_utf8`. -/
def Str.fromUTF8 (bytes : Bytes) : Option Str :=
  if h : validUTF8 bytes = true then some ⟨bytes, h⟩ else none

@[simp] theorem Str.fromUTF8_bytes (s : Str) : Str.fromUTF8 s.bytes = some s := by
  rw [Str.fromUTF8, dif_pos s.valid]

instance : Inhabited Str := ⟨⟨[], rfl⟩⟩

/-- An ASCII literal. -/
def str (s : String) (h : validUTF8 (ascii s) = true := by decide) : Str := ⟨ascii s, h⟩

end NrePlugins
