import Mathlib.Data.List.GetD
import Mathlib.Data.List.TakeWhile
import Nre.Base.Bytes

/-!
# IP address text (`net/netip`)

Go's `netip.ParseAddr` and `netip.Addr.String`, byte by byte, with the one
fact about them that the models rely on: an address survives its own text
(`parseAddr_text4`, `parseAddr_text6`).

The IPv6 writer is RFC 5952's: lower-case groups without leading zeros, the
first longest run of at least two zero groups written `::`. Both the writer's
loop and the parser's loop are reduced to one normal form, a list of groups
before the `::` and one after it (`joinGroups left ++ "::" ++ joinGroups right`).
-/

namespace NrePlugins

open List

/-- The sixteen octets of an IPv6 address. -/
abbrev Octets16 := { o : Bytes // o.length = 16 }

/-- A valid `netip.Addr`: IPv4, or IPv6 with its zone (empty for none). -/
inductive Addr where
  | v4 (a b c d : UInt8)
  | v6 (octets : Octets16) (zone : Bytes)

/-- The first twelve octets of an IPv4-mapped IPv6 address. -/
def mappedPrefix : Bytes := replicate 10 0 ++ [0xff, 0xff]

/-- `Addr.Is4In6`, on the octets. -/
def isMapped (o : Bytes) : Bool := o.take 12 == mappedPrefix

/-- The eight 16-bit groups of sixteen octets. -/
def groups : Bytes → List Nat
  | a :: b :: rest => (a.toNat * 256 + b.toNat) :: groups rest
  | _ => []

/-- The octets of a list of groups. -/
def ungroup (g : List Nat) : Bytes := g.flatMap (beBytes 2)

theorem ungroup_groups : ∀ {o : Bytes}, Even o.length → ungroup (groups o) = o
  | [], _ => rfl
  | [_], h => by simp at h
  | a :: b :: rest, h => by
    have hrest : Even rest.length := by
      simpa [Nat.even_add_one, parity_simps] using h
    have hb : b.toNat < 256 := b.toNat_lt
    have hpair : beBytes 2 (a.toNat * 256 + b.toNat) = [a, b] := by
      have h1 : (a.toNat * 256 + b.toNat) / 256 = a.toNat := by omega
      have h2 : UInt8.ofNat (a.toNat * 256 + b.toNat) = b := by simp
      simp [beBytes, h1, h2]
    have ih := ungroup_groups (o := rest) hrest
    rw [ungroup] at ih ⊢
    rw [groups, flatMap_cons, hpair, ih]
    rfl

theorem length_groups : ∀ {o : Bytes} {n : Nat}, o.length = 2 * n → (groups o).length = n
  | [], n, h => by simp at h; simp [groups, h]
  | [_], n, h => by simp at h; omega
  | a :: b :: rest, n, h => by
    simp only [length_cons] at h
    rw [groups, length_cons, length_groups (o := rest) (n := n - 1) (by omega)]
    omega

theorem groups_lt {o : Bytes} : ∀ g ∈ groups o, g < 65536 := by
  fun_induction groups o with
  | case1 a b rest ih =>
    have := a.toNat_lt
    have := b.toNat_lt
    exact forall_mem_cons.mpr ⟨by omega, ih⟩
  | case2 => simp

/-! ## Writing -/

/-- `digits[n]` of the hexadecimal writer. -/
def hexDigit (n : Nat) : UInt8 := if n < 10 then UInt8.ofNat (48 + n) else UInt8.ofNat (87 + n)

/-- `appendHex`: a group without leading zeros. -/
def hexGroup (x : Nat) : Bytes :=
  (if 0x1000 ≤ x then [hexDigit (x / 0x1000)] else []) ++
  (if 0x100 ≤ x then [hexDigit (x / 0x100 % 16)] else []) ++
  (if 0x10 ≤ x then [hexDigit (x / 0x10 % 16)] else []) ++ [hexDigit (x % 16)]

/-- `appendDecimal`: an octet without leading zeros. -/
def decimalOctet (x : UInt8) : Bytes :=
  (if 100 ≤ x.toNat then [digit (x.toNat / 100)] else []) ++
  (if 10 ≤ x.toNat then [digit (x.toNat / 10 % 10)] else []) ++ [digit (x.toNat % 10)]

/-- `Addr.string4`: the dotted form. -/
def text4 (a b c d : UInt8) : Bytes :=
  decimalOctet a ++ ch '.' :: decimalOctet b ++ ch '.' :: decimalOctet c ++ ch '.' :: decimalOctet d

/-- Length of the run of zero groups that starts at `i`. -/
def zeroRun (g : List Nat) (i : Nat) : Nat := ((g.drop i).takeWhile (· == 0)).length

/-- The first loop of `appendTo6`: start and end of the run to write as `::`,
`(255, 255)` when there is none. -/
def longestRun (g : List Nat) : Nat × Nat :=
  (range 8).foldl (fun z i =>
    if 2 ≤ zeroRun g i ∧ z.2 - z.1 < zeroRun g i then (i, i + zeroRun g i) else z) (255, 255)

/-- The second loop of `appendTo6`, from group `i` on. -/
def text6Loop (g : List Nat) (z : Nat × Nat) : Nat → Nat → Bytes
  | 0, _ => []
  | fuel + 1, i =>
    if 8 ≤ i then []
    else if i = z.1 then
      ch ':' :: ch ':' ::
        (if 8 ≤ z.2 then [] else hexGroup (g.getD z.2 0) ++ text6Loop g z fuel (z.2 + 1))
    else (if 0 < i then [ch ':'] else []) ++ hexGroup (g.getD i 0) ++ text6Loop g z fuel (i + 1)

/-- `Addr.string6` without its zone. -/
def text6 (o : Bytes) : Bytes := text6Loop (groups o) (longestRun (groups o)) 8 0

/-- The `%zone` suffix of an IPv6 text. -/
def zoneText (zone : Bytes) : Bytes := if zone = [] then [] else ch '%' :: zone

/-- The dotted form of the last four octets of an IPv4-mapped address. -/
def unmapText (o : Bytes) : Bytes :=
  text4 (o.getD 12 0) (o.getD 13 0) (o.getD 14 0) (o.getD 15 0)

/-- `netip.Addr.String`. -/
def Addr.text : Addr → Bytes
  | .v4 a b c d => text4 a b c d
  | .v6 o zone =>
    if isMapped o.1 then ascii "::ffff:" ++ unmapText o.1 ++ zoneText zone
    else text6 o.1 ++ zoneText zone

/-! ## Parsing -/

/-- Is the byte a hexadecimal digit? -/
def isHex (b : UInt8) : Bool :=
  isDigit b || (ch 'a' ≤ b && b ≤ ch 'f') || (ch 'A' ≤ b && b ≤ ch 'F')

/-- The value of a hexadecimal digit. -/
def hexVal (b : UInt8) : Nat :=
  if isDigit b then b.toNat - 48
  else if ch 'a' ≤ b && b ≤ ch 'f' then b.toNat - 87
  else b.toNat - 55

/-- The value of a string of hexadecimal digits. -/
def hexFold (s : Bytes) : Nat := s.foldl (fun acc b => acc * 16 + hexVal b) 0

/-- `parseIPv4Fields`: the fields read so far, the octet being read and how
many digits it has. A dot needs a digit before it and more text after it
(`i == 0`, `s[i-1] == '.'` and `i == len(s)-1` in the source). -/
def parseIPv4Fields : Bytes → Nat → Nat → Bytes → Option Bytes
  | [], val, _, fields => if fields.length < 3 then none else some (fields ++ [UInt8.ofNat val])
  | b :: rest, val, digLen, fields =>
    if isDigit b then
      if digLen = 1 ∧ val = 0 then none
      else if 255 < val * 10 + (b.toNat - 48) then none
      else parseIPv4Fields rest (val * 10 + (b.toNat - 48)) (digLen + 1) fields
    else if b = ch '.' then
      if digLen = 0 ∨ rest = [] then none
      else if fields.length = 3 then none
      else parseIPv4Fields rest 0 0 (fields ++ [UInt8.ofNat val])
    else none

/-- `parseIPv4`. -/
def parseIPv4 (s : Bytes) : Option Addr :=
  match parseIPv4Fields s 0 0 [] with
  | some [a, b, c, d] => some (.v4 a b c d)
  | _ => none

/-- The loop of `parseIPv6`: the text left, the octets read so far and the
position of the ellipsis. Each turn reads one group (two octets), so the
source's `i < 16` is eight turns. -/
def parseIPv6Loop : Nat → Bytes → Bytes → Option Nat → Option (Bytes × Option Nat)
  | 0, s, ip, ellipsis => if s = [] then some (ip, ellipsis) else none
  | turns + 1, s, ip, ellipsis =>
    let digits := s.takeWhile isHex
    if 4 < digits.length then none
    else if digits = [] then none
    else
      let ip' := ip ++ beBytes 2 (hexFold digits)
      match s.drop digits.length with
      | [] => some (ip', ellipsis)
      | c :: rest =>
        if c = ch '.' then
          if ellipsis = none ∧ ip.length ≠ 12 then none
          else if 16 < ip.length + 4 then none
          else (parseIPv4Fields s 0 0 []).map fun fields => (ip ++ fields, ellipsis)
        else if c ≠ ch ':' then none
        else
          match rest with
          | [] => none
          | c' :: rest' =>
            if c' = ch ':' then
              if ellipsis.isSome then none
              else if rest' = [] then some (ip', some ip'.length)
              else parseIPv6Loop turns rest' ip' (some ip'.length)
            else parseIPv6Loop turns rest ip' ellipsis

/-- The end of `parseIPv6`: expand the ellipsis to sixteen octets. -/
def expandEllipsis (ip : Bytes) (ellipsis : Option Nat) : Option Bytes :=
  if ip.length < 16 then
    ellipsis.map fun e => ip.take e ++ replicate (16 - ip.length) 0 ++ ip.drop e
  else if ellipsis.isSome then none
  else some ip

/-- `AddrFrom16(ip).WithZone(zone)`. -/
def addrFrom16 (zone ip : Bytes) : Option Addr :=
  if h : ip.length = 16 then some (.v6 ⟨ip, h⟩ zone) else none

/-- `parseIPv6` after the zone has been split off. -/
def parseIPv6Body (s zone : Bytes) : Option Addr :=
  match s with
  | c :: c' :: rest =>
    if c = ch ':' ∧ c' = ch ':' then
      if rest = [] then addrFrom16 zone (replicate 16 0)
      else
        (parseIPv6Loop 8 rest [] (some 0)).bind fun r =>
          (expandEllipsis r.1 r.2).bind (addrFrom16 zone)
    else
      (parseIPv6Loop 8 s [] none).bind fun r =>
        (expandEllipsis r.1 r.2).bind (addrFrom16 zone)
  | _ =>
    (parseIPv6Loop 8 s [] none).bind fun r =>
      (expandEllipsis r.1 r.2).bind (addrFrom16 zone)

/-- `parseIPv6`. -/
def parseIPv6 (s : Bytes) : Option Addr :=
  match indexByte s (ch '%') with
  | some i => if s.drop (i + 1) = [] then none else parseIPv6Body (s.take i) (s.drop (i + 1))
  | none => parseIPv6Body s []

/-- The scan of `ParseAddr` for the byte that decides the family. -/
def parseAddrScan (s : Bytes) : Bytes → Option Addr
  | [] => none
  | b :: rest =>
    if b = ch '.' then parseIPv4 s
    else if b = ch ':' then parseIPv6 s
    else if b = ch '%' then none
    else parseAddrScan s rest

/-- `netip.ParseAddr`. -/
def parseAddr (s : Bytes) : Option Addr := parseAddrScan s s

/-! ## An IPv4 address survives its text -/

/-- Reading a written octet from a fresh state leaves its value, with at least
one digit read. -/
theorem parseIPv4Fields_octet (x : UInt8) (rest fields : Bytes) :
    ∃ digLen, 0 < digLen ∧ parseIPv4Fields (decimalOctet x ++ rest) 0 0 fields =
      parseIPv4Fields rest x.toNat digLen fields := by
  have hx : x.toNat < 256 := x.toNat_lt
  have h1 : x.toNat % 10 < 10 := Nat.mod_lt _ (by decide)
  have h2 : x.toNat / 10 % 10 < 10 := Nat.mod_lt _ (by decide)
  have h3 : x.toNat / 100 < 10 := by omega
  -- one turn of the loop on a digit that keeps the value an octet
  have hstep : ∀ {n : Nat} (_ : n < 10) (r : Bytes) (val digLen : Nat),
      ¬ (digLen = 1 ∧ val = 0) → val * 10 + n ≤ 255 →
      parseIPv4Fields (digit n :: r) val digLen fields =
        parseIPv4Fields r (val * 10 + n) (digLen + 1) fields := by
    intro n hn r val digLen hlead hle
    have hd : (digit n).toNat - 48 = n := by rw [toNat_digit hn]; omega
    rw [parseIPv4Fields, if_pos (isDigit_digit hn), if_neg hlead, hd, if_neg (by omega)]
  rw [decimalOctet]
  split_ifs with h100 h10 h10 <;> simp only [cons_append, nil_append]
  · refine ⟨3, by decide, ?_⟩
    rw [hstep h3 _ _ _ (by omega) (by omega), hstep h2 _ _ _ (by omega) (by omega),
      hstep h1 _ _ _ (by omega) (by omega)]
    congr 1
    omega
  · omega
  · refine ⟨2, by decide, ?_⟩
    rw [hstep h2 _ _ _ (by omega) (by omega), hstep h1 _ _ _ (by omega) (by omega)]
    congr 1
    omega
  · refine ⟨1, by decide, ?_⟩
    rw [hstep h1 _ _ _ (by omega) (by omega)]
    congr 1
    omega

theorem decimalOctet_ne_nil (x : UInt8) : decimalOctet x ≠ [] := by
  simp [decimalOctet]

/-- Reading a written octet and the dot after it moves to the next field. -/
theorem parseIPv4Fields_octet_dot (x : UInt8) {rest fields : Bytes} (hrest : rest ≠ [])
    (hfields : fields.length < 3) :
    parseIPv4Fields (decimalOctet x ++ ch '.' :: rest) 0 0 fields =
      parseIPv4Fields rest 0 0 (fields ++ [x]) := by
  obtain ⟨digLen, hpos, h⟩ := parseIPv4Fields_octet x (ch '.' :: rest) fields
  have hdot : isDigit (ch '.') = false := by decide
  rw [h, parseIPv4Fields, hdot, if_neg (by decide), if_pos rfl,
    if_neg (by simp [hrest]; omega), if_neg (by omega)]
  simp

theorem parseIPv4Fields_text4 (a b c d : UInt8) :
    parseIPv4Fields (text4 a b c d) 0 0 [] = some [a, b, c, d] := by
  have hd : decimalOctet d ≠ [] := decimalOctet_ne_nil d
  rw [text4]
  simp only [append_assoc, cons_append]
  rw [parseIPv4Fields_octet_dot a (by simp) (by simp),
    parseIPv4Fields_octet_dot b (by simp) (by simp),
    parseIPv4Fields_octet_dot c hd (by simp)]
  obtain ⟨digLen, -, h⟩ := parseIPv4Fields_octet d [] [a, b, c]
  rw [append_nil] at h
  simp only [nil_append, cons_append]
  rw [h, parseIPv4Fields]
  simp

/-- The family scan passes over bytes that decide nothing. -/
theorem parseAddrScan_append {s pre rest : Bytes}
    (h : ∀ b ∈ pre, b ≠ ch '.' ∧ b ≠ ch ':' ∧ b ≠ ch '%') :
    parseAddrScan s (pre ++ rest) = parseAddrScan s rest := by
  induction pre with
  | nil => rfl
  | cons b pre ih =>
    obtain ⟨h1, h2, h3⟩ := h b (by simp)
    rw [cons_append, parseAddrScan, if_neg h1, if_neg h2, if_neg h3]
    exact ih fun b' hb' => h b' (mem_cons_of_mem _ hb')

variable {b : UInt8} {n : Nat}

theorem isDigit_of_mem_decimalOctet {x : UInt8} (h : b ∈ decimalOctet x) : isDigit b = true := by
  have hall : ∀ x, (decimalOctet x).all isDigit = true := by decide +kernel
  exact all_eq_true.mp (hall x) b h

/-- A decimal digit is none of the bytes that decide an address family, and
not a bracket. -/
theorem isDigit_ne {c : UInt8} (hb : isDigit b = true) (hc : isDigit c = false) : b ≠ c := by
  rintro rfl
  simp [hb] at hc

/-- `ParseAddr` reads back every IPv4 text. -/
theorem parseAddr_text4 (a b c d : UInt8) : parseAddr (text4 a b c d) = some (.v4 a b c d) := by
  have hscan : parseAddrScan (text4 a b c d) (text4 a b c d) = parseIPv4 (text4 a b c d) := by
    conv_lhs => arg 2; rw [text4]
    simp only [append_assoc, cons_append]
    rw [parseAddrScan_append, parseAddrScan, if_pos rfl]
    intro x hx
    have hd := isDigit_of_mem_decimalOctet hx
    exact ⟨isDigit_ne hd (by decide), isDigit_ne hd (by decide), isDigit_ne hd (by decide)⟩
  rw [parseAddr, hscan, parseIPv4, parseIPv4Fields_text4]

/-! ## An IPv6 address survives its text -/

theorem isHex_hexDigit (h : n < 16) : isHex (hexDigit n) = true := by
  revert n
  decide

theorem hexVal_hexDigit (h : n < 16) : hexVal (hexDigit n) = n := by
  revert n
  decide

variable {x : Nat}

theorem hexFold_digits {ds : List Nat} (h : ∀ d ∈ ds, d < 16) :
    (ds.map hexDigit).all isHex = true ∧
      hexFold (ds.map hexDigit) = ds.foldl (fun acc d => acc * 16 + d) 0 := by
  constructor
  · rw [all_map, all_eq_true]
    exact fun d hd => isHex_hexDigit (h d hd)
  · rw [hexFold, foldl_map]
    exact foldl_ext _ _ _ fun acc d hd => by rw [hexVal_hexDigit (h d hd)]

/-- A written group is one to four hexadecimal digits whose value is the
group. -/
theorem hexGroup_spec (hx : x < 65536) :
    hexGroup x ≠ [] ∧ (hexGroup x).length ≤ 4 ∧ (hexGroup x).all isHex = true ∧
      hexFold (hexGroup x) = x := by
  obtain ⟨ds, hds, hsmall, hlen, hval⟩ : ∃ ds : List Nat, hexGroup x = ds.map hexDigit ∧
      (∀ d ∈ ds, d < 16) ∧ ds.length ≤ 4 ∧ ds.foldl (fun acc d => acc * 16 + d) 0 = x := by
    by_cases c1 : 0x10 ≤ x
    · by_cases c2 : 0x100 ≤ x
      · by_cases c3 : 0x1000 ≤ x
        · refine ⟨[x / 0x1000, x / 0x100 % 16, x / 0x10 % 16, x % 16], ?_⟩
          simp [hexGroup, c1, c2, c3]
          omega
        · refine ⟨[x / 0x100 % 16, x / 0x10 % 16, x % 16], ?_⟩
          simp [hexGroup, c1, c2, c3]
          omega
      · refine ⟨[x / 0x10 % 16, x % 16], ?_⟩
        simp [hexGroup, c1, c2, show ¬ 0x1000 ≤ x by omega]
        omega
    · refine ⟨[x % 16], ?_⟩
      simp [hexGroup, c1, show ¬ 0x100 ≤ x by omega, show ¬ 0x1000 ≤ x by omega]
      omega
  obtain ⟨hhex, hfold⟩ := hexFold_digits hsmall
  exact ⟨by simp [hexGroup], by simpa [hds] using hlen, hds ▸ hhex, hds ▸ hfold.trans hval⟩

theorem hexGroup_cons (hx : x < 65536) : ∃ d ds, hexGroup x = d :: ds ∧ d ≠ ch ':' := by
  obtain ⟨hne, -, hall, -⟩ := hexGroup_spec hx
  obtain ⟨d, ds, hd⟩ := exists_cons_of_ne_nil hne
  refine ⟨d, ds, hd, ?_⟩
  rintro rfl
  rw [hd] at hall
  cases hall

/-- Groups written one after another, each with its colon in front. -/
def tailGroups (g : List Nat) : Bytes := g.flatMap fun x => ch ':' :: hexGroup x

/-- Groups joined by colons. -/
def joinGroups : List Nat → Bytes
  | [] => []
  | x :: g => hexGroup x ++ tailGroups g

theorem tailGroups_cons (x : Nat) (g : List Nat) :
    tailGroups (x :: g) = ch ':' :: joinGroups (x :: g) := rfl

variable {g : List Nat}

theorem joinGroups_ne_nil (h : g ≠ []) : joinGroups g ≠ [] := by
  cases g with
  | nil => exact absurd rfl h
  | cons x g =>
    simp [joinGroups, hexGroup]

/-- The digits of a written group end where the text goes on with a byte that
is no digit. -/
theorem takeWhile_hexGroup (hx : x < 65536) (c : UInt8) (hc : isHex c = false) (rest : Bytes) :
    (hexGroup x ++ c :: rest).takeWhile isHex = hexGroup x := by
  have hall := (hexGroup_spec hx).2.2.1
  rw [takeWhile_append_of_pos (all_eq_true.mp hall), takeWhile_cons_of_neg (by simp [hc])]
  simp

theorem takeWhile_hexGroup_end (hx : x < 65536) : (hexGroup x).takeWhile isHex = hexGroup x :=
  takeWhile_eq_self_iff.mpr (all_eq_true.mp (hexGroup_spec hx).2.2.1)

/-- The parser's turn on the last group of the text. -/
theorem parseIPv6Loop_last (hx : x < 65536) (turns : Nat) (ip : Bytes) (ellipsis : Option Nat) :
    parseIPv6Loop (turns + 1) (hexGroup x) ip ellipsis = some (ip ++ beBytes 2 x, ellipsis) := by
  obtain ⟨hne, hlen, -, hval⟩ := hexGroup_spec hx
  rw [parseIPv6Loop]
  simp only [takeWhile_hexGroup_end hx, hval]
  rw [if_neg (by omega), if_neg hne, drop_length]

/-- The parser's turn on a group that one colon follows. -/
theorem parseIPv6Loop_colon {y : Nat} (hx : x < 65536) (hy : y < 65536) (turns : Nat)
    (rest ip : Bytes) (ellipsis : Option Nat) :
    parseIPv6Loop (turns + 1) (hexGroup x ++ ch ':' :: (hexGroup y ++ rest)) ip ellipsis =
      parseIPv6Loop turns (hexGroup y ++ rest) (ip ++ beBytes 2 x) ellipsis := by
  obtain ⟨hne, hlen, -, hval⟩ := hexGroup_spec hx
  obtain ⟨d, ds, hd, hdc⟩ := hexGroup_cons hy
  rw [parseIPv6Loop]
  simp only [takeWhile_hexGroup hx (ch ':') (by decide), hval]
  -- the byte after the colon is a digit, so this is not the ellipsis
  rw [if_neg (by omega), if_neg hne, hd]
  simp [hdc, show ch ':' ≠ ch '.' by decide]

/-- The parser's turn on a group that the ellipsis follows. -/
theorem parseIPv6Loop_ellipsis (hx : x < 65536) (turns : Nat) (rest ip : Bytes) :
    parseIPv6Loop (turns + 1) (hexGroup x ++ ch ':' :: ch ':' :: rest) ip none =
      if rest = [] then some (ip ++ beBytes 2 x, some (ip ++ beBytes 2 x).length)
      else parseIPv6Loop turns rest (ip ++ beBytes 2 x) (some (ip ++ beBytes 2 x).length) := by
  obtain ⟨hne, hlen, -, hval⟩ := hexGroup_spec hx
  rw [parseIPv6Loop]
  simp only [takeWhile_hexGroup hx (ch ':') (by decide), hval]
  rw [if_neg (by omega), if_neg hne]
  simp [show ch ':' ≠ ch '.' by decide]

/-- The parser's loop up to the last of several groups joined by colons. -/
theorem parseIPv6Loop_front (hg : ∀ y ∈ g ++ [x], y < 65536) (turns : Nat) (rest ip : Bytes)
    (ellipsis : Option Nat) :
    parseIPv6Loop (turns + g.length) (joinGroups (g ++ [x]) ++ rest) ip ellipsis =
      parseIPv6Loop turns (hexGroup x ++ rest) (ip ++ ungroup g) ellipsis := by
  induction g generalizing ip with
  | nil => simp [joinGroups, tailGroups, ungroup]
  | cons y g ih =>
    obtain ⟨z, g', hnext⟩ := exists_cons_of_ne_nil (concat_ne_nil x g)
    have hz : z < 65536 := hg z (by simp [hnext])
    have ih := ih (fun z hz => hg z (mem_cons_of_mem _ hz)) (ip ++ beBytes 2 y)
    rw [hnext, joinGroups, append_assoc] at ih
    rw [cons_append, hnext, joinGroups, tailGroups_cons, joinGroups, append_assoc, cons_append,
      append_assoc, length_cons, ← Nat.add_assoc, parseIPv6Loop_colon (hg y (by simp)) hz, ih]
    simp [ungroup]

/-- The parser's loop on groups joined by colons. -/
theorem parseIPv6Loop_join (hg : ∀ y ∈ g, y < 65536) (hne : g ≠ []) {turns : Nat}
    (hturns : g.length ≤ turns) (ip : Bytes) (ellipsis : Option Nat) :
    parseIPv6Loop turns (joinGroups g) ip ellipsis = some (ip ++ ungroup g, ellipsis) := by
  obtain ⟨front, x, rfl⟩ := (eq_nil_or_concat' g).resolve_left hne
  obtain ⟨t, rfl⟩ := Nat.exists_eq_add_of_le hturns
  have hfront := parseIPv6Loop_front hg (t + 1) [] ip ellipsis
  rw [append_nil, append_nil, parseIPv6Loop_last (hg x (by simp))] at hfront
  rw [length_append, length_singleton, Nat.add_comm, ← Nat.add_assoc, Nat.add_right_comm, hfront]
  simp [ungroup]

/-- The parser's loop on joined groups, the ellipsis, and joined groups. -/
theorem parseIPv6Loop_join_ellipsis {left right : List Nat} (hl : ∀ y ∈ left, y < 65536)
    (hne : left ≠ []) (hr : ∀ y ∈ right, y < 65536) {turns : Nat}
    (hturns : left.length + right.length ≤ turns) (ip : Bytes) :
    parseIPv6Loop turns (joinGroups left ++ ch ':' :: ch ':' :: joinGroups right) ip none =
      some (ip ++ ungroup left ++ ungroup right, some (ip ++ ungroup left).length) := by
  obtain ⟨front, x, rfl⟩ := (eq_nil_or_concat' left).resolve_left hne
  obtain ⟨t, rfl⟩ := Nat.exists_eq_add_of_le hturns
  have hu : ungroup (front ++ [x]) = ungroup front ++ beBytes 2 x := by simp [ungroup]
  rw [show (front ++ [x]).length + right.length + t = t + right.length + 1 + front.length by
      simp; omega, parseIPv6Loop_front hl, parseIPv6Loop_ellipsis (hl x (by simp)), hu, ← append_assoc]
  split_ifs with hright
  · cases right with
    | nil => simp [ungroup]
    | cons y right => exact absurd hright (joinGroups_ne_nil (by simp))
  · refine parseIPv6Loop_join hr ?_ (by omega) _ _
    rintro rfl
    exact hright rfl

/-- What the first loop of the writer finds: nothing, or a run of at least two
zero groups inside the address. -/
def RunOf (g : List Nat) (z : Nat × Nat) : Prop :=
  z = (255, 255) ∨ (z.1 + 2 ≤ z.2 ∧ z.2 ≤ 8 ∧
    g = g.take z.1 ++ replicate (z.2 - z.1) 0 ++ g.drop z.2)

theorem drop_zeroRun (g : List Nat) (i : Nat) :
    g.drop i = replicate (zeroRun g i) 0 ++ g.drop (i + zeroRun g i) := by
  have hzeros : (g.drop i).takeWhile (· == 0) = replicate (zeroRun g i) 0 := by
    exact eq_replicate_iff.mpr ⟨rfl, fun b hb => by simpa using mem_takeWhile_imp hb⟩
  rw [← hzeros, ← drop_drop]
  exact (prefix_iff_eq_append.mp (List.takeWhile_prefix _)).symm

/-- The first loop of the writer finds a run. -/
theorem longestRun_spec (hlen : g.length = 8) : RunOf g (longestRun g) := by
  refine foldlRecOn _ _ (.inl rfl) fun z hz i _ => ?_
  split
  case isFalse => exact hz
  case isTrue hrun =>
    have hle : zeroRun g i ≤ 8 - i := by
      rw [← hlen, ← length_drop]
      exact (List.takeWhile_prefix _).length_le
    refine .inr ⟨by simp only; omega, by simp only; omega, ?_⟩
    simp only [Nat.add_sub_cancel_left]
    rw [append_assoc, ← drop_zeroRun, take_append_drop]

theorem drop_eq_getD_cons {i : Nat} (h : i < g.length) :
    g.drop i = g.getD i 0 :: g.drop (i + 1) := by
  rw [drop_eq_getElem_cons h, getD_eq_getElem _ _ h]

variable {z : Nat × Nat}

/-- Past the run the writer puts a colon before every group. -/
theorem text6Loop_tail (hlen : g.length = 8) :
    ∀ (fuel i : Nat), 0 < i → (∀ j, i ≤ j → j < 8 → j ≠ z.1) → 8 - i ≤ fuel →
      text6Loop g z fuel i = tailGroups (g.drop i) := by
  intro fuel
  induction fuel with
  | zero =>
    intro i _ _ hfuel
    rw [drop_of_length_le (by omega)]
    rfl
  | succ fuel ih =>
    intro i hi hz hfuel
    rw [text6Loop]
    by_cases h8 : 8 ≤ i
    · rw [if_pos h8, drop_of_length_le (by omega)]
      rfl
    · rw [if_neg h8, if_neg (hz i (Nat.le_refl i) (by omega)), if_pos hi,
        ih (i + 1) (by omega) (fun j hj => hz j (by omega)) (by omega),
        drop_eq_getD_cons (by omega : i < g.length)]
      rfl

/-- From a group before the run, the writer reaches the run's `::`. -/
theorem text6Loop_before (hlen : g.length = 8) (hz : z.1 + 2 ≤ z.2) (hz8 : z.2 ≤ 8) :
    ∀ (fuel i : Nat), i ≤ z.1 → 8 - i ≤ fuel →
      text6Loop g z fuel i = (if 0 < i then tailGroups else joinGroups) ((g.take z.1).drop i) ++
        ch ':' :: ch ':' :: joinGroups (g.drop z.2) := by
  intro fuel
  induction fuel with
  | zero => intro i _ hfuel; omega
  | succ fuel ih =>
    intro i hiz hfuel
    rw [text6Loop, if_neg (by omega)]
    by_cases heq : i = z.1
    · have hnil : (if 0 < i then tailGroups else joinGroups) [] = [] := by split_ifs <;> rfl
      rw [if_pos heq, drop_of_length_le (by simp; omega), hnil]
      by_cases hend : 8 ≤ z.2
      · rw [if_pos hend, drop_of_length_le (by omega)]
        rfl
      · rw [if_neg hend, text6Loop_tail hlen fuel (z.2 + 1) (by omega)
          (fun j hj _ => by omega) (by omega), drop_eq_getD_cons (by omega : z.2 < g.length)]
        rfl
    · have hlt : i < (g.take z.1).length := by simp; omega
      have hget : (g.take z.1).getD i 0 = g.getD i 0 := by
        rw [getD_eq_getElem _ _ hlt, getElem_take, getD_eq_getElem _ _ (by omega : i < g.length)]
      rw [if_neg heq, ih (i + 1) (by omega) (by omega), if_pos i.succ_pos, drop_eq_getD_cons hlt,
        hget]
      split_ifs <;> simp [tailGroups, joinGroups]

/-- The writer's normal form: the groups, with at most one run of two or more
zero groups cut out for the `::`. -/
theorem text6Loop_normal (hlen : g.length = 8) (hz : RunOf g z) :
    text6Loop g z 8 0 = joinGroups g ∨
    ∃ left right n, 2 ≤ n ∧ g = left ++ replicate n 0 ++ right ∧
      text6Loop g z 8 0 = joinGroups left ++ ch ':' :: ch ':' :: joinGroups right := by
  rcases hz with rfl | ⟨hz, hz8, hg⟩
  · left
    rw [text6Loop, if_neg (by decide), if_neg (by decide), if_neg (by decide),
      text6Loop_tail hlen 7 1 (by decide) (fun j _ hj => by simp only; omega) (by decide)]
    conv_rhs => rw [← drop_zero (l := g), drop_eq_getD_cons (by omega : 0 < g.length)]
    rfl
  · exact .inr ⟨g.take z.1, g.drop z.2, z.2 - z.1, by omega, hg,
      text6Loop_before hlen hz hz8 8 0 (Nat.zero_le _) (by decide)⟩

theorem length_ungroup (g : List Nat) : (ungroup g).length = 2 * g.length := by
  simp [ungroup, length_flatMap, length_beBytes, Nat.mul_comm]

theorem ungroup_append (g h : List Nat) : ungroup (g ++ h) = ungroup g ++ ungroup h := by
  simp [ungroup]

theorem ungroup_zeros (n : Nat) : ungroup (replicate n 0) = replicate (2 * n) 0 := by
  refine eq_replicate_iff.mpr ⟨by rw [length_ungroup, length_replicate], ?_⟩
  simp [ungroup, beBytes]

/-- A text that starts with a digit does not start with an ellipsis. -/
theorem parseIPv6Body_of_group (hx : x < 65536) (tail : Bytes) :
    parseIPv6Body (hexGroup x ++ tail) [] = (parseIPv6Loop 8 (hexGroup x ++ tail) [] none).bind
      fun r => (expandEllipsis r.1 r.2).bind (addrFrom16 []) := by
  obtain ⟨d, ds, hd, hdc⟩ := hexGroup_cons hx
  rw [hd]
  cases hrest : ds ++ tail with
  | nil => simp [parseIPv6Body, hrest]
  | cons c rest => simp [parseIPv6Body, hrest, hdc]

/-- The body of the parser on the normal form without an ellipsis. -/
theorem parseIPv6Body_join (hlen : g.length = 8) (hg : ∀ y ∈ g, y < 65536) :
    parseIPv6Body (joinGroups g) [] = addrFrom16 [] (ungroup g) := by
  obtain ⟨x, g, rfl⟩ : ∃ x t, g = x :: t := exists_cons_of_length_pos (by omega)
  have hu : (ungroup (x :: g)).length = 16 := by rw [length_ungroup, hlen]
  have hloop := parseIPv6Loop_join hg (by simp) hlen.le [] none
  rw [joinGroups] at hloop ⊢
  rw [parseIPv6Body_of_group (hg x (by simp)), hloop]
  simp [expandEllipsis, hu]

/-- The body of the parser on the normal form with an ellipsis. -/
theorem parseIPv6Body_ellipsis {left right : List Nat} (hn : 2 ≤ n)
    (hlen : (left ++ replicate n 0 ++ right).length = 8) (hl : ∀ y ∈ left, y < 65536)
    (hr : ∀ y ∈ right, y < 65536) :
    parseIPv6Body (joinGroups left ++ ch ':' :: ch ':' :: joinGroups right) [] =
      addrFrom16 [] (ungroup (left ++ replicate n 0 ++ right)) := by
  simp only [length_append, length_replicate] at hlen
  have hpad : expandEllipsis (ungroup left ++ ungroup right) (some (ungroup left).length) =
      some (ungroup (left ++ replicate n 0 ++ right)) := by
    have hsize : (ungroup left ++ ungroup right).length = 16 - 2 * n := by
      rw [length_append, length_ungroup, length_ungroup]
      omega
    rw [expandEllipsis, if_pos (by omega), Option.map_some, take_left, drop_left,
      hsize, ungroup_append, ungroup_append, ungroup_zeros]
    congr 4
    omega
  cases left with
  | nil =>
    have h0 : joinGroups [] = [] := rfl
    rw [h0, nil_append]
    cases right with
    | nil =>
      have h8 : n = 8 := by simpa using hlen
      subst h8
      rfl
    | cons y right =>
      rw [parseIPv6Body, if_pos ⟨rfl, rfl⟩, if_neg (joinGroups_ne_nil (by simp)),
        parseIPv6Loop_join hr (by simp) (by simp at hlen ⊢; omega)]
      exact congrArg (fun e => Option.bind e (addrFrom16 [])) hpad
  | cons x left =>
    have hloop := parseIPv6Loop_join_ellipsis hl (by simp) hr (by omega : _ ≤ 8) []
    rw [nil_append] at hloop
    rw [joinGroups, append_assoc] at hloop ⊢
    rw [parseIPv6Body_of_group (hl x (by simp)), hloop, Option.bind_some, hpad, Option.bind_some]

/-- No byte of a normal form is a `%`: it has digits and colons only. -/
theorem mem_joinGroups (hg : ∀ y ∈ g, y < 65536) (hb : b ∈ joinGroups g) :
    isHex b = true ∨ b = ch ':' := by
  cases g with
  | nil => cases hb
  | cons x g =>
    obtain ⟨y, hy, hb⟩ := mem_flatMap.mp (tailGroups_cons x g ▸ mem_cons_of_mem _ hb)
    rcases mem_cons.mp hb with rfl | hb
    · exact .inr rfl
    · exact .inl (all_eq_true.mp (hexGroup_spec (hg y hy)).2.2.1 b hb)

/-- An IPv6 text: hexadecimal digits and colons, at least one colon, and the
parser reads the octets back from it. -/
theorem text6_spec (o : Octets16) :
    (∀ b ∈ text6 o.1, isHex b = true ∨ b = ch ':') ∧ ch ':' ∈ text6 o.1 ∧
      parseIPv6Body (text6 o.1) [] = some (.v6 o []) := by
  have hlen : (groups o.1).length = 8 := length_groups o.2
  have hg : ∀ y ∈ groups o.1, y < 65536 := groups_lt
  have hback : ungroup (groups o.1) = o.1 :=
    ungroup_groups (by rw [o.2]; decide)
  have haddr : addrFrom16 [] (ungroup (groups o.1)) = some (.v6 o []) := by
    rw [hback, addrFrom16, dif_pos o.2]
  rcases text6Loop_normal hlen (longestRun_spec hlen) with h | ⟨left, right, n, hn, hsplit, h⟩
  · rw [text6, h]
    refine ⟨fun b hb => mem_joinGroups hg hb, ?_, ?_⟩
    · obtain ⟨x, y, g, hcons⟩ : ∃ x y t, groups o.1 = x :: y :: t := by
        match hc : groups o.1, hlen with
        | x :: y :: t, _ => exact ⟨x, y, t, rfl⟩
      rw [hcons, joinGroups, tailGroups_cons]
      simp
    · rw [parseIPv6Body_join hlen hg, haddr]
  · have hl : ∀ y ∈ left, y < 65536 := fun y hy => hg y (by rw [hsplit]; simp [hy])
    have hr : ∀ y ∈ right, y < 65536 := fun y hy => hg y (by rw [hsplit]; simp [hy])
    rw [text6, h]
    refine ⟨forall_mem_append.mpr ⟨fun _ => mem_joinGroups hl, ?_⟩, by simp, ?_⟩
    · exact forall_mem_cons.mpr ⟨.inr rfl, forall_mem_cons.mpr ⟨.inr rfl, fun _ => mem_joinGroups hr⟩⟩
    · rw [parseIPv6Body_ellipsis hn (by rw [← hsplit, hlen]) hl hr, ← hsplit, haddr]

/-- `ParseAddr` reads back every IPv6 text without a zone. -/
theorem parseAddr_text6 (o : Octets16) : parseAddr (text6 o.1) = some (.v6 o []) := by
  obtain ⟨hbytes, hcolon, hbody⟩ := text6_spec o
  have hpercent : ch '%' ∉ text6 o.1 := fun hmem => (hbytes _ hmem).elim (by decide) (by decide)
  obtain ⟨before, rest, hsplit, hfirst⟩ := eq_append_cons_of_mem hcolon
  have hscan : parseAddrScan (text6 o.1) (text6 o.1) = parseIPv6 (text6 o.1) := by
    conv_lhs => arg 2; rw [hsplit]
    rw [parseAddrScan_append, parseAddrScan, if_neg (by decide), if_pos rfl]
    intro b hb
    have hne : b ≠ ch ':' := ne_of_mem_of_not_mem hb hfirst
    have hhex := (hbytes b (hsplit ▸ mem_append_left _ hb)).resolve_right hne
    refine ⟨?_, hne, ?_⟩ <;> rintro rfl <;> cases hhex
  rw [parseAddr, hscan, parseIPv6, indexByte_eq_none hpercent]
  exact hbody

/-! ## Hexadecimal text

`hex.EncodeToString` of Go. Different bytes have different texts, and a text has only the
characters `0` to `9` and `a` to `f`, so that what follows it can be told apart.
-/

/-- `hex.EncodeToString`. -/
def hexEncode (s : Bytes) : Bytes :=
  s.flatMap fun b => [hexDigit (b.toNat / 16), hexDigit (b.toNat % 16)]

theorem hexEncode_cons (b : UInt8) (s : Bytes) :
    hexEncode (b :: s) = hexDigit (b.toNat / 16) :: hexDigit (b.toNat % 16) :: hexEncode s := rfl

theorem hexEncode_injective {s t : Bytes} (h : hexEncode s = hexEncode t) : s = t := by
  induction s generalizing t with
  | nil =>
    cases t with
    | nil => rfl
    | cons b t => cases h
  | cons b s ih =>
    cases t with
    | nil => cases h
    | cons c t =>
      rw [hexEncode_cons, hexEncode_cons] at h
      obtain ⟨hhigh, hlow, hrest⟩ : _ ∧ _ ∧ _ := by simpa using h
      have hb := b.toNat_lt
      have hc := c.toNat_lt
      have hhigh' := congrArg hexVal hhigh
      have hlow' := congrArg hexVal hlow
      rw [hexVal_hexDigit (by omega), hexVal_hexDigit (by omega)] at hhigh' hlow'
      have hbyte : b = c := UInt8.toNat.inj (by omega)
      rw [hbyte, ih hrest]

theorem isHex_of_mem_hexEncode {s : Bytes} {c : UInt8} (h : c ∈ hexEncode s) : isHex c = true := by
  obtain ⟨b, -, hc⟩ := List.mem_flatMap.mp h
  have hb := b.toNat_lt
  rcases List.mem_cons.mp hc with rfl | hc
  · exact isHex_hexDigit (by omega)
  · rw [List.mem_singleton.mp hc]
    exact isHex_hexDigit (by omega)

end NrePlugins
