import Nre.PolicyGuest.Messages

/-!
# Addresses and prefixes

Model of `IpAddress`, `Cidr` and `CanonicalText` of `trie.rs`. The loops that cut a text
at a separator and read each part are written as `splitByte` followed by a reader of one
part; they have a single error, so the order in which parts are refused does not show.

- `IpAddress.parse`, `IpAddress.parseStrict`: the second accepts a text only if it is
  what `writeAddress` writes for its address;
- `Cidr.parse`, `Cidr.parseStrict`, `Cidr.contains`.
-/

namespace NrePlugins.IpPolicy

inductive ConfigError where
  | invalidAddress | invalidPrefixLength | duplicatePrefix | capacityExceeded
  deriving DecidableEq

/-- `IpAddress`: sixteen octets, of which an IPv4 address uses the first four, and the
number of bits of the family. -/
structure IpAddress where
  octets : Octets16
  bits : Nat
  deriving DecidableEq

/-! ## Reading -/

/-- The parts of a text between separators. -/
def splitByte (c : UInt8) : Bytes → List Bytes
  | [] => [[]]
  | b :: rest =>
    if b = c then [] :: splitByte c rest
    else
      match splitByte c rest with
      | [] => [[b]]
      | part :: parts => (b :: part) :: parts

/-- The digits of a number of at most `max`. -/
def decimalLoop (max : Nat) : Nat → Bytes → Option Nat
  | number, [] => some number
  | number, b :: rest =>
    if !isDigit b then none
    else if max < number * 10 + (b.toNat - 48) then none
    else decimalLoop max (number * 10 + (b.toNat - 48)) rest

/-- A number without leading zeros. -/
def decimalPart (max : Nat) (text : Bytes) : Option Nat :=
  if text = [] ∨ (1 < text.length ∧ text.head? = some (ch '0')) then none
  else decimalLoop max 0 text

variable (value : Bytes)

/-- `parse_ipv4`. -/
def parseIpv4 : Except ConfigError Bytes :=
  match (splitByte (ch '.') value).mapM (decimalPart 255) with
  | some [a, b, c, d] => .ok [UInt8.ofNat a, UInt8.ofNat b, UInt8.ofNat c, UInt8.ofNat d]
  | _ => .error .invalidAddress

/-- One group of `parse_ipv6_groups`. -/
def hexPart (text : Bytes) : Option Nat :=
  if text = [] ∨ 4 < text.length then none
  else if text.all isHex then some (hexFold text)
  else none

/-- `parse_ipv6_groups`. -/
def parseIpv6Groups : Except ConfigError (List Nat) :=
  if value = [] then .ok []
  else if 8 < (splitByte (ch ':') value).length then .error .invalidAddress
  else
    match (splitByte (ch ':') value).mapM hexPart with
    | some groups => .ok groups
    | none => .error .invalidAddress

/-- `find_double_colon`. -/
def findDoubleColon : Bytes → Option Nat
  | a :: b :: rest =>
    if a = ch ':' ∧ b = ch ':' then some 0 else (findDoubleColon (b :: rest)).map (· + 1)
  | _ => none

/-- The eight groups of an IPv6 text. -/
def ipv6Groups : Except ConfigError (List Nat) :=
  match findDoubleColon value with
  | some split => do
    let right := value.drop (split + 2)
    if (findDoubleColon right).isSome then .error .invalidAddress
    else
      let left ← parseIpv6Groups (value.take split)
      let tail ← parseIpv6Groups right
      if 8 ≤ left.length + tail.length then .error .invalidAddress
      else return left ++ List.replicate (8 - left.length - tail.length) 0 ++ tail
  | none => do
    let groups ← parseIpv6Groups value
    if groups.length ≠ 8 then .error .invalidAddress else return groups

/-- `parse_ipv6`. -/
def parseIpv6 : Except ConfigError IpAddress := do
  if value = [] ∨ ch '.' ∈ value then .error .invalidAddress
  else
    let groups ← ipv6Groups value
    if isMapped (ungroup groups) then .error .invalidAddress
    else if h : (ungroup groups).length = 16 then return ⟨⟨ungroup groups, h⟩, 128⟩
    else .error .invalidAddress

/-- An IPv4 address in the first four octets. -/
def IpAddress.ofV4 (octets : Bytes) (h : octets.length = 4) : IpAddress :=
  ⟨⟨octets ++ List.replicate 12 0, by simp [h]⟩, 32⟩

def IpAddress.parse : Except ConfigError IpAddress :=
  if ch ':' ∈ value then parseIpv6 value
  else do
    let octets ← parseIpv4 value
    if h : octets.length = 4 then return .ofV4 octets h else .error .invalidAddress

def IpAddress.isIpv4 (a : IpAddress) : Bool := a.bits == 32

/-- `from_network_bytes`. -/
def IpAddress.fromNetworkBytes : Except ConfigError IpAddress :=
  if h : value.length = 4 then .ok (.ofV4 value h)
  else if h : value.length = 16 ∧ isMapped value = false then .ok ⟨⟨value, h.1⟩, 128⟩
  else .error .invalidAddress

/-- `bit`. -/
def IpAddress.bit (a : IpAddress) (index : Nat) : Nat :=
  (a.octets.1.getD (index / 8) 0).toNat / 2 ^ (7 - index % 8) % 2

/-! ## Writing -/

/-- `CanonicalText::decimal`. -/
def decimalText (value : UInt8) : Bytes :=
  (if 100 ≤ value then [digit (value.toNat / 100), digit (value.toNat / 10 % 10)]
    else if 10 ≤ value then [digit (value.toNat / 10)]
    else []) ++ [digit (value.toNat % 10)]

/-- The loop of `CanonicalText::hex` over the shifts. -/
def hexTextLoop (value : Nat) : List Nat → Bool → Bytes
  | [], _ => []
  | shift :: rest, started =>
    if value / 2 ^ shift % 16 ≠ 0 ∨ started = true ∨ shift = 0 then
      hexDigit (value / 2 ^ shift % 16) :: hexTextLoop value rest true
    else hexTextLoop value rest started

/-- `CanonicalText::hex`. -/
def hexText (value : Nat) : Bytes := hexTextLoop value [12, 8, 4, 0] false

/-- The loop of `longest_zero_run`, with the start and the length of the best run. -/
def longestZeroRunLoop (groups : List Nat) : Nat → Nat → Nat × Nat → Nat × Nat
  | 0, _, best => best
  | fuel + 1, index, best =>
    if 8 ≤ index then best
    else if groups.getD index 0 ≠ 0 then longestZeroRunLoop groups fuel (index + 1) best
    else
      let length := zeroRun groups index
      longestZeroRunLoop groups fuel (index + length)
        (if 2 ≤ length ∧ best.2 < length then (index, length) else best)

/-- `longest_zero_run`; without a run the start is `usize::MAX`. -/
def longestZeroRun (groups : List Nat) : Nat × Nat :=
  longestZeroRunLoop groups 8 0 (2 ^ 32 - 1, 0)

/-- The loop of `write_address` over the groups of an IPv6 address. -/
def writeGroups (groups : List Nat) (zero : Nat × Nat) : Nat → Nat → Bytes → Bytes
  | 0, _, out => out
  | fuel + 1, index, out =>
    if 8 ≤ index then out
    else if index = zero.1 then
      writeGroups groups zero fuel (index + zero.2) (out ++ [ch ':', ch ':'])
    else
      let out := if out ≠ [] ∧ out.getLast? ≠ some (ch ':') then out ++ [ch ':'] else out
      writeGroups groups zero fuel (index + 1) (out ++ hexText (groups.getD index 0))

/-- `write_address`: at most 39 bytes, so the buffer of 64 is never full. -/
def writeAddress (a : IpAddress) : Bytes :=
  if a.isIpv4 then
    match a.octets.1 with
    | o0 :: o1 :: o2 :: o3 :: _ =>
      decimalText o0 ++ ch '.' :: decimalText o1 ++ ch '.' :: decimalText o2 ++
        ch '.' :: decimalText o3
    | _ => []
  else
    writeGroups (groups a.octets.1) (longestZeroRun (groups a.octets.1)) 8 0 []

/-- `IpAddress::parse_strict`. -/
def IpAddress.parseStrict : Except ConfigError IpAddress := do
  let address ← IpAddress.parse value
  if writeAddress address ≠ value then .error .invalidAddress else return address

/-! ## Prefixes -/

structure Cidr where
  network : IpAddress
  prefixBits : Nat
  deriving DecidableEq

/-- `split_once_byte`: the separator occurs exactly once. -/
def splitOnceByte (separator : UInt8) : Except ConfigError (Bytes × Bytes) :=
  match splitByte separator value with
  | [left, right] => .ok (left, right)
  | _ => .error .invalidPrefixLength

/-- `parse_prefix`. -/
def parsePrefix : Except ConfigError Nat :=
  match decimalPart 128 value with
  | some bits => .ok bits
  | none => .error .invalidPrefixLength

/-- One bit of `mask_host_bits`. -/
def clearBit (octets : Bytes) (bit : Nat) : Bytes :=
  octets.modify (bit / 8) (· &&& ~~~(UInt8.ofNat (2 ^ (7 - bit % 8))))

/-- `mask_host_bits`: the host bits, and all octets an IPv4 address does not use. -/
def maskHostBits (octets : Bytes) (prefixBits addressBits : Nat) : Bytes :=
  let cleared := (List.range' prefixBits (addressBits - prefixBits)).foldl clearBit octets
  if addressBits = 32 then cleared.take 4 ++ List.replicate 12 0 else cleared

theorem length_foldl_clearBit (bits : List Nat) (octets : Bytes) :
    (bits.foldl clearBit octets).length = octets.length := by
  induction bits generalizing octets with
  | nil => rfl
  | cons bit bits ih => rw [List.foldl_cons, ih, clearBit, List.length_modify]

theorem length_maskHostBits {octets : Bytes} (h : octets.length = 16)
    (prefixBits addressBits : Nat) :
    (maskHostBits octets prefixBits addressBits).length = 16 := by
  unfold maskHostBits
  split_ifs <;> simp [length_foldl_clearBit, h]

/-- An address with its host bits cleared. -/
def IpAddress.masked (a : IpAddress) (prefixBits : Nat) : IpAddress :=
  ⟨⟨maskHostBits a.octets.1 prefixBits a.bits, length_maskHostBits a.octets.2 _ _⟩, a.bits⟩

namespace Cidr

def parse : Except ConfigError Cidr := do
  let (address, prefixText) ← splitOnceByte value (ch '/')
  let network ← IpAddress.parse address
  let prefixBits ← parsePrefix prefixText
  if network.bits < prefixBits then .error .invalidPrefixLength
  else return ⟨network.masked prefixBits, prefixBits⟩

def parseStrict : Except ConfigError Cidr := do
  let (address, prefixText) ← splitOnceByte value (ch '/')
  let original ← IpAddress.parseStrict address
  if 1 < prefixText.length ∧ prefixText.head? = some (ch '0') then .error .invalidPrefixLength
  else
    let cidr ← parse value
    if original ≠ cidr.network then .error .invalidAddress else return cidr

def contains (c : Cidr) (address : IpAddress) : Bool :=
  c.network.bits == address.bits &&
    (List.range c.prefixBits).all fun index => c.network.bit index == address.bit index

end Cidr

end NrePlugins.IpPolicy
