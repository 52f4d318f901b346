import Nre.Base.HostPort
import Nre.Shadowsocks.Crypto

/-!
# Addresses on the wire

`encodeAddress` and `decodeAddress` (protocol.go): a destination is the text
`host:port` inside the process, and a type byte, an address and two port bytes
on the wire. The two are not inverse to each other: decoding accepts a domain
field that re-encodes differently or not at all.

- `decodeAddress_spec`: what a decoded destination looks like;
- `decodeAddress_encodeAddress`: what is encoded decodes to its canonical text,
  which encodes to the same bytes;
- `canonicalTarget_eq_iff`: exactly which decoded destinations survive a second
  trip unchanged.
-/

namespace NrePlugins.Shadowsocks

open List

/-- `strings.ContainsAny(host, "\x00\r\n")`. -/
def hasControl (host : Bytes) : Bool := host.any fun b => b = 0 || b = 13 || b = 10

/-- The address bytes of a host, without the port. -/
def encodeHost (host : Bytes) : Except Err Bytes :=
  match parseIP host with
  | some ip =>
    match to4 ip with
    | some ipv4 => .ok (1 :: ipv4)
    | none => .ok (4 :: ip)
  | none =>
    if host.length = 0 ∨ host.length > 255 ∨ hasControl host then .error .protocol
    else .ok (3 :: UInt8.ofNat host.length :: host)

def encodeAddress (target : Bytes) : Except Err Bytes :=
  match splitHostPort target with
  | none => .error .protocol
  | some (host, portText) =>
    match parseUint16 portText with
    | none => .error .protocol
    | some port =>
      if port = 0 then .error .protocol
      else (encodeHost host).map (· ++ beBytes 2 port)

/-- Type 3 of `decodeAddress`: a length byte and that many bytes of a domain. -/
def decodeDomain : Bytes → Except Err (Bytes × Nat)
  | [] => .error .protocol
  | length :: rest =>
    if length = 0 ∨ rest.length < length.toNat + 2 then .error .protocol
    else if hasControl (rest.take length.toNat) then .error .protocol
    else .ok (rest.take length.toNat, 2 + length.toNat)

/-- The type switch of `decodeAddress`: the host and the position after it. -/
def decodeHost : Bytes → Except Err (Bytes × Nat)
  | [] => .error .protocol
  | kind :: rest =>
    if kind = 1 then
      if rest.length < 4 + 2 then .error .protocol else .ok (ipString (rest.take 4), 5)
    else if kind = 4 then
      if rest.length < 16 + 2 then .error .protocol else .ok (ipString (rest.take 16), 17)
    else if kind = 3 then decodeDomain rest
    else .error .protocol

/-- `decodeAddress`: the destination and how many bytes it took. -/
def decodeAddress (wire : Bytes) : Except Err (Bytes × Nat) :=
  match decodeHost wire with
  | .error err => .error err
  | .ok (host, position) =>
    let port := readBE (slice wire position (position + 2))
    if port = 0 then .error .protocol
    else .ok (joinHostPort host (itoa port), position + 2)

/-! ## Decoded destinations -/

/-- A host a domain field can carry. -/
structure DomainField (host : Bytes) : Prop where
  nonempty : host ≠ []
  short : host.length ≤ 255
  clean : hasControl host = false

/-- A host that `decodeAddress` produces: the text of an address, or whatever
stood in a domain field. -/
def DecodedHost (host : Bytes) : Prop :=
  (∃ ip : Bytes, (ip.length = 4 ∨ ip.length = 16) ∧ host = ipString ip) ∨ DomainField host

variable {host : Bytes} {target : Bytes}

theorem decodeHost_spec {wire : Bytes} {position : Nat}
    (h : decodeHost wire = .ok (host, position)) :
    DecodedHost host ∧ position + 2 ≤ wire.length := by
  revert h
  fun_cases decodeHost wire with
  | case3 rest hlen =>
    rintro ⟨⟩
    refine ⟨.inl ⟨_, .inl ?_, rfl⟩, ?_⟩
    · rw [length_take]
      omega
    · rw [length_cons]
      omega
  | case5 rest hlen =>
    rintro ⟨⟩
    refine ⟨.inl ⟨_, .inr ?_, rfl⟩, ?_⟩
    · rw [length_take]
      omega
    · rw [length_cons]
      omega
  | case6 rest =>
    fun_cases decodeDomain rest with
    | case4 length rest hlen hclean =>
      rintro ⟨⟩
      have hl := length.toNat_lt
      have hpos : length.toNat ≠ 0 := fun h0 => hlen (.inl (UInt8.toNat_inj.mp h0))
      have htake : (rest.take length.toNat).length = length.toNat := by
        rw [length_take]
        omega
      refine ⟨.inr ⟨fun hnil => ?_, by omega, by simpa using hclean⟩, ?_⟩
      · rw [hnil] at htake
        exact hpos htake.symm
      · simp only [length_cons]
        omega
    | _ => nofun
  | _ => nofun

/-- What `decodeAddress` accepts: some decoded host and a port, and it reads no
further than the wire goes. -/
theorem decodeAddress_spec {wire : Bytes} {consumed : Nat}
    (h : decodeAddress wire = .ok (target, consumed)) :
    ∃ host port, DecodedHost host ∧ 0 < port ∧ port < 65536 ∧
      target = joinHostPort host (itoa port) ∧ consumed ≤ wire.length := by
  revert h
  fun_cases decodeAddress wire with
  | case3 host position hhost _ hport =>
    rintro ⟨⟩
    obtain ⟨hdecoded, hpos⟩ := decodeHost_spec hhost
    exact ⟨host, _, hdecoded, by omega, readBE_slice_lt wire position 2, rfl, hpos⟩
  | _ => nofun

/-! ## Encoding and decoding again -/

/-- The text a host has after one trip over the wire: an address is printed
anew, anything else stays. -/
def canonicalHost (host : Bytes) : Bytes :=
  match parseIP host with
  | some ip => ipString ip
  | none => host

/-- The text a destination has after one trip over the wire. -/
def canonicalTarget (target : Bytes) : Bytes :=
  match splitHostPort target with
  | none => target
  | some (host, portText) =>
    match parseUint16 portText with
    | none => target
    | some port => joinHostPort (canonicalHost host) (itoa port)

/-- The bytes `encodeAddress` writes for a host and its port. -/
def addressLength (host : Bytes) : Nat :=
  match parseIP host with
  | some ip => if (to4 ip).isSome then 7 else 19
  | none => 4 + host.length

theorem parseIP_canonicalHost (host : Bytes) : parseIP (canonicalHost host) = parseIP host := by
  rw [canonicalHost]
  cases hip : parseIP host with
  | none => exact hip
  | some ip => exact parseIP_ipString (length_of_parseIP hip)

/-- A host and its canonical text have the same encoding. -/
theorem encodeHost_canonicalHost (host : Bytes) :
    encodeHost (canonicalHost host) = encodeHost host := by
  rw [encodeHost, parseIP_canonicalHost, encodeHost]
  cases hip : parseIP host with
  | none => rw [canonicalHost, hip]
  | some ip => rfl

theorem noBracket_canonicalHost (h : NoBracket host) : NoBracket (canonicalHost host) := by
  rw [canonicalHost]
  split
  · rename_i ip hip
    exact noBracket_ipString (.inr (length_of_parseIP hip))
  · exact h

theorem length_to4 {ip ipv4 : Bytes} (h : to4 ip = some ipv4) : ipv4.length = 4 := by
  rw [to4] at h
  split_ifs at h with h4 h16
  · cases h
    exact h4
  · cases h
    rw [length_drop]
    omega

/-- The four octets print like the address they were taken from. -/
theorem ipString_to4 {ip ipv4 : Bytes} (hip : ip.length = 16) (h : to4 ip = some ipv4) :
    ipString ipv4 = ipString ip := by
  rcases ipString_cases hip with ⟨a, b, c, d, rfl⟩ | ⟨hnone, -⟩
  · cases h
    rfl
  · simp [hnone] at h

variable {a : Bytes} {port : Nat}

/-- Decoding the address bytes of a host gives its canonical text. -/
theorem decodeHost_encodeHost (h : encodeHost host = .ok a) (rest : Bytes)
    (hrest : 2 ≤ rest.length) :
    decodeHost (a ++ rest) = .ok (canonicalHost host, a.length) ∧
      a.length + 2 = addressLength host := by
  rw [encodeHost] at h
  rw [canonicalHost, addressLength]
  cases hip : parseIP host with
  | some ip =>
    have hlen := length_of_parseIP hip
    simp only [hip] at h ⊢
    cases h4 : to4 ip with
    | some ipv4 =>
      simp only [h4, Except.ok.injEq] at h
      subst h
      have hl4 := length_to4 h4
      have htake : (ipv4 ++ rest).take 4 = ipv4 := by rw [← hl4, take_left]
      refine ⟨?_, by simp [hl4]⟩
      rw [cons_append, decodeHost, if_pos rfl, if_neg (by rw [length_append]; omega),
        htake, ipString_to4 hlen h4, length_cons, hl4]
    | none =>
      simp only [h4, Except.ok.injEq] at h
      subst h
      have htake : (ip ++ rest).take 16 = ip := by rw [← hlen, take_left]
      refine ⟨?_, by simp [hlen]⟩
      rw [cons_append, decodeHost, if_neg (by decide), if_pos rfl,
        if_neg (by rw [length_append]; omega), htake, length_cons, hlen]
  | none =>
    simp only [hip] at h ⊢
    split_ifs at h with hbad
    push Not at hbad
    obtain ⟨hne, hshort, hclean⟩ := hbad
    cases h
    have hsize : (UInt8.ofNat host.length).toNat = host.length := by
      rw [UInt8.toNat_ofNat']
      omega
    have hzero : UInt8.ofNat host.length ≠ 0 := by
      intro h0
      rw [h0] at hsize
      exact hne hsize.symm
    refine ⟨?_, by simp only [length_cons]; omega⟩
    have hroom : ¬ (UInt8.ofNat host.length = 0 ∨ (host ++ rest).length < host.length + 2) := by
      rw [length_append]
      rintro (h0 | hlt)
      · exact hzero h0
      · omega
    rw [cons_append, cons_append, decodeHost, if_neg (by decide), if_neg (by decide),
      if_pos rfl, decodeDomain, hsize, if_neg hroom, take_left, if_neg hclean,
      length_cons, length_cons]
    congr 2
    omega

theorem port_text (h : port < 65536) :
    NoBracket (itoa port) ∧ ch ':' ∉ itoa port ∧ parseUint16 (itoa port) = some port :=
  ⟨⟨not_mem_itoa (by decide), not_mem_itoa (by decide)⟩, not_mem_itoa (by decide),
    parseUint16_itoa h⟩

/-- Encoding a joined destination encodes its host. -/
theorem encodeAddress_join (hhost : NoBracket host) (hpos : 0 < port) (hlt : port < 65536) :
    encodeAddress (joinHostPort host (itoa port)) =
      (encodeHost host).map (· ++ beBytes 2 port) := by
  obtain ⟨hbracket, hcolon, hparse⟩ := port_text hlt
  rw [encodeAddress, splitHostPort_joinHostPort hhost hbracket hcolon]
  simp only [hparse]
  rw [if_neg (by omega)]

/-- What is encoded is the address of a host without brackets. -/
theorem encodeAddress_spec (h : encodeAddress target = .ok a) :
    ∃ host address port, NoBracket host ∧ 0 < port ∧ port < 65536 ∧
      encodeHost host = .ok address ∧ a = address ++ beBytes 2 port ∧
      canonicalTarget target = joinHostPort (canonicalHost host) (itoa port) := by
  revert h
  fun_cases encodeAddress target with
  | case4 host _ hsplit port hport h0 =>
    intro h
    obtain ⟨address, haddr, h⟩ := bind_eq_ok.mp h
    cases h
    exact ⟨host, address, port, splitHostPort_host hsplit, by omega, parseUint16_lt hport, haddr,
      rfl, by simp only [canonicalTarget, hsplit, hport]⟩
  | _ => nofun

/-- Decoding encoded bytes gives the canonical text of the host, whatever
follows them. -/
theorem decodeAddress_address {address : Bytes} (h : encodeHost host = .ok address)
    (hpos : 0 < port) (hlt : port < 65536) (rest : Bytes) :
    decodeAddress (address ++ beBytes 2 port ++ rest) =
      .ok (joinHostPort (canonicalHost host) (itoa port), address.length + 2) := by
  have hdecode := (decodeHost_encodeHost h (beBytes 2 port ++ rest) (by simp)).1
  rw [append_assoc, decodeAddress, hdecode]
  have hport : readBE (slice (address ++ (beBytes 2 port ++ rest)) address.length
      (address.length + 2)) = port := by
    rw [slice_append, take_left' (length_beBytes 2 port), readBE_beBytes]
    exact Nat.mod_eq_of_lt hlt
  simp only [hport]
  rw [if_neg (by omega)]

/-- What is encoded decodes, whatever follows, to its canonical text, and that
has the same encoding. -/
theorem decodeAddress_encodeAddress (h : encodeAddress target = .ok a) :
    encodeAddress (canonicalTarget target) = .ok a ∧
      ∀ rest, decodeAddress (a ++ rest) = .ok (canonicalTarget target, a.length) := by
  obtain ⟨host, address, port, hbracket, hpos, hlt, haddr, rfl, hcanon⟩ := encodeAddress_spec h
  rw [hcanon]
  refine ⟨?_, fun rest => ?_⟩
  · rw [encodeAddress_join (noBracket_canonicalHost hbracket) hpos hlt, encodeHost_canonicalHost,
      haddr]
    rfl
  · rw [decodeAddress_address haddr hpos hlt, length_append, length_beBytes]

/-! ## Which destinations survive a second trip -/

/-- A host whose text is what its own encoding decodes to. -/
structure Stable (host : Bytes) : Prop where
  noBracket : NoBracket host
  canonical : canonicalHost host = host

instance (host : Bytes) : Decidable (Stable host) :=
  decidable_of_iff (NoBracket host ∧ canonicalHost host = host)
    ⟨fun h => ⟨h.1, h.2⟩, fun h => ⟨h.noBracket, h.canonical⟩⟩

theorem canonicalHost_idem (host : Bytes) :
    canonicalHost (canonicalHost host) = canonicalHost host := by
  rw [canonicalHost, parseIP_canonicalHost]
  cases hip : parseIP host with
  | none => rfl
  | some ip => rw [canonicalHost, hip]

/-- Every decoded host has address bytes. -/
theorem encodeHost_decoded (h : DecodedHost host) : ∃ address, encodeHost host = .ok address := by
  rw [encodeHost]
  cases hip : parseIP host with
  | some ip =>
    cases h4 : to4 ip with
    | some ipv4 => exact ⟨1 :: ipv4, by simp only [h4]⟩
    | none => exact ⟨4 :: ip, by simp only [h4]⟩
  | none =>
    rcases h with ⟨ip, hlen | hlen, rfl⟩ | hfield
    · match ip, hlen with
      | [a, b, c, d], _ => simp [ipString, to4, parseIP_text4] at hip
    · simp [parseIP_ipString hlen] at hip
    · refine ⟨_, if_neg ?_⟩
      rintro (h0 | hlong | hbad)
      · exact hfield.nonempty (length_eq_zero_iff.mp h0)
      · exact absurd hfield.short (by omega)
      · exact absurd hfield.clean (by simp [hbad])

/-- A stable decoded destination encodes, into `addressLength` bytes. -/
theorem encodeAddress_stable (h : DecodedHost host) (hs : Stable host) (hpos : 0 < port)
    (hlt : port < 65536) :
    ∃ a, encodeAddress (joinHostPort host (itoa port)) = .ok a ∧ a.length = addressLength host := by
  obtain ⟨address, haddr⟩ := encodeHost_decoded h
  refine ⟨address ++ beBytes 2 port, ?_, ?_⟩
  · rw [encodeAddress_join hs.noBracket hpos hlt, haddr]
    rfl
  · have hlen := (decodeHost_encodeHost haddr (beBytes 2 port) (by simp)).2
    rw [length_append, length_beBytes, hlen]

/-- Among the destinations that encode at all, those with a stable host are the
ones that come back unchanged. -/
theorem canonicalTarget_eq_iff (hlt : port < 65536)
    (henc : encodeAddress (joinHostPort host (itoa port)) = .ok a) :
    canonicalTarget (joinHostPort host (itoa port)) = joinHostPort host (itoa port) ↔
      Stable host := by
  obtain ⟨hb, hc, hparse⟩ := port_text hlt
  constructor
  · intro hsame
    obtain ⟨h', address, port', hbracket, -, hlt', -, -, hcanon⟩ := encodeAddress_spec henc
    obtain ⟨-, hc', -⟩ := port_text hlt'
    rw [hcanon] at hsame
    obtain ⟨hhost, -⟩ := joinHostPort_inj hc' hc hsame
    rw [← hhost]
    exact ⟨noBracket_canonicalHost hbracket, canonicalHost_idem h'⟩
  · intro hs
    rw [canonicalTarget, splitHostPort_joinHostPort hs.noBracket hb hc]
    simp only [hparse, hs.canonical]

end NrePlugins.Shadowsocks
