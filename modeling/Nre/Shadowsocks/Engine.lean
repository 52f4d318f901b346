import Nre.Shadowsocks.Address

/-!
# Protocol engines: opening and sealing a TCP request

`ProtocolEngine` of protocol.go with the two wire formats of a first TCP
request:

- legacy AEAD: `salt ‖ seal(length) ‖ seal(address ‖ payload)`;
- Shadowsocks 2022: `salt ‖ [identity header] ‖ seal(fixed) ‖ seal(variable)`
  with `fixed = 0 ‖ timestamp ‖ |variable|` and
  `variable = address ‖ |padding| ‖ padding ‖ payload`.

Both are a salt, a header the engine checks, and two records; `Framed` states
that shape once, and `sealTCPRequest_framed` is the only place where the two
formats are compared with their readers. What other modules use is how an engine
treats its own wire (`Framed`) and a wire that is not its own
(`openTCPServerSession_foreign`).
-/

namespace NrePlugins.Shadowsocks

open List
open StreamCipher

/-! ## Methods and engines -/

/-- The keys of `supportedMethods`. -/
inductive Method where
  | aes128Gcm
  | aes256Gcm
  | blake3Aes128Gcm
  | blake3Aes256Gcm
  deriving DecidableEq

/-- `supportedMethods[method]`. -/
def Method.keyLen : Method → Nat
  | .aes128Gcm | .blake3Aes128Gcm => 16
  | .aes256Gcm | .blake3Aes256Gcm => 32

/-- `strings.HasPrefix(method, "2022-")`. -/
def Method.modern : Method → Bool
  | .aes128Gcm | .aes256Gcm => false
  | .blake3Aes128Gcm | .blake3Aes256Gcm => true

theorem Method.keyLen_cases (m : Method) : m.keyLen = 16 ∨ m.keyLen = 32 := by
  cases m <;> simp [Method.keyLen]

def maxLegacyPayload : Nat := 0x3fff
def max2022Payload : Nat := 0xffff
def max2022Padding : Nat := 900
def maxUDPPacket : Nat := 65507
def ss2022IdentitySize : Nat := 16
def ss2022KDFContext : Bytes := ascii "shadowsocks 2022 session subkey"
def ss2022IdentityContext : Bytes := ascii "shadowsocks 2022 identity subkey"

/-- `ProtocolEngine`: `keyLen` and `modern` are those of the method, as every
constructor of the source sets them. -/
structure ProtocolEngine where
  method : Method
  key : Bytes
  identity : Bytes
  dead : Bool
  deriving DecidableEq

variable {e : ProtocolEngine} (C : Crypto)

namespace ProtocolEngine

def keyLen (e : ProtocolEngine) : Nat := e.method.keyLen

def modern (e : ProtocolEngine) : Bool := e.method.modern

/-- `keysSnapshot`: the user key and the identity key of a live engine. -/
def keysSnapshot (e : ProtocolEngine) : Except Err (Bytes × Bytes) :=
  if e.dead ∨ e.key.length ≠ e.keyLen then .error .revoked
  else if e.identity.length ≠ 0 ∧ e.identity.length ≠ e.keyLen then .error .revoked
  else .ok (e.key, e.identity)

/-- An engine that has not been destroyed and holds keys of its method. -/
structure Live (e : ProtocolEngine) : Prop where
  alive : e.dead = false
  key : e.key.length = e.keyLen
  identity : e.identity.length = 0 ∨ e.identity.length = e.keyLen

instance (e : ProtocolEngine) : Decidable e.Live :=
  decidable_of_iff (e.dead = false ∧ e.key.length = e.keyLen ∧
      (e.identity.length = 0 ∨ e.identity.length = e.keyLen))
    ⟨fun h => ⟨h.1, h.2.1, h.2.2⟩, fun h => ⟨h.alive, h.key, h.identity⟩⟩

theorem Live.keysSnapshot (h : e.Live) : e.keysSnapshot = .ok (e.key, e.identity) := by
  rw [ProtocolEngine.keysSnapshot, if_neg (by simp [h.alive, h.key]), if_neg]
  rintro ⟨h0, hi⟩
  exact h.identity.elim h0 hi

theorem keysSnapshot_eq {keys : Bytes × Bytes} (h : e.keysSnapshot = .ok keys) :
    e.Live ∧ keys = (e.key, e.identity) := by
  rw [keysSnapshot] at h
  split_ifs at h with h1 h2
  push Not at h1 h2
  exact ⟨⟨by simpa using h1.1, h1.2, or_iff_not_imp_left.mpr h2⟩, (Except.ok.inj h).symm⟩

theorem keyLen_cases (e : ProtocolEngine) : e.keyLen = 16 ∨ e.keyLen = 32 :=
  e.method.keyLen_cases

end ProtocolEngine

/-! ## Session keys -/

/-- `aes.NewCipher` and `cipher.NewGCM` on a derived key. -/
def newStreamCipher (subkey : Bytes) : Except Err StreamCipher :=
  if subkey.length = 16 ∨ subkey.length = 24 ∨ subkey.length = 32 then
    .ok { key := subkey, nonce := replicate 12 0 }
  else .error .protocol

/-- The subkey of a master key and a salt. -/
def ProtocolEngine.subkey (e : ProtocolEngine) (master salt : Bytes) : Except Err Bytes :=
  if e.modern then
    (blake3DeriveKey ss2022KDFContext (master ++ salt)).map (·.take e.keyLen)
  else .ok (hkdfSHA1 C master salt (ascii "ss-subkey") e.keyLen)

def ProtocolEngine.newSession (e : ProtocolEngine) (master salt : Bytes) :
    Except Err StreamCipher :=
  if salt.length ≠ e.keyLen then .error .protocol
  else (e.subkey C master salt).bind newStreamCipher

/-- With keys and salts of the method's length a session key always exists. -/
theorem ProtocolEngine.newSession_ok (e : ProtocolEngine) {master salt : Bytes}
    (hmaster : master.length = e.keyLen) (hsalt : salt.length = e.keyLen) :
    ∃ session, e.newSession C master salt = .ok session := by
  have hk := e.keyLen_cases
  obtain ⟨subkey, hsub, hlen⟩ : ∃ subkey, e.subkey C master salt = .ok subkey ∧
      subkey.length = e.keyLen := by
    rw [ProtocolEngine.subkey]
    split_ifs with hm
    · obtain ⟨derived, hd, hlen⟩ := blake3DeriveKey_ok ss2022KDFContext (master ++ salt)
        (by decide) (by rw [length_append]; omega)
      refine ⟨derived.take e.keyLen, by rw [hd]; rfl, ?_⟩
      rw [length_take]
      omega
    · exact ⟨_, rfl, length_hkdfSHA1 C ..⟩
  refine ⟨{ key := subkey, nonce := replicate 12 0 }, ?_⟩
  rw [ProtocolEngine.newSession, if_neg (by simp [hsalt]), hsub]
  exact if_pos (by omega)

/-! ## Identity headers -/

def ss2022IdentityOverhead (identity : Bytes) : Nat :=
  if identity.length = 0 then 0 else ss2022IdentitySize

def ss2022IdentityHash (psk : Bytes) : Except Err Bytes :=
  if psk.length ≠ 16 ∧ psk.length ≠ 32 then .error .protocol
  else (blake3OneBlockDigest psk).map (·.take ss2022IdentitySize)

/-- `ss2022TCPIdentityMaterial`: the plaintext and the AES key of the header. -/
def ss2022TCPIdentityMaterial (ipsk nextPSK salt : Bytes) : Except Err (Bytes × Bytes) :=
  if (ipsk.length ≠ 16 ∧ ipsk.length ≠ 32) ∨ nextPSK.length ≠ ipsk.length ∨
      salt.length ≠ ipsk.length then .error .protocol
  else do
    let derived ← blake3DeriveKey ss2022IdentityContext (ipsk ++ salt)
    let plain ← ss2022IdentityHash nextPSK
    return (plain, derived.take ipsk.length)

/-- The header both sides compute; the material's key has an AES length. -/
def identityHeader (ipsk nextPSK salt : Bytes) : Except Err Bytes :=
  (ss2022TCPIdentityMaterial ipsk nextPSK salt).map fun (plain, key) => C.aesEncrypt key plain

def seal2022Identity (ipsk nextPSK salt : Bytes) : Except Err Bytes :=
  if ipsk.length = 0 then .ok [] else identityHeader C ipsk nextPSK salt

def open2022Identity (ipsk nextPSK salt header : Bytes) : Except Err Unit :=
  if header.length ≠ ss2022IdentitySize then .error .protocol
  else do
    let out ← identityHeader C ipsk nextPSK salt
    if out ≠ header then .error .authentication else .ok ()

theorem identityHeader_ok {ipsk nextPSK salt : Bytes} (hi : ipsk.length = 16 ∨ ipsk.length = 32)
    (hn : nextPSK.length = ipsk.length) (hs : salt.length = ipsk.length) :
    ∃ header, identityHeader C ipsk nextPSK salt = .ok header ∧
      header.length = ss2022IdentitySize := by
  obtain ⟨derived, hd, -⟩ := blake3DeriveKey_ok ss2022IdentityContext (ipsk ++ salt)
    (by decide) (by rw [length_append]; omega)
  refine ⟨C.aesEncrypt (derived.take ipsk.length)
    ((blake3OneBlock blake3IV nextPSK 0).take ss2022IdentitySize), ?_, C.length_aesEncrypt ..⟩
  rw [identityHeader, ss2022TCPIdentityMaterial, if_neg (by omega), hd, ss2022IdentityHash,
    if_neg (by omega), blake3OneBlockDigest, if_neg (by omega)]
  rfl

/-- A live engine with an identity key has a header for every salt. -/
theorem ProtocolEngine.Live.identityHeader {salt : Bytes} (h : e.Live)
    (h0 : e.identity.length ≠ 0) (hsalt : salt.length = e.keyLen) :
    ∃ header, identityHeader C e.identity e.key salt = .ok header ∧
      header.length = ss2022IdentitySize := by
  have hid : e.identity.length = e.keyLen := h.identity.resolve_left h0
  have hk := e.keyLen_cases
  exact identityHeader_ok C (by omega) (by rw [h.key, hid]) (by rw [hsalt, hid])

/-! ## TCP requests -/

/-- `ProxyRequest`. -/
structure ProxyRequest where
  userID : Bytes := []
  target : Bytes
  payload : Bytes
  replayToken : Bytes
  sessionID : Nat := 0
  packetID : Nat := 0
  deriving DecidableEq

/-- `TCPServerSession`, without its mutex. -/
structure TCPServerSession where
  engine : ProtocolEngine
  key : Bytes
  inbound : Option StreamCipher
  outbound : Option StreamCipher := none
  requestSalt : Bytes
  leftover : Bytes
  modern : Bool
  closed : Bool := false
  deriving DecidableEq

/-- `uint64(now.Unix())`. -/
def unixStamp (now : Int) : Nat := (now % 2 ^ 64).toNat

/-- `timestampValid`: at most thirty seconds off. -/
def timestampValid (value : Nat) (now : Int) : Bool :=
  if value > 2 ^ 63 - 1 then false else now - 30 ≤ value && value ≤ now + 30

namespace ProtocolEngine

variable (e : ProtocolEngine)

def sealLegacyTCP (key salt target payload : Bytes) : Except Err Bytes :=
  match encodeAddress target with
  | .error _ => .error .protocol
  | .ok address =>
    if address.length + payload.length > maxLegacyPayload then .error .protocol
    else do
      let session ← e.newSession C key salt
      let body := address ++ payload
      let (lengthWire, session) := session.seal C (beBytes 2 body.length)
      return salt ++ lengthWire ++ (session.seal C body).1

def openLegacyTCP (key wire : Bytes) : Except Err (ProxyRequest × TCPServerSession) :=
  if wire.length < e.keyLen + 2 + 32 then .error .protocol
  else do
    let salt := wire.take e.keyLen
    let session ← e.newSession C key salt
    let position := e.keyLen + 18
    let (lengthPlain, session) ← session.open C (slice wire e.keyLen position)
    if lengthPlain.length ≠ 2 then .error .authentication
    else
      let length := readBE lengthPlain
      if length = 0 ∨ length > maxLegacyPayload then .error .protocol
      else
        let frameEnd := position + length + 16
        if wire.length < frameEnd then .error .protocol
        else do
          let (body, session) ← session.open C (slice wire position frameEnd)
          let (target, consumed) ← decodeAddress body
          let leftover := if frameEnd < wire.length then wire.drop frameEnd else []
          return ({ target, payload := body.drop consumed, replayToken := salt },
            { engine := e, key, inbound := some session, requestSalt := salt, leftover,
              modern := false })

def seal2022TCP (key identity salt target payload : Bytes) (now : Int) (padding : Bytes) :
    Except Err Bytes :=
  if padding.length > max2022Padding ∨ payload.length > max2022Payload then .error .protocol
  else match encodeAddress target with
  | .error _ => .error .protocol
  | .ok address =>
    if address.length + 2 + padding.length + payload.length > max2022Payload ∨
        padding.length + payload.length = 0 then .error .protocol
    else do
      let variablePart := address ++ beBytes 2 padding.length ++ padding ++ payload
      let fixed := 0 :: beBytes 8 (unixStamp now) ++ beBytes 2 variablePart.length
      let session ← e.newSession C key salt
      let header ← seal2022Identity C identity key salt
      let (fixedWire, session) := session.seal C fixed
      return salt ++ header ++ fixedWire ++ (session.seal C variablePart).1

/-- The end of `open2022TCP`: the target, the padding and the payload inside the
second record. -/
def parse2022Variable (variablePart : Bytes) : Except Err (Bytes × Bytes) :=
  match decodeAddress variablePart with
  | .error _ => .error .protocol
  | .ok (target, consumed) =>
    if variablePart.length - consumed < 2 then .error .protocol
    else
      let paddingLength := readBE (slice variablePart consumed (consumed + 2))
      let consumed := consumed + 2
      if paddingLength > max2022Padding ∨ variablePart.length - consumed < paddingLength then
        .error .protocol
      else
        let consumed := consumed + paddingLength
        if paddingLength = 0 ∧ consumed = variablePart.length then .error .protocol
        else .ok (target, variablePart.drop consumed)

/-- The identity header after the salt, when the engine has an identity key. -/
def check2022Identity (key identity salt wire : Bytes) : Except Err Unit :=
  if ss2022IdentityOverhead identity ≠ 0 then
    open2022Identity C identity key salt (slice wire e.keyLen (e.keyLen + ss2022IdentitySize))
  else .ok ()

def open2022TCP (key identity wire : Bytes) (now : Int) :
    Except Err (ProxyRequest × TCPServerSession) :=
  let overhead := ss2022IdentityOverhead identity
  if wire.length < e.keyLen + overhead + 27 + 16 then .error .protocol
  else do
    let salt := wire.take e.keyLen
    e.check2022Identity C key identity salt wire
    let start := e.keyLen + overhead
    let session ← e.newSession C key salt
    let (fixed, session) ← session.open C (slice wire start (start + 27))
    if fixed.length ≠ 11 then .error .authentication
    else if fixed.head? ≠ some 0 ∨ ¬ timestampValid (readBE (slice fixed 1 9)) now then
      .error .replay
    else
      let variableLength := readBE (slice fixed 9 11)
      if variableLength = 0 then .error .protocol
      else
        let frameEnd := start + 27 + variableLength + 16
        if wire.length < frameEnd then .error .protocol
        else do
          let (variablePart, session) ← session.open C (slice wire (start + 27) frameEnd)
          let (target, payload) ← parse2022Variable variablePart
          let leftover := if frameEnd < wire.length then wire.drop frameEnd else []
          return ({ target, payload, replayToken := salt },
            { engine := e, key, inbound := some session, requestSalt := salt, leftover,
              modern := true })

def sealTCPRequest (salt target payload : Bytes) (now : Int) (padding : Bytes) :
    Except Err Bytes := do
  let (key, identity) ← e.keysSnapshot
  if salt.length ≠ e.keyLen then .error .protocol
  else if e.modern then e.seal2022TCP C key identity salt target payload now padding
  else if padding.length ≠ 0 then .error .protocol
  else e.sealLegacyTCP C key salt target payload

def openTCPServerSession (wire : Bytes) (now : Int) :
    Except Err (ProxyRequest × TCPServerSession) := do
  let (key, identity) ← e.keysSnapshot
  if e.modern then e.open2022TCP C key identity wire now else e.openLegacyTCP C key wire

/-! ## An engine on its own wire -/

/-- The session an engine makes after a request. -/
def serverSession (salt leftover : Bytes) (inbound : StreamCipher) : TCPServerSession where
  engine := e
  key := e.key
  inbound := some inbound
  requestSalt := salt
  leftover := leftover
  modern := e.modern

/-- How an engine treats the connection that begins with the wire `w`: it asks
for more on every strict head of `w`, and from `w` on it answers the request and
keeps what follows as the session's leftover. -/
structure Framed (w : Bytes) (now : Int) (request : ProxyRequest) : Prop where
  short : ∀ r p, p < w.length → e.openTCPServerSession C ((w ++ r).take p) now = .error .protocol
  whole : ∃ inbound, ∀ r, e.openTCPServerSession C (w ++ r) now =
    .ok (request, e.serverSession request.replayToken r inbound)

variable {e}

theorem openTCPServerSession_live (hlive : e.Live) (wire : Bytes) (now : Int) :
    e.openTCPServerSession C wire now = if e.modern then
      e.open2022TCP C e.key e.identity wire now else e.openLegacyTCP C e.key wire := by
  rw [openTCPServerSession, hlive.keysSnapshot]
  rfl

variable {salt payload : Bytes} {request : ProxyRequest} {t w : Bytes} {c : StreamCipher} {p : Nat}
  {padding : Bytes} {sent now : Int}

/-- The parts of a head of a connection that begins with a salt, a header and two records. -/
theorem take_records (head : Bytes) {first second : Bytes} {k n m : Nat}
    (hw : w = salt ++ head ++ (c.seal C first).1 ++ (c.next.seal C second).1) (r : Bytes)
    (hp : p ≤ (w ++ r).length) (hk : salt.length = k) (hn : k + head.length = n)
    (hm : n + (first.length + 16) = m) :
    w.length = m + second.length + 16 ∧ ((w ++ r).take p).length = p ∧
      (n ≤ p → ((w ++ r).take p).take k = salt ∧ slice ((w ++ r).take p) k n = head) ∧
      (m ≤ p → slice ((w ++ r).take p) n m = (c.seal C first).1) ∧
      (w.length ≤ p →
        slice ((w ++ r).take p) m (m + second.length + 16) = (c.next.seal C second).1) := by
  have hwlen : w.length = m + second.length + 16 := by simp [hw]; omega
  refine ⟨hwlen, by rw [length_take]; omega, fun h => ⟨?_, ?_⟩, fun h => ?_, fun h => ?_⟩
  · rw [take_take, Nat.min_eq_left (by omega), hw]
    simp only [append_assoc]
    exact take_left' hk
  · rw [slice_take h, hw, append_assoc, append_assoc (salt ++ head)]
    exact slice_mid hk hn
  · rw [slice_take h, hw, append_assoc]
    exact slice_mid (by simp; omega) (by simpa using hm)
  · rw [slice_take (by omega), hw]
    exact slice_mid (by simp; omega) (by simp; omega)

theorem ite_drop {s : Bytes} {n m : Nat} (h : s.length = m) :
    (if n < m then s.drop n else []) = s.drop n := by
  split_ifs
  · rfl
  · exact (drop_eq_nil_of_le (by omega)).symm

/-- What `openLegacyTCP` finds on a head of a connection that starts with one of
its own wires. -/
theorem openLegacyTCP_own {body : Bytes} {consumed : Nat} (hsalt : salt.length = e.keyLen)
    (hc : e.newSession C e.key salt = .ok c) (hne : body ≠ [])
    (hsize : body.length ≤ maxLegacyPayload) (ht : decodeAddress body = .ok (t, consumed))
    (hw : w = salt ++ (c.seal C (beBytes 2 body.length)).1 ++ (c.next.seal C body).1) (r : Bytes)
    (hp : p ≤ (w ++ r).length) :
    e.openLegacyTCP C e.key ((w ++ r).take p) =
      if p < w.length then .error .protocol
      else .ok ({ target := t, payload := body.drop consumed, replayToken := salt },
        { engine := e, key := e.key, inbound := some c.next.next, requestSalt := salt,
          leftover := ((w ++ r).take p).drop w.length, modern := false }) := by
  have hbody : 0 < body.length := length_pos_iff.mpr hne
  obtain ⟨hwlen, hlen, hstart, hfirst, hsecond⟩ := take_records C [] (n := e.keyLen)
    (m := e.keyLen + 18) (by rwa [append_nil]) r hp hsalt rfl (by simp)
  rw [openLegacyTCP, hlen]
  by_cases hmin : p < e.keyLen + 2 + 32
  · rw [if_pos hmin, if_pos (by omega)]
  have hread : readBE (beBytes 2 body.length) = body.length := by
    rw [readBE_beBytes]
    exact Nat.mod_eq_of_lt (by rw [maxLegacyPayload] at hsize; omega)
  rw [if_neg hmin]
  simp only [(hstart (by omega)).1, hc, hfirst (by omega), open_seal, bind, Except.bind,
    length_beBytes, hread, ne_eq, not_true_eq_false, if_false]
  rw [if_neg (by omega)]
  by_cases hshort : p < w.length
  · rw [if_pos (by omega), if_pos hshort]
  rw [if_neg (by omega), if_neg hshort, hsecond (by omega), open_seal]
  simp only [ht, hwlen, ite_drop hlen]
  rfl

/-- The second record of a 2022 request is read back. -/
theorem parse2022Variable_own {a : Bytes}
    (ht : ∀ rest, decodeAddress (a ++ rest) = .ok (t, a.length))
    (hpadding : padding.length ≤ max2022Padding) (hsome : padding.length + payload.length ≠ 0) :
    parse2022Variable (a ++ beBytes 2 padding.length ++ padding ++ payload) = .ok (t, payload) := by
  have hread : readBE (slice (a ++ beBytes 2 padding.length ++ padding ++ payload) a.length
      (a.length + 2)) = padding.length := by
    rw [append_assoc, slice_mid rfl (by simp), readBE_beBytes]
    exact Nat.mod_eq_of_lt (by rw [max2022Padding] at hpadding; omega)
  have hdrop : (a ++ beBytes 2 padding.length ++ padding ++ payload).drop
      (a.length + 2 + padding.length) = payload :=
    drop_left' (by simp; omega)
  have hdec : decodeAddress (a ++ beBytes 2 padding.length ++ padding ++ payload) =
      .ok (t, a.length) := by
    rw [append_assoc, append_assoc]
    exact ht _
  rw [parse2022Variable, hdec]
  simp only [hread, hdrop, length_append, length_beBytes]
  rw [if_neg (by omega), if_neg (by omega), if_neg (by omega)]

theorem seal2022Identity_ok (hlive : e.Live) (hsalt : salt.length = e.keyLen) :
    ∃ header, seal2022Identity C e.identity e.key salt = .ok header ∧
      header.length = ss2022IdentityOverhead e.identity ∧
      (ss2022IdentityOverhead e.identity ≠ 0 →
        open2022Identity C e.identity e.key salt header = .ok ()) := by
  rw [seal2022Identity, ss2022IdentityOverhead]
  split_ifs with h0
  · exact ⟨[], rfl, rfl, fun h => absurd rfl h⟩
  · obtain ⟨header, hh, hlen⟩ := hlive.identityHeader C h0 hsalt
    refine ⟨header, hh, hlen, fun _ => ?_⟩
    rw [open2022Identity, if_neg (by simp [hlen]), hh]
    simp [bind, Except.bind]

/-- What `open2022TCP` finds on a head of a connection that starts with one of
its own wires. -/
theorem open2022TCP_own {header variablePart : Bytes} (hsalt : salt.length = e.keyLen)
    (hc : e.newSession C e.key salt = .ok c)
    (hheader : header.length = ss2022IdentityOverhead e.identity)
    (hopen : ss2022IdentityOverhead e.identity ≠ 0 →
      open2022Identity C e.identity e.key salt header = .ok ())
    (hstamp : timestampValid (unixStamp sent) now = true) (hne : variablePart ≠ [])
    (hsize : variablePart.length ≤ max2022Payload)
    (ht : parse2022Variable variablePart = .ok (t, payload)) {fixed : Bytes}
    (hfixed : fixed = 0 :: beBytes 8 (unixStamp sent) ++ beBytes 2 variablePart.length)
    (hw : w = salt ++ header ++ (c.seal C fixed).1 ++ (c.next.seal C variablePart).1) (r : Bytes)
    (hp : p ≤ (w ++ r).length) :
    e.open2022TCP C e.key e.identity ((w ++ r).take p) now =
      if p < w.length then .error .protocol
      else .ok ({ target := t, payload, replayToken := salt },
        { engine := e, key := e.key, inbound := some c.next.next, requestSalt := salt,
          leftover := ((w ++ r).take p).drop w.length, modern := true }) := by
  have hvar : 0 < variablePart.length := length_pos_iff.mpr hne
  have hflen : fixed.length = 11 := by rw [hfixed]; simp
  obtain ⟨hwlen, hlen, hstart, hfirst, hsecond⟩ := take_records C header
    (m := e.keyLen + ss2022IdentityOverhead e.identity + 27) hw r hp hsalt (by rw [hheader])
    (by rw [hflen])
  rw [open2022TCP]
  simp only [hlen]
  by_cases hmin : p < e.keyLen + ss2022IdentityOverhead e.identity + 27 + 16
  · rw [if_pos hmin, if_pos (by omega)]
  obtain ⟨htake, hslice⟩ := hstart (by omega)
  have hident : e.check2022Identity C e.key e.identity salt ((w ++ r).take p) = .ok () := by
    rw [check2022Identity]
    split_ifs with h0
    · have hsz : ss2022IdentityOverhead e.identity = ss2022IdentitySize := by
        rw [ss2022IdentityOverhead] at h0 ⊢
        exact if_neg fun hi => h0 (if_pos hi)
      rw [← hsz, hslice]
      exact hopen h0
    · rfl
  have hstampRead : readBE (slice fixed 1 9) = unixStamp sent := by
    have hs : slice fixed 1 9 = beBytes 8 (unixStamp sent) := by
      rw [hfixed, ← singleton_append]
      exact slice_mid rfl (by simp)
    rw [hs, readBE_beBytes]
    refine Nat.mod_eq_of_lt ?_
    rw [unixStamp]
    omega
  have hsizeRead : readBE (slice fixed 9 11) = variablePart.length := by
    have hs : slice fixed 9 11 = beBytes 2 variablePart.length := by
      rw [hfixed, ← append_nil (_ ++ _)]
      exact slice_mid (by simp) (by simp)
    rw [hs, readBE_beBytes]
    exact Nat.mod_eq_of_lt (by rw [max2022Payload] at hsize; omega)
  have hhead : fixed.head? = some 0 := by rw [hfixed]; rfl
  rw [if_neg hmin]
  simp only [htake, hident, bind, Except.bind, hc, hfirst (by omega), open_seal, hflen, hhead,
    hstampRead, hstamp, hsizeRead, ne_eq, not_true_eq_false, or_self, if_false]
  rw [if_neg (by omega)]
  by_cases hshort : p < w.length
  · rw [if_pos (by omega), if_pos hshort]
  rw [if_neg (by omega), if_neg hshort, hsecond (by omega), open_seal]
  simp only [ht, hwlen, ite_drop hlen]
  rfl

/-- From the heads of a connection to `Framed`: one equation for every head
gives both of its fields. -/
theorem framed_of_take (inbound : StreamCipher)
    (h : ∀ r p, p ≤ (w ++ r).length →
      e.openTCPServerSession C ((w ++ r).take p) now =
        if p < w.length then .error .protocol else .ok (request,
          e.serverSession request.replayToken (((w ++ r).take p).drop w.length) inbound)) :
    e.Framed C w now request where
  short r p hp := by
    rw [h r p (by rw [length_append]; omega), if_pos hp]
  whole := ⟨inbound, fun r => by
    have hall := h r (w ++ r).length le_rfl
    rwa [take_length, if_neg (by rw [length_append]; omega), drop_left] at hall⟩

variable {target : Bytes}

/-- A sealed legacy request is framed. -/
theorem sealLegacyTCP_framed (hlive : e.Live) (hm : e.modern = false)
    (hsalt : salt.length = e.keyLen) (h : e.sealLegacyTCP C e.key salt target payload = .ok w)
    (now : Int) :
    e.Framed C w now { target := canonicalTarget target, payload, replayToken := salt } := by
  rw [sealLegacyTCP] at h
  split at h
  · cases h
  · rename_i a ha
    split_ifs at h with hsize
    obtain ⟨c, hc⟩ := e.newSession_ok C hlive.key hsalt
    have hdec := (decodeAddress_encodeAddress ha).2
    have hane : a ≠ [] := by
      rintro rfl
      have := hdec []
      simp [decodeAddress, decodeHost] at this
    simp only [hc, bind, Except.bind, pure, Except.pure, StreamCipher.seal] at h
    refine framed_of_take C c.next.next fun r p hp => ?_
    rw [openTCPServerSession_live C hlive, if_neg (by simp [hm]),
      openLegacyTCP_own C hsalt hc (by simp [hane]) (by rw [length_append]; omega)
        (hdec payload) (Except.ok.inj h).symm r hp]
    rw [drop_left, serverSession, hm]

/-- A sealed 2022 request is framed while its timestamp is inside the window. -/
theorem seal2022TCP_framed (hlive : e.Live) (hm : e.modern = true)
    (hsalt : salt.length = e.keyLen)
    (h : e.seal2022TCP C e.key e.identity salt target payload sent padding = .ok w)
    (hstamp : timestampValid (unixStamp sent) now = true) :
    e.Framed C w now { target := canonicalTarget target, payload, replayToken := salt } := by
  rw [seal2022TCP] at h
  split_ifs at h with hlimit
  split at h
  · cases h
  · rename_i a ha
    split_ifs at h with hsize
    push Not at hlimit hsize
    obtain ⟨c, hc⟩ := e.newSession_ok C hlive.key hsalt
    obtain ⟨header, hheader, hlen, hopen⟩ := seal2022Identity_ok C hlive hsalt
    have hdec := (decodeAddress_encodeAddress ha).2
    simp only [hc, hheader, bind, Except.bind, pure, Except.pure, StreamCipher.seal] at h
    refine framed_of_take C c.next.next fun r p hp => ?_
    have hvar : (a ++ beBytes 2 padding.length ++ padding ++ payload).length =
        a.length + 2 + padding.length + payload.length := by simp; omega
    rw [openTCPServerSession_live C hlive, if_pos hm, open2022TCP_own C hsalt hc hlen hopen hstamp
      (ne_nil_of_length_pos (by omega)) (by omega)
      (parse2022Variable_own hdec hlimit.1 hsize.2) rfl (Except.ok.inj h).symm r hp]
    rw [serverSession, hm]

/-- Every sealed TCP request is framed for the engine that sealed it: its target
is the sealed one in canonical spelling, its payload and salt are the sealed
ones. -/
theorem sealTCPRequest_framed (h : e.sealTCPRequest C salt target payload sent padding = .ok w)
    (hstamp : e.modern = true → timestampValid (unixStamp sent) now = true) :
    e.Framed C w now { target := canonicalTarget target, payload, replayToken := salt } := by
  obtain ⟨keys, hkeys, h⟩ := bind_eq_ok.mp h
  obtain ⟨hlive, rfl⟩ := keysSnapshot_eq hkeys
  dsimp only at h
  split_ifs at h with hsalt hm hpad
  · exact seal2022TCP_framed C hlive hm (by simpa using hsalt) h (hstamp hm)
  · exact sealLegacyTCP_framed C hlive (by simpa using hm) (by simpa using hsalt) h now

/-- A wire is not empty: no engine accepts the empty connection. -/
theorem Framed.length_pos (hlive : e.Live) (h : e.Framed C w now request) : 0 < w.length := by
  refine length_pos_iff.mpr ?_
  rintro rfl
  obtain ⟨inbound, hwhole⟩ := h.whole
  have hnil := hwhole []
  cases hm : e.modern with
  | false =>
    rw [openTCPServerSession_live C hlive, if_neg (by simp [hm]), openLegacyTCP] at hnil
    cases hnil
  | true =>
    simp [openTCPServerSession_live C hlive, if_pos hm, open2022TCP] at hnil

/-! ## What an engine accepts -/

theorem parse2022Variable_target {variablePart : Bytes}
    (h : parse2022Variable variablePart = .ok (target, payload)) :
    ∃ body consumed, decodeAddress body = .ok (target, consumed) := by
  revert h
  fun_cases parse2022Variable variablePart with
  | case5 =>
    rintro ⟨⟩
    exact ⟨_, _, ‹_›⟩
  | _ => nofun

/-- The target of an accepted request was decoded from the wire. -/
theorem openTCPServerSession_target {wire : Bytes} {session : TCPServerSession}
    (h : e.openTCPServerSession C wire now = .ok (request, session)) :
    ∃ body consumed, decodeAddress body = .ok (request.target, consumed) := by
  obtain ⟨keys, hkeys, -⟩ := bind_eq_ok.mp h
  obtain ⟨hlive, -⟩ := keysSnapshot_eq hkeys
  cases hm : e.modern with
  | false =>
    rw [openTCPServerSession_live C hlive, if_neg (by simp [hm]), openLegacyTCP] at h
    split_ifs at h
    obtain ⟨c, -, h⟩ := bind_eq_ok.mp h
    obtain ⟨⟨lengthPlain, c⟩, -, h⟩ := bind_eq_ok.mp h
    simp only at h
    split_ifs at h
    all_goals
      obtain ⟨⟨body, c⟩, -, h⟩ := bind_eq_ok.mp h
      obtain ⟨⟨target, consumed⟩, hdecoded, h⟩ := bind_eq_ok.mp h
      cases h
      exact ⟨_, _, hdecoded⟩
  | true =>
    rw [openTCPServerSession_live C hlive, if_pos hm, open2022TCP] at h
    split_ifs at h
    obtain ⟨-, -, h⟩ := bind_eq_ok.mp h
    obtain ⟨c, -, h⟩ := bind_eq_ok.mp h
    obtain ⟨⟨fixed, c⟩, -, h⟩ := bind_eq_ok.mp h
    simp only at h
    split_ifs at h
    all_goals
      obtain ⟨⟨body, c⟩, -, h⟩ := bind_eq_ok.mp h
      obtain ⟨⟨target, payload⟩, hparsed, h⟩ := bind_eq_ok.mp h
      cases h
      exact parse2022Variable_target hparsed

/-! ## An engine on a wire of another engine -/

/-- The fewest bytes on which an engine tries its key. -/
def minimumOpen : Nat :=
  if e.modern then e.keyLen + ss2022IdentityOverhead e.identity + 27 + 16 else e.keyLen + 2 + 32

/-- The bytes of a connection that an engine takes for its first record. -/
def firstRecord (stream : Bytes) : Bytes :=
  if e.modern then
    let start := e.keyLen + ss2022IdentityOverhead e.identity
    slice stream start (start + 27)
  else slice stream e.keyLen (e.keyLen + 18)

/-- The connection holds nothing that was sealed for the engine: the record at
the engine's place does not open under the session key that the engine derives
from the connection's first bytes. For an ideal AEAD, which opens only what was
sealed under the same key and nonce, this is what distinct keys give. -/
def Foreign (stream : Bytes) : Prop :=
  ∀ c, e.newSession C e.key (stream.take e.keyLen) = .ok c →
    C.gcmOpen c.key c.nonce (e.firstRecord stream) = none

instance (stream : Bytes) : Decidable (e.Foreign C stream) :=
  decidable_of_iff
    (∀ c ∈ (e.newSession C e.key (stream.take e.keyLen)).toOption,
      C.gcmOpen c.key c.nonce (e.firstRecord stream) = none) <| by
    refine forall_congr' fun c => imp_congr_left ?_
    cases e.newSession C e.key (stream.take e.keyLen) <;> simp [Except.toOption]

/-- The session of a foreign connection opens nothing. -/
theorem Foreign.fails (hlive : e.Live) {stream : Bytes} (h : e.Foreign C stream)
    (hk : e.keyLen ≤ p) (hp : p ≤ stream.length) :
    ((stream.take p).take e.keyLen).length = e.keyLen ∧
      ∃ c, e.newSession C e.key ((stream.take p).take e.keyLen) = .ok c ∧
        c.open C (e.firstRecord stream) = .error .authentication := by
  have hsalt : (stream.take e.keyLen).length = e.keyLen := by rw [length_take]; omega
  obtain ⟨c, hc⟩ := e.newSession_ok C hlive.key hsalt
  rw [take_take, Nat.min_eq_left hk]
  exact ⟨hsalt, c, hc, by rw [StreamCipher.open, h c hc]⟩

theorem check2022Identity_cases (hlive : e.Live) (hsalt : salt.length = e.keyLen) (wire : Bytes)
    (hwire : e.keyLen + ss2022IdentityOverhead e.identity ≤ wire.length) :
    e.check2022Identity C e.key e.identity salt wire = .error .authentication ∨
      e.check2022Identity C e.key e.identity salt wire = .ok () := by
  rw [check2022Identity]
  split_ifs with h0
  · rw [ss2022IdentityOverhead] at h0 hwire
    split_ifs at h0 hwire with hi
    · exact absurd rfl h0
    obtain ⟨header, hh, -⟩ := hlive.identityHeader C hi hsalt
    rw [open2022Identity, if_neg (by rw [length_slice hwire]; omega), hh]
    simp only [bind, Except.bind]
    split_ifs
    · exact .inl rfl
    · exact .inr rfl
  · exact .inr rfl

/-- On a foreign connection an engine asks for more bytes below `minimumOpen`
and fails to authenticate from there on. -/
theorem openTCPServerSession_foreign (hlive : e.Live) {stream : Bytes}
    (hforeign : e.Foreign C stream) (hp : p ≤ stream.length) (now : Int) :
    e.openTCPServerSession C (stream.take p) now =
      .error (if p < e.minimumOpen then .protocol else .authentication) := by
  have hlen : (stream.take p).length = p := by rw [length_take]; omega
  cases hm : e.modern with
  | false =>
    rw [openTCPServerSession_live C hlive, if_neg (by simp [hm]), openLegacyTCP, hlen, minimumOpen, hm]
    simp only [Bool.false_eq_true, if_false]
    split_ifs with hmin
    · rfl
    obtain ⟨-, c, hc, hfail⟩ := hforeign.fails C hlive (by omega) hp
    rw [firstRecord, hm] at hfail
    simp only [Bool.false_eq_true, if_false] at hfail
    simp only [hc, bind, Except.bind]
    rw [slice_take (by omega), hfail]
  | true =>
    rw [openTCPServerSession_live C hlive, if_pos hm, open2022TCP, minimumOpen]
    simp only [hlen]
    split_ifs with hmin
    · rfl
    obtain ⟨hsalt, c, hc, hfail⟩ := hforeign.fails C hlive (by omega) hp
    rw [firstRecord, hm] at hfail
    simp only [if_true] at hfail
    -- the identity header may or may not be the engine's own: the record decides
    rcases check2022Identity_cases C hlive hsalt (stream.take p) (by omega) with hid | hid
    · simp only [hid, bind, Except.bind]
    · simp only [hid, hc, bind, Except.bind]
      rw [slice_take (by omega), hfail]

end ProtocolEngine

/-! ## Values to evaluate -/

/-- A live `aes-128-gcm` engine with a key of one repeated byte. -/
def sampleEngine (b : UInt8) : ProtocolEngine where
  method := .aes128Gcm
  key := replicate 16 b
  identity := []
  dead := false

/-- A request of one sample engine, 59 bytes long. -/
def sampleWire : Bytes :=
  ((sampleEngine 1).sealTCPRequest Crypto.transparent (replicate 16 7)
    (ascii "1.2.3.4:80") (ascii "hi") 0 []).toOption.getD []

theorem sampleWire_sealed : (sampleEngine 1).sealTCPRequest Crypto.transparent
    (replicate 16 7) (ascii "1.2.3.4:80") (ascii "hi") 0 [] = .ok sampleWire := by
  rfl

end NrePlugins.Shadowsocks
