import Nre.Base.Bytes

/-!
# Keys and stream ciphers

The cryptographic layer of `protocol.go`: BLAKE3 in the one-block form the
source implements itself, the HKDF and `EVP_BytesToKey` loops, and the
`streamCipher` that seals and opens records under a counting nonce.

What the source takes from Go's standard library (MD5, SHA-256, HMAC-SHA1, AES and GCM)
is a parameter, the structure `Crypto`. Its fields are the functions and the
only facts about them that the protocol relies on: digest and tag lengths, and
that opening inverts sealing.
-/

namespace NrePlugins.Shadowsocks

/-! ## Errors -/

/-- The sentinel errors of the package. A failure of the connection itself
(`io.EOF`, a deadline) is `connection`, any other error of the host is `host`. -/
inductive Err where
  | unsupportedMethod
  | authentication
  | protocol
  | replay
  | revoked
  | invalid
  | sniffLimit
  | connection
  | denied
  | typedHandlesUnavailable
  | agentOffline
  | listenBind
  | portConflict
  | executionUnavailable
  | traditionalMultiUser
  | routeUpstreamUnavailable
  | host
  deriving DecidableEq

/-! ## BLAKE3 -/

def blake3ChunkStart : UInt32 := 1
def blake3ChunkEnd : UInt32 := 2
def blake3Root : UInt32 := 8
def blake3DeriveContext : UInt32 := 32
def blake3DeriveMaterial : UInt32 := 64

def blake3IV : Vector UInt32 8 :=
  #v[0x6a09e667, 0xbb67ae85, 0x3c6ef372, 0xa54ff53a, 0x510e527f, 0x9b05688c, 0x1f83d9ab, 0x5be0cd19]

def blake3Permutation : Vector (Fin 16) 16 :=
  #v[2, 6, 3, 10, 7, 0, 4, 13, 1, 11, 12, 5, 9, 14, 15, 8]

def rotateRight (value count : UInt32) : UInt32 := value >>> count ||| value <<< (32 - count)

/-- `blake3G`: the quarter round on the words `a`, `b`, `c`, `d`. -/
def blake3G (state : Vector UInt32 16) (a b c d : Fin 16) (mx my : UInt32) : Vector UInt32 16 :=
  let state := state.set a (state[a] + state[b] + mx)
  let state := state.set d (rotateRight (state[d] ^^^ state[a]) 16)
  let state := state.set c (state[c] + state[d])
  let state := state.set b (rotateRight (state[b] ^^^ state[c]) 12)
  let state := state.set a (state[a] + state[b] + my)
  let state := state.set d (rotateRight (state[d] ^^^ state[a]) 8)
  let state := state.set c (state[c] + state[d])
  state.set b (rotateRight (state[b] ^^^ state[c]) 7)

/-- One round of `blake3Compress`: columns, diagonals, then the permutation of
the message words. -/
def blake3Round (p : Vector UInt32 16 × Vector UInt32 16) : Vector UInt32 16 × Vector UInt32 16 :=
  let (state, message) := p
  let state := blake3G state 0 4 8 12 message[0] message[1]
  let state := blake3G state 1 5 9 13 message[2] message[3]
  let state := blake3G state 2 6 10 14 message[4] message[5]
  let state := blake3G state 3 7 11 15 message[6] message[7]
  let state := blake3G state 0 5 10 15 message[8] message[9]
  let state := blake3G state 1 6 11 12 message[10] message[11]
  let state := blake3G state 2 7 8 13 message[12] message[13]
  let state := blake3G state 3 4 9 14 message[14] message[15]
  (state, Vector.ofFn fun i => message[blake3Permutation[i]])

def blake3Compress (cv : Vector UInt32 8) (block : Vector UInt32 16) (blockLen flags : UInt32) :
    Vector UInt32 16 :=
  let state : Vector UInt32 16 :=
    (cv ++ #v[blake3IV[0], blake3IV[1], blake3IV[2], blake3IV[3], 0, 0, blockLen, flags] :)
  let state := (Nat.repeat blake3Round 7 (state, block)).1
  (Vector.ofFn fun i : Fin 8 => state[i] ^^^ state[i.val + 8]) ++
    (Vector.ofFn fun i : Fin 8 => state[i.val + 8] ^^^ cv[i])

/-- `binary.LittleEndian.Uint32` at byte `4 * i`. -/
def leWord (b : Bytes) (i : Nat) : UInt32 :=
  (b.getD (4 * i) 0).toUInt32 ||| (b.getD (4 * i + 1) 0).toUInt32 <<< 8 |||
    (b.getD (4 * i + 2) 0).toUInt32 <<< 16 ||| (b.getD (4 * i + 3) 0).toUInt32 <<< 24

/-- `binary.LittleEndian.PutUint32`. -/
def leBytes (w : UInt32) : Bytes :=
  [w.toUInt8, (w >>> 8).toUInt8, (w >>> 16).toUInt8, (w >>> 24).toUInt8]

def blake3OneBlock (cv : Vector UInt32 8) (input : Bytes) (mode : UInt32) : Bytes :=
  let padded := (input ++ List.replicate 64 0).take 64
  let words := blake3Compress cv (Vector.ofFn fun i => leWord padded i) (UInt32.ofNat input.length)
    (mode ||| blake3ChunkStart ||| blake3ChunkEnd ||| blake3Root)
  (words.toList.take 8).flatMap leBytes

def blake3DeriveKey (context material : Bytes) : Except Err Bytes :=
  if context.length > 64 ∨ material.length > 64 then .error .protocol
  else
    let contextKey := blake3OneBlock blake3IV context blake3DeriveContext
    .ok (blake3OneBlock (Vector.ofFn fun i => leWord contextKey i) material blake3DeriveMaterial)

def blake3OneBlockDigest (input : Bytes) : Except Err Bytes :=
  if input.length > 64 then .error .protocol else .ok (blake3OneBlock blake3IV input 0)

theorem length_blake3OneBlock (cv : Vector UInt32 8) (input : Bytes) (mode : UInt32) :
    (blake3OneBlock cv input mode).length = 32 := by
  have hflat : ∀ l : List UInt32, (l.flatMap leBytes).length = 4 * l.length := by
    intro l
    induction l with
    | nil => rfl
    | cons w l ih =>
      rw [List.flatMap_cons, List.length_append, List.length_cons]
      have : (leBytes w).length = 4 := rfl
      omega
  rw [blake3OneBlock, hflat, List.length_take, Vector.length_toList]
  rfl

/-- Deriving a key succeeds on the short inputs of the protocol. -/
theorem blake3DeriveKey_ok (context material : Bytes) (hc : context.length ≤ 64)
    (hm : material.length ≤ 64) :
    ∃ derived, blake3DeriveKey context material = .ok derived ∧ derived.length = 32 := by
  refine ⟨_, by rw [blake3DeriveKey, if_neg (by omega)], ?_⟩
  exact length_blake3OneBlock ..

/-! ## The primitives of the standard library -/

/-- The functions of Go's `crypto` packages that the engine calls, with what it
relies on: the lengths of digests, blocks and tags, and that `Open` inverts
`Seal` under one key and nonce. -/
structure Crypto where
  /-- `md5.Sum`. -/
  md5 : Bytes → Bytes
  /-- `sha256.Sum256`. -/
  sha256 : Bytes → Bytes
  /-- HMAC-SHA1 of a message under a key. -/
  hmacSHA1 : Bytes → Bytes → Bytes
  /-- One AES block under a key. -/
  aesEncrypt : Bytes → Bytes → Bytes
  /-- AES-GCM `Seal` of a plaintext under a key and nonce. -/
  gcmSeal : Bytes → Bytes → Bytes → Bytes
  /-- AES-GCM `Open` of a ciphertext under a key and nonce. -/
  gcmOpen : Bytes → Bytes → Bytes → Option Bytes
  length_sha256 : ∀ m, (sha256 m).length = 32
  length_hmacSHA1 : ∀ k m, (hmacSHA1 k m).length = 20
  length_aesEncrypt : ∀ k b, (aesEncrypt k b).length = 16
  length_gcmSeal : ∀ k n p, (gcmSeal k n p).length = p.length + 16
  gcmOpen_gcmSeal : ∀ k n p, gcmOpen k n (gcmSeal k n p) = some p
  length_gcmOpen : ∀ {k n c p}, gcmOpen k n c = some p → c.length = p.length + 16

variable (C : Crypto) (s : StreamCipher)

/-- The loop of `evpBytesToKey`; every turn adds one digest. -/
def evpLoop (password : Bytes) (keyLen : Nat) : Nat → Bytes → Bytes → Bytes
  | 0, _, key => key
  | fuel + 1, previous, key =>
    if key.length < keyLen then
      let previous := C.md5 (previous ++ password)
      evpLoop password keyLen fuel previous (key ++ previous)
    else key

def evpBytesToKey (password : Bytes) (keyLen : Nat) : Bytes :=
  (evpLoop C password keyLen keyLen [] []).take keyLen

/-- The expansion loop of `hkdfSHA1`. -/
def hkdfLoop (prk info : Bytes) (length : Nat) : Nat → UInt8 → Bytes → Bytes → Bytes
  | 0, _, _, result => result
  | fuel + 1, counter, previous, result =>
    if result.length < length then
      let previous := C.hmacSHA1 prk (previous ++ info ++ [counter])
      hkdfLoop prk info length fuel (counter + 1) previous (result ++ previous)
    else result

def hkdfSHA1 (key salt info : Bytes) (length : Nat) : Bytes :=
  let prk := C.hmacSHA1 salt key
  (hkdfLoop C prk info length length 1 [] []).take length

theorem le_length_hkdfLoop (prk info : Bytes) (length fuel : Nat) (counter : UInt8)
    (previous result : Bytes) (h : length ≤ result.length + fuel) :
    length ≤ (hkdfLoop C prk info length fuel counter previous result).length := by
  induction fuel generalizing counter previous result with
  | zero => simpa [hkdfLoop] using h
  | succ fuel ih =>
    rw [hkdfLoop]
    split_ifs with hlt
    · apply ih
      rw [List.length_append, C.length_hmacSHA1]
      omega
    · omega

theorem length_hkdfSHA1 (key salt info : Bytes) (length : Nat) :
    (hkdfSHA1 C key salt info length).length = length := by
  rw [hkdfSHA1, List.length_take, Nat.min_eq_left]
  exact le_length_hkdfLoop C _ _ _ _ _ _ _ (by simp)

/-! ## Stream ciphers -/

/-- `streamCipher`: an AEAD key and the nonce of the next record. -/
structure StreamCipher where
  key : Bytes
  nonce : Bytes
  deriving DecidableEq

/-- `incrementNonce`: a little-endian counter. -/
def incrementNonce : Bytes → Bytes
  | [] => []
  | b :: rest => if b + 1 ≠ 0 then (b + 1) :: rest else 0 :: incrementNonce rest

def StreamCipher.next : StreamCipher :=
  { s with nonce := incrementNonce s.nonce }

/-- `streamCipher.seal`: the record and the cipher after it. -/
def StreamCipher.seal (plaintext : Bytes) : Bytes × StreamCipher :=
  (C.gcmSeal s.key s.nonce plaintext, s.next)

/-- `streamCipher.open`: the nonce advances only when the record opens. -/
def StreamCipher.open (ciphertext : Bytes) : Except Err (Bytes × StreamCipher) :=
  match C.gcmOpen s.key s.nonce ciphertext with
  | some plaintext => .ok (plaintext, s.next)
  | none => .error .authentication

@[simp] theorem StreamCipher.open_seal (plaintext : Bytes) :
    s.open C (s.seal C plaintext).1 = .ok (plaintext, s.next) := by
  rw [StreamCipher.open, StreamCipher.seal, C.gcmOpen_gcmSeal]

@[simp] theorem StreamCipher.length_seal (plaintext : Bytes) :
    (s.seal C plaintext).1.length = plaintext.length + 16 :=
  C.length_gcmSeal ..

/-- A record that opens is its plaintext and a tag long. -/
theorem StreamCipher.length_open {s s' : StreamCipher} {ciphertext plaintext : Bytes}
    (h : s.open C ciphertext = .ok (plaintext, s')) :
    ciphertext.length = plaintext.length + 16 := by
  rw [StreamCipher.open] at h
  split at h
  · rename_i p hp
    cases h
    exact C.length_gcmOpen hp
  · cases h

/-! ## An instance to evaluate -/

/-- The tag of the transparent instance: the key and the nonce, folded into
sixteen bytes. -/
def transparentTag (key nonce : Bytes) : Bytes :=
  List.zipWith (· ^^^ ·) ((key ++ List.replicate 16 0).take 16)
    ((nonce ++ List.replicate 16 0).take 16)

theorem length_transparentTag (key nonce : Bytes) : (transparentTag key nonce).length = 16 := by
  simp [transparentTag]

/-- Primitives that can be evaluated: digests keep the head of their input, and a
sealed record is the plaintext with a tag that names its key and nonce. -/
def Crypto.transparent : Crypto where
  md5 m := (m ++ List.replicate 16 0).take 16
  sha256 m := (m ++ List.replicate 32 0).take 32
  hmacSHA1 k m := (m ++ k ++ List.replicate 20 0).take 20
  aesEncrypt k b := (b ++ k ++ List.replicate 16 0).take 16
  gcmSeal k n p := p ++ transparentTag k n
  gcmOpen k n c :=
    if 16 ≤ c.length ∧ c.drop (c.length - 16) = transparentTag k n then
      some (c.take (c.length - 16))
    else none
  length_sha256 m := by simp
  length_hmacSHA1 k m := by simp; omega
  length_aesEncrypt k b := by simp; omega
  length_gcmSeal k n p := by rw [List.length_append, length_transparentTag]
  gcmOpen_gcmSeal k n p := by
    have hlen : (p ++ transparentTag k n).length - 16 = p.length := by
      rw [List.length_append, length_transparentTag, Nat.add_sub_cancel]
    rw [hlen, List.drop_left, List.take_left, if_pos]
    exact ⟨by rw [List.length_append, length_transparentTag]; omega, rfl⟩
  length_gcmOpen {k n c p} h := by
    split_ifs at h with hc
    cases h
    rw [List.length_take]
    omega

end NrePlugins.Shadowsocks
