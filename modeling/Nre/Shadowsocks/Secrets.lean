import Nre.Base.Base64
import Nre.Shadowsocks.Configuration

/-!
# From secrets to engines

What the vault hands out for a secret reference is arbitrary bytes. For the 2022
methods `MapSS2022PSK` (sip002.go) turns them into a canonical key, and
`engineFromMaterial` (service.go) builds the engine of a user from the user's
material and the server key of the listener. Material of the form `server:user`
carries a server key of its own.

`psk` is the key that a mapped text stands for, and `engineFromMaterial_ok` says which
keys an engine gets.
-/

namespace NrePlugins.Shadowsocks

open List
open Base64

variable (C : Crypto)

/-! ## Methods by name -/

/-- `ProtocolEngine.Name`. -/
def Method.name : Method → Bytes
  | .aes128Gcm => ascii "aes-128-gcm"
  | .aes256Gcm => ascii "aes-256-gcm"
  | .blake3Aes128Gcm => ascii "2022-blake3-aes-128-gcm"
  | .blake3Aes256Gcm => ascii "2022-blake3-aes-256-gcm"

theorem supportedMethod_name (m : Method) : supportedMethod m.name = some m := by
  cases m <;> decide

variable {method : Bytes} {m : Method}

theorem supportedMethod_eq_some (h : supportedMethod method = some m) : method = m.name := by
  unfold supportedMethod at h
  split_ifs at h with h1 h2 h3 h4
  all_goals
    cases h
    assumption

theorem ss2022Method_name (m : Method) : ss2022Method m.name = m.modern := by
  cases m <;> decide

/-- The supported method whose key length `ss2022KeyLen` returns. -/
def ss2022KeyLen (method : Bytes) : Option Method :=
  if ss2022Method method then supportedMethod method else none

theorem ss2022KeyLen_name (h : m.modern = true) : ss2022KeyLen m.name = some m := by
  rw [ss2022KeyLen, ss2022Method_name, if_pos h, supportedMethod_name]

theorem modern_of_ss2022KeyLen (h : ss2022KeyLen method = some m) :
    method = m.name ∧ m.modern = true := by
  unfold ss2022KeyLen at h
  split_ifs at h with h2022
  have hname := supportedMethod_eq_some h
  refine ⟨hname, ?_⟩
  rw [← ss2022Method_name, ← hname]
  exact h2022

/-! ## Keys of the 2022 methods -/

/-- A canonical text of a key: strict Base64 of the key length that encodes back to
itself. -/
def canonicalPSK (m : Method) (encoded : Bytes) : Option Bytes :=
  match decodeStrict encoded with
  | none => none
  | some key => if key.length = m.keyLen ∧ encode key = encoded then some key else none

/-- `decodeSS2022PSK`, and `decodeCanonicalPSK`, which has the same body. -/
def decodeSS2022PSK (method encoded : Bytes) : Except Err Bytes :=
  match ss2022KeyLen method with
  | none => .error .unsupportedMethod
  | some m =>
    match canonicalPSK m encoded with
    | none => .error .invalid
    | some key => .ok key

/-- The key that `MapSS2022PSK` encodes: a canonical text stands for its own key, any
other input for the head of its digest. -/
def psk (m : Method) (input : Bytes) : Bytes :=
  (canonicalPSK m input).getD ((C.sha256 input).take m.keyLen)

/-- `MapSS2022PSK`. -/
def mapSS2022PSK (method input : Bytes) : Except Err Bytes :=
  match ss2022KeyLen method with
  | none => .error .unsupportedMethod
  | some m =>
    if (canonicalPSK m input).isSome then .ok input
    else .ok (encode ((C.sha256 input).take m.keyLen))

variable {key : Bytes} {e : ProtocolEngine}

theorem canonicalPSK_eq_some {encoded : Bytes} (h : canonicalPSK m encoded = some key) :
    key.length = m.keyLen ∧ encode key = encoded := by
  unfold canonicalPSK at h
  split at h
  · cases h
  · split_ifs at h with hkey
    cases h
    exact hkey

theorem canonicalPSK_encode (h : key.length = m.keyLen) :
    canonicalPSK m (encode key) = some key := by
  rw [canonicalPSK, decodeStrict_encode]
  exact if_pos ⟨h, rfl⟩

theorem length_psk (m : Method) (input : Bytes) : (psk C m input).length = m.keyLen := by
  unfold psk
  cases h : canonicalPSK m input with
  | some key => exact (canonicalPSK_eq_some h).1
  | none =>
    rw [Option.getD_none, length_take, C.length_sha256]
    rcases m.keyLen_cases with hlen | hlen <;> omega

theorem psk_encode (h : key.length = m.keyLen) : psk C m (encode key) = key := by
  rw [psk, canonicalPSK_encode h, Option.getD_some]

theorem mapSS2022PSK_eq (hm : ss2022KeyLen method = some m) (input : Bytes) :
    mapSS2022PSK C method input = .ok (encode (psk C m input)) := by
  rw [mapSS2022PSK, hm, psk]
  cases h : canonicalPSK m input with
  | some key => simp [h, (canonicalPSK_eq_some h).2]
  | none => simp [h]

theorem decodeSS2022PSK_encode (hm : ss2022KeyLen method = some m) (h : key.length = m.keyLen) :
    decodeSS2022PSK method (encode key) = .ok key := by
  rw [decodeSS2022PSK, hm]
  simp only [canonicalPSK_encode h]

theorem colon_not_mem_encode (s : Bytes) : ch ':' ∉ encode s :=
  not_mem_encode (by decide) (by decide) s

theorem psk_ne_nil (m : Method) (input : Bytes) : psk C m input ≠ [] := by
  intro h
  have hlen := length_psk C m input
  rw [h, length_nil] at hlen
  rcases m.keyLen_cases with hm | hm <;> omega

/-! ## Client passwords -/

/-- `splitSS2022ClientPassword`: the two sides of a single inner colon. -/
def splitSS2022ClientPassword (material : Bytes) : Option (Bytes × Bytes) :=
  match indexByte material (ch ':') with
  | none => none
  | some index =>
    if index = 0 ∨ material.length ≤ index + 1 ∨ ch ':' ∈ material.drop (index + 1) then none
    else some (material.take index, material.drop (index + 1))

/-- `SS2022ClientPassword`. -/
def ss2022ClientPassword (method serverPSK userPSK : Bytes) : Except Err Bytes := do
  let serverEnc ← mapSS2022PSK C method serverPSK
  let userEnc ← mapSS2022PSK C method userPSK
  let server ← decodeSS2022PSK method serverEnc
  let user ← decodeSS2022PSK method userEnc
  if server = user then .error .invalid else .ok (serverEnc ++ ch ':' :: userEnc)

theorem splitSS2022ClientPassword_join {server user : Bytes} (hs : server ≠ []) (hu : user ≠ [])
    (hcs : ch ':' ∉ server) (hcu : ch ':' ∉ user) :
    splitSS2022ClientPassword (server ++ ch ':' :: user) = some (server, user) := by
  have hs' : 0 < server.length := length_pos_iff.mpr hs
  have hu' : 0 < user.length := length_pos_iff.mpr hu
  have hdrop : (server ++ ch ':' :: user).drop (server.length + 1) = user := by simp
  rw [splitSS2022ClientPassword, indexByte_append hcs]
  simp only [hdrop, take_left]
  rw [if_neg]
  simp only [length_append, length_cons, hcu, or_false]
  omega

/-! ## Engines -/

/-- `newSS2022IdentityEngine`; the checks that `NewSS2022IdentityEngine` makes first are
those of `decodeSS2022PSK`. -/
def newSS2022IdentityEngine (method serverPSK userPSK : Bytes) : Except Err ProtocolEngine := do
  let identity ← decodeSS2022PSK method serverPSK
  let key ← decodeSS2022PSK method userPSK
  if identity = key then .error .invalid
  else match supportedMethod method with
    | none => .error .unsupportedMethod
    | some m => .ok { method := m, key, identity, dead := false }

/-- `NewProtocolEngine`. -/
def newProtocolEngine (method material : Bytes) : Except Err ProtocolEngine :=
  match supportedMethod method with
  | none => .error .unsupportedMethod
  | some m =>
    if material = [] then .error .unsupportedMethod
    else if !ss2022Method method then
      .ok { method := m, key := evpBytesToKey C material m.keyLen, identity := [], dead := false }
    else if ch ':' ∈ material then
      match splitSS2022ClientPassword material with
      | none => .error .invalid
      | some (serverPSK, userPSK) => newSS2022IdentityEngine method serverPSK userPSK
    else do
      let key ← decodeSS2022PSK method material
      .ok { method := m, key, identity := [], dead := false }

/-- `engineFromMaterial`. -/
def engineFromMaterial (method material serverPSK : Bytes) : Except Err ProtocolEngine :=
  if !ss2022Method method then newProtocolEngine C method material
  else match splitSS2022ClientPassword material with
    | some (serverPart, userPart) => do
      let mapped ← ss2022ClientPassword C method serverPart userPart
      newProtocolEngine C method mapped
    | none => do
      let userEnc ← mapSS2022PSK C method material
      if serverPSK = [] then newProtocolEngine C method userEnc
      else do
        let serverEnc ← mapSS2022PSK C method serverPSK
        newSS2022IdentityEngine method serverEnc userEnc

/-- The part of a user's material that is the user's own. -/
def userPart (material : Bytes) : Bytes :=
  match splitSS2022ClientPassword material with
  | some (_, user) => user
  | none => material

/-- The identity key of an engine built from a user's material and a server key. -/
def identityOf (m : Method) (material serverPSK : Bytes) : Bytes :=
  match splitSS2022ClientPassword material with
  | some (server, _) => psk C m server
  | none => if serverPSK = [] then [] else psk C m serverPSK

theorem newSS2022IdentityEngine_encode (hm : ss2022KeyLen method = some m) {server user : Bytes}
    (hs : server.length = m.keyLen) (hu : user.length = m.keyLen)
    (h : newSS2022IdentityEngine method (encode server) (encode user) = .ok e) :
    e = { method := m, key := user, identity := server, dead := false } := by
  have hname := (modern_of_ss2022KeyLen hm).1
  unfold newSS2022IdentityEngine at h
  rw [decodeSS2022PSK_encode hm hs, decodeSS2022PSK_encode hm hu, hname, supportedMethod_name] at h
  obtain ⟨-, h⟩ := ite_error_eq_ok.mp h
  exact (Except.ok.inj h).symm

/-- What `engineFromMaterial` builds for a 2022 method. -/
theorem engineFromMaterial_ok (hm : ss2022KeyLen method = some m) {material serverPSK : Bytes}
    (h : engineFromMaterial C method material serverPSK = .ok e) :
    e = { method := m, key := psk C m (userPart material)
          identity := identityOf C m material serverPSK, dead := false } := by
  obtain ⟨hname, hmodern⟩ := modern_of_ss2022KeyLen hm
  have h2022 : ss2022Method method = true := by rw [hname, ss2022Method_name, hmodern]
  have hsupported : supportedMethod method = some m := by rw [hname, supportedMethod_name]
  unfold engineFromMaterial at h
  unfold userPart identityOf
  simp only [h2022, Bool.not_true, Bool.false_eq_true, if_false] at h
  cases hsplit : splitSS2022ClientPassword material with
  | some parts =>
    obtain ⟨serverPart, user⟩ := parts
    simp only [hsplit] at h ⊢
    obtain ⟨mapped, hmapped, h⟩ := bind_eq_ok.mp h
    -- the two sides are mapped, joined, and split again by `newProtocolEngine`
    unfold ss2022ClientPassword at hmapped
    rw [mapSS2022PSK_eq C hm, mapSS2022PSK_eq C hm] at hmapped
    simp only [bind, Except.bind, decodeSS2022PSK_encode hm (length_psk C m _)] at hmapped
    obtain ⟨-, hmapped⟩ := ite_error_eq_ok.mp hmapped
    cases hmapped
    have hjoin := splitSS2022ClientPassword_join
      (encode_ne_nil (psk_ne_nil C m serverPart)) (encode_ne_nil (psk_ne_nil C m user))
      (colon_not_mem_encode _) (colon_not_mem_encode _)
    unfold newProtocolEngine at h
    simp only [hsupported, h2022, hjoin] at h
    simp only [append_eq_nil_iff, cons_ne_nil, and_false, if_false, Bool.not_true,
      Bool.false_eq_true, mem_append, mem_cons, true_or, or_true, if_true] at h
    exact newSS2022IdentityEngine_encode hm (length_psk C m _) (length_psk C m _) h
  | none =>
    simp only [hsplit] at h ⊢
    rw [mapSS2022PSK_eq C hm] at h
    by_cases hserver : serverPSK = []
    · simp only [bind, Except.bind, hserver, if_true] at h ⊢
      unfold newProtocolEngine at h
      simp only [hsupported, h2022, encode_ne_nil (psk_ne_nil C m material),
        colon_not_mem_encode, if_false, Bool.not_true, Bool.false_eq_true,
        decodeSS2022PSK_encode hm (length_psk C m _), bind, Except.bind] at h
      exact (Except.ok.inj h).symm
    · simp only [bind, Except.bind, hserver, if_false, mapSS2022PSK_eq C hm] at h ⊢
      exact newSS2022IdentityEngine_encode hm (length_psk C m _) (length_psk C m _) h

/-- An engine for a 2022 method is only built if the method is supported. -/
theorem engineFromMaterial_ss2022 (h2022 : ss2022Method method = true)
    {material serverPSK : Bytes} (h : engineFromMaterial C method material serverPSK = .ok e) :
    method = e.method.name ∧ e.key = psk C e.method (userPart material) ∧
      e.identity = identityOf C e.method material serverPSK := by
  cases hm : ss2022KeyLen method with
  | some m =>
    obtain rfl := engineFromMaterial_ok C hm h
    exact ⟨(modern_of_ss2022KeyLen hm).1, rfl, rfl⟩
  | none =>
    -- every branch maps a key first, which fails
    have hmap : ∀ input, mapSS2022PSK C method input = .error .unsupportedMethod := by
      intro input
      rw [mapSS2022PSK, hm]
    unfold engineFromMaterial ss2022ClientPassword at h
    simp only [h2022, hmap, bind, Except.bind, Bool.not_true, Bool.false_eq_true, if_false] at h
    split at h <;> cases h

end NrePlugins.Shadowsocks
