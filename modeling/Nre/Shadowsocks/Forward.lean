import Nre.Shadowsocks.Engine

/-!
# Forwarding a request to an upstream

What `handleTCP` does with an accepted request when the route names an upstream:
`sniffTargetDomain` may extend the payload of a request to an IP address, and
`wrapUpstreamTCP` seals target and payload anew with the upstream's engine.

Accepting and sealing have different rules. A request can be accepted with an
empty payload, with a payload of up to 64 KiB, and with a domain field that is no
host name at all; sealing needs the address to encode, the records to fit, and
for a 2022 upstream (no padding is passed) some payload.
`wrapUpstreamTCP_iff_fits` states exactly when the two agree.
-/

namespace NrePlugins.Shadowsocks

open List
open ProtocolEngine

variable (C : Crypto) (sniff : Bytes → Bytes × Bool)

/-! ## Sniffing -/

/-- `16 << 10`. -/
def maxSniffBytes : Nat := 16384

/-- The largest chunk of a session. -/
def TCPServerSession.maximum (session : TCPServerSession) : Nat :=
  if session.modern then max2022Payload else maxLegacyPayload

/-- What `transactionalSniffChunk` leaves behind: the payload or its error, the
ciphertext to replay, what is left to read, and the session. -/
structure SniffChunk where
  payload : Except Err Bytes
  replayed : Bytes
  stream : Bytes
  session : TCPServerSession

/-- `transactionalSniffChunk` on the bytes that arrive before the deadline. The
session's nonce moves only when a whole chunk opened. -/
def transactionalSniffChunk (session : TCPServerSession) (remaining : Nat) (stream : Bytes) :
    SniffChunk :=
  match session.inbound with
  | none => ⟨.error .revoked, [], stream, session⟩
  | some trial =>
    if remaining < 1 ∨ session.closed then ⟨.error .revoked, [], stream, session⟩
    -- `io.ReadFull` fails with whatever did arrive
    else if stream.length < 18 then ⟨.error .connection, stream, [], session⟩
    else
      let header := stream.take 18
      let rest := stream.drop 18
      match trial.open C header with
      | .error _ => ⟨.error .authentication, header, rest, session⟩
      | .ok (plain, trial) =>
        let length := readBE plain
        if plain.length ≠ 2 then ⟨.error .authentication, header, rest, session⟩
        else if length < 1 ∨ length > session.maximum then ⟨.error .protocol, header, rest, session⟩
        else if length > remaining then ⟨.error .sniffLimit, header, rest, session⟩
        else if rest.length < length + 16 then ⟨.error .connection, header ++ rest, [], session⟩
        else
          let body := rest.take (length + 16)
          let rest := rest.drop (length + 16)
          match trial.open C body with
          | .error _ => ⟨.error .authentication, header ++ body, rest, session⟩
          | .ok (payload, trial) =>
            ⟨.ok payload, [], rest, { session with inbound := some trial }⟩

/-- A chunk that opens is not empty and fits what remains. -/
theorem transactionalSniffChunk_payload {session : TCPServerSession} {remaining : Nat}
    {stream payload : Bytes}
    (h : (transactionalSniffChunk C session remaining stream).payload = .ok payload) :
    0 < payload.length ∧ payload.length ≤ remaining := by
  revert h
  fun_cases transactionalSniffChunk C session remaining stream with
  | case10 _ _ _ _ _ _ _ _ _ _ _ _ _ _ _ _ _ _ hopen =>
    rintro ⟨⟩
    have hlen := StreamCipher.length_open C hopen
    rw [length_take] at hlen
    omega
  | _ => nofun

/-- What `sniffTargetDomain` leaves: its results, what is left to read before the deadline, and
the session. -/
structure Sniffed where
  domain : Bytes
  buffer : Bytes
  stream : Bytes
  session : TCPServerSession

/-- The loop of `sniffTargetDomain`: `sniff` is `sniffTCPDomain`, the domain it
found and whether it is done. Every turn adds a byte, so `maxSniffBytes` turns
are enough (`sniffLoop_stable`). -/
def sniffLoop : Nat → Bytes → Bytes → TCPServerSession → Sniffed
  | 0, buffer, stream, session => ⟨[], buffer, stream, session⟩
  | turns + 1, buffer, stream, session =>
    if (sniff buffer).2 then ⟨(sniff buffer).1, buffer, stream, session⟩
    else if buffer.length ≥ maxSniffBytes then ⟨[], buffer, stream, session⟩
    else
      let chunk := transactionalSniffChunk C session (maxSniffBytes - buffer.length) stream
      match chunk.payload with
      | .error _ => ⟨[], buffer, chunk.replayed ++ chunk.stream, chunk.session⟩
      | .ok payload =>
        sniffLoop turns (buffer ++ payload) (chunk.replayed ++ chunk.stream) chunk.session

def sniffTargetDomain (session : TCPServerSession) (stream initial : Bytes) : Sniffed :=
  if initial.length > maxSniffBytes then ⟨[], initial, stream, session⟩
  else sniffLoop C sniff (maxSniffBytes + 1) initial stream session

/-- More turns change nothing. -/
theorem sniffLoop_stable {turns : Nat} {buffer stream : Bytes} {session : TCPServerSession}
    (h : maxSniffBytes ≤ turns + buffer.length) :
    sniffLoop C sniff (turns + 2) buffer stream session =
      sniffLoop C sniff (turns + 1) buffer stream session := by
  induction turns generalizing buffer stream session with
  | zero =>
    have hfull : buffer.length ≥ maxSniffBytes := by omega
    rw [sniffLoop, sniffLoop, if_pos hfull, if_pos hfull]
  | succ turns ih =>
    rw [sniffLoop, sniffLoop]
    cases hchunk :
      (transactionalSniffChunk C session (maxSniffBytes - buffer.length) stream).payload with
    | error err => simp only [hchunk]
    | ok payload =>
      obtain ⟨hpositive, -⟩ := transactionalSniffChunk_payload C hchunk
      simp only [hchunk]
      rw [ih (by rw [length_append]; omega)]

theorem sniffLoop_payload (turns : Nat) {buffer : Bytes} (stream : Bytes)
    (session : TCPServerSession) (hbuffer : buffer.length ≤ maxSniffBytes) :
    ∃ more, (sniffLoop C sniff turns buffer stream session).buffer = buffer ++ more ∧
      (buffer ++ more).length ≤ maxSniffBytes := by
  fun_induction sniffLoop C sniff turns buffer stream session with
  | case5 _ buffer _ _ _ _ chunk payload hpayload ih =>
    obtain ⟨-, hle⟩ := transactionalSniffChunk_payload C hpayload
    have hroom : (buffer ++ payload).length ≤ maxSniffBytes := by
      rw [length_append]
      omega
    obtain ⟨more, hmore, hlen⟩ := ih hroom
    exact ⟨payload ++ more, by rw [hmore, append_assoc], by rwa [← append_assoc]⟩
  | _ => exact ⟨[], (append_nil _).symm, by simpa using hbuffer⟩

/-- Sniffing only appends to a payload, and what it has extended stays within
`maxSniffBytes`. -/
theorem sniffTargetDomain_payload (session : TCPServerSession) (stream initial : Bytes) :
    ∃ more, (sniffTargetDomain C sniff session stream initial).buffer = initial ++ more ∧
      (more ≠ [] → (initial ++ more).length ≤ maxSniffBytes) := by
  rw [sniffTargetDomain]
  split_ifs with hlong
  · exact ⟨[], by simp, fun h => absurd rfl h⟩
  · obtain ⟨more, hmore, hlen⟩ :=
      sniffLoop_payload C sniff (maxSniffBytes + 1) stream session (Nat.le_of_not_lt hlong)
    exact ⟨more, hmore, fun _ => hlen⟩

/-- The payload `handleTCP` goes on with: a request to an IP address is sniffed,
with what arrives on the connection meanwhile. -/
def sniffedPayload (session : TCPServerSession) (stream : Bytes) (request : ProxyRequest) : Bytes :=
  match splitHostPort request.target with
  | none => request.payload
  | some (host, _) =>
    match parseAddr (trimBrackets host) with
    | none => request.payload
    | some _ => (sniffTargetDomain C sniff session stream request.payload).buffer

theorem sniffedPayload_extends (session : TCPServerSession) (stream : Bytes)
    (request : ProxyRequest) :
    ∃ more, sniffedPayload C sniff session stream request = request.payload ++ more ∧
      (more ≠ [] → (request.payload ++ more).length ≤ maxSniffBytes) := by
  have hstay : ∃ more, request.payload = request.payload ++ more ∧
      (more ≠ [] → (request.payload ++ more).length ≤ maxSniffBytes) :=
    ⟨[], by simp, fun h => absurd rfl h⟩
  rw [sniffedPayload]
  split
  · exact hstay
  · split
    · exact hstay
    · exact sniffTargetDomain_payload C sniff session stream request.payload

/-! ## Sealing for the upstream -/

/-- `TCPClientSession`, without its mutex. -/
structure TCPClientSession where
  engine : ProtocolEngine
  key : Bytes
  requestSalt : Bytes
  outbound : Option StreamCipher
  inbound : Option StreamCipher := none
  modern : Bool
  started : Bool := false
  closed : Bool := false

/-- `newTCPClientSession`: the initial request has used two nonces. -/
def newTCPClientSession (engine : ProtocolEngine) (requestSalt : Bytes) :
    Except Err TCPClientSession :=
  match engine.keysSnapshot with
  | .error _ => .error .protocol
  | .ok (key, _) =>
    if requestSalt.length ≠ engine.keyLen then .error .protocol
    else do
      let outbound ← engine.newSession C key requestSalt
      return { engine, key, requestSalt, outbound := some outbound.next.next,
               modern := engine.modern }

/-- `wrapUpstreamTCP` with the upstream's engine, the salt it drew and the time:
the wire it writes and the session it keeps. -/
def wrapUpstreamTCP (engine : ProtocolEngine) (salt : Bytes) (now : Int)
    (request : ProxyRequest) : Except Err (Bytes × TCPClientSession) := do
  let wire ← engine.sealTCPRequest C salt request.target request.payload now []
  let session ← newTCPClientSession C engine salt
  return (wire, session)

/-- The records of a request fit the engine's format, given the length of its
encoded address. A 2022 engine also needs a payload, since no padding is sent. -/
def Fits (engine : ProtocolEngine) (address : Nat) (payload : Bytes) : Prop :=
  if engine.modern then payload ≠ [] ∧ address + 2 + payload.length ≤ max2022Payload
  else address + payload.length ≤ maxLegacyPayload

instance (engine : ProtocolEngine) (address : Nat) (payload : Bytes) :
    Decidable (Fits engine address payload) := by
  unfold Fits
  infer_instance

variable {engine : ProtocolEngine} {salt : Bytes}

section

variable (hlive : engine.Live) (hsalt : salt.length = engine.keyLen)

include hlive hsalt

/-- Sealing without padding succeeds exactly when the address encodes and the
records fit. -/
theorem sealTCPRequest_ok_iff (target payload : Bytes) (now : Int) :
    (∃ wire, engine.sealTCPRequest C salt target payload now [] = .ok wire) ↔
      ∃ a, encodeAddress target = .ok a ∧ Fits engine a.length payload := by
  obtain ⟨c, hc⟩ := engine.newSession_ok C hlive.key hsalt
  obtain ⟨header, hheader, -, -⟩ := seal2022Identity_ok C hlive hsalt
  rw [sealTCPRequest, hlive.keysSnapshot]
  simp only [bind, Except.bind, hsalt, ne_eq, not_true_eq_false, if_false, length_nil]
  cases hm : engine.modern with
  | false =>
    simp only [Bool.false_eq_true, if_false, Fits, hm]
    rw [sealLegacyTCP]
    cases ha : encodeAddress target with
    | error err => simp
    | ok a =>
      simp only [hc, bind, Except.bind, pure, Except.pure]
      split_ifs with hbig
      · simpa using hbig
      · simpa using hbig
  | true =>
    simp only [if_true, Fits, hm]
    rw [seal2022TCP]
    cases ha : encodeAddress target with
    | error err =>
      split_ifs
      · simp
      · simp
    | ok a =>
      simp only [hc, hheader, bind, Except.bind, pure, Except.pure, length_nil]
      split_ifs with hlimit hsize
      · simp only [exists_false, false_iff]
        rintro ⟨a', ha', -, hfit⟩
        omega
      · simp only [exists_false, false_iff, Except.ok.injEq, exists_eq_left']
        rintro ⟨hne, hfit⟩
        have := length_pos_iff.mpr hne
        omega
      · simp only [Except.ok.injEq, exists_eq', exists_eq_left', true_iff]
        refine ⟨?_, by omega⟩
        rintro rfl
        exact hsize (.inr rfl)

theorem newTCPClientSession_ok : ∃ session, newTCPClientSession C engine salt = .ok session := by
  obtain ⟨c, hc⟩ := engine.newSession_ok C hlive.key hsalt
  rw [newTCPClientSession, hlive.keysSnapshot]
  simp only [hsalt, hc, bind, Except.bind, pure, Except.pure, ne_eq, not_true_eq_false, if_false]
  exact ⟨_, rfl⟩

/-- The upstream gets the request: `wrapUpstreamTCP` succeeds, and the upstream's
engine opens what it writes to the same target and payload. -/
def Forwards (engine : ProtocolEngine) (salt : Bytes) (now later : Int)
    (request : ProxyRequest) : Prop :=
  ∃ wire session opened upstreamSession,
    wrapUpstreamTCP C engine salt now request = .ok (wire, session) ∧
      engine.openTCPServerSession C wire later = .ok (opened, upstreamSession) ∧
      opened.target = request.target ∧ opened.payload = request.payload

/-- What the upstream opens is the canonical spelling of the target. -/
theorem forwards_iff_canonical {now later : Int}
    (hstamp : timestampValid (unixStamp now) later = true) (request : ProxyRequest) :
    Forwards C engine salt now later request ↔
      (∃ a, encodeAddress request.target = .ok a ∧ Fits engine a.length request.payload) ∧
        canonicalTarget request.target = request.target := by
  rw [← sealTCPRequest_ok_iff C hlive hsalt request.target request.payload now]
  obtain ⟨session, hsession⟩ := newTCPClientSession_ok C hlive hsalt
  constructor
  · rintro ⟨wire, session', opened, upstreamSession, hwrap, hopen, htarget, -⟩
    cases hw : engine.sealTCPRequest C salt request.target request.payload now [] with
    | error err =>
      rw [wrapUpstreamTCP, hw] at hwrap
      cases hwrap
    | ok wire' =>
      rw [wrapUpstreamTCP, hw] at hwrap
      simp only [bind, Except.bind, hsession, pure, Except.pure, Except.ok.injEq,
        Prod.mk.injEq] at hwrap
      obtain ⟨rfl, -⟩ := hwrap
      obtain ⟨inbound, hwhole⟩ := (sealTCPRequest_framed C hw fun _ => hstamp).whole
      have hnil := hwhole []
      rw [append_nil, hopen] at hnil
      cases hnil
      exact ⟨⟨_, rfl⟩, htarget⟩
  · rintro ⟨⟨wire, hw⟩, hcanon⟩
    obtain ⟨inbound, hwhole⟩ := (sealTCPRequest_framed C hw fun _ => hstamp).whole
    have hnil := hwhole []
    rw [append_nil] at hnil
    refine ⟨wire, session, _, _, ?_, hnil, hcanon, rfl⟩
    rw [wrapUpstreamTCP, hw]
    simp only [bind, Except.bind, hsession, pure, Except.pure]

end

/-- **Forwarding an accepted request.** Any request that an engine accepted, its
payload extended by sniffing as far as `handleTCP` does, has a destination
`host:port`; a live upstream engine of any method gets target and payload
unchanged exactly when the host is stable and the records fit. -/
theorem wrapUpstreamTCP_iff_fits {e : ProtocolEngine} {wire : Bytes} {accepted : Int}
    {request : ProxyRequest} {session : TCPServerSession}
    (hopen : e.openTCPServerSession C wire accepted = .ok (request, session))
    (stream : Bytes) {upstream : ProtocolEngine} (hlive : upstream.Live) {salt : Bytes}
    (hsalt : salt.length = upstream.keyLen) {now later : Int}
    (hstamp : timestampValid (unixStamp now) later = true) :
    let payload := sniffedPayload C sniff session stream request
    (∃ more, payload = request.payload ++ more ∧
        (more ≠ [] → (request.payload ++ more).length ≤ maxSniffBytes)) ∧
      ∃ host port, request.target = joinHostPort host (itoa port) ∧
        (Forwards C upstream salt now later { request with payload } ↔
          Stable host ∧ Fits upstream (addressLength host) payload) := by
  intro payload
  refine ⟨sniffedPayload_extends C sniff session stream request, ?_⟩
  obtain ⟨body, consumed, hdecode⟩ := openTCPServerSession_target C hopen
  obtain ⟨host, port, hdecoded, hpos, hlt, htarget, -⟩ := decodeAddress_spec hdecode
  refine ⟨host, port, htarget, ?_⟩
  rw [forwards_iff_canonical C hlive hsalt hstamp]
  simp only [htarget]
  constructor
  · rintro ⟨⟨a, ha, hfits⟩, hcanon⟩
    have hstable := (canonicalTarget_eq_iff hlt ha).mp hcanon
    obtain ⟨a', ha', hlen⟩ := encodeAddress_stable hdecoded hstable hpos hlt
    obtain rfl : a = a' := Except.ok.inj (ha.symm.trans ha')
    exact ⟨hstable, hlen ▸ hfits⟩
  · rintro ⟨hstable, hfits⟩
    obtain ⟨a, ha, hlen⟩ := encodeAddress_stable hdecoded hstable hpos hlt
    exact ⟨⟨a, ha, hlen ▸ hfits⟩, (canonicalTarget_eq_iff hlt ha).mpr hstable⟩

/-- A legacy request with two bytes of payload reaches a legacy upstream. -/
theorem wrapUpstreamTCP_sample :
    Forwards Crypto.transparent (sampleEngine 2) (replicate 16 9) 0 0
      { target := ascii "1.2.3.4:80", payload := ascii "hi",
        replayToken := replicate 16 7 } := by
  have hstamp : timestampValid (unixStamp 0) 0 = true := by decide
  have hlive : (sampleEngine 2).Live := by decide
  have hsalt : (replicate 16 (9 : UInt8)).length = (sampleEngine 2).keyLen := rfl
  obtain ⟨inbound, hwhole⟩ :=
    (sealTCPRequest_framed Crypto.transparent sampleWire_sealed fun _ => hstamp).whole
  have hopen := hwhole []
  obtain ⟨-, host, port, htarget, hiff⟩ := wrapUpstreamTCP_iff_fits Crypto.transparent
    (fun _ => ([], true)) hopen [] hlive hsalt hstamp
  have hjoin : joinHostPort (ascii "1.2.3.4") (itoa 80) = joinHostPort host (itoa port) := htarget
  obtain ⟨rfl, -⟩ := joinHostPort_inj (not_mem_itoa (by decide)) (not_mem_itoa (by decide)) hjoin
  refine hiff.mpr ⟨by decide, ?_⟩
  show Fits (sampleEngine 2) (addressLength (ascii "1.2.3.4")) (ascii "hi")
  decide

/-- A legacy request for a domain, with no payload in its first chunk. -/
def emptyRequestWire : Bytes :=
  ((sampleEngine 1).sealTCPRequest Crypto.transparent (replicate 16 7)
    (ascii "example.org:443") [] 0 []).toOption.getD []

/-- A live engine of a 2022 method. -/
def modernEngine : ProtocolEngine where
  method := .blake3Aes128Gcm
  key := replicate 16 5
  identity := []
  dead := false

/-- The server accepts it and cannot forward it to a 2022 upstream. -/
theorem wrapUpstreamTCP_empty_payload :
    ∃ request session,
      (sampleEngine 1).openTCPServerSession Crypto.transparent emptyRequestWire 0 =
        .ok (request, session) ∧
      (∀ sniff stream, sniffedPayload Crypto.transparent sniff session stream request = []) ∧
      modernEngine.Live ∧
      wrapUpstreamTCP Crypto.transparent modernEngine (replicate 16 9) 0 request =
        .error .protocol :=
  ⟨_, _, rfl, fun _ _ => rfl, by decide, rfl⟩

end NrePlugins.Shadowsocks
