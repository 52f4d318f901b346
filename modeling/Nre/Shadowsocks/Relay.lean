import Nre.Base.Transition
import Nre.Shadowsocks.Forward

/-!
# Relaying through an upstream

`handleTCP` after `wrapUpstreamTCP`: one goroutine moves chunks from the client to
the upstream (`relayTCPClientToTarget`), the main goroutine moves data from the
upstream to the client (`relayTCPTargetToClient`) and shuts both connections down
when that ends. They share an `upstreamTCPConn`, so its two locks:

- `connection.mu`, held by `Read` over the whole call;
- `session.mu`, held by `SealPayload` and `Close` over a few assignments, and by
  `OpenPayload` **over its blocking network reads**.

The model has one step per lock operation and per completed read; the upstream is
an arbitrary process (`Peer`) that sees what has been written to it and may send
bytes or close. `relay_good_iff_record_ready` states the price of the third use of
`session.mu`: the relay is free of blocking exactly as long as the reader takes
that lock only when the next record has arrived completely.

The client's side has its own session with its own lock, held only over a few
assignments; reading from and writing to the client are single steps here.
-/

namespace NrePlugins.Shadowsocks

variable (C : Crypto)

/-! ## The client session's operations -/

/-- `sealPayloadChunk`: the length record and the payload record. -/
def sealPayloadChunk (cipher : StreamCipher) (payload : Bytes) : Bytes × StreamCipher :=
  let (lengthWire, cipher) := cipher.seal C (beBytes 2 payload.length)
  let (wire, cipher) := cipher.seal C payload
  (lengthWire ++ wire, cipher)

namespace TCPClientSession

variable (session : TCPClientSession)

def maximum : Nat := if session.modern then max2022Payload else maxLegacyPayload

/-- `SealPayload` inside its lock. -/
def sealPayload (payload : Bytes) : Except Err (Bytes × TCPClientSession) :=
  match session.outbound with
  | none => .error .revoked
  | some outbound =>
    if session.closed then .error .revoked
    else if payload.length = 0 ∨ payload.length > session.maximum then .error .protocol
    else
      let (wire, outbound) := sealPayloadChunk C outbound payload
      .ok (wire, { session with outbound := some outbound })

/-- `Close` inside its lock. -/
def close : TCPClientSession :=
  { session with closed := true, inbound := none, outbound := none, key := [], requestSalt := [] }

end TCPClientSession

/-- `readEncryptedPayload`: the payload or the error, and the cipher after it. -/
def readEncryptedPayload (cipher : StreamCipher) (maximum : Nat) :
    ReadProg (Except Err Bytes × StreamCipher) :=
  .need 18 fun
    | none => .ret (.error .connection, cipher)
    | some header =>
      match cipher.open C header with
      | .error _ => .ret (.error .authentication, cipher)
      | .ok (plain, cipher) =>
        if plain.length ≠ 2 then .ret (.error .authentication, cipher)
        else if readBE plain < 1 ∨ readBE plain > maximum then .ret (.error .protocol, cipher)
        else .need (readBE plain + 16) fun
          | none => .ret (.error .connection, cipher)
          | some body =>
            match cipher.open C body with
            | .error _ => .ret (.error .authentication, cipher)
            | .ok (payload, cipher) => .ret (.ok payload, cipher)

namespace TCPClientSession

variable (session : TCPClientSession)

/-- The 2022 branch of `openFirstResponse` after the response salt. -/
def openFirst2022 (inbound : StreamCipher) (now : Int) :
    ReadProg (Except Err Bytes × TCPClientSession) :=
  let fixedLength := 1 + 8 + session.requestSalt.length + 2
  .need (fixedLength + 16) fun
    | none => .ret (.error .connection, session)
    | some fixedWire =>
      match inbound.open C fixedWire with
      | .error _ => .ret (.error .authentication, session)
      | .ok (fixed, inbound) =>
        let length := readBE (fixed.drop (fixed.length - 2))
        if fixed.length ≠ fixedLength ∨ fixed.head? ≠ some 1 ∨
            ¬ timestampValid (readBE (slice fixed 1 9)) now ∨
            slice fixed 9 (9 + session.requestSalt.length) ≠ session.requestSalt then
          .ret (.error .authentication, session)
        else if length < 1 ∨ length > max2022Payload then .ret (.error .protocol, session)
        else .need (length + 16) fun
          | none => .ret (.error .connection, session)
          | some body =>
            match inbound.open C body with
            | .error _ => .ret (.error .authentication, session)
            | .ok (payload, inbound) =>
              .ret (.ok payload, { session with inbound := some inbound })

def openFirstResponse (now : Int) : ReadProg (Except Err Bytes × TCPClientSession) :=
  .need session.key.length fun
    | none => .ret (.error .connection, session)
    | some salt =>
      match session.engine.newSession C session.key salt with
      | .error err => .ret (.error err, session)
      | .ok inbound =>
        if session.modern then session.openFirst2022 C inbound now
        else (readEncryptedPayload C inbound maxLegacyPayload).map fun (result, cipher) =>
          (result, { session with inbound := some cipher })

/-- `OpenPayload` inside its lock. -/
def openPayload (now : Int) : ReadProg (Except Err Bytes × TCPClientSession) :=
  if session.closed then .ret (.error .revoked, session)
  else if session.started then
    match session.inbound with
    | none => .ret (.error .revoked, session)
    | some inbound =>
      (readEncryptedPayload C inbound session.maximum).map fun (result, cipher) =>
        (result, { session with inbound := some cipher })
  else
    (session.openFirstResponse C now).map fun (result, session) =>
      match result with
      | .ok payload => (.ok payload, { session with started := true })
      | .error err => (.error err, session)

end TCPClientSession

/-! ## The goroutines -/

/-- Who holds `session.mu`. -/
inductive Owner where
  | reader
  | writer
  deriving DecidableEq

/-- The main goroutine: `relayTCPTargetToClient`, then `shutdown`. -/
inductive Reader where
  /-- Before `target.Read`. -/
  | idle
  /-- In `Read`, `connection.mu` held. -/
  | locked
  /-- In `OpenPayload`, before `session.mu`. -/
  | wantSession
  /-- In `OpenPayload`, `session.mu` held, at some point of its reads. -/
  | reading (prog : ReadProg (Except Err Bytes × TCPClientSession))
  /-- Out of `Read` with data for the client. -/
  | deliver (data : Bytes)
  /-- In `shutdown`, before `conn.Close`. -/
  | closeClient
  /-- In `Close`, before `session.mu`. -/
  | wantClose
  /-- In `Close`, `session.mu` held. -/
  | closing
  /-- In `Close`, before the connection's own `Close`. -/
  | closeConn
  | finished

/-- The other goroutine: `relayTCPClientToTarget`. -/
inductive Writer where
  /-- In `readTCPPayloadChunk`. -/
  | readClient
  /-- In `Write`, with the rest of a chunk to send. -/
  | wantSession (rest : Bytes)
  /-- In `SealPayload`, `session.mu` held. -/
  | sealing (rest : Bytes)
  /-- Before the connection's own `Write`. -/
  | writeWire (wire rest : Bytes)
  | finished

/-- An upstream: what it may do, given everything written to it so far. -/
structure Peer (σ : Type) where
  /-- It may go to another state and send bytes. -/
  step : σ → List Bytes → σ → Bytes → Prop
  /-- It may close the connection. -/
  close : σ → List Bytes → Prop

/-- The relay and its upstream. -/
structure Relay (σ : Type) where
  session : TCPClientSession
  pending : Bytes
  connMu : Bool
  sessionMu : Option Owner
  reader : Reader
  writer : Writer
  /-- Chunks of the client that have not been read. -/
  client : List Bytes
  clientClosed : Bool
  /-- What has been written to the client. -/
  delivered : List Bytes
  /-- What has been written to the upstream. -/
  sent : List Bytes
  /-- Bytes of the upstream that have not been read. -/
  inbox : Bytes
  connClosed : Bool
  peerClosed : Bool
  peer : σ

/-- No more bytes can arrive. -/
def Relay.ended {σ : Type} (s : Relay σ) : Prop := s.peerClosed = true ∨ s.connClosed = true

/-- The labels: taking `session.mu` in `OpenPayload` (with the time it then uses),
the upstream's steps, and everything else. -/
inductive Action where
  | openPayload (now : Int)
  | peer
  | other

variable {σ : Type} (P : Peer σ)

/-- `pending.Read` into the 32 KiB buffer of the relay. -/
def readSize : Nat := 32768

/-- One step of the relay or its upstream. -/
inductive Step : Relay σ → Action → Relay σ → Prop
  -- relayTCPTargetToClient: target.Read
  | readBegin {s : Relay σ} : s.reader = .idle → s.connMu = false →
      Step s .other { s with connMu := true, reader := .locked }
  | readPending {s : Relay σ} : s.reader = .locked → s.pending ≠ [] →
      Step s .other { s with connMu := false, pending := s.pending.drop readSize,
                             reader := .deliver (s.pending.take readSize) }
  | readEmpty {s : Relay σ} : s.reader = .locked → s.pending = [] →
      Step s .other { s with reader := .wantSession }
  | lockOpen {s : Relay σ} (now : Int) : s.reader = .wantSession → s.sessionMu = none →
      Step s (.openPayload now)
        { s with sessionMu := some .reader, reader := .reading (s.session.openPayload C now) }
  | readBytes {s : Relay σ} {n next} : s.reader = .reading (.need n next) → n ≤ s.inbox.length →
      Step s .other
        { s with inbox := s.inbox.drop n, reader := .reading (next (some (s.inbox.take n))) }
  | readEnd {s : Relay σ} {n next} : s.reader = .reading (.need n next) → s.inbox.length < n →
      s.ended → Step s .other { s with inbox := [], reader := .reading (next none) }
  | opened {s : Relay σ} {payload session} : s.reader = .reading (.ret (.ok payload, session)) →
      Step s .other { s with session, sessionMu := none, connMu := false,
                             pending := payload.drop readSize,
                             reader := .deliver (payload.take readSize) }
  | openFailed {s : Relay σ} {err session} : s.reader = .reading (.ret (.error err, session)) →
      Step s .other { s with session, sessionMu := none, connMu := false, reader := .closeClient }
  -- writeTCPClientChunks
  | delivered {s : Relay σ} {data} : s.reader = .deliver data → s.clientClosed = false →
      Step s .other { s with delivered := s.delivered ++ [data], reader := .idle }
  | deliverFailed {s : Relay σ} {data} : s.reader = .deliver data →
      Step s .other { s with reader := .closeClient }
  -- shutdown
  | closeClient {s : Relay σ} : s.reader = .closeClient →
      Step s .other { s with clientClosed := true, reader := .wantClose }
  | lockClose {s : Relay σ} : s.reader = .wantClose → s.sessionMu = none →
      Step s .other { s with sessionMu := some .reader, reader := .closing }
  | closeSession {s : Relay σ} : s.reader = .closing →
      Step s .other { s with session := s.session.close, sessionMu := none, reader := .closeConn }
  | closeConn {s : Relay σ} : s.reader = .closeConn →
      Step s .other { s with connClosed := true, reader := .finished }
  -- relayTCPClientToTarget
  | readChunk {s : Relay σ} {chunk rest} : s.writer = .readClient → s.clientClosed = false →
      s.client = chunk :: rest →
      Step s .other { s with client := rest, writer := .wantSession chunk }
  | clientEnds {s : Relay σ} : s.writer = .readClient → s.client = [] ∨ s.clientClosed = true →
      Step s .other { s with writer := .finished }
  | writeDone {s : Relay σ} : s.writer = .wantSession [] →
      Step s .other { s with writer := .readClient }
  | lockSeal {s : Relay σ} {rest} : s.writer = .wantSession rest → rest ≠ [] →
      s.sessionMu = none →
      Step s .other { s with sessionMu := some .writer, writer := .sealing rest }
  | sealed {s : Relay σ} {rest wire session} : s.writer = .sealing rest →
      s.session.sealPayload C (rest.take s.session.maximum) = .ok (wire, session) →
      Step s .other { s with session, sessionMu := none,
                             writer := .writeWire wire (rest.drop s.session.maximum) }
  | sealFailed {s : Relay σ} {rest err} : s.writer = .sealing rest →
      s.session.sealPayload C (rest.take s.session.maximum) = .error err →
      Step s .other { s with sessionMu := none, writer := .finished }
  | written {s : Relay σ} {wire rest} : s.writer = .writeWire wire rest → s.connClosed = false →
      Step s .other { s with sent := s.sent ++ [wire], writer := .wantSession rest }
  | writeFailed {s : Relay σ} {wire rest} : s.writer = .writeWire wire rest → s.ended →
      Step s .other { s with writer := .finished }
  -- the upstream
  | peerSends {s : Relay σ} {peer' out} : s.peerClosed = false →
      P.step s.peer s.sent peer' out →
      Step s .peer { s with peer := peer', inbox := s.inbox ++ out }
  | peerCloses {s : Relay σ} : P.close s.peer s.sent →
      Step s .peer { s with peerClosed := true }

/-- The state `wrapUpstreamTCP` leaves: no lock is held and both goroutines are
about to start. -/
structure Initial (s : Relay σ) : Prop where
  connMu : s.connMu = false
  sessionMu : s.sessionMu = none
  reader : s.reader = .idle
  writer : s.writer = .readClient

/-! ## What must not happen -/

/-- The reader holds `session.mu` and waits for bytes the upstream has not sent. -/
def WaitsForPeer (s : Relay σ) : Prop :=
  ∃ prog, s.reader = .reading prog ∧ s.sessionMu = some .reader ∧
    prog.run s.inbox = none ∧ ¬ s.ended

/-- A decrypted chunk of the client cannot be written because the other direction
holds the lock while it waits for the upstream. -/
def ChunkHeld (s : Relay σ) : Prop :=
  ∃ rest, s.writer = .wantSession rest ∧ rest ≠ [] ∧ WaitsForPeer s

/-- The client-to-upstream direction has something to do. -/
def Outstanding (s : Relay σ) : Prop :=
  match s.writer with
  | .readClient => s.client ≠ [] ∨ s.clientClosed = true
  | .finished => False
  | _ => True

/-- There is data of the client to move and neither goroutine nor the upstream
can take a step. -/
def Deadlocked (s : Relay σ) : Prop := Outstanding s ∧ ∀ a s', ¬ Step C P s a s'

/-- Steps of the goroutines alone. -/
def Internal (a : Action) : Prop := a ≠ .peer

/-- A call of `Close` gets `session.mu`, whatever the upstream does: the
goroutines alone can bring the relay to a state where the lock is free. -/
def CloseProceeds (s : Relay σ) : Prop :=
  ∃ s', Moves (Step C P) Internal s s' ∧ s'.sessionMu = none

/-- Nothing is stuck. -/
structure Good (s : Relay σ) : Prop where
  chunk : ¬ ChunkHeld s
  progress : ¬ Deadlocked C P s
  close : CloseProceeds C P s

/-- The next record has arrived completely, or no more bytes can arrive. -/
def RecordReady (s : Relay σ) (now : Int) : Prop :=
  ((s.session.openPayload C now).run s.inbox).isSome ∨ s.ended

/-- The condition on a step: `OpenPayload` takes its lock only when the next
record is there. -/
def Meets (s : Relay σ) : Action → Prop
  | .openPayload now => RecordReady C s now
  | _ => True

/-! ## The invariant -/

/-- Who holds `session.mu`, and that the reader needs nothing more while it holds
it. -/
structure Inv (s : Relay σ) : Prop where
  reader : s.sessionMu = some .reader ↔ (∃ prog, s.reader = .reading prog) ∨ s.reader = .closing
  writer : s.sessionMu = some .writer ↔ ∃ rest, s.writer = .sealing rest
  ready : ∀ prog, s.reader = .reading prog → (prog.run s.inbox).isSome ∨ s.ended

section Invariant

variable {C P} {s s' : Relay σ} {a : Action}

theorem Initial.inv (h : Initial s) : Inv s where
  reader := by simp [h.sessionMu, h.reader]
  writer := by simp [h.sessionMu, h.writer]
  ready prog hprog := by simp [h.reader] at hprog

/-- Every step that meets the condition keeps the invariant. -/
theorem Inv.step (hinv : Inv s) (h : Step C P s a s') (hmeets : Meets C s a) : Inv s' := by
  obtain ⟨hr, hw, hready⟩ := hinv
  refine ⟨?_, ?_, fun prog hprog => ?_⟩
  -- a step that takes or releases the lock moves its owner along with it
  · cases h <;> simp_all
  · cases h <;> simp_all
  · cases h with
    | lockOpen now _ _ =>
      obtain rfl : s.session.openPayload C now = prog := by simpa using hprog
      exact hmeets
    | readBytes hreader hn =>
      rcases hready _ hreader with hrun | hend
      · obtain rfl := Reader.reading.inj hprog
        rw [ReadProg.run, if_pos hn] at hrun
        exact .inl hrun
      · exact .inr hend
    | peerSends _ _ =>
      rcases hready prog hprog with hrun | hend
      · obtain ⟨⟨value, rest⟩, hvalue⟩ := Option.isSome_iff_exists.mp hrun
        exact .inl (by rw [ReadProg.run_append hvalue]; rfl)
      · exact .inr hend
    | _ => simp_all [Relay.ended]

/-- A reader in the middle of its reads can go on by itself. -/
theorem Inv.reading_step (hinv : Inv s) {prog} (h : s.reader = .reading prog) :
    ∃ s', Step C P s .other s' := by
  match prog, h with
  | .ret (.ok payload, session), h => exact ⟨_, .opened h⟩
  | .ret (.error err, session), h => exact ⟨_, .openFailed h⟩
  | .need n next, h =>
    by_cases hn : n ≤ s.inbox.length
    · exact ⟨_, .readBytes h hn⟩
    · have hend : s.ended := (hinv.ready _ h).resolve_left (by simp [ReadProg.run, hn])
      exact ⟨_, .readEnd h (by omega) hend⟩

/-- While the client's side has something to do, one of the goroutines moves. -/
theorem Inv.exists_step (hinv : Inv s) (hout : Outstanding s) : ∃ s', Step C P s .other s' := by
  rw [Outstanding] at hout
  cases hwriter : s.writer with
  | readClient =>
    rw [hwriter] at hout
    cases hclosed : s.clientClosed with
    | true => exact ⟨_, .clientEnds hwriter (.inr hclosed)⟩
    | false =>
      obtain ⟨chunk, rest, hclient⟩ :=
        List.exists_cons_of_ne_nil (hout.resolve_right (by simp [hclosed]))
      exact ⟨_, .readChunk hwriter hclosed hclient⟩
  | wantSession rest =>
    by_cases hrest : rest = []
    · exact ⟨_, .writeDone (hrest ▸ hwriter)⟩
    -- the lock is free, or its owner is the reader and moves
    cases hmu : s.sessionMu with
    | none => exact ⟨_, .lockSeal hwriter hrest hmu⟩
    | some owner =>
      cases owner with
      | writer =>
        obtain ⟨rest', hsealing⟩ := hinv.writer.mp hmu
        simp [hwriter] at hsealing
      | reader =>
        rcases hinv.reader.mp hmu with ⟨prog, hprog⟩ | hclosing
        · exact hinv.reading_step hprog
        · exact ⟨_, .closeSession hclosing⟩
  | sealing rest =>
    cases hseal : s.session.sealPayload C (rest.take s.session.maximum) with
    | ok sealed => exact ⟨_, .sealed hwriter hseal⟩
    | error err => exact ⟨_, .sealFailed hwriter hseal⟩
  | writeWire wire rest =>
    cases hclosed : s.connClosed with
    | true => exact ⟨_, .writeFailed hwriter (.inr hclosed)⟩
    | false => exact ⟨_, .written hwriter hclosed⟩
  | finished =>
    rw [hwriter] at hout
    exact hout.elim

/-- One step of the goroutines does not change whether `Close` proceeds later. -/
theorem CloseProceeds.of_step (h : Step C P s .other s') (hclose : CloseProceeds C P s') :
    CloseProceeds C P s := by
  obtain ⟨t, hmoves, hfree⟩ := hclose
  exact ⟨t, .head ⟨.other, by simp [Internal], h⟩ hmoves, hfree⟩

theorem CloseProceeds.of_free (h : s.sessionMu = none) : CloseProceeds C P s :=
  ⟨s, .refl, h⟩

/-- A reader that has all it needs comes to the end of `OpenPayload`: by induction
on what is left of its reads. -/
theorem Inv.close_of_reading (hinv : Inv s) {prog} (h : s.reader = .reading prog) :
    CloseProceeds C P s := by
  induction prog generalizing s with
  | ret value =>
    match value, h with
    | (.ok payload, session), h => exact .of_step (.opened h) (.of_free rfl)
    | (.error err, session), h => exact .of_step (.openFailed h) (.of_free rfl)
  | need n next ih =>
    by_cases hn : n ≤ s.inbox.length
    · have hstep : Step C P s .other _ := .readBytes h hn
      exact .of_step hstep (ih _ (hinv.step hstep trivial) rfl)
    · have hend : s.ended := (hinv.ready _ h).resolve_left (by simp [ReadProg.run, hn])
      have hstep : Step C P s .other _ := .readEnd h (by omega) hend
      exact .of_step hstep (ih _ (hinv.step hstep trivial) rfl)

theorem Inv.closeProceeds (hinv : Inv s) : CloseProceeds C P s := by
  cases hmu : s.sessionMu with
  | none => exact .of_free hmu
  | some owner =>
    cases owner with
    | reader =>
      rcases hinv.reader.mp hmu with ⟨prog, hprog⟩ | hclosing
      · exact hinv.close_of_reading hprog
      · exact .of_step (.closeSession hclosing) (.of_free rfl)
    | writer =>
      obtain ⟨rest, hsealing⟩ := hinv.writer.mp hmu
      cases hseal : s.session.sealPayload C (rest.take s.session.maximum) with
      | ok sealed => exact .of_step (.sealed hsealing hseal) (.of_free rfl)
      | error err => exact .of_step (.sealFailed hsealing hseal) (.of_free rfl)

theorem Inv.good (hinv : Inv s) : Good C P s where
  chunk := by
    rintro ⟨rest, -, -, prog, hprog, -, hnone, hend⟩
    rcases hinv.ready prog hprog with hrun | hended
    · simp [hnone] at hrun
    · exact hend hended
  progress := fun ⟨hout, hstuck⟩ =>
    let ⟨s', hstep⟩ := hinv.exists_step hout
    hstuck _ s' hstep
  close := hinv.closeProceeds

/-- Without the upstream nothing ends the wait of a reader that holds the lock. -/
theorem WaitsForPeer.step (hwait : WaitsForPeer s ∧ ∀ rest, s.writer ≠ .sealing rest)
    (ha : Internal a) (h : Step C P s a s') :
    WaitsForPeer s' ∧ ∀ rest, s'.writer ≠ .sealing rest := by
  obtain ⟨⟨prog, hprog, hmu, hrun, hend⟩, hwriter⟩ := hwait
  cases h with
  | readBytes hreader hn =>
    obtain rfl := Reader.reading.inj (hprog.symm.trans hreader)
    rw [ReadProg.run, if_pos hn] at hrun
    exact ⟨⟨_, rfl, hmu, hrun, hend⟩, hwriter⟩
  | readEnd _ _ hended => exact absurd hended hend
  | opened hreader | openFailed hreader =>
    obtain rfl := Reader.reading.inj (hprog.symm.trans hreader)
    cases hrun
  | readChunk | clientEnds | writeDone | written | writeFailed =>
    exact ⟨⟨prog, hprog, hmu, hrun, hend⟩, by simp⟩
  | peerSends | peerCloses => exact absurd rfl ha
  | _ => simp_all

/-- So `Close` does not get the lock then. -/
theorem WaitsForPeer.not_closeProceeds (hwait : WaitsForPeer s)
    (hwriter : ∀ rest, s.writer ≠ .sealing rest) : ¬ CloseProceeds C P s := by
  rintro ⟨t, hmoves, hfree⟩
  have hkept := hmoves.keeps (fun _ _ _ ha hk hst => WaitsForPeer.step hk ha hst) ⟨hwait, hwriter⟩
  obtain ⟨⟨prog, -, hmu, -⟩, -⟩ := hkept
  simp [hfree] at hmu

/-- A reader that takes the lock without its record waits for the upstream. -/
theorem Inv.waits_of_not_meets (hinv : Inv s) (h : Step C P s a s') (hnot : ¬ Meets C s a) :
    WaitsForPeer s' ∧ ∀ rest, s'.writer ≠ .sealing rest := by
  cases h with
  | lockOpen now hreader hmu =>
    have hready : ¬ RecordReady C s now := hnot
    rw [RecordReady, not_or] at hready
    refine ⟨⟨_, rfl, rfl, by simpa using hready.1, hready.2⟩, fun rest hsealing => ?_⟩
    have := hinv.writer.mpr ⟨rest, hsealing⟩
    simp [hmu] at this
  | _ => exact absurd trivial hnot

end Invariant

/-- **The relay.** In every run whose steps all meet the condition, no chunk is held
up, the relay does not deadlock and `Close` proceeds; and a step out of such a run
leads to a state where that still holds exactly when it meets the condition too. -/
theorem relay_good_iff_record_ready {s : Relay σ}
    (h : Reachable Initial (Guarded (Step C P) (Meets C)) s) :
    Good C P s ∧ ∀ a s', Step C P s a s' → (Good C P s' ↔ Meets C s a) := by
  have hinv : Inv s := h.invariant (fun _ hs => hs.inv) fun _ _ _ hi hst => hi.step hst.1 hst.2
  refine ⟨hinv.good, fun a s' hst => ⟨fun hgood => ?_, fun hmeets => (hinv.step hst hmeets).good⟩⟩
  by_contra hnot
  obtain ⟨hwait, hwriter⟩ := hinv.waits_of_not_meets hst hnot
  exact hwait.not_closeProceeds hwriter hgood.close

/-! ## An upstream that waits for the client -/

/-- An upstream that sends nothing before it has received the request and `k` more
chunks, and does not close. -/
def answersAfter (k : Nat) : Peer Unit where
  step _ sent _ _ := k + 1 ≤ sent.length
  close _ _ := False

/-- A session with a legacy upstream. -/
def sampleClientSession : TCPClientSession where
  engine := sampleEngine 2
  key := List.replicate 16 2
  requestSalt := List.replicate 16 9
  outbound := some { key := List.replicate 16 3, nonce := List.replicate 12 0 }
  modern := false

/-- The relay after the request was written, with one more chunk of the client. -/
def sampleRelay : Relay Unit where
  session := sampleClientSession
  pending := []
  connMu := false
  sessionMu := none
  reader := .idle
  writer := .readClient
  client := [ascii "more"]
  clientClosed := false
  delivered := []
  sent := [ascii "request"]
  inbox := []
  connClosed := false
  peerClosed := false
  peer := ()

/-- The relay when the main goroutine has entered `OpenPayload` and the other one
holds the client's chunk. -/
def stuckRelay : Relay Unit :=
  { sampleRelay with
    connMu := true
    sessionMu := some .reader
    reader := .reading (sampleClientSession.openPayload Crypto.transparent 0)
    writer := .wantSession (ascii "more")
    client := [] }

/-- The first answer of the upstream: the salt and one record. -/
def sampleAnswer : Bytes :=
  List.replicate 16 5 ++ (sealPayloadChunk .transparent
    { key := List.replicate 16 2, nonce := List.replicate 12 0 } (ascii "hi")).1

/-- The same, when the answer had arrived before. -/
def answeredRelay : Relay Unit := { stuckRelay with inbox := sampleAnswer }

/-- The upstream answers, the other goroutine takes the chunk of the client, and the main one takes
the lock with its record there: by the theorem nothing is stuck, although both want the session. -/
theorem answeredRelay_good : Good Crypto.transparent (answersAfter 0) answeredRelay := by
  have hstart : Reachable Initial
      (Guarded (Step Crypto.transparent (answersAfter 0)) (Meets Crypto.transparent)) sampleRelay :=
    .start ⟨rfl, rfl, rfl, rfl⟩
  have hsends : (answersAfter 0).step () sampleRelay.sent () sampleAnswer := Nat.le_refl 1
  have hready : RecordReady Crypto.transparent answeredRelay 0 := .inl (by decide)
  have hanswered := hstart.next ⟨.peerSends rfl hsends, trivial⟩
  have hchunk := hanswered.next ⟨.readChunk rfl rfl rfl, trivial⟩
  have hwants := (hchunk.next ⟨.readBegin rfl rfl, trivial⟩).next ⟨.readEmpty rfl rfl, trivial⟩
  exact (relay_good_iff_record_ready _ _ (hwants.next ⟨.lockOpen 0 rfl rfl, hready⟩)).1

/-- An upstream that wants one more chunk of the client before it answers: the
relay comes to a state where nothing can move. -/
theorem relay_deadlocks :
    Reachable Initial (Step Crypto.transparent (answersAfter 1)) stuckRelay ∧
      ChunkHeld stuckRelay ∧ Deadlocked Crypto.transparent (answersAfter 1) stuckRelay ∧
      ¬ CloseProceeds Crypto.transparent (answersAfter 1) stuckRelay := by
  have hopen : ¬ stuckRelay.ended := by simp [Relay.ended, stuckRelay, sampleRelay]
  have hwait : WaitsForPeer stuckRelay := ⟨_, rfl, rfl, rfl, hopen⟩
  refine ⟨?_, ⟨_, rfl, by decide, hwait⟩, ⟨trivial, fun a s' h => ?_⟩,
    hwait.not_closeProceeds (by simp [stuckRelay])⟩
  · have hstart : Reachable Initial (Step Crypto.transparent (answersAfter 1)) sampleRelay :=
      .start ⟨rfl, rfl, rfl, rfl⟩
    have hlocked := hstart.next (.readBegin rfl rfl)
    have hwants := hlocked.next (.readEmpty rfl rfl)
    have hreading := hwants.next (.lockOpen 0 rfl rfl)
    exact hreading.next (.readChunk rfl rfl rfl)
  · obtain ⟨next, hneed⟩ : ∃ next, stuckRelay.reader = .reading (.need 16 next) := ⟨_, rfl⟩
    have hinbox : stuckRelay.inbox = [] := rfl
    have hwriter : stuckRelay.writer = .wantSession (ascii "more") := rfl
    have hmu : stuckRelay.sessionMu = some .reader := rfl
    cases h with
    | readEnd _ _ hended => exact hopen hended
    | peerSends _ hsends =>
      have htwo : 2 ≤ stuckRelay.sent.length := hsends
      exact absurd htwo (by decide)
    | peerCloses hcloses => exact hcloses
    | writeDone hdone => exact absurd (hwriter.symm.trans hdone) (by simp [ascii])
    | _ => simp_all

end NrePlugins.Shadowsocks
