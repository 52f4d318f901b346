import Nre.Shadowsocks.Forward

/-!
# Sniffing does not disturb the stream

`sniffTargetDomain` reads encrypted chunks ahead of the relay. Each attempt works on a copy of the
session's cipher: a chunk that opens whole moves the session and becomes part of the buffer; in
every other case the ciphertext is put back in front of the connection (`prefixConn`) and the
session stays as it was. So what the relay reads afterwards with `readTCPPayloadChunk`, together
with the sniffed bytes, is what it would have read (`sniffTargetDomain_invisible`).
-/

namespace NrePlugins.Shadowsocks

open List

variable (C : Crypto)

/-! ## Connections -/

/-- How reading from a connection ends. -/
inductive Ending where
  | eof
  | failure
  deriving DecidableEq

/-- The bytes that will arrive, and what comes after them. -/
structure Conn where
  pending : Bytes
  ending : Ending

inductive StreamErr where
  | eof
  | unexpectedEOF
  | failure
  | session (err : Err)
  deriving DecidableEq

namespace Conn

/-- `io.ReadFull`. -/
def readFull (conn : Conn) (n : Nat) : Except StreamErr (Bytes × Conn) :=
  if n ≤ conn.pending.length then
    .ok (conn.pending.take n, { conn with pending := conn.pending.drop n })
  else match conn.ending with
    | .failure => .error .failure
    | .eof => .error (if conn.pending = [] then .eof else .unexpectedEOF)

end Conn

/-! ## The relay's reads -/

/-- `openPayloadChunk`. -/
def openPayloadChunk (cipher : StreamCipher) (wire : Bytes) (maximum : Nat) :
    Except Err (Bytes × StreamCipher) :=
  if wire.length < 18 + 16 then .error .protocol
  else match cipher.open C (wire.take 18) with
    | .error _ => .error .authentication
    | .ok (plainLength, cipher) =>
      if plainLength.length ≠ 2 then .error .authentication
      else if readBE plainLength > maximum ∨ wire.length - 18 ≠ readBE plainLength + 16 then
        .error .protocol
      else cipher.open C (wire.drop 18)

/-- `readTCPPayloadChunk`: the chunk, with the session and the connection after it. The length is
opened without moving the nonce, then the whole chunk is opened. -/
def readTCPPayloadChunk (session : TCPServerSession) (conn : Conn) :
    Except StreamErr (Bytes × TCPServerSession × Conn) :=
  match session.inbound with
  | none => .error (.session .revoked)
  | some inbound =>
    if session.closed then .error (.session .revoked)
    else do
      let (header, conn) ← conn.readFull 18
      match C.gcmOpen inbound.key inbound.nonce header with
      | none => .error (.session .authentication)
      | some lengthPlain =>
        if lengthPlain.length ≠ 2 then .error (.session .authentication)
        else if readBE lengthPlain > session.maximum then .error (.session .protocol)
        else do
          let (rest, conn) ← conn.readFull (readBE lengthPlain + 16)
          match openPayloadChunk C inbound (header ++ rest) session.maximum with
          | .error err => .error (.session err)
          | .ok (payload, inbound) =>
            .ok (payload, { session with inbound := some inbound }, conn)

/-- The plaintext of at most `turns` chunks, and the error that ended the reads. -/
def decryptLoop : Nat → TCPServerSession → Conn → Bytes × Option StreamErr
  | 0, _, _ => ([], none)
  | turns + 1, session, conn =>
    match readTCPPayloadChunk C session conn with
    | .error err => ([], some err)
    | .ok (payload, session, conn) =>
      let (more, err) := decryptLoop turns session conn
      (payload ++ more, err)

/-- All that the relay reads: the plaintext up to the error that ends the reads. Every chunk takes
bytes from the connection, so these turns are enough (`decrypted_ends`). -/
def decrypted (session : TCPServerSession) (conn : Conn) : Bytes × Option StreamErr :=
  decryptLoop C (conn.pending.length + 1) session conn

variable {C} {session session' : TCPServerSession} {conn conn' : Conn} {payload : Bytes}

theorem Conn.readFull_ok {n : Nat} {data : Bytes} (h : conn.readFull n = .ok (data, conn')) :
    n ≤ conn.pending.length ∧ data = conn.pending.take n ∧
      conn' = { conn with pending := conn.pending.drop n } := by
  revert h
  fun_cases Conn.readFull conn n with
  | case1 hn =>
    rintro ⟨⟩
    exact ⟨hn, rfl, rfl⟩
  | _ => nofun

/-- A chunk takes bytes from the connection. -/
theorem readTCPPayloadChunk_shorter
    (h : readTCPPayloadChunk C session conn = .ok (payload, session', conn')) :
    conn'.pending.length < conn.pending.length := by
  unfold readTCPPayloadChunk at h
  split at h
  · cases h
  split_ifs at h
  obtain ⟨⟨header, mid⟩, hheader, h⟩ := bind_eq_ok.mp h
  obtain ⟨hlong, -, rfl⟩ := Conn.readFull_ok hheader
  dsimp only at h
  split at h
  · cases h
  split_ifs at h
  obtain ⟨⟨rest, last⟩, hrest, h⟩ := bind_eq_ok.mp h
  obtain ⟨-, -, rfl⟩ := Conn.readFull_ok hrest
  split at h
  · cases h
  · cases h
    simp only [length_drop]
    omega

/-- More turns than bytes change nothing. -/
theorem decryptLoop_stable {turns : Nat} (h : conn.pending.length < turns) :
    decryptLoop C turns session conn = decrypted C session conn := by
  unfold decrypted
  generalize hmore : conn.pending.length + 1 = turns'
  have h' : conn.pending.length < turns' := by omega
  clear hmore
  induction turns generalizing turns' session conn with
  | zero => omega
  | succ turns ih =>
    obtain ⟨turns', rfl⟩ : ∃ m, turns' = m + 1 := ⟨turns' - 1, by omega⟩
    rw [decryptLoop, decryptLoop]
    cases hread : readTCPPayloadChunk C session conn with
    | error err => rfl
    | ok chunk =>
      have hshorter := readTCPPayloadChunk_shorter hread
      dsimp only
      rw [ih (by omega) turns' (by omega)]

/-- One chunk, then the others. -/
theorem decrypted_chunk (h : readTCPPayloadChunk C session conn = .ok (payload, session', conn')) :
    decrypted C session conn =
      (payload ++ (decrypted C session' conn').1, (decrypted C session' conn').2) := by
  rw [decrypted, decryptLoop, h]
  dsimp only
  rw [decryptLoop_stable (readTCPPayloadChunk_shorter h)]

/-- The reads end with an error. -/
theorem decrypted_ends (session : TCPServerSession) (conn : Conn) :
    ∃ err, (decrypted C session conn).2 = some err := by
  generalize hlength : conn.pending.length = n
  induction n using Nat.strong_induction_on generalizing session conn with
  | _ n ih =>
    cases hread : readTCPPayloadChunk C session conn with
    | error err => exact ⟨err, by rw [decrypted, decryptLoop, hread]⟩
    | ok chunk =>
      obtain ⟨payload, session', conn'⟩ := chunk
      rw [decrypted_chunk hread]
      exact ih _ (hlength ▸ readTCPPayloadChunk_shorter hread) session' conn' rfl

/-! ## One attempt -/

variable {stream : Bytes}

/-- An attempt that fails puts everything back. -/
theorem transactionalSniffChunk_error {remaining : Nat} {err : Err}
    (h : (transactionalSniffChunk C session remaining stream).payload = .error err) :
    (transactionalSniffChunk C session remaining stream).replayed ++
        (transactionalSniffChunk C session remaining stream).stream = stream ∧
      (transactionalSniffChunk C session remaining stream).session = session := by
  revert h
  fun_cases transactionalSniffChunk C session remaining stream with
  | case1 | case2 => exact fun _ => ⟨rfl, rfl⟩
  | case3 => exact fun _ => ⟨append_nil _, rfl⟩
  | case8 =>
    refine fun _ => ⟨?_, rfl⟩
    rw [append_nil, take_append_drop]
  | case9 =>
    refine fun _ => ⟨?_, rfl⟩
    rw [append_assoc, take_append_drop, take_append_drop]
  | case10 => rintro ⟨⟩
  | _ => exact fun _ => ⟨take_append_drop 18 stream, rfl⟩

/-- Reading from a connection whose bytes have arrived. -/
theorem Conn.readFull_arrived {n : Nat} (later : Bytes) (ending : Ending) (h : n ≤ stream.length) :
    Conn.readFull ⟨stream ++ later, ending⟩ n =
      .ok (stream.take n, ⟨stream.drop n ++ later, ending⟩) := by
  rw [Conn.readFull, if_pos (by rw [length_append]; omega)]
  simp only [take_append_of_le_length h, drop_append_of_le_length h]

/-- An attempt that succeeds has read what the relay would have read. -/
theorem transactionalSniffChunk_ok {remaining : Nat}
    (h : (transactionalSniffChunk C session remaining stream).payload = .ok payload)
    (later : Bytes) (ending : Ending) :
    (transactionalSniffChunk C session remaining stream).replayed = [] ∧
      readTCPPayloadChunk C session ⟨stream ++ later, ending⟩ =
        .ok (payload, (transactionalSniffChunk C session remaining stream).session,
          ⟨(transactionalSniffChunk C session remaining stream).stream ++ later, ending⟩) := by
  revert h
  fun_cases transactionalSniffChunk C session remaining stream with
  | case10 inbound hinbound hopen hheader _ _ plain _ hplain _ htwo hrange hbudget hbody _ _ _
      trial' hdata =>
    rintro ⟨⟩
    replace hbody : ¬(stream.drop 18).length < readBE plain + 16 := hbody
    refine ⟨rfl, ?_⟩
    have hpeek : C.gcmOpen inbound.key inbound.nonce (stream.take 18) = some plain := by
      unfold StreamCipher.open at hplain
      split at hplain
      · cases hplain
        assumption
      · cases hplain
    have hchunk : openPayloadChunk C inbound
        (stream.take 18 ++ (stream.drop 18).take (readBE plain + 16)) session.maximum =
          .ok (payload, trial') := by
      have hlong : (stream.take 18).length = 18 := by rw [length_take]; omega
      have hrest : ((stream.drop 18).take (readBE plain + 16)).length = readBE plain + 16 := by
        rw [length_take]
        omega
      rw [openPayloadChunk, if_neg (by rw [length_append]; omega),
        take_left' hlong, drop_left' hlong, hplain]
      dsimp only
      rw [if_neg htwo, if_neg (by rw [length_append]; omega), hdata]
    unfold readTCPPayloadChunk
    rw [hinbound]
    dsimp only
    rw [if_neg (fun h => hopen (.inr h)), Conn.readFull_arrived _ _ (by omega)]
    simp only [bind, Except.bind, hpeek]
    rw [if_neg htwo, if_neg (by omega), Conn.readFull_arrived _ _ (by omega)]
    simp only [hchunk]
    rfl
  | _ => nofun

/-! ## The whole sniff -/

/-- What `sniffTargetDomain` leaves, with the connection. -/
structure SniffedConn extends Sniffed where
  conn : Conn

/-- `sniffTargetDomain` on a connection of which `arrived` bytes come before the deadline. -/
def sniffTargetDomainOn (C : Crypto) (sniff : Bytes → Bytes × Bool) (session : TCPServerSession)
    (conn : Conn) (arrived : Nat) (initial : Bytes) : SniffedConn :=
  let after := sniffTargetDomain C sniff session (conn.pending.take arrived) initial
  ⟨after, { conn with pending := after.stream ++ conn.pending.drop arrived }⟩

variable {sniff : Bytes → Bytes × Bool} {later buffer : Bytes} {ending : Ending}

/-- The relay reads `rest` after the sniff, and would have read the sniffed bytes and `rest`. -/
def Sniffed.Invisible (after : Sniffed) (C : Crypto) (session : TCPServerSession)
    (stream later : Bytes) (ending : Ending) (buffer : Bytes) : Prop :=
  ∃ more rest err, after.buffer = buffer ++ more ∧
    decrypted C after.session ⟨after.stream ++ later, ending⟩ = (rest, err) ∧
    decrypted C session ⟨stream ++ later, ending⟩ = (more ++ rest, err)

/-- A sniff that read nothing. -/
theorem Sniffed.Invisible.rfl {domain : Bytes} :
    Sniffed.Invisible ⟨domain, buffer, stream, session⟩ C session stream later ending buffer :=
  ⟨[], _, _, (append_nil _).symm, Eq.refl _, Eq.refl _⟩

theorem sniffLoop_invisible {turns : Nat} :
    (sniffLoop C sniff turns buffer stream session).Invisible C session stream later ending
      buffer := by
  fun_induction sniffLoop C sniff turns buffer stream session with
  | case4 _ _ _ _ _ _ chunk err herr =>
    obtain ⟨hback, hsession⟩ := transactionalSniffChunk_error herr
    rw [hback, hsession]
    exact .rfl
  | case5 _ _ _ _ _ _ chunk payload hok ih =>
    obtain ⟨hnone, hread⟩ := transactionalSniffChunk_ok hok later ending
    rw [hnone] at ih ⊢
    obtain ⟨more, rest, err, hbuffer, hafter, hmore⟩ := ih
    refine ⟨payload ++ more, rest, err, by rw [hbuffer, append_assoc], hafter, ?_⟩
    rw [decrypted_chunk hread, append_assoc]
    exact congrArg (fun read => (payload ++ read.1, read.2)) hmore
  | _ => exact .rfl

/-- What is read after the sniff is what would have been read, without the bytes the sniff added
to its buffer, and it ends with the same error. -/
theorem sniffTargetDomain_invisible (C : Crypto) (sniff : Bytes → Bytes × Bool)
    (session : TCPServerSession) (conn : Conn) (arrived : Nat) (initial : Bytes) :
    ∃ more rest err,
      (sniffTargetDomainOn C sniff session conn arrived initial).buffer = initial ++ more ∧
      decrypted C (sniffTargetDomainOn C sniff session conn arrived initial).session
        (sniffTargetDomainOn C sniff session conn arrived initial).conn = (rest, some err) ∧
      decrypted C session conn = (more ++ rest, some err) := by
  obtain ⟨more, rest, err, hbuffer, hafter, hbefore⟩ :
      (sniffTargetDomain C sniff session (conn.pending.take arrived) initial).Invisible C session
        (conn.pending.take arrived) (conn.pending.drop arrived) conn.ending initial := by
    rw [sniffTargetDomain]
    split_ifs
    · exact .rfl
    · exact sniffLoop_invisible
  rw [take_append_drop] at hbefore
  obtain ⟨err', herr⟩ := decrypted_ends (C := C) session conn
  rw [hbefore] at herr
  cases herr
  exact ⟨more, rest, err', hbuffer, hafter, hbefore⟩

end NrePlugins.Shadowsocks
