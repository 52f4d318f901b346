import Nre.Shadowsocks.Engine

/-!
# The TCP handshake

`readTCPHandshake` (plugin_call.go): the accept loop does not know which user a
connection belongs to, so after every `conn.Read` it offers all bytes read so far
to every engine of the listener in turn. An engine answers "need more" with
`ErrProtocol`; any other error counts as "the request is complete and not mine".

The rule is right for the engine that owns the connection and wrong for the
others: an engine with another key reports `ErrAuthentication` as soon as *its*
minimum is there, and then the loop gives up although the owner still waits for
bytes. `readTCPHandshake_iff_tolerated` says exactly which fragmentations the
handshake survives.
-/

namespace NrePlugins.Shadowsocks

open List
open ProtocolEngine

variable (C : Crypto)

/-- What one `conn.Read(tmp)` returned, `tmp` having 2048 bytes. -/
structure ReadResult where
  data : Bytes
  bound : data.length ≤ 2048
  failed : Bool

/-- The loop over the engines for one buffer. `none` stands for "read on". -/
def tryEngines (buf : Bytes) (now : Int) : List ProtocolEngine → Bool →
    Except Err (Option (ProxyRequest × TCPServerSession))
  | [], complete => if complete then .error .authentication else .ok none
  | engine :: engines, complete =>
    match engine.openTCPServerSession C buf now with
    | .ok accepted => .ok (some accepted)
    | .error .replay => .error .replay
    | .error .protocol => tryEngines buf now engines complete
    | .error _ => tryEngines buf now engines true

/-- The read loop, from the bytes read so far. It returns the outcome and the
reads it has not made; when there are no more the connection is at its end. -/
def readLoop (engines : List ProtocolEngine) (now : Int) : List ReadResult → Bytes →
    Except Err (ProxyRequest × TCPServerSession) × List ReadResult
  | [], buf => (.error (if buf.length = 0 then .connection else .protocol), [])
  | read :: reads, seen =>
    let buf := seen ++ read.data
    match if read.data.length > 0 then tryEngines C buf now engines false else .ok none with
    | .error err => (.error err, reads)
    | .ok (some accepted) => (.ok accepted, reads)
    | .ok none =>
      if read.failed then (.error (if buf.length = 0 then .connection else .protocol), reads)
      else if buf.length > maxUDPPacket then (.error .protocol, reads)
      else readLoop engines now reads buf

def readTCPHandshake (engines : List ProtocolEngine) (now : Int) (reads : List ReadResult) :
    Except Err (ProxyRequest × TCPServerSession) × List ReadResult :=
  readLoop C engines now reads []

/-! ## One buffer, all engines -/

variable {C} {engines : List ProtocolEngine} {e : ProtocolEngine} {buf w r : Bytes} {now : Int}
  {request : ProxyRequest}

/-- The answers that keep the loop over the engines going. -/
def Undecided (C : Crypto) (buf : Bytes) (now : Int) (x : ProtocolEngine) : Prop :=
  x.openTCPServerSession C buf now = .error .protocol ∨
    x.openTCPServerSession C buf now = .error .authentication

/-- When no engine decides, the loop gives up exactly if one failed to
authenticate. -/
theorem tryEngines_undecided (h : ∀ x ∈ engines, Undecided C buf now x) (complete : Bool) :
    tryEngines C buf now engines complete =
      if complete = true ∨ ∃ x ∈ engines, x.openTCPServerSession C buf now = .error .authentication
      then .error .authentication else .ok none := by
  induction engines generalizing complete with
  | nil => simp [tryEngines]
  | cons x engines ih =>
    have hrest := ih fun y hy => h y (mem_cons_of_mem _ hy)
    rw [tryEngines]
    rcases h x (by simp) with hx | hx
    · rw [hrest complete]
      simp [hx]
    · rw [hrest true]
      simp [hx]

/-- When every other engine is undecided, the one that accepts is found wherever
it stands in the list. -/
theorem tryEngines_accepted (he : e ∈ engines) (h : ∀ x ∈ engines, x ≠ e → Undecided C buf now x)
    {accepted : ProxyRequest × TCPServerSession}
    (hopen : e.openTCPServerSession C buf now = .ok accepted) (complete : Bool) :
    tryEngines C buf now engines complete = .ok (some accepted) := by
  induction engines generalizing complete with
  | nil => cases he
  | cons x engines ih =>
    rw [tryEngines]
    by_cases hx : x = e
    · rw [hx, hopen]
    · have hmem : e ∈ engines := (mem_cons.mp he).resolve_left (Ne.symm hx)
      have hrest := ih hmem fun y hy => h y (mem_cons_of_mem _ hy)
      rcases h x (by simp) hx with hu | hu
      · simp only [hu]
        exact hrest complete
      · simp only [hu]
        exact hrest true

/-! ## Fragmented connections -/

/-- One piece of a connection, as one successful read returns it. -/
structure Piece where
  data : Bytes
  nonempty : data ≠ []
  bound : data.length ≤ 2048

/-- The read that returns a piece. -/
def Piece.read (piece : Piece) : ReadResult where
  data := piece.data
  bound := piece.bound
  failed := false

/-- All bytes of the pieces. -/
def joined (pieces : List Piece) : Bytes := pieces.flatMap Piece.data

/-- All bytes of reads not yet made. -/
def unreadBytes (reads : List ReadResult) : Bytes := reads.flatMap ReadResult.data

theorem unreadBytes_map_read (pieces : List Piece) :
    unreadBytes (pieces.map Piece.read) = joined pieces := by
  rw [unreadBytes, flatMap_map]
  rfl

/-- One turn of the read loop on a piece. -/
theorem readLoop_piece (C : Crypto) (engines : List ProtocolEngine) (now : Int) (piece : Piece)
    (reads : List ReadResult) (seen : Bytes) :
    readLoop C engines now (piece.read :: reads) seen =
      match tryEngines C (seen ++ piece.data) now engines false with
      | .error err => (.error err, reads)
      | .ok (some accepted) => (.ok accepted, reads)
      | .ok none =>
        if (seen ++ piece.data).length > maxUDPPacket then (.error .protocol, reads)
        else readLoop C engines now reads (seen ++ piece.data) := by
  have hpos : piece.read.data.length > 0 := length_pos_iff.mpr piece.nonempty
  rw [readLoop, if_pos hpos]
  rfl

/-- How many bytes have been read after each piece. -/
def boundaries : Nat → List Piece → List Nat
  | _, [] => []
  | start, piece :: pieces =>
    (start + piece.data.length) :: boundaries (start + piece.data.length) pieces

variable {p : Nat}

theorem le_of_mem_boundaries {start : Nat} {pieces : List Piece} (h : p ∈ boundaries start pieces) :
    start ≤ p := by
  induction pieces generalizing start with
  | nil => cases h
  | cons piece pieces ih =>
    rcases mem_cons.mp h with rfl | h
    · omega
    · have := ih h
      omega

/-- A number of bytes at which the loop reads on although the owner `e` of the
connection waits for more: the buffer is below its limit, and below the minimum
of every other engine. -/
def Tolerated (engines : List ProtocolEngine) (e : ProtocolEngine) (p : Nat) : Prop :=
  p ≤ maxUDPPacket ∧ ∀ x ∈ engines, x ≠ e → p < x.minimumOpen

instance (engines : List ProtocolEngine) (e : ProtocolEngine) (p : Nat) :
    Decidable (Tolerated engines e p) := inferInstanceAs (Decidable (_ ∧ _))

/-- The handshake ends with the request of `e` and a session of `e`, and no byte
of what follows the request is lost or repeated. -/
def Accepts (outcome : Except Err (ProxyRequest × TCPServerSession) × List ReadResult)
    (e : ProtocolEngine) (request : ProxyRequest) (r : Bytes) : Prop :=
  ∃ session unread, outcome = (.ok (request, session), unread) ∧ session.engine = e ∧
    session.leftover ++ unreadBytes unread = r

/-- Before the end of the owner's wire every engine asks for more or fails to
authenticate, and the latter happens exactly past some other engine's minimum. -/
theorem tryEngines_short (hlive : ∀ x ∈ engines, x.Live)
    (hforeign : ∀ x ∈ engines, x ≠ e → x.Foreign C (w ++ r)) (hframed : e.Framed C w now request)
    (hp : p < w.length) :
    tryEngines C ((w ++ r).take p) now engines false =
      if ∀ x ∈ engines, x ≠ e → p < x.minimumOpen then .ok none else .error .authentication := by
  have hle : p ≤ (w ++ r).length := by rw [length_append]; omega
  have hother : ∀ x ∈ engines, x ≠ e → x.openTCPServerSession C ((w ++ r).take p) now =
      .error (if p < x.minimumOpen then .protocol else .authentication) := fun x hx hne =>
    openTCPServerSession_foreign C (hlive x hx) (hforeign x hx hne) hle now
  rw [tryEngines_undecided fun x hx => ?_]
  · by_cases hall : ∀ x ∈ engines, x ≠ e → p < x.minimumOpen
    · rw [if_pos hall, if_neg]
      rintro (hfalse | ⟨x, hx, hauth⟩)
      · cases hfalse
      · by_cases hxe : x = e
        · simp [hxe, hframed.short r p hp] at hauth
        · simp [hother x hx hxe, if_pos (hall x hx hxe)] at hauth
    · rw [if_neg hall, if_pos]
      push Not at hall
      obtain ⟨x, hx, hxe, hmin⟩ := hall
      exact .inr ⟨x, hx, by rw [hother x hx hxe, if_neg (by omega)]⟩
  · by_cases hxe : x = e
    · exact .inl (hxe ▸ hframed.short r p hp)
    · have := hother x hx hxe
      split_ifs at this
      · exact .inl this
      · exact .inr this

section

variable (he : e ∈ engines) (hlive : ∀ x ∈ engines, x.Live)
  (hforeign : ∀ x ∈ engines, x ≠ e → x.Foreign C (w ++ r)) (hframed : e.Framed C w now request)

include he hlive hforeign hframed

/-- From the end of the owner's wire on, the owner answers. -/
theorem tryEngines_whole (hp : w.length ≤ p) (hle : p ≤ (w ++ r).length) :
    ∃ inbound, tryEngines C ((w ++ r).take p) now engines false =
      .ok (some (request,
        e.serverSession request.replayToken (r.take (p - w.length)) inbound)) := by
  obtain ⟨inbound, hwhole⟩ := hframed.whole
  have htake : (w ++ r).take p = w ++ r.take (p - w.length) := by
    rw [take_append, take_of_length_le hp]
  refine ⟨inbound, tryEngines_accepted he (fun x hx hne => ?_) (by rw [htake, hwhole]) false⟩
  have := openTCPServerSession_foreign C (hlive x hx) (hforeign x hx hne) hle now
  split_ifs at this
  · exact .inl this
  · exact .inr this

/-- The whole loop, by induction on the pieces still to be read: either every
boundary before the end of the owner's wire is tolerated and the owner's request
is returned, or one is not and the handshake fails. -/
theorem readLoop_pieces {seen : Bytes} {pieces : List Piece}
    (hcut : seen ++ joined pieces = w ++ r) (hseen : seen.length < w.length) :
    let outcome := readLoop C engines now (pieces.map Piece.read) seen
    let tolerated := ∀ p ∈ boundaries seen.length pieces, p < w.length → Tolerated engines e p
    tolerated ∧ Accepts outcome e request r ∨
      ¬ tolerated ∧ ∃ err unread, outcome = (.error err, unread) := by
  induction pieces generalizing seen with
  | nil =>
    have hlen := congrArg List.length hcut
    simp only [joined, flatMap_nil, length_append, length_nil] at hlen
    omega
  | cons piece pieces ih =>
    have hstream : seen ++ piece.data ++ joined pieces = w ++ r := by
      rw [← hcut, joined, joined, flatMap_cons, append_assoc]
    have hbuf : seen ++ piece.data = (w ++ r).take (seen ++ piece.data).length := by
      rw [← hstream, take_left]
    have hle : (seen ++ piece.data).length ≤ (w ++ r).length := by
      rw [← hstream]
      simp
    have hlen : (seen ++ piece.data).length = seen.length + piece.data.length :=
      length_append
    simp only [map_cons, boundaries, ← hlen, forall_mem_cons, readLoop_piece]
    by_cases hshort : (seen ++ piece.data).length < w.length
    · have htry := tryEngines_short hlive hforeign hframed hshort
      rw [← hbuf] at htry
      rw [htry]
      by_cases hmin : ∀ x ∈ engines, x ≠ e → (seen ++ piece.data).length < x.minimumOpen
      · simp only [if_pos hmin]
        by_cases hbig : (seen ++ piece.data).length > maxUDPPacket
        · rw [if_pos hbig]
          exact .inr ⟨fun h => absurd (h.1 hshort).1 (by omega), _, _, rfl⟩
        · rw [if_neg hbig]
          have htol : Tolerated engines e (seen ++ piece.data).length := ⟨by omega, hmin⟩
          rcases ih hstream hshort with ⟨hall, hacc⟩ | ⟨hnot, hfail⟩
          · exact .inl ⟨⟨fun _ => htol, hall⟩, hacc⟩
          · exact .inr ⟨fun h => hnot h.2, hfail⟩
      · simp only [if_neg hmin]
        exact .inr ⟨fun h => hmin (h.1 hshort).2, _, _, rfl⟩
    · obtain ⟨inbound, htry⟩ := tryEngines_whole he hlive hforeign hframed
        (by omega : w.length ≤ (seen ++ piece.data).length) hle
      rw [← hbuf] at htry
      rw [htry]
      refine .inl ⟨⟨fun h => absurd h hshort, fun p hp hlt => ?_⟩, _, _, rfl, rfl, ?_⟩
      · exact absurd (le_of_mem_boundaries hp) (by omega)
      · -- the leftover is what the last read brought beyond the wire
        have hsplit : seen ++ piece.data =
            w ++ r.take ((seen ++ piece.data).length - w.length) := by
          conv_lhs => rw [hbuf, take_append, take_of_length_le (by omega)]
        have hrest : w ++ (r.take ((seen ++ piece.data).length - w.length) ++ joined pieces) =
            w ++ r := by
          rw [← append_assoc, ← hsplit, hstream]
        rw [unreadBytes_map_read]
        exact append_cancel_left hrest

end

/-- **The handshake under fragmentation.** A connection begins with a request that
one engine `e` of the listener sealed, and `conn.Read` returns it in arbitrary
pieces. The handshake returns the request of `e` (its target in canonical
spelling) and a session of `e`, with nothing of the rest lost, exactly when every
read that ends inside the request ends at most at the buffer limit and below the
minimum of every other engine. -/
theorem readTCPHandshake_iff_tolerated {engines : List ProtocolEngine} {e : ProtocolEngine}
    (he : e ∈ engines) (hlive : ∀ x ∈ engines, x.Live)
    (hkeys : engines.Pairwise fun a b => a.key ≠ b.key)
    {salt target payload padding w r : Bytes} {sent now : Int}
    (hw : e.sealTCPRequest C salt target payload sent padding = .ok w)
    (hstamp : e.modern = true → timestampValid (unixStamp sent) now = true)
    (hideal : ∀ x ∈ engines, x.key ≠ e.key → x.Foreign C (w ++ r))
    {pieces : List Piece} (hcut : joined pieces = w ++ r) :
    Accepts (readTCPHandshake C engines now (pieces.map Piece.read)) e
        { target := canonicalTarget target, payload, replayToken := salt } r ↔
      ∀ p ∈ boundaries 0 pieces, p < w.length → Tolerated engines e p := by
  have hframed := sealTCPRequest_framed C hw hstamp
  have : Std.Symm fun a b : ProtocolEngine => a.key ≠ b.key := ⟨fun _ _ h => Ne.symm h⟩
  have hdistinct : ∀ x ∈ engines, x ≠ e → x.key ≠ e.key := fun x hx hne =>
    hkeys.forall hx he hne
  have hforeign : ∀ x ∈ engines, x ≠ e → x.Foreign C (w ++ r) := fun x hx hne =>
    hideal x hx (hdistinct x hx hne)
  have hstart : [] ++ joined pieces = w ++ r := hcut
  have hrun := readLoop_pieces he hlive hforeign hframed hstart (hframed.length_pos C (hlive e he))
  rw [readTCPHandshake]
  rcases hrun with ⟨htol, hacc⟩ | ⟨hnot, err, unread, hfail⟩
  · exact ⟨fun _ => htol, fun _ => hacc⟩
  · refine ⟨fun ⟨session, unread', hok, _⟩ => ?_, fun htol => absurd htol hnot⟩
    simp [hfail] at hok

/-! ## Two users on one listener -/

/-- The request in two reads, the first of `cut` bytes. -/
def sampleCut (cut : Fin 57) : List Piece :=
  [⟨sampleWire.take (cut + 1), by revert cut; decide, by revert cut; decide⟩,
    ⟨sampleWire.drop (cut + 1), by revert cut; decide, by revert cut; decide⟩]

/-- Cut after 20 bytes, below the other user's minimum of 50, the request is
accepted. -/
theorem readTCPHandshake_cut_20 :
    Accepts (readTCPHandshake Crypto.transparent [sampleEngine 2, sampleEngine 1] 0
        ((sampleCut 19).map Piece.read)) (sampleEngine 1)
      { target := canonicalTarget (ascii "1.2.3.4:80"), payload := ascii "hi",
        replayToken := List.replicate 16 7 } [] :=
  (readTCPHandshake_iff_tolerated (by simp) (by decide) (by decide) sampleWire_sealed
    (by decide) (by decide) (by decide)).mpr (by decide)

/-- Cut after 50 bytes, the other user's engine fails to authenticate and the
handshake gives up, nine bytes before the request is complete. -/
theorem readTCPHandshake_cut_50 :
    (∀ x ∈ [sampleEngine 1, sampleEngine 2], x.Live) ∧
      [sampleEngine 1, sampleEngine 2].Pairwise (fun a b => a.key ≠ b.key) ∧
      (sampleEngine 1).sealTCPRequest Crypto.transparent (List.replicate 16 7)
        (ascii "1.2.3.4:80") (ascii "hi") 0 [] = .ok sampleWire ∧
      (sampleEngine 2).Foreign Crypto.transparent sampleWire ∧
      joined (sampleCut 49) = sampleWire ∧
      (readTCPHandshake Crypto.transparent [sampleEngine 1, sampleEngine 2] 0
        ((sampleCut 49).map Piece.read)).1 = .error .authentication := by
  refine ⟨by decide, by decide, rfl, by decide, by decide, rfl⟩

end NrePlugins.Shadowsocks
