import Nre.Base.Base64
import Nre.Base.HostPort
import Nre.Doh.Wire

/-!
# Requests

`rfc8484.go` from the HTTP side: which requests carry a DNS query, and what is sent to an
upstream for it. The client subnet is an option of the query itself, or it is added for
the address in the `Forwarded` header; the cache keeps the three cases apart by the text
that `applyOutboundECS` returns with the message.
-/

namespace NrePlugins.Doh

structure HTTPRequest where
  method : Bytes
  query : Bytes
  contentType : Bytes
  accept : Bytes
  forwarded : Bytes
  body : Bytes
  deriving DecidableEq

structure HTTPResponse where
  status : Bytes
  contentType : Bytes
  body : Bytes
  cacheHit : Bool
  deriving DecidableEq

/-- What the code uses of Go's library for media types, and of SHA-256. -/
structure HTTPLib where
  /-- `mime.ParseMediaType`: the type and its parameters. -/
  parseMediaType : Bytes → Option (Bytes × List (Bytes × Bytes))
  /-- `strconv.ParseFloat` of a quality in `[0, 1]`: is it positive? -/
  parseQuality : Bytes → Option Bool
  sha256 : Bytes → Bytes

/-- Nothing has parameters, and the digest is the text itself. -/
def HTTPLib.plain : HTTPLib where
  parseMediaType text := some (asciiLower text, [])
  parseQuality _ := none
  sha256 := id

variable (lib : HTTPLib)

def dnsMediaType : Bytes := ascii "application/dns-message"

/-! ## The HTTP request -/

/-- What `splitHTTPList` is in the middle of. -/
structure ListState where
  parts : List Bytes
  part : Bytes
  quoted : Bool
  escaped : Bool

def splitHTTPListLoop : Bytes → ListState → Option ListState
  | [], s => some s
  | b :: rest, s =>
    if s.escaped then splitHTTPListLoop rest { s with part := s.part ++ [b], escaped := false }
    else if s.quoted ∧ b = ch '\\' then
      splitHTTPListLoop rest { s with part := s.part ++ [b], escaped := true }
    else if b = ch '"' then
      splitHTTPListLoop rest { s with part := s.part ++ [b], quoted := !s.quoted }
    else if b = ch ',' ∧ !s.quoted then
      if trimSpace s.part = [] then none
      else splitHTTPListLoop rest { s with parts := s.parts ++ [trimSpace s.part], part := [] }
    else splitHTTPListLoop rest { s with part := s.part ++ [b] }

def splitHTTPList (value : Bytes) : Option (List Bytes) :=
  if value.length > 4096 then none
  else
    match splitHTTPListLoop value ⟨[], [], false, false⟩ with
    | none => none
    | some s =>
      if s.quoted ∨ s.escaped ∨ trimSpace s.part = [] then none
      else some (s.parts ++ [trimSpace s.part])

/-- `strings.EqualFold` with the media type, for the ASCII texts that the library returns. -/
def isDNSMediaType (mediaType : Bytes) : Bool := asciiLower mediaType == dnsMediaType

def acceptsRanges : List Bytes → Bool
  | [] => false
  | current :: rest =>
    match lib.parseMediaType current with
    | none => false
    | some (mediaType, parameters) =>
      match ((parameters.find? (·.1 == ascii "q")).map fun q => lib.parseQuality q.2).getD
          (some true) with
      | none => false
      | some positive =>
        if positive ∧ (isDNSMediaType mediaType ∨ mediaType = ascii "application/*" ∨
            mediaType = ascii "*/*") then true
        else acceptsRanges rest

def acceptsDNSMessage (value : Bytes) : Bool :=
  if trimSpace value = [] then true
  else
    match splitHTTPList value with
    | none => false
    | some ranges => acceptsRanges lib ranges

/-- `base64.RawURLEncoding.Strict().DecodeString`, by the decoder with padding. -/
def decodeRawURL (s : Bytes) : Option Bytes :=
  let s := s.filter fun b => !Base64.isLineEnd b
  if ch '+' ∈ s ∨ ch '/' ∈ s ∨ Base64.pad ∈ s then none
  else
    let standard := s.map fun b => if b = ch '-' then ch '+' else if b = ch '_' then ch '/' else b
    match standard.length % 4 with
    | 0 => Base64.decodeGroups standard
    | 2 => Base64.decodeGroups (standard ++ [Base64.pad, Base64.pad])
    | 3 => Base64.decodeGroups (standard ++ [Base64.pad])
    | _ => none

/-- The DNS message of a request. -/
def requestWire (request : HTTPRequest) : Except Err Bytes :=
  if request.method = ascii "GET" then
    if request.contentType ≠ [] ∨ request.body ≠ [] ∨ ¬ ascii "dns=" <+: request.query ∨
        ch '&' ∈ request.query ∨ request.query.length = 4 then .error .invalidRequest
    else if ch '=' ∈ request.query.drop 4 then .error .invalidRequest
    else
      match decodeRawURL (request.query.drop 4) with
      | none => .error .invalidRequest
      | some decoded => .ok decoded
  else if request.method = ascii "POST" then
    match lib.parseMediaType request.contentType with
    | none => .error .unsupportedMediaType
    | some (mediaType, parameters) =>
      if request.query ≠ [] ∨ !isDNSMediaType mediaType ∨ parameters ≠ [] then
        .error .unsupportedMediaType
      else .ok request.body
  else .error .invalidRequest

def parseHTTPRequest (request : HTTPRequest) : Except Err ParsedQuery :=
  if !acceptsDNSMessage lib request.accept then .error .unsupportedMediaType
  else do
    let wire ← requestWire lib request
    if wire.length > maxDNSRequestBytes then .error .requestTooLarge
    else parseDNSQuery wire

/-! ## The client subnet -/

def parseForwardedForIP (value : Bytes) : Option Bytes :=
  if [ch '['] <+: value then
    match splitHostPort value with
    | some (host, _) => parseIP host
    | none =>
      let host := value.drop 1
      parseIP (if [ch ']'] <:+ host then host.dropLast else host)
  else
    match parseIP value with
    | some ip => some ip
    | none =>
      match splitHostPort value with
      | none => none
      | some (host, _) => parseIP host

/-- `strings.Trim` of quotes. -/
def trimQuotes (s : Bytes) : Bytes :=
  ((s.dropWhile (· == ch '"')).reverse.dropWhile (· == ch '"')).reverse

/-- The `for` of the items; `none` when it is given twice. -/
def forwardedFor : List Bytes → Bytes → Option Bytes
  | [], forValue => some forValue
  | item :: rest, forValue =>
    let item := trimSpace item
    match indexByte item (ch '=') with
    | none => forwardedFor rest forValue
    | some i =>
      if asciiLower (item.take i) ≠ ascii "for" then forwardedFor rest forValue
      else if forValue ≠ [] then none
      else forwardedFor rest (trimQuotes (item.drop (i + 1)))

def parseForwardedFor (value : Bytes) : Option Bytes :=
  if value = [] ∨ ch ',' ∈ value then none
  else
    match forwardedFor (value.splitOn (ch ';')) [] with
    | none => none
    | some forValue => if forValue = [] then none else parseForwardedForIP forValue

/-- Whole bytes of a prefix; both prefixes in use are multiples of eight. -/
def truncateIP (ip : Bytes) (bits : Nat) : Bytes := ip.take ((bits + 7) / 8)

/-- The family, the prefix and the address of the option. -/
def ecsAddress (ip : Bytes) : Nat × Nat × Bytes :=
  match to4 ip with
  | some v4 => (1, 24, truncateIP v4 24)
  | none => (2, 56, truncateIP ip 56)

def encodeECSOption (ip : Bytes) : Bytes :=
  let (family, bits, addr) := ecsAddress ip
  beBytes 2 ednsOptionECS ++ beBytes 2 (4 + addr.length) ++ beBytes 2 family ++
    [UInt8.ofNat bits, 0] ++ addr

def encodeOPT (option : Bytes) : Bytes :=
  [0, 0, 41, 0x04, 0xd0, 0, 0, 0, 0] ++ beBytes 2 option.length ++ option

def injectECS (wire ip : Bytes) : Except Err Bytes :=
  if wire.length < 12 then .error .invalidDNSMessage
  else
    let option := encodeECSOption ip
    if uint16At wire 10 = 0 then
      let result := wire ++ encodeOPT option
      if result.length > maxDNSRequestBytes then .error .requestTooLarge
      else .ok (putUint16 result 10 1)
    else
      match parseQuestionName wire 12 with
      | .error _ => .error .invalidDNSMessage
      | .ok (questionEnd, _) =>
        if questionEnd + 4 + 11 > wire.length ∨ wire[questionEnd + 4]? ≠ some 0 then
          .error .invalidDNSMessage
        else
          let rdlengthOff := questionEnd + 4 + 9
          let rdlength := uint16At wire rdlengthOff
          if rdlengthOff + 2 + rdlength ≠ wire.length then .error .invalidDNSMessage
          else
            let result := wire ++ option
            if result.length > maxDNSRequestBytes then .error .requestTooLarge
            else .ok (putUint16 result rdlengthOff (rdlength + option.length))

/-- The message for the upstream, and where its client subnet is from. -/
def applyOutboundECS (query : ParsedQuery) (forwarded : Option Bytes) : Bytes × Bytes :=
  if query.hasECS then (query.wire, ascii "query")
  else
    match forwarded with
    | none => (query.wire, ascii "none")
    | some ip =>
      match injectECS query.wire ip with
      | .error _ => (query.wire, ascii "none")
      | .ok injected => (injected, ascii "forwarded:" ++ ipString ip)

/-! ## The key of the cache -/

/-- `query.key + ":" + ecsSource`. -/
def cacheKey (query : ParsedQuery) (ecsSource : Bytes) : Bytes :=
  hexEncode (lib.sha256 query.normalized) ++ ch ':' :: ecsSource

variable {lib}

theorem cacheKey_ne_nil (query : ParsedQuery) (ecsSource : Bytes) :
    cacheKey lib query ecsSource ≠ [] := by
  simp [cacheKey]

variable (lib) in
/-- The digests of the queries of two requests are different, unless the queries are the same
up to the id and the case of the name. -/
def DigestsTell (request request' : HTTPRequest) : Prop :=
  ∀ query query', parseHTTPRequest lib request = .ok query →
    parseHTTPRequest lib request' = .ok query' →
    lib.sha256 query.normalized = lib.sha256 query'.normalized →
    query.normalized = query'.normalized

/-- The key tells the digest of the query, and the source of the client subnet. -/
theorem cacheKey_inj {query query' : ParsedQuery} {ecsSource ecsSource' : Bytes}
    (h : cacheKey lib query ecsSource = cacheKey lib query' ecsSource') :
    lib.sha256 query.normalized = lib.sha256 query'.normalized ∧ ecsSource = ecsSource' := by
  have hcolon : ∀ s, ch ':' ∉ hexEncode s := by
    intro s hmem
    exact absurd (isHex_of_mem_hexEncode hmem) (by decide)
  unfold cacheKey at h
  have hfirst := congrArg (indexByte · (ch ':')) h
  simp only [indexByte_append (hcolon _)] at hfirst
  obtain ⟨hhex, hrest⟩ := List.append_inj h (by simpa [indexByte] using hfirst)
  exact ⟨hexEncode_injective hhex, (List.cons.inj hrest).2⟩

end NrePlugins.Doh
