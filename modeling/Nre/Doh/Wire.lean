import Nre.Base.GoStrings

/-!
# DNS messages

`rfc8484.go`: what the service reads from a query and from an answer, and how it lowers
the TTLs of an answer that it takes from its cache.

Messages are byte strings, places in them are offsets. A name is a run of labels that
ends with the root or with a pointer to an earlier place; the name of the question may
not be compressed. The loops of the source have the same bounds here: at most 128 labels
of a name, and as many records as the header announces.
-/

namespace NrePlugins.Doh

inductive Err where
  | invalidRequest
  | unsupportedMediaType
  | requestTooLarge
  | responseTooLarge
  | invalidDNSMessage
  | responseMismatch
  | concurrencyExhausted
  | noHealthyUpstream
  | upstreamFailed
  | clockUnavailable
  | cacheUnavailable
  | revoked
  | canceled
  | deadlineExceeded
  /-- Any other error of a resolver. -/
  | other (code : Nat)
  deriving DecidableEq

def maxDNSRequestBytes : Nat := 4096

def maxDNSResponseBytes : Nat := 65535

/-! ## Numbers in a message -/

variable (wire : Bytes)

def uint16At (i : Nat) : Nat := readBE (slice wire i (i + 2))

def uint32At (i : Nat) : Nat := readBE (slice wire i (i + 4))

/-- Overwrite the bytes from `i` on. -/
def putAt (i : Nat) (text : Bytes) : Bytes :=
  wire.take i ++ text ++ wire.drop (i + text.length)

def putUint16 (i v : Nat) : Bytes := putAt wire i (beBytes 2 v)

def putUint32 (i v : Nat) : Bytes := putAt wire i (beBytes 4 v)

/-! ## Names -/

/-- `parseQuestionName` with `labels` turns left: the end of the name, and the name with
lower case letters. -/
def parseQuestionNameLoop (wire : Bytes) : Nat → Nat → Bytes → Except Err (Nat × Bytes)
  | 0, _, _ => .error .invalidDNSMessage
  | labels + 1, offset, canonical =>
    match wire[offset]? with
    | none => .error .invalidDNSMessage
    | some length =>
      if length.toNat &&& 0xc0 ≠ 0 ∨ length.toNat > 63 then .error .invalidDNSMessage
      else if length.toNat = 0 then
        if (canonical ++ [length]).length > 255 then .error .invalidDNSMessage
        else .ok (offset + 1, canonical ++ [length])
      else if offset + 1 + length.toNat > wire.length ∨
          (canonical ++ [length]).length + length.toNat > 255 then .error .invalidDNSMessage
      else
        parseQuestionNameLoop wire labels (offset + 1 + length.toNat)
          (canonical ++ [length] ++
            asciiLower (slice wire (offset + 1) (offset + 1 + length.toNat)))

def parseQuestionName (offset : Nat) : Except Err (Nat × Bytes) :=
  parseQuestionNameLoop wire 128 offset []

/-- `skipDNSName` with `labels` turns left. `consumedEnd` is the end of the name once a
pointer has been followed. -/
def skipDNSNameLoop (wire : Bytes) :
    Nat → Nat → Option Nat → Nat → List Nat → Except Err Nat
  | 0, _, _, _, _ => .error .invalidDNSMessage
  | labels + 1, offset, consumedEnd, expanded, visited =>
    if offset < 12 ∨ offset ∈ visited then .error .invalidDNSMessage
    else
      match wire[offset]? with
      | none => .error .invalidDNSMessage
      | some length =>
        if length.toNat &&& 0xc0 = 0xc0 then
          if offset + 1 ≥ wire.length then .error .invalidDNSMessage
          else
            let pointer := uint16At wire offset &&& 0x3fff
            if pointer < 12 ∨ pointer ≥ offset then .error .invalidDNSMessage
            else
              skipDNSNameLoop wire labels pointer (some (consumedEnd.getD (offset + 2))) expanded
                (offset :: visited)
        else if length.toNat &&& 0xc0 ≠ 0 ∨ length.toNat > 63 ∨
            offset + 1 + length.toNat > wire.length then .error .invalidDNSMessage
        else if expanded + (length.toNat + 1) > 255 then .error .invalidDNSMessage
        else if length.toNat = 0 then .ok (consumedEnd.getD (offset + 1))
        else
          skipDNSNameLoop wire labels (offset + 1 + length.toNat) consumedEnd
            (expanded + (length.toNat + 1)) (offset :: visited)

def skipDNSName (offset : Nat) : Except Err Nat :=
  skipDNSNameLoop wire 128 offset none 0 []

/-! ## Queries -/

/-- The options of an OPT record, from `rdataStart` to `rdataEnd`. -/
def validateOptions (wire : Bytes) (rdataEnd : Nat) : Nat → Nat → Except Err Unit
  | 0, _ => .error .invalidDNSMessage
  | turns + 1, rdataStart =>
    if rdataStart < rdataEnd then
      if rdataStart + 4 > rdataEnd then .error .invalidDNSMessage
      else
        let optionLength := uint16At wire (rdataStart + 2)
        if rdataStart + 4 + optionLength > rdataEnd then .error .invalidDNSMessage
        else validateOptions wire rdataEnd turns (rdataStart + 4 + optionLength)
    else .ok ()

def validateEDNSQuery (offset : Nat) : Except Err Unit :=
  if offset + 11 > wire.length ∨ wire[offset]? ≠ some 0 then .error .invalidDNSMessage
  else
    let next := offset + 1
    if uint16At wire next ≠ 41 then .error .invalidDNSMessage
    else if uint32At wire (next + 4) &&& 0xffff7fff ≠ 0 then .error .invalidDNSMessage
    else
      let rdataEnd := next + 10 + uint16At wire (next + 8)
      if rdataEnd ≠ wire.length then .error .invalidDNSMessage
      else validateOptions wire rdataEnd (wire.length + 1) (next + 10)

/-- The options are searched for a code. -/
def hasOption (wire : Bytes) (rdataEnd code : Nat) : Nat → Nat → Bool
  | 0, _ => false
  | turns + 1, rdataStart =>
    if rdataStart < rdataEnd then
      if rdataStart + 4 > rdataEnd then false
      else if uint16At wire rdataStart = code then true
      else hasOption wire rdataEnd code turns (rdataStart + 4 + uint16At wire (rdataStart + 2))
    else false

def ednsHasOption (offset code : Nat) : Bool :=
  if offset + 11 > wire.length ∨ wire[offset]? ≠ some 0 then false
  else
    let next := offset + 1
    let rdataEnd := next + 10 + uint16At wire (next + 8)
    if rdataEnd > wire.length then false
    else hasOption wire rdataEnd code (wire.length + 1) (next + 10)

def ednsOptionECS : Nat := 8

/-- `parsedQuery`; the key is the digest of `normalized`, in hexadecimal. -/
structure ParsedQuery where
  wire : Bytes
  normalized : Bytes
  question : Bytes
  id : Nat
  hasECS : Bool

/-- The message without its id, and its name in lower case. -/
def normalizeQuery (questionEnd : Nat) (canonicalName : Bytes) : Bytes :=
  putAt (putAt wire 0 [0, 0]) 12 (canonicalName.take (questionEnd - 12))

def parseDNSQuery : Except Err ParsedQuery :=
  if wire.length < 17 then .error .invalidDNSMessage
  else
    let flags := uint16At wire 2
    let additionalCount := uint16At wire 10
    if flags &&& 0x8000 ≠ 0 ∨ flags &&& 0x7800 ≠ 0 ∨ uint16At wire 4 ≠ 1 ∨ uint16At wire 6 ≠ 0 ∨
        uint16At wire 8 ≠ 0 ∨ additionalCount > 1 then .error .invalidDNSMessage
    else
      match parseQuestionName wire 12 with
      | .error _ => .error .invalidDNSMessage
      | .ok (questionEnd, canonicalName) =>
        if questionEnd + 4 > wire.length then .error .invalidDNSMessage
        else
          let qtype := uint16At wire questionEnd
          let qclass := uint16At wire (questionEnd + 2)
          if qtype = 0 ∨ qclass ≠ 1 then .error .invalidDNSMessage
          else if additionalCount = 0 ∧ questionEnd + 4 ≠ wire.length then
            .error .invalidDNSMessage
          else do
            if additionalCount = 1 then
              validateEDNSQuery wire (questionEnd + 4)
            let normalized := normalizeQuery wire questionEnd canonicalName
            return { wire, normalized, question := slice normalized 12 (questionEnd + 4),
                     id := uint16At wire 0,
                     hasECS := additionalCount = 1 ∧
                       ednsHasOption wire (questionEnd + 4) ednsOptionECS }

/-! ## Records -/

structure ResourceRecord where
  rrType : Nat
  rrClass : Nat
  ttl : Nat
  ttlOffset : Nat
  rdataStart : Nat
  rdataEnd : Nat

def parseResourceRecord (offset : Nat) : Except Err ResourceRecord :=
  match skipDNSName wire offset with
  | .error _ => .error .invalidDNSMessage
  | .ok next =>
    if next + 10 > wire.length then .error .invalidDNSMessage
    else
      let rdataStart := next + 10
      let rdataEnd := next + 10 + uint16At wire (next + 8)
      if rdataEnd > wire.length then .error .invalidDNSMessage
      else
        .ok { rrType := uint16At wire next, rrClass := uint16At wire (next + 2),
              ttl := uint32At wire (next + 4), ttlOffset := next + 4, rdataStart, rdataEnd }

def parseSOAMinimum (start stop : Nat) : Except Err Nat :=
  if stop > wire.length ∨ start ≥ stop then .error .invalidDNSMessage
  else
    match skipDNSName wire start with
    | .error _ => .error .invalidDNSMessage
    | .ok next =>
      if next > stop then .error .invalidDNSMessage
      else
        match skipDNSName wire next with
        | .error _ => .error .invalidDNSMessage
        | .ok next =>
          if next + 20 ≠ stop then .error .invalidDNSMessage
          else .ok (uint32At wire (stop - 4))

/-- The counts of the three sections after the question. -/
structure Counts where
  answers : Nat
  authorities : Nat
  additionals : Nat

def Counts.total (c : Counts) : Nat := c.answers + c.authorities + c.additionals

def countsOf : Counts :=
  ⟨uint16At wire 6, uint16At wire 8, uint16At wire 10⟩

/-- A record of the authority section that is an SOA. -/
def Counts.isSOA (c : Counts) (index : Nat) (record : ResourceRecord) : Prop :=
  c.answers ≤ index ∧ index < c.answers + c.authorities ∧ record.rrType = 6

instance (c : Counts) (index : Nat) (record : ResourceRecord) :
    Decidable (c.isSOA index record) := inferInstanceAs (Decidable (_ ∧ _))

/-! ## Answers -/

structure ResponseMetadata where
  ttl : Nat
  cacheable : Bool
  negative : Bool

/-- What the loop over the records has seen. -/
structure Seen where
  offset : Nat
  /-- The least TTL of an answer, if there was one. -/
  answer : Option Nat
  /-- The least TTL of a negative answer, if there was an SOA. -/
  negative : Option Nat

/-- The smaller of a value and what was seen before. -/
def least (before : Option Nat) (value : Nat) : Option Nat :=
  match before with
  | none => some value
  | some b => if value < b then some value else some b

def scanRecord (c : Counts) (index : Nat) (seen : Seen) : Except Err Seen :=
  match parseResourceRecord wire seen.offset with
  | .error _ => .error .invalidDNSMessage
  | .ok record =>
    if index < c.answers + c.authorities ∧ record.rrClass ≠ 1 then .error .invalidDNSMessage
    else
      let answer := if index < c.answers then least seen.answer record.ttl else seen.answer
      if c.isSOA index record then
        match parseSOAMinimum wire record.rdataStart record.rdataEnd with
        | .error _ => .error .invalidDNSMessage
        | .ok minimum =>
          .ok ⟨record.rdataEnd, answer, least seen.negative
            (if minimum < record.ttl then minimum else record.ttl)⟩
      else .ok ⟨record.rdataEnd, answer, seen.negative⟩

def scanRecords (wire : Bytes) (c : Counts) : Nat → Nat → Seen → Except Err Seen
  | 0, _, seen => .ok seen
  | remaining + 1, index, seen => do
    let seen ← scanRecord wire c index seen
    scanRecords wire c remaining (index + 1) seen

/-- What the records say about caching. -/
def metadataOf (rcode answerCount : Nat) (seen : Seen) : Except Err ResponseMetadata :=
  if rcode = 0 ∧ answerCount > 0 then
    match seen.answer with
    | none => .error .invalidDNSMessage
    | some ttl => .ok ⟨ttl, decide (ttl > 0), false⟩
  else if rcode = 0 ∧ answerCount = 0 ∨ rcode = 3 then
    match seen.negative with
    | none => .error .invalidDNSMessage
    | some ttl => .ok ⟨ttl, decide (ttl > 0), true⟩
  else .error .upstreamFailed

/-- The result has the id zero. -/
def validateDNSResponse (query : ParsedQuery) (wire : Bytes) :
    Except Err (ResponseMetadata × Bytes) :=
  if wire.length > maxDNSResponseBytes then .error .responseTooLarge
  else if wire.length < 17 ∨ uint16At wire 0 ≠ query.id then .error .responseMismatch
  else
    let flags := uint16At wire 2
    if flags &&& 0x8000 = 0 ∨ flags &&& 0x7800 ≠ 0 ∨ uint16At wire 4 ≠ 1 then
      .error .invalidDNSMessage
    else
      match parseQuestionName wire 12 with
      | .error _ => .error .invalidDNSMessage
      | .ok (questionEnd, canonicalName) =>
        if questionEnd + 4 > wire.length then .error .invalidDNSMessage
        else if canonicalName ++ slice wire questionEnd (questionEnd + 4) ≠ query.question then
          .error .responseMismatch
        else do
          let c := countsOf wire
          let seen ← scanRecords wire c c.total 0 ⟨questionEnd + 4, none, none⟩
          if seen.offset ≠ wire.length then .error .invalidDNSMessage
          else
            let metadata ← metadataOf (flags &&& 0x000f) c.answers seen
            return (metadata, putAt wire 0 [0, 0])

/-! ## Answers from the cache -/

/-- Lower the TTL of one record, and the minimum of an SOA. -/
def clampRecord (c : Counts) (limit index : Nat) (result : Bytes) (record : ResourceRecord) :
    Except Err Bytes :=
  let result :=
    if record.rrType ≠ 41 ∧ record.ttl > limit then putUint32 result record.ttlOffset limit
    else result
  if c.isSOA index record then do
    let minimum ← parseSOAMinimum result record.rdataStart record.rdataEnd
    if minimum > limit then return putUint32 result (record.rdataEnd - 4) limit
    else return result
  else return result

/-- The records are read from the message that is being changed. -/
def clampRecords (c : Counts) (limit : Nat) : Nat → Nat → Nat → Bytes → Except Err (Nat × Bytes)
  | 0, _, offset, result => .ok (offset, result)
  | remaining + 1, index, offset, result => do
    let record ← parseResourceRecord result offset
    let result ← clampRecord c limit index result record
    clampRecords c limit remaining (index + 1) record.rdataEnd result

def clampDNSResponseTTLs (limit : Nat) : Except Err Bytes :=
  if wire.length < 17 then .error .invalidDNSMessage
  else
    match parseQuestionName wire 12 with
    | .error _ => .error .invalidDNSMessage
    | .ok (questionEnd, _) =>
      if questionEnd + 4 > wire.length then .error .invalidDNSMessage
      else do
        let c := countsOf wire
        let (offset, result) ← clampRecords c limit c.total 0 (questionEnd + 4) wire
        if offset ≠ result.length then .error .invalidDNSMessage
        else return result

def responseWithID (normalized : Bytes) (id : Nat) : Bytes :=
  if normalized.length < 2 then [] else putUint16 normalized 0 id

end NrePlugins.Doh
