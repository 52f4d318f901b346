import Nre.PolicyGuest.Messages

/-!
# Host calls

Model of `host.rs` and of `pack_host_result`, `unpack_host_result` of `lib.rs`. A
`HostTransport` is any host: it sees an import, the request and the response buffer,
writes into the buffer and returns a packed status and length. `HostClient` bounds
what it may do.

The operations are computations over the client (`EStateM`), which keep the client
when they fail, as `&mut self` does.

`datasetQuery_ok` is the one inversion the runtimes need: an answer that is returned was
decoded, and passed the check against the query.
-/

namespace NrePlugins.PolicyGuest

variable {σ α β ε : Type} {requestBytes responseBytes : Nat}

/-! ## Packed results -/

/-- `pack_host_result`. -/
def packHostResult (status : AbiStatus) (length : Nat) : UInt64 :=
  UInt64.ofNat (status.toU32 * 2 ^ 32 + length % 2 ^ 32)

/-- `unpack_host_result`. -/
def unpackHostResult (packed : UInt64) : Except GuestError (AbiStatus × Nat) :=
  match AbiStatus.fromU32 (packed.toNat / 2 ^ 32) with
  | some status => .ok (status, packed.toNat % 2 ^ 32)
  | none => .error ⟨.internal, .unknownHostStatus⟩

/-! ## Clients -/

inductive HostImport where
  | readField | readNormalizedHttp | readTrustedSource | datasetQuery | datasetResolve
  | readBodyWindow | stateGet | statePut | emitEvent | addMetric
  deriving DecidableEq

/-- `permits_response_growth_retry`. -/
def HostImport.permitsResponseGrowthRetry : HostImport → Bool
  | readField | readNormalizedHttp | readTrustedSource | datasetQuery | datasetResolve
  | readBodyWindow | stateGet => true
  | statePut | emitEvent | addMetric => false

/-- `HostTransport`: a host with a state of its own. It is given the import, the request
and the response buffer, and returns the packed result and the bytes it writes from the
start of the buffer on; what does not fit the buffer is not written. -/
structure HostTransport (σ : Type) where
  call : σ → HostImport → Bytes → Bytes → (UInt64 × Bytes) × σ

structure HostLimits where
  maxCalls : Nat
  initialResponseBytes : Nat
  responseWire : WireLimits

def HostLimits.new (maxCalls initialResponseBytes : Nat) : HostLimits :=
  ⟨maxCalls, initialResponseBytes, .policyOutput⟩

/-- `HostClient<H, REQUEST_BYTES, RESPONSE_BYTES>`. The request buffer is not kept: every
operation writes it anew before it is sent. -/
structure HostClient (σ : Type) (requestBytes responseBytes : Nat) where
  transport : σ
  response : Bytes
  limits : HostLimits
  calls : Nat
  size : response.length = responseBytes

/-- An operation of a client. -/
abbrev ClientM (σ : Type) (requestBytes responseBytes : Nat) (ε α : Type) :=
  EStateM ε (HostClient σ requestBytes responseBytes) α

/-- A pure step of an operation. -/
def liftExcept : Except ε α → ClientM σ requestBytes responseBytes ε α
  | .ok a => pure a
  | .error e => throw e

def responseExhausted : GuestError := ⟨.resourceExhausted, .hostResponseBudgetExceeded⟩

/-- `host_status_error`. -/
def hostStatusError (status : AbiStatus) : GuestError :=
  ⟨status, match status with
    | .ok => .hostInternal
    | .invalidArgument => .hostInvalidArgument
    | .permissionDenied => .hostPermissionDenied
    | .resourceExhausted => .hostResourceExhausted
    | .deadlineExceeded => .hostDeadlineExceeded
    | .unavailable => .hostUnavailable
    | .incompatibleAbi => .hostIncompatibleAbi
    | .internal => .hostInternal⟩

/-- The buffer after a host has written its first bytes. -/
def overwrite (buffer written : Bytes) : Bytes := written ++ buffer.drop written.length

theorem length_overwrite {buffer written : Bytes} (h : written.length ≤ buffer.length) :
    (overwrite buffer written).length = buffer.length := by
  rw [overwrite, List.length_append, List.length_drop]
  omega

namespace HostClient

def new (requestBytes responseBytes : Nat) (transport : σ) (limits : HostLimits) :
    Except GuestError (HostClient σ requestBytes responseBytes) :=
  if requestBytes = 0 ∨ responseBytes = 0 ∨ maxInputFrameBytes < requestBytes ∨
      maxOutputFrameBytes < responseBytes ∨ limits.maxCalls = 0 ∨
      limits.initialResponseBytes = 0 ∨ responseBytes < limits.initialResponseBytes ∨
      limits.responseWire.maxFrameBytes < responseBytes then
    .error ⟨.invalidArgument, .invalidResourceBudget⟩
  else .ok ⟨transport, List.replicate responseBytes 0, limits, 0, List.length_replicate⟩

/-- The client after the host has been called. -/
def called (c : HostClient σ requestBytes responseBytes) (capacity : Nat)
    (hcapacity : capacity ≤ responseBytes) (written : Bytes) (transport : σ) :
    HostClient σ requestBytes responseBytes where
  transport := transport
  response := overwrite c.response (written.take capacity)
  limits := c.limits
  calls := c.calls + 1
  size := by
    rw [length_overwrite, c.size]
    rw [c.size, List.length_take]
    omega

variable (t : HostTransport σ) (imp : HostImport)

/-- `call_once`. -/
def callOnce (request : Bytes) (capacity : Nat) :
    ClientM σ requestBytes responseBytes GuestError (AbiStatus × Nat) := fun c =>
  if c.limits.maxCalls ≤ c.calls then .error ⟨.resourceExhausted, .hostCallBudgetExceeded⟩ c
  else if requestBytes < request.length then .error responseExhausted { c with calls := c.calls + 1 }
  else if hcapacity : capacity ≤ responseBytes then
    let answer := t.call c.transport imp request (c.response.take capacity)
    let c' := c.called capacity hcapacity answer.1.2 answer.2
    match unpackHostResult answer.1.1 with
    | .error e => .error e c'
    | .ok (status, length) =>
      if status = .ok ∧ capacity < length then .error responseExhausted c'
      else .ok (status, length) c'
  else .error responseExhausted { c with calls := c.calls + 1 }

/-- The second call of `invoke`, with the buffer the host asks for, when the import
allows it. -/
def retryGrown (request : Bytes) (limits : HostLimits) (first : AbiStatus × Nat) :
    ClientM σ requestBytes responseBytes GuestError (AbiStatus × Nat) :=
  if imp.permitsResponseGrowthRetry ∧ first.1 = .resourceExhausted ∧
      limits.initialResponseBytes < first.2 then
    if responseBytes < first.2 ∨ limits.responseWire.maxFrameBytes < first.2 then
      throw responseExhausted
    else callOnce t imp request first.2
  else pure first

/-- The length `invoke` returns for the result of the last call. -/
def writtenLength (last : AbiStatus × Nat) : ClientM σ requestBytes responseBytes GuestError Nat :=
  if last.1 ≠ .ok then throw (hostStatusError last.1)
  else if responseBytes < last.2 then throw responseExhausted
  else pure last.2

/-- `invoke`. -/
def invoke (request : Bytes) : ClientM σ requestBytes responseBytes GuestError Nat := do
  let limits := (← get).limits
  let first ← callOnce t imp request limits.initialResponseBytes
  let last ← retryGrown t imp request limits first
  writtenLength last

/-- The response an operation decodes. -/
def responseBytesOf (length : Nat) : ClientM σ requestBytes responseBytes GuestError Bytes := do
  let c ← get
  if length ≤ responseBytes then return c.response.take length else throw responseExhausted

/-- The common end of the reading operations. -/
def readResponse (request : Bytes) (decode : Bytes → WireLimits → Except GuestError α) :
    ClientM σ requestBytes responseBytes GuestError α := do
  let length ← invoke t imp request
  let response ← responseBytesOf length
  liftExcept (decode response (← get).limits.responseWire)

/-- `read_trusted_source`. -/
def readTrustedSource : ClientM σ requestBytes responseBytes GuestError
    PolicyTrustedSourceResponse :=
  readResponse t .readTrustedSource [] PolicyTrustedSourceResponse.decode

/-- `dataset_resolve`. -/
def datasetResolve (request : DatasetResolveRequest) :
    ClientM σ requestBytes responseBytes GuestError DatasetResolveResponse := do
  let frame ← liftExcept (request.encode requestBytes)
  let decoded ← readResponse t .datasetResolve frame DatasetResolveResponse.decode
  if decoded.value.any (·.sourceId != request.sourceId) then throw invalidWire
  else return decoded

/-- `dataset_query`. -/
def datasetQuery (request : DatasetQueryRequest) :
    ClientM σ requestBytes responseBytes GuestError DatasetQueryResponse := do
  let frame ← liftExcept (request.encode requestBytes)
  readResponse t .datasetQuery frame fun response limits => do
    let decoded ← DatasetQueryResponse.decode response limits
    decoded.validateFor request

/-- `invoke_empty`. -/
def invokeEmpty (request : Bytes) : ClientM σ requestBytes responseBytes GuestError Unit := do
  let length ← invoke t imp request
  if length ≠ 0 then throw invalidWire else return ()

/-- `encode_one_string`. -/
def encodeOneString (capacity number : Nat) (value : Str) : Except GuestError Bytes := do
  let w ← (FrameWriter.new capacity).writeBytesField number value.bytes
  return w.written

/-- `read_field`. -/
def readField (name : Str) : ClientM σ requestBytes responseBytes GuestError BytesResponse := do
  let frame ← liftExcept (encodeOneString requestBytes 1 name)
  readResponse t .readField frame BytesResponse.decode

/-- `read_normalized_http`. -/
def readNormalizedHttp : ClientM σ requestBytes responseBytes GuestError NormalizedHttpResponse :=
  readResponse t .readNormalizedHttp [] NormalizedHttpResponse.decode

/-- Two integers as the fields 1 and 2. -/
def encodeVarints (capacity first second : Nat) : Except GuestError Bytes := do
  let w ← (FrameWriter.new capacity).writeVarintField 1 first
  let w ← w.writeVarintField 2 second
  return w.written

/-- `read_body_window`. -/
def readBodyWindow (offset length : UInt32) :
    ClientM σ requestBytes responseBytes GuestError BytesResponse := do
  let frame ← liftExcept (encodeVarints requestBytes offset.toNat length.toNat)
  readResponse t .readBodyWindow frame BytesResponse.decode

/-- `state_get`. -/
def stateGet (key : Str) : ClientM σ requestBytes responseBytes GuestError BytesResponse := do
  let frame ← liftExcept (encodeOneString requestBytes 1 key)
  readResponse t .stateGet frame BytesResponse.decode

/-- The request of `state_put`. -/
def encodeStatePut (capacity : Nat) (key : Str) (value : Bytes) : Except GuestError Bytes := do
  let w ← (FrameWriter.new capacity).writeBytesField 1 key.bytes
  let w ← w.writeBytesField 2 value
  return w.written

/-- `state_put`. -/
def statePut (key : Str) (value : Bytes) :
    ClientM σ requestBytes responseBytes GuestError Unit := do
  let frame ← liftExcept (encodeStatePut requestBytes key value)
  invokeEmpty t .statePut frame

/-- `emit_event`. -/
def emitEvent (code : SecurityEventCode) (action : SecurityEventAction) :
    ClientM σ requestBytes responseBytes GuestError Unit := do
  let frame ← liftExcept (encodeVarints requestBytes code.toU32 action.toU32)
  invokeEmpty t .emitEvent frame

/-- The request of `add_metric`; `write_sint64_field` writes the sign last. -/
def encodeMetric (capacity : Nat) (name : Str) (delta : Int64) : Except GuestError Bytes := do
  let w ← (FrameWriter.new capacity).writeBytesField 1 name.bytes
  let w ← w.writeVarintField 2 ((delta <<< 1) ^^^ (delta >>> 63)).toUInt64.toNat
  return w.written

/-- `add_metric`. -/
def addMetric (name : Str) (delta : Int64) :
    ClientM σ requestBytes responseBytes GuestError Unit := do
  let frame ← liftExcept (encodeMetric requestBytes name delta)
  invokeEmpty t .addMetric frame

/-- `emit_policy_event`. -/
def emitPolicyEvent (event : PolicySecurityEvent) :
    ClientM σ requestBytes responseBytes GuestError Unit := do
  let frame ← liftExcept (event.encode requestBytes)
  invokeEmpty t .emitEvent frame

end HostClient

/-! ## Steps of an operation -/

variable {c c' : HostClient σ requestBytes responseBytes} {t : HostTransport σ}

namespace ClientM

variable {x : ClientM σ requestBytes responseBytes ε α}
  {f : α → ClientM σ requestBytes responseBytes ε β}

theorem bind_ok {a : α} (h : x c = .ok a c') : (x >>= f) c = f a c' := by
  show EStateM.bind x f c = _
  rw [EStateM.bind, h]

theorem bind_error {e : ε} (h : x c = .error e c') : (x >>= f) c = .error e c' := by
  show EStateM.bind x f c = _
  rw [EStateM.bind, h]

theorem bind_eq_ok {b : β} (h : (x >>= f) c = .ok b c') :
    ∃ a c₁, x c = .ok a c₁ ∧ f a c₁ = .ok b c' := by
  cases hx : x c with
  | ok a c₁ => exact ⟨a, c₁, rfl, (bind_ok hx).symm.trans h⟩
  | error e c₁ => exact nomatch (bind_error hx).symm.trans h

end ClientM

/-! ## What an operation has returned -/

/-- What a reading operation returns was decoded from some frame. -/
theorem HostClient.readResponse_ok {imp : HostImport} {request : Bytes}
    {decode : Bytes → WireLimits → Except GuestError α} {a : α}
    (h : HostClient.readResponse t imp request decode c = .ok a c') :
    ∃ frame limits, decode frame limits = .ok a := by
  obtain ⟨length, c₁, -, h⟩ := ClientM.bind_eq_ok h
  obtain ⟨response, c₂, -, h⟩ := ClientM.bind_eq_ok h
  obtain ⟨client, c₃, -, h⟩ := ClientM.bind_eq_ok h
  refine ⟨response, client.limits.responseWire, ?_⟩
  cases hdecode : decode response client.limits.responseWire with
  | ok b =>
    rw [hdecode] at h
    obtain ⟨rfl, -⟩ := EStateM.Result.ok.inj h
    rfl
  | error e =>
    rw [hdecode] at h
    exact nomatch h

/-- The answer to a query was decoded, and passed the check against the query. -/
theorem HostClient.datasetQuery_ok {query : DatasetQueryRequest} {response : DatasetQueryResponse}
    (h : HostClient.datasetQuery t query c = .ok response c') :
    ∃ frame limits, DatasetQueryResponse.decode frame limits = .ok response ∧
      response.validateFor query = .ok response := by
  obtain ⟨request, c₁, -, h⟩ := ClientM.bind_eq_ok h
  obtain ⟨frame, limits, hdecode⟩ := HostClient.readResponse_ok h
  obtain ⟨decoded, hdecoded, hvalid⟩ := NrePlugins.bind_eq_ok.mp hdecode
  obtain ⟨-, hsame⟩ := ite_error_eq_ok.mp hvalid
  cases hsame
  exact ⟨frame, limits, hdecoded, hvalid⟩

end NrePlugins.PolicyGuest
