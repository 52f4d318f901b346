import Nre.Base.NetIP
import Nre.PolicyGuest.Dataset

/-!
# The other messages of the policy ABI

Model of `source.rs`, `event.rs`, `RuntimeFailure` and `DatasetResolveResponse` of
`dataset.rs`, and the init request of `message.rs`.

A host answers `read_trusted_source` and `dataset_resolve` with a value or with a
`RuntimeFailure`, never with both and never with neither.
-/

namespace NrePlugins.PolicyGuest

/-! ## Failures -/

inductive RuntimeErrorCode where
  | unspecified | invalidArgument | permissionDenied | resourceExhausted | deadlineExceeded
  | unavailable | incompatibleAbi | internal
  deriving DecidableEq

def RuntimeErrorCode.fromU32 : Nat → Option RuntimeErrorCode
  | 0 => some unspecified
  | 1 => some invalidArgument
  | 2 => some permissionDenied
  | 3 => some resourceExhausted
  | 4 => some deadlineExceeded
  | 5 => some unavailable
  | 6 => some incompatibleAbi
  | 7 => some internal
  | _ => none

structure RuntimeFailure where
  code : RuntimeErrorCode
  message : Str
  retryable : Bool

structure FailureSlots where
  code : Option RuntimeErrorCode := none
  message : Option Str := none
  retryable : Option Bool := none

def failureStep (slots : FailureSlots) (field : Field) : Except GuestError FailureSlots :=
  match field.number with
  | 1 => do
    let raw ← asU32 field.value
    let value ← orInvalid ((RuntimeErrorCode.fromU32 raw).filter (· != .unspecified))
    return { slots with code := ← setOnce slots.code value }
  | 2 => do
    let value ← asStr field.value
    return { slots with message := ← setOnce slots.message value }
  | 3 => do
    let value ← asBool field.value
    return { slots with retryable := ← setOnce slots.retryable value }
  | _ => .error invalidWire

variable (frame : Bytes) (limits : WireLimits)

def RuntimeFailure.decode : Except GuestError RuntimeFailure := do
  let slots ← forEachField frame limits {} failureStep
  let code ← orInvalid slots.code
  return ⟨code, slots.message.getD default, slots.retryable.getD false⟩

/-- A response that holds a value or a failure. -/
structure ValueOrFailure (α : Type) where
  value : Option α
  error : Option RuntimeFailure

def valueOrFailureStep {α : Type} (limits : WireLimits)
    (decodeValue : Bytes → WireLimits → Except GuestError α) (slots : ValueOrFailure α)
    (field : Field) : Except GuestError (ValueOrFailure α) :=
  match field.number with
  | 1 => do
    let data ← asBytes field.value
    let value ← decodeValue data limits
    return { slots with value := ← setOnce slots.value value }
  | 2 => do
    let data ← asBytes field.value
    let value ← RuntimeFailure.decode data limits
    return { slots with error := ← setOnce slots.error value }
  | _ => .error invalidWire

/-- The common shape of `DatasetResolveResponse::decode` and
`PolicyTrustedSourceResponse::decode`. -/
def decodeValueOrFailure {α : Type} (decodeValue : Bytes → WireLimits → Except GuestError α)
    (frame : Bytes) (limits : WireLimits) : Except GuestError (ValueOrFailure α) := do
  let slots ← forEachField frame limits ⟨none, none⟩ (valueOrFailureStep limits decodeValue)
  if slots.value.isSome = slots.error.isSome then .error invalidWire else return slots

abbrev DatasetResolveResponse := ValueOrFailure DatasetReference

def DatasetResolveResponse.decode : Except GuestError DatasetResolveResponse :=
  decodeValueOrFailure decodeReference frame limits

/-! ## Trusted sources -/

inductive TrustedSourceAuthority where
  | unspecified | socket | xff | proxy | relay
  deriving DecidableEq

def TrustedSourceAuthority.fromU32 : Nat → Option TrustedSourceAuthority
  | 0 => some unspecified
  | 1 => some socket
  | 2 => some xff
  | 3 => some proxy
  | 4 => some relay
  | _ => none

structure PolicyTrustedSource where
  instanceId : Str
  generation : Str
  entryId : Str
  peerAddress : Bytes
  sourceAddress : Bytes
  authority : TrustedSourceAuthority

/-- `valid_address`. -/
def validAddress (value : Bytes) : Bool :=
  if value = [0, 0, 0, 0] then false
  else if value.length = 4 ∧ value.head?.any (within 224 239) then false
  else if value.length = 16 ∧ value.head? = some 0xff then false
  else if isMapped value then false
  else if value.length = 16 ∧ value.all (· == 0) then false
  else value.length == 4 || value.length == 16

def PolicyTrustedSource.valid (s : PolicyTrustedSource) : Bool :=
  validIdentity s.instanceId && validIdentity s.generation && validIdentity s.entryId &&
    validAddress s.peerAddress && validAddress s.sourceAddress &&
    !(s.authority == .socket && s.peerAddress != s.sourceAddress)

def PolicyTrustedSource.validate (s : PolicyTrustedSource) : Except GuestError Unit :=
  if s.valid then .ok () else .error invalidWire

structure SourceSlots where
  instanceId : Option Str := none
  generation : Option Str := none
  entryId : Option Str := none
  peerAddress : Option Bytes := none
  sourceAddress : Option Bytes := none
  authority : Option TrustedSourceAuthority := none

def sourceStep (slots : SourceSlots) (field : Field) : Except GuestError SourceSlots :=
  match field.number with
  | 1 => do
    let value ← asStr field.value
    return { slots with instanceId := ← setOnce slots.instanceId value }
  | 2 => do
    let value ← asStr field.value
    return { slots with generation := ← setOnce slots.generation value }
  | 3 => do
    let value ← asStr field.value
    return { slots with entryId := ← setOnce slots.entryId value }
  | 4 => do
    let value ← asBytes field.value
    return { slots with peerAddress := ← setOnce slots.peerAddress value }
  | 5 => do
    let value ← asBytes field.value
    return { slots with sourceAddress := ← setOnce slots.sourceAddress value }
  | 6 => do
    let raw ← asU32 field.value
    let value ← orInvalid ((TrustedSourceAuthority.fromU32 raw).filter (· != .unspecified))
    return { slots with authority := ← setOnce slots.authority value }
  | _ => .error invalidWire

/-- `decode_source`. -/
def decodeSource : Except GuestError PolicyTrustedSource := do
  let slots ← forEachField frame limits {} sourceStep
  let instanceId ← orInvalid slots.instanceId
  let generation ← orInvalid slots.generation
  let entryId ← orInvalid slots.entryId
  let peerAddress ← orInvalid slots.peerAddress
  let sourceAddress ← orInvalid slots.sourceAddress
  let authority ← orInvalid slots.authority
  let source : PolicyTrustedSource :=
    ⟨instanceId, generation, entryId, peerAddress, sourceAddress, authority⟩
  source.validate
  return source

abbrev PolicyTrustedSourceResponse := ValueOrFailure PolicyTrustedSource

def PolicyTrustedSourceResponse.decode : Except GuestError PolicyTrustedSourceResponse :=
  decodeValueOrFailure decodeSource frame limits

/-! ## Events -/

/-- The verdict of a policy. -/
inductive PolicyAction where
  | unspecified | allow | deny | observe
  deriving DecidableEq

inductive SecurityEventCode where
  | unspecified | wafRuleMatch | ipRuleMatch | ipCheckFailure | routingRuleMatch | routingFailure
  deriving DecidableEq

inductive SecurityEventAction where
  | unspecified | observe | deny | allow | direct | upstream
  deriving DecidableEq

inductive SecurityEventReason where
  | none | sourceUnauthenticated | datasetUnavailable | classificationMissing | budgetExceeded
  | upstreamUnavailable | upstreamAuthentication | protocolUnsupported | dataInvalid
  | coverageUnknown | revoked
  deriving DecidableEq

inductive PolicyDomainSource where
  | unspecified | original | httpHost | tlsSni | ipOnly | unavailable
  deriving DecidableEq

/-- The four enumerations are declared in the order of their values. -/
def SecurityEventCode.toU32 (c : SecurityEventCode) : Nat := c.ctorIdx

def SecurityEventAction.toU32 (a : SecurityEventAction) : Nat := a.ctorIdx

def SecurityEventReason.toU32 (r : SecurityEventReason) : Nat := r.ctorIdx

def PolicyDomainSource.toU32 (s : PolicyDomainSource) : Nat := s.ctorIdx

structure PolicySecurityEvent where
  code : SecurityEventCode
  action : SecurityEventAction
  ruleIndex : Nat
  datasetIndex : Nat
  classificationIndex : Nat
  outboundIndex : Nat
  reason : SecurityEventReason
  domainSource : PolicyDomainSource

namespace PolicySecurityEvent

/-- The combinations `validate` allows for the event's code. -/
def validForCode (e : PolicySecurityEvent) : Bool :=
  match e.code with
  | .wafRuleMatch =>
    (e.action == .observe || e.action == .deny) && e.reason == .none && e.datasetIndex == 0 &&
      e.classificationIndex == 0 && e.outboundIndex == 0 && e.domainSource == .unspecified
  | .ipRuleMatch =>
    (e.action == .observe || e.action == .deny || e.action == .allow) && e.outboundIndex == 0 &&
      e.domainSource == .unspecified && (e.reason == .none || e.reason == .coverageUnknown)
  | .ipCheckFailure =>
    (e.action == .observe || e.action == .deny) && e.reason != .none && e.outboundIndex == 0 &&
      e.domainSource == .unspecified
  | .routingRuleMatch =>
    (e.action == .deny || e.action == .direct || e.action == .upstream) && e.reason == .none &&
      ((e.action == .upstream) == (e.outboundIndex != 0))
  | .routingFailure => e.action == .deny && e.reason != .none
  | .unspecified => false

def validate (e : PolicySecurityEvent) : Except GuestError Unit :=
  if [e.ruleIndex, e.datasetIndex, e.classificationIndex, e.outboundIndex].any (65535 < ·) ||
      (e.classificationIndex != 0 && e.datasetIndex == 0) || !e.validForCode then
    .error invalidWire
  else .ok ()

/-- A field that is left out when it is zero. -/
def writeNonZero (w : FrameWriter) (number value : Nat) : Except GuestError FrameWriter :=
  if value = 0 then .ok w else w.writeVarintField number value

def encode (e : PolicySecurityEvent) (capacity : Nat) : Except GuestError Bytes := do
  e.validate
  let w := FrameWriter.new capacity
  let w ← w.writeVarintField 1 e.code.toU32
  let w ← w.writeVarintField 2 e.action.toU32
  let w ← writeNonZero w 3 e.ruleIndex
  let w ← writeNonZero w 4 e.datasetIndex
  let w ← writeNonZero w 5 e.classificationIndex
  let w ← writeNonZero w 6 e.outboundIndex
  let w ← writeNonZero w 7 e.reason.toU32
  let w ← writeNonZero w 8 e.domainSource.toU32
  return w.written

end PolicySecurityEvent

/-! ## The init request -/

/-- `GrantedScopes`: the frame is read again for each question. -/
structure GrantedScopes where
  frame : Bytes
  limits : WireLimits

structure InitRequest where
  config : Bytes
  grantedScopes : GrantedScopes
  generation : Str

/-- The config and the generation read so far. -/
def initStep : Option Bytes × Option Str → Field → Except GuestError (Option Bytes × Option Str)
  | (config, generation), field =>
    match field.number with
    | 1 => do
      let value ← asBytes field.value
      return (← setOnce config value, generation)
    | 2 => do
      let _ ← asStr field.value
      return (config, generation)
    | 3 => do
      let value ← asStr field.value
      return (config, ← setOnce generation value)
    | _ => .ok (config, generation)

def InitRequest.decode : Except GuestError InitRequest := do
  let slots ← forEachField frame limits (none, none) initStep
  return ⟨slots.1.getD [], ⟨frame, limits⟩, slots.2.getD default⟩

namespace GrantedScopes

/-- The loop of `contains` over `GrantedScopesIter`; `left` is as in `fieldsLoop`. -/
def containsLoop (expected : Bytes) : Nat → Bytes → Except GuestError Bool
  | _, [] => .ok false
  | 0, _ :: _ => .error fieldBudgetExceeded
  | left + 1, b :: input => do
    let (field, rest) ← readField (b :: input)
    if field.number = 2 then
      let scope ← asStr field.value
      if scope.bytes = expected then return true else containsLoop expected left rest
    else containsLoop expected left rest

def contains (scopes : GrantedScopes) (expected : Bytes) : Except GuestError Bool :=
  if scopes.limits.maxFrameBytes < scopes.frame.length then .ok false
  else containsLoop expected scopes.limits.maxFields scopes.frame

end GrantedScopes

/-! ## Reads -/

/-- `BytesResponse`. -/
structure BytesResponse where
  value : Bytes
  found : Bool

/-- The value and the flag read so far. -/
def bytesStep : Option Bytes × Option Bool → Field → Except GuestError (Option Bytes × Option Bool)
  | (value, found), field =>
    match field.number with
    | 1 => do
      let data ← asBytes field.value
      return (← setOnce value data, found)
    | 2 => do
      let flag ← asBool field.value
      return (value, ← setOnce found flag)
    | _ => .ok (value, found)

def BytesResponse.decode : Except GuestError BytesResponse := do
  let slots ← forEachField frame limits (none, none) bytesStep
  return ⟨slots.1.getD [], slots.2.getD false⟩

/-- `NormalizedHttpResponse`. -/
structure NormalizedHttpResponse where
  path : Bytes
  query : Bytes
  headers : Bytes
  trustedSource : Bytes
  trustedSourceAuthenticated : Bool
  bodyWindowComplete : Bool
  bodyWindowLength : Nat

structure HttpSlots where
  path : Option Bytes := none
  query : Option Bytes := none
  headers : Option Bytes := none
  trustedSource : Option Bytes := none
  trustedSourceAuthenticated : Option Bool := none
  bodyWindowComplete : Option Bool := none
  bodyWindowLength : Option Nat := none

def httpStep (slots : HttpSlots) (field : Field) : Except GuestError HttpSlots :=
  match field.number with
  | 1 => do return { slots with path := ← setOnce slots.path (← asBytes field.value) }
  | 2 => do return { slots with query := ← setOnce slots.query (← asBytes field.value) }
  | 3 => do return { slots with headers := ← setOnce slots.headers (← asBytes field.value) }
  | 4 => do
    return { slots with trustedSource := ← setOnce slots.trustedSource (← asBytes field.value) }
  | 5 => do
    let flag ← asBool field.value
    return { slots with
      trustedSourceAuthenticated := ← setOnce slots.trustedSourceAuthenticated flag }
  | 6 => do
    return { slots with
      bodyWindowComplete := ← setOnce slots.bodyWindowComplete (← asBool field.value) }
  | 7 => do
    return { slots with bodyWindowLength := ← setOnce slots.bodyWindowLength (← asU32 field.value) }
  | _ => .ok slots

def NormalizedHttpResponse.decode : Except GuestError NormalizedHttpResponse := do
  let slots ← forEachField frame limits {} httpStep
  return {
    path := slots.path.getD []
    query := slots.query.getD []
    headers := slots.headers.getD []
    trustedSource := slots.trustedSource.getD []
    trustedSourceAuthenticated := slots.trustedSourceAuthenticated.getD false
    bodyWindowComplete := slots.bodyWindowComplete.getD false
    bodyWindowLength := slots.bodyWindowLength.getD 0 }

end NrePlugins.PolicyGuest
