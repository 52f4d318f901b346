import Nre.IpPolicy.ConfigShape
import Nre.PolicyGuest.Answers
import Nre.PolicyGuest.Host

/-!
# The runtime

Model of `RuntimeState::evaluate` and `query_required` of `runtime.rs`, over any host. The
places where the source reports invalid data because an index lies outside of one of its
arrays fail with a fault of their own, `invalidIndex`; the error that the caller sees is
`Fault.toError`.

- `RuntimeState.evaluateFaults`: the evaluation with its faults, `RuntimeState.evaluate` as
  the caller sees it;
- `judge`: the decision once all answers are there.
-/

namespace NrePlugins.IpPolicy

open PolicyGuest

variable {σ α : Type} (config : Config)

/-! ## Errors -/

structure EvaluationError where
  code : RuntimeErrorCode
  event : PolicySecurityEvent

/-- `map_guest`. -/
def mapGuest (error : GuestError) : RuntimeErrorCode :=
  match error.status with
  | .invalidArgument => .invalidArgument
  | .permissionDenied => .permissionDenied
  | .resourceExhausted => .resourceExhausted
  | .deadlineExceeded => .deadlineExceeded
  | .unavailable => .unavailable
  | .incompatibleAbi => .incompatibleAbi
  | .internal => .internal
  | .ok => .internal

/-- `map_runtime_failure`. -/
def mapRuntimeFailure (code : RuntimeErrorCode) : RuntimeErrorCode :=
  if code = .unspecified then .internal else code

namespace EvaluationError

def new (code : RuntimeErrorCode) (reason : SecurityEventReason) (dataset cls : Nat) :
    EvaluationError :=
  ⟨code, ⟨.ipCheckFailure, .deny, 0, dataset, cls, 0, reason, .unspecified⟩⟩

def host (error : GuestError) : EvaluationError :=
  let reason :=
    match error.reason with
    | .hostResourceExhausted => .budgetExceeded
    | .hostCallBudgetExceeded => .budgetExceeded
    | .hostResponseBudgetExceeded => .budgetExceeded
    | .hostDeadlineExceeded => .budgetExceeded
    | .hostPermissionDenied => .sourceUnauthenticated
    | .invalidWire => .dataInvalid
    | .nonCanonicalWire => .dataInvalid
    | .invalidUtf8 => .dataInvalid
    | _ => .datasetUnavailable
  new (mapGuest error) reason 0 0

def sourceFailure (code : RuntimeErrorCode) : EvaluationError :=
  let reason :=
    match code with
    | .resourceExhausted => .budgetExceeded
    | .deadlineExceeded => .budgetExceeded
    | .invalidArgument => .dataInvalid
    | .internal => .dataInvalid
    | _ => .sourceUnauthenticated
  new (mapRuntimeFailure code) reason 0 0

def sourceUnauthenticated : EvaluationError := new .permissionDenied .sourceUnauthenticated 0 0

def dataInvalid : EvaluationError := new .invalidArgument .dataInvalid 0 0

def coverage (dataset cls : Nat) : EvaluationError := new .unavailable .coverageUnknown dataset cls

def datasetStatus (status : DatasetQueryStatus) (dataset : Nat) : EvaluationError :=
  match status with
  | .missingClassification => new .unavailable .classificationMissing dataset 0
  | .budgetExceeded => new .resourceExhausted .budgetExceeded dataset 0
  | .invalidData => new .internal .dataInvalid dataset 0
  | _ => new .unavailable .datasetUnavailable dataset 0

end EvaluationError

/-- Why an evaluation fails; an index outside of an array is told apart. -/
inductive Fault where
  | invalidIndex
  | error (e : EvaluationError)

/-- The error that is returned. -/
def Fault.toError : Fault → EvaluationError
  | .invalidIndex => .dataInvalid
  | .error e => e

/-- `ok_or_else(EvaluationError::data_invalid)` on a read of an array. -/
def orFault : Option α → Except Fault α
  | some a => .ok a
  | none => .error .invalidIndex

/-! ## Decisions -/

structure Evaluation where
  action : PolicyAction
  event : PolicySecurityEvent

/-- `effective_rules`: the global rules, then those of the overlay, numbered from 1. -/
def effectiveRules (global overlay : List Rule) : List (Nat × Rule) :=
  (global ++ overlay).zipIdx.map fun (rule, index) => (index + 1, rule)

/-- `first_local_match`. -/
def firstLocalMatch (global overlay : List Rule) (address : IpAddress) (effect : RuleEffect) :
    Option (Nat × Rule) :=
  (effectiveRules global overlay).find? fun (_, rule) =>
    rule.action == effect && rule.matchesLocal address

def RuleEffect.toAction : RuleEffect → PolicyAction
  | .allow => .allow
  | .deny => .deny

def RuleEffect.toEventAction : RuleEffect → SecurityEventAction
  | .allow => .allow
  | .deny => .deny

/-- `rule_decision`. -/
def ruleDecision (ruleIndex : Nat) (effect : RuleEffect) (classification : Option Classification) :
    Evaluation :=
  let indices := (classification.map fun c => (c.dataset + 1, c.indexInDataset + 1)).getD (0, 0)
  ⟨effect.toAction,
    ⟨.ipRuleMatch, effect.toEventAction, ruleIndex, indices.1, indices.2, 0, .none, .unspecified⟩⟩

def defaultDecision : Evaluation :=
  ⟨config.defaultAction.toAction,
    ⟨.ipRuleMatch, config.defaultAction.toEventAction, 0, 0, 0, 0, .none, .unspecified⟩⟩

/-- `Lookup::EMPTY`. -/
def emptyLookup : Lookup := ⟨false, .unspecified⟩

/-- The loop over the province whitelist: the province that matches, and else the first
one whose coverage is not known. -/
def provinceLoop (lookups : List Lookup) :
    List Nat → Option Nat → Except Fault (Option Nat × Option Nat)
  | [], unknown => .ok (none, unknown)
  | index :: rest, unknown => do
    let lookup ← orFault lookups[index]?
    if lookup.coverage = .covered ∧ lookup.matched = true then return (some index, unknown)
    else
      provinceLoop lookups rest
        (if lookup.coverage ≠ .covered ∧ unknown.isNone then some index else unknown)

/-- The decision of the province whitelist, if it denies. -/
def judgeProvinces (lookups : List Lookup) : Except Fault (Option Evaluation) := do
  if config.provinceWhitelist = [] then return none
  else
    let (selected, unknown) ← provinceLoop lookups config.provinceWhitelist none
    if selected.isSome then return none
    else
      let first ← orFault config.provinceWhitelist.head?
      let classification ← orFault (config.classificationAt (unknown.getD first))
      return some ⟨.deny, ⟨.ipRuleMatch, .deny, 0, classification.dataset + 1,
        classification.indexInDataset + 1, 0,
        if unknown.isSome then .coverageUnknown else .none, .unspecified⟩⟩

/-- Whether a rule matches, with the answers. -/
def ruleMatches (lookups : List Lookup) (address : IpAddress) (rule : Rule) : Except Fault Bool :=
  match rule.selector with
  | .ip expected => .ok (expected == address)
  | .cidr cidr => .ok (cidr.contains address)
  | .classification index => do
    let classification ← orFault (config.classificationAt index)
    let lookup ← orFault lookups[index]?
    if lookup.coverage ≠ .covered then
      throw (.error (.coverage (classification.dataset + 1) (classification.indexInDataset + 1)))
    else return lookup.matched

/-- The classification of a decision. -/
def selected (rule : Rule) : Option Classification :=
  match rule.selector with
  | .classification index => config.classificationAt index
  | .ip _ => none
  | .cidr _ => none

/-- The loop over the rules of one effect. -/
def rulesLoop (config : Config) (lookups : List Lookup) (address : IpAddress)
    (effect : RuleEffect) : List (Nat × Rule) → Except Fault (Option Evaluation)
  | [] => .ok none
  | (ruleIndex, rule) :: rest => do
    if rule.action ≠ effect then rulesLoop config lookups address effect rest
    else if ← ruleMatches config lookups address rule then
      return some (ruleDecision ruleIndex effect (selected config rule))
    else rulesLoop config lookups address effect rest

/-- The decision once the answers are there; nothing is emitted for the default. -/
def judge (overlay : Overlay) (lookups : List Lookup) (address : IpAddress) :
    Except Fault (Option Evaluation) := do
  let rules := effectiveRules config.rules overlay.rules
  match ← judgeProvinces config lookups with
  | some denied => return some denied
  | none =>
    match ← rulesLoop config lookups address .deny rules with
    | some denied => return some denied
    | none => rulesLoop config lookups address .allow rules

/-! ## Queries -/

/-- `*required.get_mut(index)? = true`. -/
def markRequired (required : List Bool) (index : Nat) : Except Fault (List Bool) :=
  if index < required.length then .ok (required.set index true) else .error .invalidIndex

def markRule (required : List Bool) (rule : Nat × Rule) : Except Fault (List Bool) :=
  match rule.2.selector with
  | .classification index => markRequired required index
  | .ip _ => .ok required
  | .cidr _ => .ok required

/-- The classifications that have to be asked about. -/
def requiredFor (overlay : Overlay) : Except Fault (List Bool) := do
  let required := List.replicate maxClassifications false
  let required ← config.provinceWhitelist.foldlM markRequired required
  (effectiveRules config.rules overlay.rules).foldlM markRule required

/-- One turn of the loop that collects the question to a dataset: the classifications, and
beside each its index. -/
def collect (required : List Bool) (question : List (DatasetClassification × Nat)) (index : Nat) :
    Except Fault (List (DatasetClassification × Nat)) :=
  if required.getD index false then do
    let classification ← orFault (config.classificationAt index)
    if 64 ≤ question.length then .error .invalidIndex
    else
      return question ++ [(⟨classification.name.asStr, classification.kind⟩, index % 256)]
  else .ok question

/-- The question to a dataset. -/
def questionFor (required : List Bool) (d : Dataset) :
    Except Fault (List (DatasetClassification × Nat)) :=
  (List.range' d.classificationStart d.classificationLen).foldlM (collect config required) []

/-- `mapping.get(index)`, on the array of 64. -/
def mappingAt (question : List (DatasetClassification × Nat)) (index : Nat) : Option Nat :=
  if index < 64 then some ((question.map Prod.snd).getD index 0) else none

/-- One answer of a dataset. -/
def recordMatch (question : List (DatasetClassification × Nat)) (lookups : List Lookup)
    (item : Except GuestError DatasetMatch) : Except Fault (List Lookup) :=
  match item with
  | .error e => .error (.error (.host e))
  | .ok answer => do
    let global ← orFault (mappingAt question answer.index)
    if global < lookups.length then
      return lookups.set global ⟨answer.matched, answer.coverage⟩
    else .error .invalidIndex

structure OwnedReference where
  handle : FixedStr 256
  instanceId : FixedStr 512
  generation : FixedStr 512
  sourceId : FixedStr 32
  versionDigest : FixedStr 71

def OwnedReference.borrowed (r : OwnedReference) : DatasetReference :=
  ⟨r.handle.asStr, r.instanceId.asStr, r.generation.asStr, r.sourceId.asStr, r.versionDigest.asStr⟩

structure RuntimeState where
  config : Config
  generation : FixedStr 512
  references : Vector OwnedReference maxDatasets

/-- `DATASET_CALL_MICROS` and `DATASET_RESPONSE_BYTES`. -/
def datasetCallMicros : Nat := 1200

def datasetResponseBytes : Nat := 4096

abbrev RuntimeM (σ : Type) (α : Type) := ClientM σ 16384 4096 Fault α

/-- A host operation; its errors are `EvaluationError::host`. -/
def hostOperation (x : ClientM σ 16384 4096 GuestError α) : RuntimeM σ α := fun c =>
  match x c with
  | .ok a c' => .ok a c'
  | .error e c' => .error (.error (.host e)) c'

/-- An operation whose result is ignored. -/
def ignoring (x : ClientM σ 16384 4096 GuestError α) : RuntimeM σ Unit := fun c =>
  match x c with
  | .ok _ c' => .ok () c'
  | .error _ c' => .ok () c'

namespace RuntimeState

variable (t : HostTransport σ) (state : RuntimeState)

/-- The turn of `query_required` for one dataset. -/
def queryDataset (required : List Bool) (lookups : List Lookup)
    (datasetIndex : Nat) : RuntimeM σ (List Lookup) := do
  let d ← PolicyGuest.liftExcept (orFault state.config.datasets[datasetIndex]?)
  let question ← PolicyGuest.liftExcept (questionFor state.config required d)
  if question = [] then return lookups
  else
    let reference ← PolicyGuest.liftExcept (orFault state.references[datasetIndex]?)
    let request : DatasetQueryRequest :=
      ⟨reference.borrowed, question.map Prod.fst, datasetCallMicros, datasetResponseBytes⟩
    let response ← hostOperation (HostClient.datasetQuery t request)
    if response.status ≠ .ok then
      throw (.error (.datasetStatus response.status (datasetIndex + 1)))
    else PolicyGuest.liftExcept (response.datasetMatches.foldlM (recordMatch question) lookups)

/-- `query_required`. -/
def queryRequired (overlay : Overlay) : RuntimeM σ (List Lookup) := do
  let required ← PolicyGuest.liftExcept (requiredFor state.config overlay)
  (List.range state.config.datasets.length).foldlM (state.queryDataset t required)
    (List.replicate maxClassifications emptyLookup)

/-- The source of the request, if it is one that the state was made for. -/
def sourceAddress : RuntimeM σ IpAddress := do
  let trusted ← hostOperation (HostClient.readTrustedSource t)
  match trusted.value with
  | none =>
    throw (.error (.sourceFailure ((trusted.error.map (·.code)).getD .unspecified)))
  | some source =>
    if source.generation ≠ state.generation.asStr ∨ (state.config.datasets ≠ [] ∧
        source.instanceId ≠ (state.references[0]).instanceId.asStr) then
      throw (.error .sourceUnauthenticated)
    else
      match IpAddress.fromNetworkBytes source.sourceAddress with
      | .ok address => return address
      | .error _ => throw (.error .sourceUnauthenticated)

/-- The evaluation with an overlay that has been read. -/
def evaluateOverlay (overlay : Overlay) : RuntimeM σ Evaluation := do
  let address ← state.sourceAddress t
  match firstLocalMatch state.config.rules overlay.rules address .deny with
  | some (ruleIndex, rule) =>
    let decision := ruleDecision ruleIndex rule.action none
    ignoring (HostClient.emitPolicyEvent t decision.event)
    return decision
  | none =>
    let lookups ← state.queryRequired t overlay
    match ← PolicyGuest.liftExcept (judge state.config overlay lookups address) with
    | some decision =>
      ignoring (HostClient.emitPolicyEvent t decision.event)
      return decision
    | none => return defaultDecision state.config

/-- The overlay of a request; an empty payload is no overlay. -/
def readOverlay (payload : Bytes) : Except Fault Overlay :=
  if payload = [] then .ok ⟨[]⟩
  else
    match Overlay.parse payload state.config with
    | .ok overlay => .ok overlay
    | .error _ => .error (.error .dataInvalid)

/-- `evaluate`, with its faults, on a host in the state `s`. -/
def evaluateFaults (payload : Bytes) (s : σ) : Except Fault Evaluation := do
  let overlay ← state.readOverlay payload
  match HostClient.new 16384 4096 s (.new 8 datasetResponseBytes) with
  | .error e => throw (.error (.host e))
  | .ok client =>
    match state.evaluateOverlay t overlay client with
    | .ok evaluation _ => return evaluation
    | .error fault _ => throw fault

/-- `evaluate`. -/
def evaluate (payload : Bytes) (s : σ) : Except EvaluationError Evaluation :=
  (state.evaluateFaults t payload s).mapError Fault.toError

end RuntimeState

/-! ## Complete answers -/

/-- The answer to each question of a list is looked up at the place of the question. -/
theorem map_mappingAt {question : List (DatasetClassification × Nat)} (h : question.length ≤ 64) :
    (List.range question.length).map (mappingAt question) = question.map (some ·.2) := by
  refine List.ext_getElem (by simp) fun i hi _ => ?_
  have hlt : i < question.length := by simpa using hi
  simp [mappingAt, hlt, hlt.trans_le h]

/-- For every frame that `decode` accepts: going through the matches a second time does not fail,
yields as many as were counted, in order, and none matches without being covered; the status is OK
if and only if there are matches. If the answer is one to a question, each classification of the
question is looked up once. -/
theorem decoded_answer_complete {frame : Bytes} {limits : WireLimits}
    {response : DatasetQueryResponse} (h : DatasetQueryResponse.decode frame limits = .ok response) :
    (response.status = .ok ↔ 0 < response.matchCount) ∧
    ∃ items : List DatasetMatch, response.datasetMatches = items.map .ok ∧
      items.map (·.index) = List.range response.matchCount ∧
      (∀ item ∈ items, item.matched = true → item.coverage = .covered) ∧
      ∀ (question : List (DatasetClassification × Nat)) (request : DatasetQueryRequest),
        request.classifications = question.map Prod.fst →
        response.validateFor request = .ok response → response.status = .ok →
        items.map (fun item => mappingAt question item.index) = question.map (some ·.2) := by
  obtain ⟨hle, hstatus, items, hitems, hindices, hall⟩ := DatasetQueryResponse.matches_of_decode h
  refine ⟨by rw [hstatus, Nat.pos_iff_ne_zero], items, hitems, hindices, hall, ?_⟩
  intro question request hrequest hvalid hok
  have hcount : response.matchCount = question.length := by
    obtain ⟨hnot, -⟩ := ite_error_eq_ok.mp hvalid
    rw [hrequest, List.length_map] at hnot
    exact not_not.mp fun hne => hnot (.inr ⟨hok, hne⟩)
  have hmap := congrArg (List.map (mappingAt question)) hindices
  rw [List.map_map, hcount, map_mappingAt (hcount ▸ hle)] at hmap
  exact hmap

/-- The answer to a query about two classifications. -/
theorem decoded_answer_complete_two : ∃ (response : _) (items : List DatasetMatch),
    DatasetQueryResponse.decode (answerFrame (sampleQuery 2).reference
      [⟨true, .covered⟩, ⟨false, .unknown⟩]) .policyOutput = .ok response ∧
    response.datasetMatches = items.map .ok ∧ items.map (·.index) = [0, 1] := by
  have hlookups : ∀ l ∈ [⟨true, .covered⟩, (⟨false, .unknown⟩ : Lookup)], l.Proper := by decide
  have hdecode := (decode_answer sampleQuery_proper.1.reference WireLimits.policyOutput_roomy
    hlookups (by decide) (by decide)).trans (if_pos (by decide))
  obtain ⟨-, items, hitems, hindices, -⟩ := decoded_answer_complete hdecode
  exact ⟨_, items, hdecode, hitems, hindices⟩

end NrePlugins.IpPolicy
