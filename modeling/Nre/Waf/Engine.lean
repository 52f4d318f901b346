import Nre.Base.Interrupted
import Nre.PolicyGuest.Host

/-!
# The web application firewall

Model of `engine.rs` and of `evaluate_snapshot` of `lib.rs`. The managed rules are
generated when the plugin is built; they are a parameter here.

`evaluate_snapshot` reads the body of a request only when it has to: it evaluates the
request without a body first, and once more with the body if that evaluation was skipped
for want of one.

- `WafEngine.evaluate`; `verdict_evaluate` says what its verdict depends on;
- `verdict_of_rules`: the verdict in terms of the rules that apply;
- `evaluateSnapshot`, with the host's answers as calls;
- `lazy_body`: the two evaluations give the verdict of one evaluation with the body.
-/

namespace NrePlugins.Waf

open List
open PolicyGuest (PolicyAction AbiStatus)

/-! ## Configurations and requests -/

inductive WafMode where
  | deny | observe
  deriving DecidableEq

inductive Target where
  | path | query | headers | body
  deriving DecidableEq

/-- `FixedBytes<N>`. -/
abbrev FixedBytes (n : Nat) := {bytes : Bytes // bytes.length ≤ n}

def FixedBytes.empty {n : Nat} : FixedBytes n := ⟨[], Nat.zero_le n⟩

def FixedBytes.new {n : Nat} (value : Bytes) : Option (FixedBytes n) :=
  if h : value ≠ [] ∧ value.length ≤ n then some ⟨value, h.2⟩ else none

/-- `ManagedRule`. -/
structure ManagedRule where
  id : Bytes
  target : Target
  needle : Bytes

structure PreparedRule where
  id : FixedBytes 32
  target : Target
  needle : FixedBytes 64

structure PreparedExclusion where
  ruleId : FixedBytes 32
  pathPrefix : FixedBytes 96
  deriving DecidableEq

/-- `PreparedConfig`; the empty places of its arrays are left out. -/
structure PreparedConfig where
  mode : WafMode
  custom : List PreparedRule
  exclusions : List PreparedExclusion

structure TrustedSource where
  authenticated : Bool
  address : Bytes

inductive BodyWindow where
  | complete (value : Bytes)
  | truncated (value : Bytes)
  | unavailable
  deriving DecidableEq

structure NormalizedRequest where
  path : Bytes
  query : Bytes
  headers : Bytes
  trustedSource : TrustedSource
  body : BodyWindow

inductive DecisionReason where
  | clean | ruleMatched | bodyWindowSkipped | trustedSourceUnavailable
  deriving DecidableEq

def DecisionReason.asStr : DecisionReason → Bytes
  | clean => ascii "clean"
  | ruleMatched => ascii "rule_matched"
  | bodyWindowSkipped => ascii "body_window_skipped"
  | trustedSourceUnavailable => ascii "trusted_source_unavailable"

structure Evaluation where
  action : PolicyAction
  statusCode : Nat
  reason : DecisionReason
  ruleId : FixedBytes 32
  sourceDigest : UInt64

/-! ## The engine -/

/-- `target_bytes`. -/
def targetBytes (target : Target) (request : NormalizedRequest) : Bytes :=
  match target with
  | .path => request.path
  | .query => request.query
  | .headers => request.headers
  | .body =>
    match request.body with
    | .complete value => value
    | .truncated value => value
    | .unavailable => []

/-- `contains_ascii_fold`. -/
def containsAsciiFold (haystack needle : Bytes) : Bool :=
  if needle = [] ∨ haystack.length < needle.length then false
  else
    (List.range (haystack.length - needle.length + 1)).any fun offset =>
      (((haystack.drop offset).take needle.length).zip needle).all fun pair =>
        lowerByte pair.1 == lowerByte pair.2

/-- `source_digest`. -/
def sourceDigest (source : Bytes) : UInt64 :=
  source.foldl (fun digest byte => (digest ^^^ byte.toUInt64) * 0x100000001b3) 0xcbf29ce484222325

variable (managed : List ManagedRule) (config : PreparedConfig)

/-- `excluded`. -/
def PreparedConfig.excluded (ruleId path : Bytes) : Bool :=
  config.exclusions.any fun exclusion =>
    exclusion.ruleId.1 == ruleId && exclusion.pathPrefix.1.isPrefixOf path

/-- One turn of the loops of `evaluate`. -/
def PreparedConfig.hits (request : NormalizedRequest) (ruleId : Bytes) (target : Target)
    (needle : Bytes) : Bool :=
  !config.excluded ruleId request.path && containsAsciiFold (targetBytes target request) needle

/-- `requires_body`. -/
def PreparedConfig.requiresBody (path : Bytes) : Bool :=
  (managed.any fun rule => rule.target == .body && !config.excluded rule.id path) ||
    config.custom.any fun rule => rule.target == .body && !config.excluded rule.id.1 path

/-- `matched`. -/
def PreparedConfig.matched (id source : Bytes) : Evaluation where
  action := if config.mode = .deny then .deny else .observe
  statusCode := if config.mode = .deny then 403 else 0
  reason := .ruleMatched
  ruleId := (FixedBytes.new id).getD .empty
  sourceDigest := sourceDigest source

/-- `visible_skip`. -/
def visibleSkip (source : Bytes) (reason : DecisionReason) : Evaluation :=
  ⟨.observe, 0, reason, .empty, sourceDigest source⟩

def isComplete : BodyWindow → Bool
  | .complete _ => true
  | .truncated _ => false
  | .unavailable => false

/-- `WafEngine::evaluate`. -/
def evaluate (request : NormalizedRequest) : Evaluation :=
  let source := request.trustedSource.address
  if !request.trustedSource.authenticated then visibleSkip source .trustedSourceUnavailable
  else
    match managed.find? fun rule => config.hits request rule.id rule.target rule.needle with
    | some rule => config.matched rule.id source
    | none =>
      match config.custom.find? fun rule =>
          config.hits request rule.id.1 rule.target rule.needle.1 with
      | some rule => config.matched rule.id.1 source
      | none =>
        if config.requiresBody managed request.path && !isComplete request.body then
          visibleSkip source .bodyWindowSkipped
        else ⟨.allow, 0, .clean, .empty, sourceDigest source⟩

/-! ## Events -/

/-- `hex_u64`. -/
def hexU64 (value : UInt64) : Bytes :=
  (List.range 16).map fun index => hexDigit (value.toNat / 2 ^ ((15 - index) * 4) % 16)

/-- `join_event`. -/
def joinEvent (capacity : Nat) (fields : List Bytes) : Option Bytes :=
  let event := [ch '|'].intercalate fields
  if capacity < event.length then none else some event

/-- `write_event`. -/
def Evaluation.writeEvent (evaluation : Evaluation) (site : Bytes) (capacity : Nat) :
    Option Bytes :=
  let disposition :=
    match evaluation.action with
    | .deny => ascii "deny"
    | .observe => ascii "observe"
    | .allow => ascii "allow"
    | .unspecified => ascii "allow"
  joinEvent capacity
    [site, evaluation.ruleId.1, hexU64 evaluation.sourceDigest, disposition,
      evaluation.reason.asStr]

/-! ## Snapshots -/

/-- `BytesResponse`. -/
structure BytesResponse where
  value : Bytes
  found : Bool

inductive HostCall where
  | readBodyWindow (offset length : Nat)
  | readField (name : Bytes)

/-- The host answers or fails; a client can always be made (`ensure_host`). -/
abbrev HostAnswer (_ : HostCall) : Type := Except AbiStatus BytesResponse

abbrev HostProg := Prog HostAnswer AbiStatus

/-- `Field<N>`. -/
structure Field (n : Nat) where
  bytes : FixedBytes n
  found : Bool

/-- `Field::set`. -/
def Field.set (n : Nat) (value : Bytes) (found : Bool) : Except AbiStatus (Field n) :=
  if h : value.length ≤ n then .ok ⟨⟨value, h⟩, found⟩ else .error .resourceExhausted

structure SnapshotFields where
  path : Field 1024
  query : Field 1024
  headers : Field 2048
  source : Field 64
  sourceAuthenticated : Bool
  bodyWindowComplete : Bool
  bodyWindowLength : Nat

/-- `BODY_WINDOW_BYTES`. -/
def bodyWindowBytes : Nat := 4088

/-- The request of a snapshot with a body. -/
def SnapshotFields.request (snapshot : SnapshotFields) (body : BodyWindow) : NormalizedRequest where
  path := snapshot.path.bytes.1
  query := snapshot.query.bytes.1
  headers := snapshot.headers.bytes.1
  trustedSource := ⟨snapshot.sourceAuthenticated && snapshot.source.found, snapshot.source.bytes.1⟩
  body := body

/-- A read that the host may fail. -/
def readHost (n : Nat) (call : HostCall) : HostProg (Field n) := do
  let answer ← Prog.ask call
  match answer with
  | .error status => .fail status
  | .ok response => .ofExcept (Field.set n response.value response.found)

/-- The body window of a snapshot. -/
def readWindow (snapshot : SnapshotFields) : HostProg BodyWindow :=
  if snapshot.bodyWindowLength = 0 then
    .ret (if snapshot.bodyWindowComplete then .complete [] else .truncated [])
  else do
    let requested := min snapshot.bodyWindowLength bodyWindowBytes
    let body ← readHost bodyWindowBytes (.readBodyWindow 0 requested)
    return if !body.found then .unavailable
      else if snapshot.bodyWindowComplete && snapshot.bodyWindowLength ≤ bodyWindowBytes then
        .complete body.bytes.1
      else .truncated body.bytes.1

/-- The evaluation of `evaluate_snapshot`: without the body first. -/
def evaluateLazily (snapshot : SnapshotFields) : HostProg Evaluation :=
  let evaluation := evaluate managed config (snapshot.request .unavailable)
  if evaluation.reason = .bodyWindowSkipped then do
    let window ← readWindow snapshot
    return evaluate managed config (snapshot.request window)
  else return evaluation

/-- `evaluate_snapshot`: the action, and the event if the request is not allowed. -/
def evaluateSnapshot (snapshot : SnapshotFields) : HostProg (PolicyAction × Bytes) := do
  let evaluation ← evaluateLazily managed config snapshot
  if evaluation.action = .allow then return (evaluation.action, [])
  else
    let site ← readHost 96 (.readField (ascii "site"))
    let siteText := ((Str.fromUTF8 site.bytes.1).map Str.bytes).getD (ascii "unknown")
    match evaluation.writeEvent siteText 256 with
    | some event => return (evaluation.action, event)
    | none => .fail .resourceExhausted

/-! ## Verdicts -/

/-- What a request comes to; the rule that matched is not part of it. -/
def Evaluation.verdict (evaluation : Evaluation) : PolicyAction × Nat × DecisionReason :=
  (evaluation.action, evaluation.statusCode, evaluation.reason)

/-- All rules, in the order in which they are tried. -/
def PreparedConfig.rules : List ManagedRule :=
  managed ++ config.custom.map fun rule => ⟨rule.id.1, rule.target, rule.needle.1⟩

/-- A rule that is not excluded matches. -/
def PreparedConfig.Hit (request : NormalizedRequest) : Prop :=
  ∃ rule ∈ config.rules managed, config.hits request rule.id rule.target rule.needle = true

variable {managed config}

open PreparedConfig

theorem requiresBody_iff {path : Bytes} :
    config.requiresBody managed path = true ↔
      ∃ rule ∈ config.rules managed, rule.target = .body ∧ config.excluded rule.id path = false := by
  simp only [requiresBody, rules, Bool.or_eq_true, any_eq_true,
    Bool.and_eq_true, beq_iff_eq, Bool.not_eq_true', mem_append, mem_map]
  constructor
  · rintro (⟨rule, hmem, hrule⟩ | ⟨rule, hmem, hrule⟩)
    · exact ⟨rule, .inl hmem, hrule⟩
    · exact ⟨_, .inr ⟨rule, hmem, rfl⟩, hrule⟩
  · rintro ⟨rule, hmem | ⟨custom, hmem, rfl⟩, hrule⟩
    · exact .inl ⟨rule, hmem, hrule⟩
    · exact .inr ⟨custom, hmem, hrule⟩

/-- The loops of `evaluate` are one search in all rules. -/
theorem evaluate_eq (request : NormalizedRequest) :
    evaluate managed config request =
      if !request.trustedSource.authenticated then
        visibleSkip request.trustedSource.address .trustedSourceUnavailable
      else
        match (config.rules managed).find? fun rule =>
            config.hits request rule.id rule.target rule.needle with
        | some rule => config.matched rule.id request.trustedSource.address
        | none =>
          if config.requiresBody managed request.path && !isComplete request.body then
            visibleSkip request.trustedSource.address .bodyWindowSkipped
          else ⟨.allow, 0, .clean, .empty, sourceDigest request.trustedSource.address⟩ := by
  unfold evaluate rules
  simp only [find?_append, find?_map, Function.comp_def]
  cases managed.find? _ with
  | some rule => rfl
  | none => cases config.custom.find? _ <;> rfl

/-- The verdict depends on whether a rule matches, not on which. -/
theorem verdict_evaluate (request : NormalizedRequest) [Decidable (config.Hit managed request)] :
    (evaluate managed config request).verdict =
      if request.trustedSource.authenticated = false then
        (.observe, 0, .trustedSourceUnavailable)
      else if config.Hit managed request then (config.matched [] []).verdict
      else if config.requiresBody managed request.path = true ∧ isComplete request.body = false then
        (.observe, 0, .bodyWindowSkipped)
      else (.allow, 0, .clean) := by
  rw [evaluate_eq]
  cases request.trustedSource.authenticated with
  | false => rfl
  | true =>
    simp only [Bool.not_true, Bool.false_eq_true, Bool.true_eq_false, if_false]
    split
    · rename_i rule hfound
      rw [if_pos ⟨rule, mem_of_find?_eq_some hfound, (find?_some hfound :)⟩]
      rfl
    · rename_i hnone
      have hmiss : ¬ config.Hit managed request :=
        fun ⟨rule, hmem, hhit⟩ => find?_eq_none.mp hnone rule hmem hhit
      simp only [hmiss, Bool.and_eq_true, Bool.not_eq_true', if_false]
      split_ifs <;> rfl

/-- What the verdict says of a request. -/
theorem verdict_iff {request : NormalizedRequest} :
    ((evaluate managed config request).reason = .ruleMatched ↔
      request.trustedSource.authenticated = true ∧ config.Hit managed request) ∧
    ((evaluate managed config request).reason = .clean ↔
      request.trustedSource.authenticated = true ∧ ¬ config.Hit managed request ∧
        (config.requiresBody managed request.path = true → isComplete request.body = true)) ∧
    ((evaluate managed config request).reason = .bodyWindowSkipped ↔
      request.trustedSource.authenticated = true ∧ ¬ config.Hit managed request ∧
        config.requiresBody managed request.path = true ∧ isComplete request.body = false) ∧
    ((evaluate managed config request).action = .deny ↔
      (evaluate managed config request).reason = .ruleMatched ∧ config.mode = .deny) ∧
    ((evaluate managed config request).statusCode = 403 ↔
      (evaluate managed config request).reason = .ruleMatched ∧ config.mode = .deny) := by
  classical
  have hverdict := @verdict_evaluate managed config request _
  unfold Evaluation.verdict at hverdict
  split_ifs at hverdict with hauth hhit hbody
  · simp_all
  · cases hmode : config.mode <;> simp_all [matched]
  · simp_all
  · simp_all

/-! ## Which rules match -/

/-- A needle occurs in a text, whatever the case of the letters. -/
def Occurs (needle text : Bytes) : Prop := needle.map lowerByte <:+: text.map lowerByte

/-- A rule that is not excluded finds its needle. -/
def PreparedConfig.Applies (config : PreparedConfig) (request : NormalizedRequest)
    (rule : ManagedRule) : Prop :=
  config.excluded rule.id request.path = false ∧
    Occurs rule.needle (targetBytes rule.target request)

/-- What `prepare_config` checks of the rules of a configuration and `build.rs` of the managed
ones: a needle, and an id. The ids in `managed.rules` fit as those of a configuration do. -/
def PreparedConfig.Prepared (managed : List ManagedRule) (config : PreparedConfig) : Prop :=
  ∀ rule ∈ config.rules managed, (rule.id ≠ [] ∧ rule.id.length ≤ 32) ∧ rule.needle ≠ []

theorem all_zip_lowerByte {a b : Bytes} (h : a.length = b.length) :
    ((a.zip b).all fun pair => lowerByte pair.1 == lowerByte pair.2) = true ↔
      a.map lowerByte = b.map lowerByte := by
  rw [← forall₂_eq_eq_eq, forall₂_map_left_iff, forall₂_map_right_iff, forall₂_iff_zip]
  simp [h]

theorem containsAsciiFold_iff {haystack needle : Bytes} (hne : needle ≠ []) :
    containsAsciiFold haystack needle = true ↔ Occurs needle haystack := by
  -- the window at an offset
  have hwindow : ∀ offset, offset + needle.length ≤ haystack.length →
      (((((haystack.drop offset).take needle.length).zip needle).all fun pair =>
        lowerByte pair.1 == lowerByte pair.2) = true ↔
        ((haystack.map lowerByte).drop offset).take needle.length = needle.map lowerByte) := by
    intro offset hle
    rw [all_zip_lowerByte (by rw [length_take, length_drop]; omega), map_take, map_drop]
  unfold containsAsciiFold Occurs
  split_ifs with hshort
  · refine iff_of_false id fun hinfix => ?_
    have hle := hinfix.length_le
    rw [length_map, length_map] at hle
    exact hshort.elim hne (by omega)
  · rw [not_or, Nat.not_lt] at hshort
    simp only [any_eq_true, mem_range]
    constructor
    · rintro ⟨offset, hoffset, hall⟩
      rw [← (hwindow offset (by omega)).mp hall]
      exact ⟨_, _, by rw [append_assoc, take_append_drop, take_append_drop]⟩
    · rintro ⟨front, back, hsplit⟩
      have hlength := congrArg length hsplit
      simp only [length_append, length_map] at hlength
      refine ⟨front.length, by omega, (hwindow _ (by omega)).mpr ?_⟩
      rw [← hsplit, append_assoc, drop_left, take_left' (length_map _)]

variable {request : NormalizedRequest} {snapshot : SnapshotFields}

theorem hits_iff {rule : ManagedRule} (hne : rule.needle ≠ []) :
    config.hits request rule.id rule.target rule.needle = true ↔ config.Applies request rule := by
  rw [hits, Bool.and_eq_true, Bool.not_eq_true', containsAsciiFold_iff hne, Applies]

theorem hit_iff_applies (h : config.Prepared managed) :
    config.Hit managed request ↔ ∃ rule ∈ config.rules managed, config.Applies request rule :=
  exists_congr fun rule => and_congr_right fun hmem => hits_iff (h rule hmem).2

/-- More exclusions exclude more. -/
theorem applies_of_subset {config' : PreparedConfig} {rule : ManagedRule}
    (hsub : config.exclusions ⊆ config'.exclusions) (h : config'.Applies request rule) :
    config.Applies request rule :=
  ⟨any_eq_false.mpr fun exclusion hex => any_eq_false.mp h.1 exclusion (hsub hex), h.2⟩

/-- The verdict of `evaluate`, for a prepared configuration. It is a match if the source is
authenticated and a rule applies, and then the first of them is reported. It is clean if none
applies to an authenticated source and the body is complete or not asked for. A match denies
with 403 in deny mode, and nothing else does. More exclusions make no match. -/
theorem verdict_of_rules (managed : List ManagedRule) (config : PreparedConfig)
    (request : NormalizedRequest) (h : config.Prepared managed) :
    let evaluation := evaluate managed config request
    let authenticated := request.trustedSource.authenticated
    (evaluation.reason = .ruleMatched ↔
      authenticated = true ∧ ∃ rule ∈ config.rules managed, config.Applies request rule) ∧
    (∀ before rule after, config.rules managed = before ++ rule :: after →
      config.Applies request rule → (∀ other ∈ before, ¬ config.Applies request other) →
      authenticated = true → evaluation.ruleId.1 = rule.id) ∧
    (evaluation.reason = .clean ↔
      authenticated = true ∧ (∀ rule ∈ config.rules managed, ¬ config.Applies request rule) ∧
        ((∀ rule ∈ config.rules managed, rule.target = .body →
          config.excluded rule.id request.path = true) ∨ ∃ value, request.body = .complete value)) ∧
    (evaluation.action = .deny ↔ evaluation.reason = .ruleMatched ∧ config.mode = .deny) ∧
    (evaluation.statusCode = 403 ↔ evaluation.reason = .ruleMatched ∧ config.mode = .deny) ∧
    ∀ config' : PreparedConfig, config'.custom = config.custom →
      config.exclusions ⊆ config'.exclusions →
      (evaluate managed config' request).reason = .ruleMatched →
      evaluation.reason = .ruleMatched := by
  obtain ⟨hmatched, hclean, -, hdeny, hstatus⟩ := @verdict_iff managed config request
  rw [hit_iff_applies h] at hmatched hclean
  refine ⟨hmatched, ?_, hclean.trans ?_, hdeny, hstatus, ?_⟩
  · intro before rule after hrules happlies hbefore hauth
    rw [Prepared, hrules] at h
    have hrule := h rule (by simp)
    have hmiss : before.find? (fun other =>
        config.hits request other.id other.target other.needle) = none :=
      find?_eq_none.mpr fun other hother => mt (hits_iff (h other (by simp [hother])).2).mp
        (hbefore other hother)
    have hhit := (hits_iff hrule.2).mpr happlies
    rw [evaluate_eq, hauth, hrules, find?_append, hmiss, Option.none_or, find?_cons, hhit]
    show ((FixedBytes.new rule.id).getD .empty).1 = _
    rw [FixedBytes.new, dif_pos hrule.1]
    rfl
  · refine and_congr_right' (and_congr (by simp) ?_)
    rw [requiresBody_iff, imp_iff_not_or]
    refine or_congr (by simp) ?_
    cases request.body <;> simp [isComplete]
  · intro config' hcustom hsub hmatched'
    have h' : config'.Prepared managed := by rwa [Prepared, rules, hcustom]
    obtain ⟨hauth, hhit⟩ := verdict_iff.1.mp hmatched'
    obtain ⟨rule, hmem, happlies⟩ := (hit_iff_applies h').mp hhit
    rw [rules, hcustom] at hmem
    exact hmatched.mpr ⟨hauth, rule, hmem, applies_of_subset hsub happlies⟩

/-- A needle in other letters, in deny mode. -/
theorem verdict_of_rules_folded :
    (evaluate [⟨ascii "r", .path, ascii "ab"⟩] ⟨.deny, [], []⟩
      ⟨ascii "/xAB", [], [], ⟨true, []⟩, .unavailable⟩).statusCode = 403 := by
  obtain ⟨hmatched, -, -, -, hstatus, -⟩ := verdict_of_rules [⟨ascii "r", .path, ascii "ab"⟩]
    ⟨.deny, [], []⟩ ⟨ascii "/xAB", [], [], ⟨true, []⟩, .unavailable⟩ (by unfold Prepared; decide)
  refine hstatus.mpr ⟨hmatched.mpr ⟨rfl, _, mem_cons_self, rfl, ?_⟩, rfl⟩
  unfold Occurs
  decide

/-! ## With and without the body -/

/-- Nothing is found in a body that is not there. -/
theorem containsAsciiFold_nil (needle : Bytes) : containsAsciiFold [] needle = false := by
  refine if_pos ?_
  cases needle with
  | nil => exact .inl rfl
  | cons b rest => exact .inr (Nat.zero_lt_succ _)

/-- A rule that is not about the body sees the same with any body. -/
theorem hits_of_ne_body {rule : ManagedRule} (h : rule.target ≠ .body)
    (window window' : BodyWindow) :
    config.hits (snapshot.request window) rule.id rule.target rule.needle =
      config.hits (snapshot.request window') rule.id rule.target rule.needle := by
  have hbytes : targetBytes rule.target (snapshot.request window) =
      targetBytes rule.target (snapshot.request window') := by
    cases htarget : rule.target with
    | path | query | headers => rfl
    | body => exact absurd htarget h
  unfold hits
  rw [hbytes]
  rfl

/-- A rule that matches without the body matches with any. -/
theorem hits_of_unavailable {rule : ManagedRule} (window : BodyWindow)
    (h : config.hits (snapshot.request .unavailable) rule.id rule.target rule.needle = true) :
    config.hits (snapshot.request window) rule.id rule.target rule.needle = true := by
  by_cases htarget : rule.target = .body
  · have hnil : targetBytes .body (snapshot.request .unavailable) = [] := rfl
    rw [hits, htarget, hnil, containsAsciiFold_nil, Bool.and_false] at h
    exact nomatch h
  · rw [hits_of_ne_body htarget window .unavailable]
    exact h

/-- Without a body rule that applies, the body changes no match. -/
theorem hit_unavailable {window : BodyWindow}
    (hbody : config.requiresBody managed (snapshot.request .unavailable).path = false)
    (h : config.Hit managed (snapshot.request window)) :
    config.Hit managed (snapshot.request .unavailable) := by
  obtain ⟨rule, hmem, hhit⟩ := h
  refine ⟨rule, hmem, ?_⟩
  by_cases htarget : rule.target = .body
  · rw [hits, Bool.and_eq_true, Bool.not_eq_true'] at hhit
    have hrequired := requiresBody_iff.mpr ⟨rule, hmem, htarget, hhit.1⟩
    exact nomatch hbody.symm.trans hrequired
  · rw [hits_of_ne_body htarget .unavailable window]
    exact hhit

/-- An evaluation that was not skipped for want of a body has the verdict of any body. -/
theorem verdict_of_not_skipped (window : BodyWindow)
    (h : (evaluate managed config (snapshot.request .unavailable)).reason ≠ .bodyWindowSkipped) :
    (evaluate managed config (snapshot.request .unavailable)).verdict =
      (evaluate managed config (snapshot.request window)).verdict := by
  classical
  rw [verdict_evaluate, verdict_evaluate]
  have hauth : (snapshot.request window).trustedSource =
      (snapshot.request .unavailable).trustedSource := rfl
  have hpath : (snapshot.request window).path = (snapshot.request .unavailable).path := rfl
  rw [hauth, hpath]
  by_cases hsource : (snapshot.request .unavailable).trustedSource.authenticated = false
  · rw [if_pos hsource, if_pos hsource]
  · rw [if_neg hsource, if_neg hsource]
    by_cases hhit : config.Hit managed (snapshot.request .unavailable)
    · obtain ⟨rule, hmem, hrule⟩ := hhit
      have hwith : config.Hit managed (snapshot.request window) :=
        ⟨rule, hmem, hits_of_unavailable window hrule⟩
      rw [if_pos ⟨rule, hmem, hrule⟩, if_pos hwith]
    · have hbody : config.requiresBody managed (snapshot.request .unavailable).path = false := by
        by_contra hrequired
        exact h (verdict_iff.2.2.1.mpr ⟨eq_true_of_ne_false hsource, hhit,
          eq_true_of_ne_false hrequired, rfl⟩)
      rw [if_neg hhit, if_neg fun hwith => hhit (hit_unavailable hbody hwith), hbody]
      simp only [Bool.false_eq_true, false_and, if_false]

/-! ## The reads -/

def HostCall.isBodyRead : HostCall → Bool
  | .readBodyWindow _ _ => true
  | .readField _ => false

section Host

variable {σ : Type} (behave : σ → (c : HostCall) → HostAnswer c × σ)

/-- The body reads of a program that a host runs. -/
def bodyReads {α : Type} (p : HostProg α) (s : σ) : Nat :=
  (p.callsWith behave s).countP (·.2.isBodyRead)

variable {behave}

/-- A second part without body reads adds none. -/
theorem bodyReads_bind_le {α β : Type} {p : HostProg α} {f : α → HostProg β} {s : σ} {m : Nat}
    (hp : bodyReads behave p s ≤ m) (hf : ∀ a s', bodyReads behave (f a) s' = 0) :
    bodyReads behave (p >>= f) s ≤ m := by
  unfold bodyReads at hp ⊢
  rw [Prog.callsWith_bind, countP_append]
  rcases p.runWith behave s with ⟨_ | a, s'⟩
  · exact hp
  · have hnone : ((f a).callsWith behave s').countP (·.2.isBodyRead) = 0 := hf a s'
    show _ + ((f a).callsWith behave s').countP _ ≤ m
    rw [hnone]
    exact hp

theorem bodyReads_readHost (n : Nat) (call : HostCall) (s : σ) :
    bodyReads behave (readHost n call) s ≤ if call.isBodyRead then 1 else 0 := by
  refine bodyReads_bind_le ?_ ?_
  · refine le_of_eq ?_
    simp [bodyReads, Prog.ask, Prog.callsWith, countP_cons]
  · intro answer s'
    rcases answer with status | response
    · rfl
    · dsimp only
      cases Field.set n response.value response.found <;> rfl

variable (managed config snapshot)

/-- A body read is made by an evaluation that was skipped for want of a body, and once. -/
theorem bodyReads_le (s : σ) :
    bodyReads behave (evaluateSnapshot managed config snapshot) s ≤
      if (evaluate managed config (snapshot.request .unavailable)).reason = .bodyWindowSkipped
      then 1 else 0 := by
  refine bodyReads_bind_le ?_ ?_
  · unfold evaluateLazily
    dsimp only
    split_ifs
    · refine bodyReads_bind_le ?_ fun _ _ => rfl
      unfold readWindow
      split
      · exact Nat.zero_le 1
      · refine bodyReads_bind_le ?_ fun _ _ => rfl
        exact bodyReads_readHost _ (.readBodyWindow ..) s
    · exact le_rfl
  · -- what follows reads no more than the site
    intro evaluation s'
    split_ifs with hallowed
    · rfl
    · refine Nat.le_zero.mp (bodyReads_bind_le (bodyReads_readHost ..) fun site s'' => ?_)
      dsimp only
      split <;> rfl

variable {snapshot}

/-- The cases in which the body is not needed. -/
theorem not_skipped (h : config.requiresBody managed snapshot.path.bytes.1 = false ∨
      (snapshot.sourceAuthenticated && snapshot.source.found) = false ∨
      config.Hit managed (snapshot.request .unavailable)) :
    (evaluate managed config (snapshot.request .unavailable)).reason ≠ .bodyWindowSkipped := by
  intro hskipped
  obtain ⟨hauth, hmiss, hbody, -⟩ := verdict_iff.2.2.1.mp hskipped
  rcases h with hnone | hsource | hhit
  · exact nomatch hnone.symm.trans hbody
  · exact nomatch hsource.symm.trans hauth
  · exact hmiss hhit

theorem runWith_evaluateLazily {s : σ} {window : BodyWindow}
    (hread : ((readWindow snapshot).runWith behave s).1 = .ok window) :
    ∃ evaluation, ((evaluateLazily managed config snapshot).runWith behave s).1 = .ok evaluation ∧
      evaluation.verdict = (evaluate managed config (snapshot.request window)).verdict := by
  unfold evaluateLazily
  dsimp only
  split_ifs with hskipped
  · rcases hrun : (readWindow snapshot).runWith behave s with ⟨r, s'⟩
    rw [hrun] at hread
    obtain rfl : r = .ok window := hread
    rw [Prog.runWith_bind hrun]
    exact ⟨_, rfl, rfl⟩
  · exact ⟨_, rfl, verdict_of_not_skipped window hskipped⟩

/-- The action of a snapshot is that of its evaluation. -/
theorem action_evaluateSnapshot {s : σ} {evaluation : Evaluation} {action : PolicyAction}
    {event : Bytes}
    (hrun : ((evaluateLazily managed config snapshot).runWith behave s).1 = .ok evaluation)
    (h : ((evaluateSnapshot managed config snapshot).runWith behave s).1 = .ok (action, event)) :
    action = evaluation.action := by
  unfold evaluateSnapshot at h
  rcases hlazy : (evaluateLazily managed config snapshot).runWith behave s with ⟨r, s'⟩
  rw [hlazy] at hrun
  obtain rfl : r = .ok evaluation := hrun
  rw [Prog.runWith_bind hlazy] at h
  dsimp only at h
  split_ifs at h with hallowed
  · exact (Prod.mk.inj (Except.ok.inj h)).1.symm
  · rcases hsite : (readHost 96 (.readField (ascii "site"))).runWith behave s' with ⟨_ | site, s''⟩
    · rw [Prog.runWith_bind hsite] at h
      cases h
    · rw [Prog.runWith_bind hsite] at h
      dsimp only at h
      split at h
      · exact (Prod.mk.inj (Except.ok.inj h)).1.symm
      · exact nomatch h

/-- The two evaluations of `evaluate_snapshot` give the verdict of one evaluation with the
body window that the host has. The window is read at most once, and not if the source is
not authenticated, if no body rule applies, or if a rule matches that is not about the
body. -/
theorem lazy_body (managed : List ManagedRule) (config : PreparedConfig)
    (snapshot : SnapshotFields) (behave : σ → (c : HostCall) → HostAnswer c × σ) (s : σ)
    (window : BodyWindow) (hread : ((readWindow snapshot).runWith behave s).1 = .ok window) :
    (∃ evaluation, ((evaluateLazily managed config snapshot).runWith behave s).1 = .ok evaluation ∧
      evaluation.verdict = (evaluate managed config (snapshot.request window)).verdict ∧
      ∀ action event,
        ((evaluateSnapshot managed config snapshot).runWith behave s).1 = .ok (action, event) →
        action = (evaluate managed config (snapshot.request window)).action) ∧
    bodyReads behave (evaluateSnapshot managed config snapshot) s ≤ 1 ∧
    ((config.requiresBody managed snapshot.path.bytes.1 = false ∨
      (snapshot.sourceAuthenticated && snapshot.source.found) = false ∨
      ∃ rule ∈ config.rules managed, rule.target ≠ .body ∧
        config.excluded rule.id snapshot.path.bytes.1 = false ∧
        containsAsciiFold (targetBytes rule.target (snapshot.request window)) rule.needle = true) →
      bodyReads behave (evaluateSnapshot managed config snapshot) s = 0) := by
  refine ⟨?_, ?_, ?_⟩
  · obtain ⟨evaluation, hrun, hverdict⟩ :=
      runWith_evaluateLazily managed config hread
    refine ⟨evaluation, hrun, hverdict, fun action event h => ?_⟩
    rw [action_evaluateSnapshot managed config hrun h]
    exact congrArg Prod.fst hverdict
  · refine (bodyReads_le managed config snapshot s).trans ?_
    split_ifs
    · exact le_rfl
    · exact Nat.zero_le 1
  · intro hcase
    have hle : bodyReads behave (evaluateSnapshot managed config snapshot) s ≤ _ :=
      bodyReads_le managed config snapshot s
    rw [if_neg (not_skipped managed config (hcase.imp_right (.imp_right ?_)))] at hle
    · exact Nat.le_zero.mp hle
    · rintro ⟨rule, hmem, htarget, hexcluded, hfound⟩
      refine ⟨rule, hmem, ?_⟩
      rw [hits_of_ne_body htarget .unavailable window, hits, hfound, Bool.and_true,
        Bool.not_eq_true']
      exact hexcluded

end Host

/-- A request with a body of three bytes. -/
def sampleSnapshot : SnapshotFields :=
  ⟨⟨⟨ascii "/", by decide⟩, true⟩, ⟨.empty, true⟩, ⟨.empty, true⟩, ⟨⟨[10, 0, 0, 1], by decide⟩, true⟩,
    true, true, 3⟩

/-- A host that has the body. -/
def sampleHost (u : Unit) (c : HostCall) : HostAnswer c × Unit :=
  match c with
  | .readBodyWindow _ _ => (.ok ⟨ascii "aXy", true⟩, u)
  | .readField _ => (.ok ⟨ascii "shop", true⟩, u)

/-- A rule that matches in the body. -/
theorem lazy_body_sample :
    let managed : List ManagedRule := [⟨ascii "r", .body, ascii "xy"⟩]
    (∃ evaluation,
      ((evaluateLazily managed ⟨.deny, [], []⟩ sampleSnapshot).runWith sampleHost ()).1 =
        .ok evaluation ∧ evaluation.verdict = (.deny, 403, .ruleMatched)) ∧
      bodyReads sampleHost (evaluateSnapshot managed ⟨.deny, [], []⟩ sampleSnapshot) () ≤ 1 := by
  intro managed
  have hlazy := lazy_body managed ⟨.deny, [], []⟩ sampleSnapshot sampleHost ()
    (.complete (ascii "aXy")) (by decide)
  obtain ⟨evaluation, hrun, hverdict, _⟩ := hlazy.1
  exact ⟨⟨evaluation, hrun, hverdict.trans (by decide)⟩, hlazy.2.1⟩

end NrePlugins.Waf
