import Nre.Waf.Engine
import Nre.Waf.Panel

/-!
# One rule for each id

Model of `prepare_config` of `engine.rs`. A rule is named by its id: in exclusions, in the removal
of a custom rule and in events. Both `Validate` and `prepare_config` compare the ids of custom
rules with each other only, not with those of the managed rules. Every id names one rule
(`OneRuleEach`) exactly when no custom rule has the id of a managed one; `shared_id_accepted` is a
configuration where one has it.
-/

namespace NrePlugins.Waf

open List

/-! ## Preparing a configuration -/

inductive ConfigError where
  | tooManyRules | tooManyExclusions | invalidRuleId | invalidNeedle | invalidPathPrefix
  | duplicateRuleId | unknownExcludedRule
  deriving DecidableEq

/-- `CustomRule`, with the fields of a managed rule. -/
abbrev CustomRule := ManagedRule

abbrev Exclusion := Panel.Exclusion

structure WafConfig where
  mode : WafMode
  customRules : List CustomRule
  exclusions : List Exclusion

def validId (value : Bytes) : Bool :=
  value ≠ [] && value.length ≤ 32 && value.head?.any (fun b => ch 'a' ≤ b && b ≤ ch 'z') &&
    value.all fun b => (ch 'a' ≤ b && b ≤ ch 'z') || (ch '0' ≤ b && b ≤ ch '9') || b == ch '-'

/-- `FixedBytes::new` with `ok_or`. -/
def fixedOr {n : Nat} (value : Bytes) (err : ConfigError) : Except ConfigError (FixedBytes n) :=
  ((FixedBytes.new value).map .ok).getD (.error err)

/-- The loop of `prepare_config` over the rules, with the ids of the prior ones. -/
def prepareRules : List Bytes → List CustomRule → Except ConfigError (List PreparedRule)
  | _, [] => .ok []
  | prior, rule :: rest =>
    if !validId rule.id then .error .invalidRuleId
    else if rule.needle.length < 2 ∨ isAscii rule.needle = false then .error .invalidNeedle
    else if rule.id ∈ prior then .error .duplicateRuleId
    else do
      let id ← fixedOr rule.id .invalidRuleId
      let needle ← fixedOr rule.needle .invalidNeedle
      let prepared ← prepareRules (rule.id :: prior) rest
      return ⟨id, rule.target, needle⟩ :: prepared

/-- The loop over the exclusions, with the ids that `known_rule` knows. -/
def prepareExclusions (known : List Bytes) :
    List Exclusion → Except ConfigError (List PreparedExclusion)
  | [] => .ok []
  | exclusion :: rest =>
    if !validId exclusion.ruleID then .error .invalidRuleId
    else if exclusion.pathPrefix.head? ≠ some (ch '/') ∨ isAscii exclusion.pathPrefix = false then
      .error .invalidPathPrefix
    else if exclusion.ruleID ∉ known then .error .unknownExcludedRule
    else do
      let ruleId ← fixedOr exclusion.ruleID .invalidRuleId
      let pathPrefix ← fixedOr exclusion.pathPrefix .invalidPathPrefix
      let prepared ← prepareExclusions known rest
      return ⟨ruleId, pathPrefix⟩ :: prepared

def prepareConfig (managed : List ManagedRule) (config : WafConfig) :
    Except ConfigError PreparedConfig :=
  if 16 < config.customRules.length then .error .tooManyRules
  else if 16 < config.exclusions.length then .error .tooManyExclusions
  else do
    let custom ← prepareRules [] config.customRules
    let exclusions ← prepareExclusions ((managed ++ config.customRules).map (·.id)) config.exclusions
    return ⟨config.mode, custom, exclusions⟩

/-- The text of a target in a document. -/
def Target.text : Target → Bytes
  | path => ascii "path"
  | query => ascii "query"
  | headers => ascii "headers"
  | body => ascii "body"

/-- The document from which `decode_config` reads a configuration, as the control plane has it. -/
def WafConfig.document (config : WafConfig) : Panel.Configuration where
  mode := if config.mode = .deny then ascii "deny" else ascii "observe"
  customRules := config.customRules.map fun rule => ⟨rule.id, rule.target.text, rule.needle⟩
  exclusions := config.exclusions

/-- What `build.rs` asserts of the managed rules, and that their ids fit. -/
structure Built (managed : List ManagedRule) : Prop where
  distinct : (managed.map (·.id)).Nodup
  fits : ∀ rule ∈ managed, rule.id ≠ [] ∧ rule.id.length ≤ 32
  needles : ∀ rule ∈ managed, 2 ≤ rule.needle.length

/-! ## What was accepted -/

section Accepted

variable {managed : List ManagedRule} {config : PreparedConfig} {e : PreparedExclusion}
  {request : NormalizedRequest}

theorem fixedOr_eq_ok {n : Nat} {value : Bytes} {err : ConfigError} {fixed : FixedBytes n} :
    fixedOr value err = .ok fixed ↔ value ≠ [] ∧ fixed.1 = value := by
  unfold fixedOr FixedBytes.new
  split_ifs with h
  · simp [h.1, Subtype.ext_iff, eq_comm]
  · refine iff_of_false nofun ?_
    rintro ⟨hne, rfl⟩
    exact h ⟨hne, fixed.2⟩

/-- The prepared rules are the rules of the configuration. -/
theorem prepareRules_spec {rules : List CustomRule} {prior : List Bytes}
    {custom : List PreparedRule} (h : prepareRules prior rules = .ok custom) :
    (custom.map fun rule => (⟨rule.id.1, rule.target, rule.needle.1⟩ : ManagedRule)) = rules ∧
      ∀ rule ∈ rules, rule.id ≠ [] ∧ rule.needle ≠ [] := by
  induction rules generalizing prior custom with
  | nil =>
    cases h
    simp
  | cons rule rest ih =>
    obtain ⟨-, h⟩ := ite_error_eq_ok.mp h
    obtain ⟨-, h⟩ := ite_error_eq_ok.mp h
    obtain ⟨-, h⟩ := ite_error_eq_ok.mp h
    obtain ⟨id, hid, h⟩ := bind_eq_ok.mp h
    obtain ⟨needle, hneedle, h⟩ := bind_eq_ok.mp h
    obtain ⟨prepared, hrest, h⟩ := bind_eq_ok.mp h
    cases h
    obtain ⟨rfl, hids⟩ := ih hrest
    have hid := fixedOr_eq_ok.mp hid
    have hneedle := fixedOr_eq_ok.mp hneedle
    rw [map_cons, hid.2, hneedle.2]
    exact ⟨rfl, forall_mem_cons.mpr ⟨⟨hid.1, hneedle.1⟩, hids⟩⟩

/-- A prepared exclusion names a rule that is known. -/
theorem mem_known {known : List Bytes} {exclusions : List Exclusion}
    {prepared : List PreparedExclusion} (h : prepareExclusions known exclusions = .ok prepared) :
    ∀ e ∈ prepared, e.ruleId.1 ∈ known := by
  induction exclusions generalizing prepared with
  | nil =>
    cases h
    simp
  | cons exclusion rest ih =>
    obtain ⟨-, h⟩ := ite_error_eq_ok.mp h
    obtain ⟨-, h⟩ := ite_error_eq_ok.mp h
    obtain ⟨hknown, h⟩ := ite_error_eq_ok.mp h
    obtain ⟨ruleId, hid, h⟩ := bind_eq_ok.mp h
    obtain ⟨pathPrefix, -, h⟩ := bind_eq_ok.mp h
    obtain ⟨others, hrest, h⟩ := bind_eq_ok.mp h
    cases h
    refine forall_mem_cons.mpr ⟨?_, ih hrest⟩
    rw [(fixedOr_eq_ok.mp hid).2]
    exact not_not.mp hknown

/-- What `prepare_config` has accepted: the rules are the managed ones and those of the
configuration, and the exclusions have gone through `prepareExclusions`. -/
theorem prepareConfig_spec {wanted : WafConfig} (h : prepareConfig managed wanted = .ok config) :
    config.rules managed = managed ++ wanted.customRules ∧
      (∀ rule ∈ wanted.customRules, rule.id ≠ [] ∧ rule.needle ≠ []) ∧
      prepareExclusions ((managed ++ wanted.customRules).map (·.id)) wanted.exclusions =
        .ok config.exclusions := by
  obtain ⟨-, h⟩ := ite_error_eq_ok.mp h
  obtain ⟨-, h⟩ := ite_error_eq_ok.mp h
  obtain ⟨custom, hcustom, h⟩ := bind_eq_ok.mp h
  obtain ⟨exclusions, hexclusions, h⟩ := bind_eq_ok.mp h
  cases h
  obtain ⟨hmap, hne⟩ := prepareRules_spec hcustom
  exact ⟨congrArg (managed ++ ·) hmap, hne, hexclusions⟩

/-- Every configuration that `prepare_config` accepts is prepared, for managed rules as `build.rs`
makes them. -/
theorem prepared_of_prepareConfig {wanted : WafConfig} (hbuilt : Built managed)
    (h : prepareConfig managed wanted = .ok config) : config.Prepared managed := by
  obtain ⟨hrules, hne, -⟩ := prepareConfig_spec h
  intro rule hmem
  rcases mem_append.mp hmem with hmanaged | hcustom
  · refine ⟨hbuilt.fits rule hmanaged, ?_⟩
    rintro hnil
    have := hbuilt.needles rule hmanaged
    simp [hnil] at this
  · have hwanted : rule ∈ wanted.customRules := by
      rw [← append_cancel_left hrules]
      exact hcustom
    obtain ⟨prepared, -, rfl⟩ := mem_map.mp hcustom
    exact ⟨⟨(hne _ hwanted).1, prepared.id.2⟩, (hne _ hwanted).2⟩

/-- `Validate` lets no two custom rules have one id. -/
theorem nodup_checkRules {rules : List Panel.CustomRule} {seen : List Bytes}
    (h : Panel.checkRules seen rules = .ok ()) :
    (rules.map (·.id)).Nodup ∧ ∀ rule ∈ rules, rule.id ∉ seen := by
  induction rules generalizing seen with
  | nil => simp
  | cons rule rest ih =>
    obtain ⟨-, -, h⟩ := bind_eq_ok.mp h
    obtain ⟨hnew, h⟩ := ite_error_eq_ok.mp h
    obtain ⟨hnodup, hseen⟩ := ih h
    simp only [mem_cons, not_or] at hseen
    refine ⟨nodup_cons.mpr ⟨?_, hnodup⟩, forall_mem_cons.mpr ⟨hnew, fun r hr => (hseen r hr).2⟩⟩
    simpa using fun r hr => (hseen r hr).1

/-! ## Exclusions -/

/-- A configuration without one of its exclusions. -/
def PreparedConfig.without (config : PreparedConfig) (e : PreparedExclusion) : PreparedConfig :=
  { config with exclusions := config.exclusions.erase e }

/-- A configuration without the custom rules of an id. -/
def PreparedConfig.disable (config : PreparedConfig) (id : Bytes) : PreparedConfig :=
  { config with custom := config.custom.filter (·.id.1 != id) }

/-- An exclusion takes the rules of its id away from the requests below its prefix. -/
theorem evaluate_exclusion (he : e ∈ config.exclusions) :
    evaluate managed config request =
      if e.pathPrefix.1.isPrefixOf request.path then
        evaluate (managed.filter (·.id != e.ruleId.1)) ((config.without e).disable e.ruleId.1) request
      else evaluate managed (config.without e) request := by
  have hexcluded : ∀ id, config.excluded id request.path =
      (e.ruleId.1 == id && e.pathPrefix.1.isPrefixOf request.path ||
        (config.without e).excluded id request.path) :=
    fun id => (perm_cons_erase he).any_eq
  split_ifs with hprefix
  · have hsame : ∀ id, (!config.excluded id request.path) =
        (id != e.ruleId.1 && !((config.without e).disable e.ruleId.1).excluded id request.path) := by
      intro id
      rw [hexcluded, hprefix, Bool.and_true, Bool.not_or, Bool.beq_comm]
      rfl
    have hcustom : ((config.without e).disable e.ruleId.1).custom =
      config.custom.filter (·.id.1 != e.ruleId.1) := rfl
    simp only [evaluate, PreparedConfig.hits, PreparedConfig.requiresBody, hsame, hcustom,
      find?_filter, any_filter, Bool.decide_and, Bool.decide_eq_true, Bool.and_assoc,
      Bool.and_left_comm]
    rfl
  · have hsame : ∀ id, config.excluded id request.path =
        (config.without e).excluded id request.path := by
      intro id
      rw [hexcluded, Bool.eq_false_iff.mpr hprefix, Bool.and_false, Bool.false_or]
    simp only [evaluate, PreparedConfig.hits, PreparedConfig.requiresBody, hsame]
    rfl

/-- The rule in an event is one that matches. -/
theorem mem_rules_of_matched (hprepared : config.Prepared managed)
    (h : (evaluate managed config request).reason = .ruleMatched) :
    ∃ rule ∈ config.rules managed, (evaluate managed config request).ruleId.1 = rule.id := by
  obtain ⟨hauth, rule, hmem, hhit⟩ := verdict_iff.1.mp h
  obtain ⟨found, hfound⟩ := Option.isSome_iff_exists.mp
    ((find?_isSome (p := fun rule => config.hits request rule.id rule.target rule.needle)).mpr
      ⟨rule, hmem, hhit⟩)
  have hmem := mem_of_find?_eq_some hfound
  refine ⟨found, hmem, ?_⟩
  rw [evaluate_eq, hauth, hfound]
  show ((FixedBytes.new found.id).getD .empty).1 = _
  rw [FixedBytes.new, dif_pos (hprepared found hmem).1]
  rfl

/-- Every id names one rule: the ids are distinct; an exclusion takes one rule away from the
requests below its prefix, and changes nothing else; the removal of a custom rule leaves the
exclusions of managed rules; and the id of a match is that of one rule. -/
structure OneRuleEach (managed : List ManagedRule) (wanted : WafConfig)
    (config : PreparedConfig) : Prop where
  distinct : ((config.rules managed).map (·.id)).Nodup
  exclusion : ∀ e ∈ config.exclusions,
    (∃! rule, rule ∈ config.rules managed ∧ rule.id = e.ruleId.1) ∧
    ∀ request, evaluate managed config request =
      if e.pathPrefix.1.isPrefixOf request.path then
        evaluate (managed.filter (·.id != e.ruleId.1)) ((config.without e).disable e.ruleId.1) request
      else evaluate managed (config.without e) request
  removal : ∀ id next, Panel.Request.next wanted.document (.removeCustomRule id) = .ok next →
    ∀ e ∈ wanted.exclusions, e.ruleID ∈ managed.map (·.id) → e ∈ next.exclusions
  event : ∀ request, (evaluate managed config request).reason = .ruleMatched →
    ∃! rule, rule ∈ config.rules managed ∧ rule.id = (evaluate managed config request).ruleId.1

/-- The removal of a custom rule drops the exclusions of its id and no others. -/
theorem mem_exclusions_of_removal {wanted : WafConfig} {id : Bytes} {next : Panel.Configuration}
    (hown : ∀ rule ∈ wanted.customRules, rule.id ∉ managed.map (·.id))
    (h : Panel.Request.next wanted.document (.removeCustomRule id) = .ok next)
    {e : Exclusion} (he : e ∈ wanted.exclusions) (hmanaged : e.ruleID ∈ managed.map (·.id)) :
    e ∈ next.exclusions := by
  rw [Panel.Request.next] at h
  split_ifs at h with hany
  cases h
  refine mem_filter.mpr ⟨he, ?_⟩
  obtain ⟨_, hrule, hid⟩ := any_eq_true.mp hany
  obtain ⟨own, hmem, rfl⟩ := mem_map.mp hrule
  rw [bne_iff_ne]
  rintro rfl
  have hid : own.id = e.ruleID := beq_iff_eq.mp hid
  exact hown own hmem (hid ▸ hmanaged)

/-- The ids of a configuration that `Validate` accepts are distinct exactly when no custom rule has
the id of a managed one. -/
theorem nodup_ids_iff {wanted : WafConfig} (hbuilt : Built managed)
    (hvalid : wanted.document.validate (managed.map (·.id)) = .ok ()) :
    ((managed ++ wanted.customRules).map (·.id)).Nodup ↔
      ∀ rule ∈ wanted.customRules, rule.id ∉ managed.map (·.id) := by
  obtain ⟨-, hvalid⟩ := ite_error_eq_ok.mp hvalid
  obtain ⟨-, hvalid⟩ := ite_error_eq_ok.mp hvalid
  obtain ⟨_, hcheck, -⟩ := bind_eq_ok.mp hvalid
  have hcustom : (wanted.customRules.map (·.id)).Nodup := by
    simpa [WafConfig.document, Function.comp_def] using (nodup_checkRules hcheck).1
  rw [map_append, nodup_append']
  constructor
  · rintro ⟨-, -, hdisjoint⟩ rule hrule hmanaged
    exact hdisjoint hmanaged (mem_map_of_mem hrule)
  · intro hown
    refine ⟨hbuilt.distinct, hcustom, fun id hmanaged hmem => ?_⟩
    obtain ⟨rule, hrule, rfl⟩ := mem_map.mp hmem
    exact hown rule hrule hmanaged

/-- In a configuration that `Validate` and `prepare_config` accept every id names one rule exactly
when no custom rule has the id of a managed one. -/
theorem exclusion_disables_one_rule {managed : List ManagedRule} {wanted : WafConfig}
    {config : PreparedConfig} (hbuilt : Built managed)
    (hvalid : wanted.document.validate (managed.map (·.id)) = .ok ())
    (hprepared : prepareConfig managed wanted = .ok config) :
    OneRuleEach managed wanted config ↔
      ∀ rule ∈ wanted.customRules, rule.id ∉ managed.map (·.id) := by
  obtain ⟨hrules, -, hexclusions⟩ := prepareConfig_spec hprepared
  rw [← nodup_ids_iff hbuilt hvalid]
  constructor
  · intro h
    exact hrules ▸ h.distinct
  intro hnodup
  have hunique : ∀ rule ∈ managed ++ wanted.customRules,
      ∃! other, other ∈ managed ++ wanted.customRules ∧ other.id = rule.id :=
    fun rule hmem => ⟨rule, ⟨hmem, rfl⟩, fun _ h => inj_on_of_nodup_map hnodup h.1 hmem h.2⟩
  refine ⟨hrules ▸ hnodup, fun e he => ⟨?_, fun _ => evaluate_exclusion he⟩, ?_, ?_⟩
  · obtain ⟨rule, hmem, hid⟩ := mem_map.mp (mem_known hexclusions e he)
    rw [hrules, ← hid]
    exact hunique rule hmem
  · intro id next hnext e he hmanaged
    exact mem_exclusions_of_removal ((nodup_ids_iff hbuilt hvalid).mp hnodup) hnext he hmanaged
  · intro request h
    obtain ⟨rule, hmem, hid⟩ := mem_rules_of_matched (prepared_of_prepareConfig hbuilt hprepared) h
    rw [hid]
    rw [hrules] at hmem ⊢
    exact hunique rule hmem

end Accepted

def sampleId : Bytes := ascii "managed-sqli-union"

def sampleManaged : List ManagedRule := [⟨sampleId, .query, ascii "union select"⟩]

/-- A custom rule with the given id, and an exclusion of the managed rule. -/
def sampleConfig (id : Bytes) : WafConfig :=
  ⟨.deny, [⟨id, .path, ascii "/admin"⟩], [⟨sampleId, ascii "/api"⟩]⟩

/-- Every id names one rule when the custom rule has an id of its own, and not when it has the
managed one. -/
theorem exclusion_disables_one_rule_sample :
    (∃ config, prepareConfig sampleManaged (sampleConfig (ascii "own")) = .ok config ∧
      OneRuleEach sampleManaged (sampleConfig (ascii "own")) config) ∧
    ∃ config, prepareConfig sampleManaged (sampleConfig sampleId) = .ok config ∧
      ¬ OneRuleEach sampleManaged (sampleConfig sampleId) config := by
  have hbuilt : Built sampleManaged := ⟨by decide, by decide, by decide⟩
  have hown : prepareConfig sampleManaged (sampleConfig (ascii "own")) = .ok _ := rfl
  have hshared : prepareConfig sampleManaged (sampleConfig sampleId) = .ok _ := rfl
  refine ⟨⟨_, hown, ?_⟩, _, hshared, fun h => ?_⟩
  · exact (exclusion_disables_one_rule hbuilt (by decide) hown).mpr (by decide)
  · have hdistinct := (exclusion_disables_one_rule hbuilt (by decide) hshared).mp h
    exact hdistinct _ mem_cons_self (by decide)

/-- Both sides accept a custom rule with the id of the managed rule, and its removal takes the
exclusion of the managed rule away. -/
theorem shared_id_accepted :
    (sampleConfig sampleId).document.validate (sampleManaged.map (·.id)) = .ok () ∧
    (∃ prepared, prepareConfig sampleManaged (sampleConfig sampleId) = .ok prepared ∧
      ¬ ((prepared.rules sampleManaged).map (·.id)).Nodup) ∧
    ∃ next, Panel.Request.next (sampleConfig sampleId).document
      (.removeCustomRule sampleId) = .ok next ∧ next.exclusions = [] :=
  ⟨by decide, ⟨_, rfl, by decide⟩, _, rfl, rfl⟩

end NrePlugins.Waf
