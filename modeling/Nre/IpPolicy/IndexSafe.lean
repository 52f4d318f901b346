import Nre.IpPolicy.Runtime

/-!
# Parsed configurations are index-safe

The arrays of the runtime have room for every index that a parsed configuration or overlay
contains, whatever the host answers: no evaluation ends with the fault `invalidIndex`.

`Within` is the judgement for code that may fail: it does not end with that fault, and its
value satisfies a condition. `WithinM` is the same for code that talks to the host.
-/

namespace NrePlugins.IpPolicy

open PolicyGuest

variable {σ α β : Type}

/-! ## The judgement -/

/-- No index is out of range, and `Q` holds of the value. -/
def Within (Q : α → Prop) : Except Fault α → Prop
  | .ok a => Q a
  | .error (.error _) => True
  | .error .invalidIndex => False

theorem Within.bind {P : α → Prop} {Q : β → Prop} {x : Except Fault α}
    {f : α → Except Fault β} (h : Within P x) (hf : ∀ a, P a → Within Q (f a)) :
    Within Q (x >>= f) := by
  match x, h with
  | .ok a, h => exact hf a h
  | .error (.error e), _ => trivial

variable {Q : α → Prop} {index : Nat} {overlay : Overlay} {state : RuntimeState}

theorem within_orFault {o : Option α} {a : α} (h : o = some a) (ha : Q a) :
    Within Q (orFault o) := by
  rw [h]
  exact ha

/-- What every turn of a loop keeps, the loop keeps. -/
theorem Within.foldlM {P : β → Prop} {f : β → α → Except Fault β} {l : List α} {b : β} (hb : P b)
    (hstep : ∀ b a, a ∈ l → P b → Within P (f b a)) : Within P (l.foldlM f b) := by
  induction l generalizing b with
  | nil => exact hb
  | cons a rest ih =>
    refine (hstep b a List.mem_cons_self hb).bind fun c hc => ?_
    exact ih hc fun b a' ha' => hstep b a' (List.mem_cons_of_mem _ ha')

/-- The same for code that talks to the host. -/
def WithinM (Q : α → Prop) (x : RuntimeM σ α) : Prop :=
  ∀ c, match x c with
    | .ok a _ => Q a
    | .error (.error _) _ => True
    | .error .invalidIndex _ => False

theorem WithinM.pure {a : α} (h : Q a) : WithinM Q (Pure.pure a : RuntimeM σ α) := fun _ => h

theorem WithinM.bind {P : α → Prop} {Q : β → Prop} {x : RuntimeM σ α}
    {f : α → RuntimeM σ β} (h : WithinM P x) (hf : ∀ a, P a → WithinM Q (f a)) :
    WithinM Q (x >>= f) := by
  intro c
  have hc := h c
  cases hx : x c with
  | ok a c' =>
    rw [hx] at hc
    rw [ClientM.bind_ok hx]
    exact hf a hc c'
  | error fault c' =>
    rw [hx] at hc
    rw [ClientM.bind_error hx]
    cases fault with
    | invalidIndex => exact hc
    | error e => trivial

theorem Within.lift {x : Except Fault α} (h : Within Q x) :
    WithinM Q (PolicyGuest.liftExcept x : RuntimeM σ α) := by
  intro c
  match x, h with
  | .ok a, h => exact h
  | .error (.error e), _ => trivial

theorem withinM_throw (e : EvaluationError) :
    WithinM Q (throw (.error e) : RuntimeM σ α) := fun _ => trivial

/-- A host operation is judged by what it returns. -/
theorem withinM_hostOperation {x : ClientM σ 16384 4096 GuestError α}
    (h : ∀ c a c', x c = .ok a c' → Q a) : WithinM Q (hostOperation x) := by
  intro c
  unfold hostOperation
  cases hx : x c with
  | ok a c' => exact h c a c' hx
  | error e c' => trivial

theorem withinM_ignoring (x : ClientM σ 16384 4096 GuestError α) :
    WithinM (fun _ => True) (ignoring x) := by
  intro c
  unfold ignoring
  cases x c <;> trivial

theorem WithinM.foldlM {P : β → Prop} {f : β → α → RuntimeM σ β} {l : List α} {b : β} (hb : P b)
    (hstep : ∀ b a, a ∈ l → P b → WithinM P (f b a)) : WithinM P (l.foldlM f b) := by
  induction l generalizing b with
  | nil => exact fun _ => hb
  | cons a rest ih =>
    refine (hstep b a List.mem_cons_self hb).bind fun c hc => ?_
    exact ih hc fun b a' ha' => hstep b a' (List.mem_cons_of_mem _ ha')

/-! ## The arrays -/

theorem classificationAt_of_lt {config : Config} (hc : Tables config)
    (h : index < config.classifications.length) :
    ∃ classification, config.classificationAt index = some classification :=
  ⟨_, if_pos (h.trans_le hc.classifications_le)⟩

/-- The rules that an evaluation goes through. -/
theorem refers_effectiveRules {config : Config} {global overlay : List Rule}
    (hglobal : Refers config global) (hoverlay : Refers config overlay) {entry : Nat × Rule}
    (h : entry ∈ effectiveRules global overlay)
    (hselector : entry.2.selector = .classification index) :
    index < config.classifications.length := by
  obtain ⟨⟨rule, n⟩, hmem, rfl⟩ := List.mem_map.mp h
  have hrule : rule ∈ global ++ overlay := (List.mem_zipIdx' hmem).2 ▸ List.getElem_mem _
  rcases List.mem_append.mp hrule with hrule | hrule
  · exact hglobal rule hrule index hselector
  · exact hoverlay rule hrule index hselector

/-- A place for each classification. -/
abbrev Sized (l : List α) : Prop := l.length = maxClassifications

section Parsed

open List

variable {config : Config} (hconfig : Indexed config) (hoverlay : Refers config overlay.rules)
  (t : HostTransport σ)

include hconfig

theorem within_markRequired {required : List Bool} (hlength : Sized required)
    (hindex : index < config.classifications.length) :
    Within Sized (markRequired required index) := by
  have hlt : index < required.length :=
    hlength ▸ hindex.trans_le hconfig.tables.classifications_le
  rw [markRequired, if_pos hlt]
  exact (length_set).trans hlength

include hoverlay in
theorem within_requiredFor :
    Within Sized (requiredFor config overlay) := by
  have hlength : (replicate maxClassifications false).length = maxClassifications :=
    length_replicate
  refine Within.bind (Within.foldlM (P := Sized) hlength ?_) ?_
  · intro required index hindex hlength
    exact within_markRequired hconfig hlength (hconfig.provinces index hindex)
  · intro required hlength
    refine Within.foldlM hlength ?_
    intro required entry hentry hlength
    unfold markRule
    cases hselector : entry.2.selector with
    | classification index =>
      exact within_markRequired hconfig hlength
        (refers_effectiveRules hconfig.rules hoverlay hentry hselector)
    | ip | cidr => exact hlength

/-- The question to a dataset has room for all of its classifications. -/
theorem within_questionFor (required : List Bool) {d : Dataset} (hd : d ∈ config.datasets) :
    Within (fun question => ∀ entry ∈ question, entry.2 < maxClassifications)
      (questionFor config required d) := by
  obtain ⟨_, hend, hlen⟩ := hconfig.tables.ranges.le_of_mem hd
  -- with the indices still to come, the question has at most 64 entries
  suffices hall : ∀ (indices : List Nat) (question : List (DatasetClassification × Nat)),
      (∀ index ∈ indices, index < config.classifications.length) →
      question.length + indices.length ≤ 64 →
      (∀ entry ∈ question, entry.2 < maxClassifications) →
      Within (fun question => ∀ entry ∈ question, entry.2 < maxClassifications)
        (indices.foldlM (collect config required) question) by
    refine hall _ [] ?_ ?_ (fun _ h => absurd h not_mem_nil)
    · intro index hindex
      have hrange := mem_range'_1.mp hindex
      omega
    · simpa using hlen
  intro indices
  induction indices with
  | nil => exact fun question _ _ hentries => hentries
  | cons index rest ih =>
    intro question hbelow hroom hentries
    rw [length_cons] at hroom
    have hrest : ∀ i ∈ rest, i < config.classifications.length :=
      fun i hi => hbelow i (mem_cons_of_mem _ hi)
    rw [foldlM_cons, collect]
    by_cases hneeded : required.getD index false = true
    · rw [if_pos hneeded]
      obtain ⟨classification, hfound⟩ :=
        classificationAt_of_lt hconfig.tables (hbelow index mem_cons_self)
      rw [hfound]
      show Within _ ((if 64 ≤ question.length then Except.error Fault.invalidIndex else
        pure (question ++ [(⟨classification.name.asStr, classification.kind⟩, index % 256)])) >>= _)
      rw [if_neg (by omega)]
      refine ih _ hrest ?_ ?_
      · rw [length_append, length_singleton]
        omega
      · exact forall_mem_append.mpr
          ⟨hentries, forall_mem_singleton.mpr (Nat.mod_lt _ (by decide))⟩
    · rw [if_neg hneeded]
      exact ih question hrest (by omega) hentries

omit hconfig in
theorem within_recordMatch {question : List (DatasetClassification × Nat)} {lookups : List Lookup}
    {item : Except GuestError DatasetMatch}
    (hquestion : ∀ entry ∈ question, entry.2 < maxClassifications)
    (hlookups : Sized lookups)
    (hitem : ∀ answer, item = .ok answer → answer.index < 64) :
    Within Sized (recordMatch question lookups item) := by
  cases item with
  | error e => trivial
  | ok answer =>
    have hslot : mappingAt question answer.index =
        some ((question.map Prod.snd).getD answer.index 0) := if_pos (hitem answer rfl)
    have hglobal : (question.map Prod.snd).getD answer.index 0 < lookups.length := by
      rw [hlookups, getD_eq_getElem?_getD]
      cases hentry : (question.map Prod.snd)[answer.index]? with
      | none => decide
      | some global =>
        obtain ⟨entry, hmem, rfl⟩ := mem_map.mp (mem_of_getElem? hentry)
        exact hquestion entry hmem
    refine (within_orFault hslot rfl).bind fun global hsame => ?_
    obtain rfl : (question.map Prod.snd).getD answer.index 0 = global := hsame
    rw [if_pos hglobal]
    exact (length_set).trans hlookups

omit hconfig in
theorem withinM_queryDataset (hstate : Indexed state.config) {required : List Bool}
    {lookups : List Lookup} {datasetIndex : Nat}
    (hindex : datasetIndex < state.config.datasets.length)
    (hlookups : Sized lookups) :
    WithinM Sized (state.queryDataset t required lookups datasetIndex) := by
  refine WithinM.bind (P := fun d => d ∈ state.config.datasets) (Within.lift ?_) ?_
  · exact within_orFault (getElem?_eq_getElem hindex) (getElem_mem hindex)
  intro d hd
  refine WithinM.bind (within_questionFor hstate required hd).lift ?_
  intro question hquestion
  split_ifs with hnone
  · exact WithinM.pure hlookups
  · have hreference : datasetIndex < maxDatasets := hindex.trans_le hstate.tables.datasets_le
    refine WithinM.bind (P := fun _ => True) (Within.lift ?_) ?_
    · exact within_orFault (Vector.getElem?_eq_getElem hreference) trivial
    intro reference _
    refine WithinM.bind (withinM_hostOperation fun c response c' h =>
      HostClient.datasetQuery_ok h) ?_
    rintro response ⟨frame, limits, hdecode, _⟩
    split_ifs with hstatus
    · exact withinM_throw _
    · refine Within.lift (Within.foldlM hlookups ?_)
      intro lookups item hitem hlookups
      refine within_recordMatch hquestion hlookups fun answer hanswer => ?_
      exact DatasetQueryResponse.index_lt hdecode (hanswer ▸ hitem)

omit hconfig in
theorem withinM_queryRequired (hstate : Indexed state.config)
    (hrefers : Refers state.config overlay.rules) :
    WithinM Sized (state.queryRequired t overlay) := by
  refine WithinM.bind (within_requiredFor hstate hrefers).lift ?_
  intro required _
  have hempty : (replicate maxClassifications emptyLookup).length = maxClassifications :=
    length_replicate
  refine WithinM.foldlM (P := Sized) hempty ?_
  intro lookups datasetIndex hindex hlookups
  exact withinM_queryDataset t hstate (mem_range.mp hindex) hlookups

/-! ## The decision -/

variable {lookups : List Lookup} (hlookups : Sized lookups)

include hlookups

theorem lookup_of_lt (h : index < config.classifications.length) :
    ∃ lookup, lookups[index]? = some lookup :=
  ⟨_, getElem?_eq_getElem (hlookups ▸ h.trans_le hconfig.tables.classifications_le)⟩

theorem within_provinceLoop {indices : List Nat}
    {unknown : Option Nat} (hindices : ∀ i ∈ indices, i < config.classifications.length)
    (hunknown : ∀ i, unknown = some i → i < config.classifications.length) :
    Within (fun r => ∀ i, r.2 = some i → i < config.classifications.length)
      (provinceLoop lookups indices unknown) := by
  induction indices generalizing unknown with
  | nil => exact hunknown
  | cons index rest ih =>
    have hindex := hindices index mem_cons_self
    obtain ⟨lookup, hlookup⟩ := lookup_of_lt hconfig hlookups hindex
    rw [provinceLoop, hlookup]
    show Within _ (if lookup.coverage = .covered ∧ lookup.matched = true then _ else _)
    split_ifs with hmatched hfirst
    · exact hunknown
    · refine ih (fun i hi => hindices i (mem_cons_of_mem _ hi)) ?_
      rintro i ⟨⟩
      exact hindex
    · exact ih (fun i hi => hindices i (mem_cons_of_mem _ hi)) hunknown

theorem within_judgeProvinces : Within (fun _ => True) (judgeProvinces config lookups) := by
  unfold judgeProvinces
  split_ifs with hnone
  · trivial
  · have hloop := within_provinceLoop hconfig hlookups hconfig.provinces
      fun i (h : none = some i) => nomatch h
    refine hloop.bind ?_
    rintro ⟨found, unknown⟩ hunknown
    dsimp only
    by_cases hfound : found.isSome = true
    · rw [if_pos hfound]
      trivial
    · rw [if_neg hfound]
      obtain ⟨first, rest, hfirst⟩ := exists_cons_of_ne_nil hnone
      have hbelow : unknown.getD first < config.classifications.length := by
        cases unknown with
        | none => exact hconfig.provinces first (hfirst ▸ mem_cons_self)
        | some i => exact hunknown i rfl
      obtain ⟨classification, hclassification⟩ := classificationAt_of_lt hconfig.tables hbelow
      refine (within_orFault (Q := fun i => i = first) (by rw [hfirst]; rfl) rfl).bind ?_
      rintro i rfl
      refine (within_orFault (Q := fun _ => True) hclassification trivial).bind ?_
      intro c _
      trivial

theorem within_ruleMatches (address : IpAddress)
    {rule : Rule} (hrule : ∀ index, rule.selector = .classification index →
      index < config.classifications.length) :
    Within (fun _ => True) (ruleMatches config lookups address rule) := by
  unfold ruleMatches
  cases hselector : rule.selector with
  | ip | cidr => trivial
  | classification index =>
    have hindex := hrule index hselector
    obtain ⟨classification, hclassification⟩ := classificationAt_of_lt hconfig.tables hindex
    obtain ⟨lookup, hlookup⟩ := lookup_of_lt hconfig hlookups hindex
    refine (within_orFault (Q := fun _ => True) hclassification trivial).bind fun c _ => ?_
    refine (within_orFault (Q := fun _ => True) hlookup trivial).bind fun l _ => ?_
    split_ifs <;> trivial

theorem within_rulesLoop (address : IpAddress)
    (effect : RuleEffect) {rules : List (Nat × Rule)}
    (hrules : ∀ entry ∈ rules, ∀ index, entry.2.selector = .classification index →
      index < config.classifications.length) :
    Within (fun _ => True) (rulesLoop config lookups address effect rules) := by
  induction rules with
  | nil => trivial
  | cons entry rest ih =>
    obtain ⟨ruleIndex, rule⟩ := entry
    have hrest := ih fun e he => hrules e (mem_cons_of_mem _ he)
    rw [rulesLoop]
    split_ifs with heffect
    · exact hrest
    · refine (within_ruleMatches hconfig hlookups address
        (hrules (ruleIndex, rule) mem_cons_self)).bind ?_
      intro matched _
      split_ifs
      · trivial
      · exact hrest

include hoverlay in
theorem within_judge (address : IpAddress) :
    Within (fun _ => True) (judge config overlay lookups address) := by
  have hrules : ∀ entry ∈ effectiveRules config.rules overlay.rules, ∀ index,
      entry.2.selector = .classification index → index < config.classifications.length :=
    fun entry hentry index => refers_effectiveRules hconfig.rules hoverlay hentry
  refine (within_judgeProvinces hconfig hlookups).bind fun denied _ => ?_
  cases denied with
  | some denied => trivial
  | none =>
    refine (within_rulesLoop hconfig hlookups address .deny hrules).bind fun denied _ => ?_
    cases denied with
    | some denied => trivial
    | none => exact within_rulesLoop hconfig hlookups address .allow hrules

end Parsed

/-! ## Evaluations -/

section Evaluations

variable (t : HostTransport σ)

theorem withinM_sourceAddress : WithinM (fun _ => True) (state.sourceAddress t) := by
  refine WithinM.bind (P := fun _ => True) (withinM_hostOperation fun _ _ _ _ => trivial) ?_
  intro trusted _
  split
  · exact withinM_throw _
  · split_ifs
    · exact withinM_throw _
    · split
      · exact fun _ => trivial
      · exact withinM_throw _

theorem withinM_evaluateOverlay (hstate : Indexed state.config)
    (hrefers : Refers state.config overlay.rules) :
    WithinM (fun _ => True) (state.evaluateOverlay t overlay) := by
  refine (withinM_sourceAddress t).bind fun address _ => ?_
  split
  · exact (withinM_ignoring _).bind fun _ _ _ => trivial
  · refine (withinM_queryRequired t hstate hrefers).bind fun lookups hlookups => ?_
    refine (within_judge hstate hrefers hlookups address).lift.bind fun decision _ => ?_
    split
    · exact (withinM_ignoring _).bind fun _ _ _ => trivial
    · exact fun _ => trivial

theorem refers_readOverlay (hstate : Indexed state.config) {payload : Bytes}
    (h : state.readOverlay payload = .ok overlay) : Refers state.config overlay.rules := by
  unfold RuntimeState.readOverlay at h
  split_ifs at h
  · cases h
    exact fun _ h => absurd h List.not_mem_nil
  · split at h
    · rename_i parsed hparsed
      cases h
      exact (overlay_indexed hstate hparsed).rules
    · exact nomatch h

theorem evaluateFaults_ne (hstate : Indexed state.config) (payload : Bytes) (s : σ) :
    state.evaluateFaults t payload s ≠ .error .invalidIndex := by
  unfold RuntimeState.evaluateFaults
  cases hoverlay : state.readOverlay payload with
  | error fault =>
    -- an overlay that does not parse is an error of its own
    unfold RuntimeState.readOverlay at hoverlay
    split_ifs at hoverlay
    split at hoverlay
    · exact nomatch hoverlay
    · cases hoverlay
      exact nofun
  | ok overlay =>
    dsimp only [bind, Except.bind]
    cases hclient : HostClient.new 16384 4096 s (.new 8 datasetResponseBytes) with
    | error e => exact nofun
    | ok client =>
      dsimp only
      have hwithin := withinM_evaluateOverlay t hstate (refers_readOverlay hstate hoverlay) client
      cases hrun : state.evaluateOverlay t overlay client with
      | ok evaluation c => exact nofun
      | error fault c =>
        rw [hrun] at hwithin
        cases fault with
        | invalidIndex => exact hwithin.elim
        | error e => exact nofun

end Evaluations

/-- A configuration that was parsed is index-safe: its ranges and references are in order,
so are the references of every overlay parsed against it, and no evaluation with it, with
any overlay and on any host, reports an index out of range. -/
theorem parse_index_safe (σ : Type) {frame : Bytes} {config : Config}
    (h : Config.parse frame = .ok config) :
    Indexed config ∧
    (∀ payload overlay, Overlay.parse payload config = .ok overlay →
      OverlayIndexed config overlay) ∧
    ∀ (generation : FixedStr 512) (references : Vector OwnedReference maxDatasets)
      (payload : Bytes) (t : HostTransport σ) (s : σ),
      (RuntimeState.mk config generation references).evaluateFaults t payload s ≠
        .error .invalidIndex := by
  have hindexed := parse_indexed h
  refine ⟨hindexed, fun payload overlay hoverlay => overlay_indexed hindexed hoverlay, ?_⟩
  intro generation references payload t s
  exact evaluateFaults_ne t hindexed payload s

/-- A frame whose rule comes before the dataset it refers to. -/
def forwardFrame : Bytes :=
  ascii "\x7b\"rules\":[\x7b\"id\":\"r\",\"action\":\"deny\",\"selector\":\x7b\"type\":\"classification\"," ++
  ascii "\"dataset_id\":\"geo\",\"classification_id\":\"bj\"\x7d\x7d],\"schema\":\"sakullla.ip-policy/v1\"," ++
  ascii "\"datasets\":[\x7b\"id\":\"geo\",\"source_id\":\"cn\",\"classifications\":[" ++
  ascii "\x7b\"id\":\"bj\",\"name\":\"cn-11\",\"kind\":\"region\"\x7d]\x7d],\"default_action\":\"allow\"," ++
  ascii "\"province_whitelist\":[\x7b\"dataset_id\":\"geo\",\"classification_id\":\"bj\"\x7d]\x7d"

/-- A rule may refer to a dataset further on. -/
theorem parse_index_safe_forward : ∃ config, Config.parse forwardFrame = .ok config ∧
    config.rules.map (·.selector) = [.classification 0] ∧ Indexed config := by
  obtain ⟨config, hconfig, hselectors⟩ : ∃ config, Config.parse forwardFrame = .ok config ∧
      config.rules.map (·.selector) = [.classification 0] := by
    decide +kernel
  exact ⟨config, hconfig, hselectors, (parse_index_safe Unit hconfig).1⟩

end NrePlugins.IpPolicy
