import Nre.IpPolicy.Config

/-!
# What a parsed configuration is like

The parser fills the tables of a `Config` while it reads, in whatever order the members
come, and `resolve` turns references into indices. `Tables` is what the tables keep from
element to element; `Indexed` is what a parsed configuration has.

- `parse_indexed`, `overlay_indexed`: parsed configurations and overlays;
- `Ranges`: the datasets' ranges lie one after the other.
-/

namespace NrePlugins.IpPolicy

open List

/-- The ranges of the datasets, from `start` on, one after the other up to `total`. -/
def Ranges : Nat → List Dataset → Nat → Prop
  | start, [], total => start = total
  | start, d :: rest, total =>
    d.classificationStart = start ∧ 0 < d.classificationLen ∧ d.classificationLen ≤ 64 ∧
      Ranges (start + d.classificationLen) rest total

/-- Two classifications of one dataset that do not clash. -/
def Classification.Differ (a b : Classification) : Prop :=
  a.id ≠ b.id ∧ (a.name, a.kind) ≠ (b.name, b.kind)

/-- The classifications of a dataset. -/
def Config.segment (config : Config) (d : Dataset) : List Classification :=
  (config.classifications.drop d.classificationStart).take d.classificationLen

/-- The tables of datasets and classifications. -/
structure Tables (config : Config) : Prop where
  ranges : Ranges 0 config.datasets config.classifications.length
  datasetIds : (config.datasets.map (·.id)).Nodup
  segments : ∀ d ∈ config.datasets, (config.segment d).Pairwise Classification.Differ
  datasets_le : config.datasets.length ≤ maxDatasets
  classifications_le : config.classifications.length ≤ maxClassifications

/-- Rules that refer to classifications there are. -/
def Refers (config : Config) (rules : List Rule) : Prop :=
  ∀ rule ∈ rules, ∀ index, rule.selector = .classification index →
    index < config.classifications.length

/-- A parsed configuration. -/
structure Indexed (config : Config) : Prop where
  tables : Tables config
  ruleIds : (config.rules.map (·.id)).Nodup
  rules : Refers config config.rules
  provinces : ∀ index ∈ config.provinceWhitelist, index < config.classifications.length
  provinces_distinct : config.provinceWhitelist.Nodup

/-- An overlay that was parsed against a configuration. -/
structure OverlayIndexed (config : Config) (overlay : Overlay) : Prop where
  ruleIds : ((config.rules ++ overlay.rules).map (·.id)).Nodup
  rules : Refers config overlay.rules

/-! ## Ranges -/

variable {d : Dataset} {config : Config}

theorem Ranges.snoc {start total : Nat} {datasets : List Dataset}
    (h : Ranges start datasets total) (hstart : d.classificationStart = total)
    (hpos : 0 < d.classificationLen) (hlen : d.classificationLen ≤ 64) :
    Ranges start (datasets ++ [d]) (total + d.classificationLen) := by
  induction datasets generalizing start with
  | nil =>
    obtain rfl : start = total := h
    exact ⟨hstart, hpos, hlen, rfl⟩
  | cons e rest ih => exact ⟨h.1, h.2.1, h.2.2.1, ih h.2.2.2⟩

/-- A range lies below the end of all. -/
theorem Ranges.le_of_mem {start total : Nat} {datasets : List Dataset}
    (h : Ranges start datasets total) (hd : d ∈ datasets) :
    start ≤ d.classificationStart ∧ d.classificationStart + d.classificationLen ≤ total ∧
      d.classificationLen ≤ 64 := by
  have hle : ∀ (start : Nat) (datasets : List Dataset), Ranges start datasets total →
      start ≤ total := by
    intro start datasets h
    induction datasets generalizing start with
    | nil => exact le_of_eq h
    | cons e rest ih => exact (Nat.le_add_right _ _).trans (ih _ h.2.2.2)
  induction datasets generalizing start with
  | nil => exact nomatch hd
  | cons e rest ih =>
    rcases mem_cons.mp hd with rfl | hd
    · exact ⟨h.1.ge, h.1 ▸ hle _ _ h.2.2.2, h.2.2.1⟩
    · obtain ⟨hstart, hend⟩ := ih h.2.2.2 hd
      exact ⟨(Nat.le_add_right _ _).trans hstart, hend⟩

/-- The tables do not depend on the other fields. -/
theorem Tables.congr {config' : Config} (h : Tables config)
    (hd : config'.datasets = config.datasets)
    (hc : config'.classifications = config.classifications) : Tables config' := by
  obtain ⟨hranges, hids, hsegments, hdatasets, htotal⟩ := h
  refine ⟨hd ▸ hc ▸ hranges, hd ▸ hids, ?_, hd ▸ hdatasets, hc ▸ htotal⟩
  intro d hmem
  unfold Config.segment
  rw [hc]
  exact hsegments d (hd ▸ hmem)

/-! ## Objects and arrays -/

namespace Parser

open Scanner hiding ofExcept

variable {σ : Type} {input rest : Bytes} {config : Config} {init s : σ}

section

variable {member : σ → Bytes → Parser (σ × Nat)} {P : σ → Nat → Prop} (hinit : P init 0)
  (hstep : ∀ s seen name input s' bit rest, P s seen →
    member s name input = .ok ((s', bit), rest) → seen &&& bit = 0 → P s' (seen ||| bit))

include hinit hstep

theorem object_ok {seen : Nat} (h : object init member input = .ok ((s, seen), rest)) :
    P s seen := by
  obtain ⟨left, rest₂, _, h⟩ := Scanner.bind_eq_ok.mp h
  exact membersLoop_ok hstep hinit h

theorem completeObject_ok {bits : Nat}
    (h : completeObject bits init member input = .ok (s, rest)) : P s bits := by
  obtain ⟨⟨value, seen⟩, rest₁, hobject, h⟩ := Scanner.bind_eq_ok.mp h
  obtain ⟨hbits, h⟩ := ite_throw_eq_ok.mp h
  cases pure_eq_ok.mp h
  rw [not_not] at hbits
  exact hbits ▸ object_ok hinit hstep hobject

end

theorem array_ok {element : σ → Parser σ} {P : σ → Prop} (hinit : P init)
    (hstep : ∀ s input s' rest, P s → element s input = .ok (s', rest) → P s')
    (h : array init element input = .ok (s, rest)) : P s := by
  obtain ⟨left, rest₂, _, h⟩ := Scanner.bind_eq_ok.mp h
  exact elementsLoop_ok hstep hinit h

/-! ## Datasets -/

/-- The classifications that one dataset has added. -/
structure Added (config after : Config) (more : List Classification) : Prop where
  eq : after = { config with classifications := config.classifications ++ more }
  length_le : more.length ≤ 64
  total_le : config.classifications.length + more.length ≤ maxClassifications
  differ : more.Pairwise Classification.Differ

variable {after : Config}

theorem classificationElement_added {after' : Config} {dataset : Nat}
    (hafter : ∃ more, Added config after more)
    (h : classificationElement config.classifications.length dataset after input =
      .ok (after', rest)) :
    ∃ more, Added config after' more := by
  obtain ⟨more, rfl, hlength, htotal, hdiffer⟩ := hafter
  obtain ⟨hfull, h⟩ := ite_throw_eq_ok.mp h
  obtain ⟨value, rest₁, _, h⟩ := Scanner.bind_eq_ok.mp h
  obtain ⟨hclash, h⟩ := ite_throw_eq_ok.mp h
  cases pure_eq_ok.mp h
  rw [not_or, length_append] at hfull
  refine ⟨more ++ [value], by simp, ?_, ?_, ?_⟩
  · rw [length_append, length_singleton]
    omega
  · rw [length_append, length_singleton]
    omega
  · rw [pairwise_append]
    refine ⟨hdiffer, pairwise_singleton _ _, ?_⟩
    intro a ha b hb
    obtain rfl := mem_singleton.mp hb
    rw [drop_left, Bool.not_eq_true, any_eq_false] at hclash
    have hpair := hclash a ha
    simp only [Bool.or_eq_true, beq_iff_eq, Bool.and_eq_true, not_or, not_and] at hpair
    refine ⟨hpair.1, fun heq => ?_⟩
    obtain ⟨hname, hkind⟩ := Prod.mk.inj heq
    exact hpair.2 hname hkind

theorem classifications_added {dataset : Nat}
    (htotal : config.classifications.length ≤ maxClassifications)
    (h : classifications config dataset input = .ok (after, rest)) :
    ∃ more, Added config after more := by
  have hnone : ∃ more, Added config config more :=
    ⟨[], by simp, Nat.zero_le _, htotal, List.Pairwise.nil⟩
  exact array_ok (P := fun s => ∃ more, Added config s more) hnone
    (fun s input s' rest hs h => classificationElement_added hs h) h

/-- A dataset adds its classifications once: its object has the key only once. -/
theorem dataset_added {value : Dataset}
    (htotal : config.classifications.length ≤ maxClassifications)
    (h : dataset config input = .ok ((value, after), rest)) :
    ∃ more, Added config after more := by
  have hboth := completeObject_ok (P := fun s seen =>
    (seen &&& 4 = 0 → s.2 = config) ∧ ∃ more, Added config s.2 more) ?_ ?_ h
  · exact hboth.2
  · exact ⟨fun _ => rfl, [], by simp, Nat.zero_le _, htotal, List.Pairwise.nil⟩
  · rintro ⟨value, current⟩ seen name input ⟨value', current'⟩ bit rest ⟨hfirst, hadded⟩ hmember hnew
    revert hmember
    fun_cases datasetMember (value, current) name with
    | case1 | case2 =>
      intro hmember
      obtain ⟨id, rest₁, _, hpair⟩ := Scanner.map_eq_ok.mp hmember
      cases hpair
      refine ⟨fun h => hfirst ?_, hadded⟩
      simpa [Nat.and_or_distrib_right] using h
    | case3 =>
      intro hmember
      obtain ⟨after, rest₁, hclasses, hpair⟩ := Scanner.map_eq_ok.mp hmember
      cases hpair
      obtain rfl := hfirst hnew
      refine ⟨fun h => ?_, classifications_added htotal hclasses⟩
      simp [Nat.and_or_distrib_right] at h
    | case4 => exact fun h => absurd h throw_ne_ok

/-- The segments of the datasets before stay as they are. -/
theorem segment_append {more : List Classification}
    (h : d.classificationStart + d.classificationLen ≤ config.classifications.length)
    (datasets : List Dataset) :
    Config.segment { config with datasets, classifications := config.classifications ++ more } d =
      config.segment d := by
  show ((config.classifications ++ more).drop _).take _ = (config.classifications.drop _).take _
  rw [drop_append_of_le_length (by omega), take_append_of_le_length]
  rw [length_drop]
  omega

theorem datasetElement_tables (hc : Tables config)
    (h : datasetElement config input = .ok (after, rest)) : Tables after := by
  obtain ⟨hfull, h⟩ := ite_throw_eq_ok.mp h
  obtain ⟨⟨value, next⟩, rest₁, hdataset, h⟩ := Scanner.bind_eq_ok.mp h
  obtain ⟨more, rfl, hlength, htotal, hdiffer⟩ := dataset_added hc.classifications_le hdataset
  dsimp only at h
  have hadded : (config.classifications ++ more).length - config.classifications.length =
      more.length := by
    rw [length_append]
    omega
  rw [hadded] at h
  obtain ⟨hclash, h⟩ := ite_throw_eq_ok.mp h
  cases pure_eq_ok.mp h
  rw [not_or] at hclash
  constructor
  · rw [length_append]
    exact hc.ranges.snoc rfl (Nat.pos_of_ne_zero hclash.1) hlength
  · rw [map_append, map_singleton, ← concat_eq_append]
    refine .concat (fun hid => ?_) hc.datasetIds
    obtain ⟨d, hd, heq⟩ := mem_map.mp hid
    exact hclash.2 (any_eq_true.mpr ⟨d, hd, beq_iff_eq.mpr heq⟩)
  · refine forall_mem_append.mpr ⟨fun d hd => ?_, forall_mem_singleton.mpr ?_⟩
    · rw [segment_append (hc.ranges.le_of_mem hd).2.1]
      exact hc.segments d hd
    · show (((config.classifications ++ more).drop _).take _).Pairwise _
      rw [drop_left, take_length]
      exact hdiffer
  · rw [length_append, length_singleton]
    omega
  · rw [length_append]
    exact htotal

theorem datasets_tables (hc : Tables config) (h : datasets config input = .ok (after, rest)) :
    Tables after :=
  array_ok hc (fun _ _ _ _ hs h => datasetElement_tables hs h) h

theorem config_tables {raw : RawConfig} (h : Parser.config input = .ok (raw, rest)) :
    Tables raw.config := by
  refine completeObject_ok (P := fun raw _ => Tables raw.config) ?_ ?_ h
  · exact ⟨rfl, nodup_nil, nofun, Nat.zero_le _, Nat.zero_le _⟩
  · rintro raw seen name input raw' bit rest hraw hmember _
    revert hmember
    fun_cases configMember raw name with
    | case1 | case2 | case4 | case5 =>
      intro hmember
      obtain ⟨_, rest₁, _, hpair⟩ := Scanner.map_eq_ok.mp hmember
      cases hpair
      exact Tables.congr hraw rfl rfl
    | case3 =>
      intro hmember
      obtain ⟨after, rest₁, hdatasets, hpair⟩ := Scanner.map_eq_ok.mp hmember
      cases hpair
      exact datasets_tables hraw hdatasets
    | case6 => exact fun h => absurd h throw_ne_ok

end Parser

/-! ## References -/

/-- A reference is resolved to a classification there is. -/
theorem resolveClassification_lt {reference : RawReference} {index : Nat}
    (h : resolveClassification config reference = .ok index) :
    index < config.classifications.length := by
  revert h
  fun_cases resolveClassification config reference with
  | case3 _ _ _ offset hfound =>
    rintro ⟨⟩
    have hlt := (findIdx?_eq_some_iff_getElem.mp hfound).1
    rw [length_take, length_drop] at hlt
    omega
  | _ => nofun

theorem resolve_refers {raw : RawRule} {rule : Rule} {index : Nat}
    (h : raw.resolve config = .ok rule) (hselector : rule.selector = .classification index) :
    index < config.classifications.length := by
  obtain ⟨selector, hresolve, h⟩ := bind_eq_ok.mp h
  cases h
  obtain rfl : selector = .classification index := hselector
  unfold RawRule.resolveSelector at hresolve
  split at hresolve
  · obtain ⟨_, _, h⟩ := bind_eq_ok.mp hresolve
    exact nomatch Except.ok.inj h
  · obtain ⟨_, _, h⟩ := bind_eq_ok.mp hresolve
    exact nomatch Except.ok.inj h
  · obtain ⟨found, hfound, h⟩ := bind_eq_ok.mp hresolve
    split_ifs at h
    obtain rfl := Selector.classification.inj (Except.ok.inj h)
    exact resolveClassification_lt hfound
  · exact nomatch hresolve

/-- The rules that have been resolved, with the ids they must not repeat. -/
theorem resolveRules_ok {taken rules : List Rule} {raws : List RawRule}
    (htaken : (taken.map (·.id)).Nodup) (h : raws.foldlM (resolveRule config taken) [] = .ok rules)
    :
    ((taken ++ rules).map (·.id)).Nodup ∧ Refers config rules := by
  refine foldlM_ok (P := fun rules => ((taken ++ rules).map (·.id)).Nodup ∧ Refers config rules)
    ?_ ⟨by rwa [append_nil], fun _ h => absurd h not_mem_nil⟩ h
  rintro rules raw rules' _ ⟨hids, hrefers⟩ hstep
  obtain ⟨resolved, hresolved, hstep⟩ := bind_eq_ok.mp hstep
  obtain ⟨hfresh, hstep⟩ := ite_error_eq_ok.mp hstep
  cases hstep
  rw [Bool.or_eq_true, not_or] at hfresh
  constructor
  · rw [← append_assoc, map_append, map_singleton, ← concat_eq_append]
    refine .concat (fun hid => ?_) hids
    obtain ⟨rule, hrule, heq⟩ := mem_map.mp hid
    have hsame : (rule.id == resolved.id) = true := beq_iff_eq.mpr heq
    rcases mem_append.mp hrule with hrule | hrule
    · exact hfresh.1 (any_eq_true.mpr ⟨rule, hrule, hsame⟩)
    · exact hfresh.2 (any_eq_true.mpr ⟨rule, hrule, hsame⟩)
  · refine forall_mem_append.mpr ⟨hrefers, forall_mem_singleton.mpr ?_⟩
    exact fun index hselector => resolve_refers hresolved hselector

theorem resolveProvinces_ok {references : List RawReference} {whitelist : List Nat}
    (h : references.foldlM (resolveProvince config) [] = .ok whitelist) :
    (∀ index ∈ whitelist, index < config.classifications.length) ∧ whitelist.Nodup := by
  refine foldlM_ok (P := fun whitelist =>
    (∀ index ∈ whitelist, index < config.classifications.length) ∧ whitelist.Nodup)
    ?_ ⟨fun _ h => absurd h not_mem_nil, nodup_nil⟩ h
  rintro whitelist reference whitelist' _ ⟨hbelow, hdistinct⟩ hstep
  obtain ⟨index, hindex, hstep⟩ := bind_eq_ok.mp hstep
  split at hstep
  · exact nomatch hstep
  · obtain ⟨hfresh, hstep⟩ := ite_error_eq_ok.mp hstep
    cases hstep
    constructor
    · exact forall_mem_append.mpr
        ⟨hbelow, forall_mem_singleton.mpr (resolveClassification_lt hindex)⟩
    · rw [← concat_eq_append]
      exact .concat (fun hi => hfresh (.inr (.inr hi))) hdistinct

theorem parse_indexed {frame : Bytes} (h : Config.parse frame = .ok config) : Indexed config := by
  obtain ⟨_, h⟩ := ite_error_eq_ok.mp h
  obtain ⟨⟨raw, rest⟩, hraw, h⟩ := bind_eq_ok.mp h
  obtain ⟨_, _, h⟩ := bind_eq_ok.mp h
  obtain ⟨whitelist, hwhitelist, h⟩ := bind_eq_ok.mp h
  obtain ⟨rules, hrules, h⟩ := bind_eq_ok.mp h
  cases h
  obtain ⟨hbelow, hdistinct⟩ := resolveProvinces_ok hwhitelist
  have hnone : (([] : List Rule).map (·.id)).Nodup := nodup_nil
  obtain ⟨hids, hrefers⟩ := resolveRules_ok hnone hrules
  exact ⟨(Parser.config_tables hraw).congr rfl rfl, hids, hrefers, hbelow, hdistinct⟩

theorem overlay_indexed {frame : Bytes} {overlay : Overlay} (hconfig : Indexed config)
    (h : Overlay.parse frame config = .ok overlay) :
    OverlayIndexed config overlay := by
  obtain ⟨_, h⟩ := ite_error_eq_ok.mp h
  obtain ⟨⟨raw, rest⟩, _, h⟩ := bind_eq_ok.mp h
  obtain ⟨_, _, h⟩ := bind_eq_ok.mp h
  obtain ⟨rules, hrules, h⟩ := bind_eq_ok.mp h
  cases h
  obtain ⟨hids, hrefers⟩ := resolveRules_ok hconfig.ruleIds hrules
  exact ⟨hids, hrefers⟩

end NrePlugins.IpPolicy
