import Mathlib.Data.Fintype.Card
import Nre.RateLimit.Bucket

/-!
# The limiter

Model of `limiter.rs`: `admits`, `reset_generation` and `disable` over a table of entries,
a vector of a fixed size.

`admit_cases` says everything that a call of `admits` can do to the table; an admission
moves the entries of the keys that the request charges (`moved`) and no others. The table
keeps one clock for each key (`arrival`), whatever entry it lies in, as long as no key has
two entries (`Tidy`). For any calls, one after the other:

- `admit_frame`: a denied request changes no entry, an admitted one the entries of the
  buckets it charges; no key has two entries;
- `admissions_bounded`: how many requests of a key are admitted in a window, and what an
  idle key admits at once.
-/

namespace NrePlugins.RateLimit

open Request

structure Entry where
  key : Option CounterKey
  state : GcraState

def Entry.empty : Entry := ⟨none, .new⟩

/-- A bucket for each key, and the last time seen. -/
structure LocalLimiter (maxKeys : Nat) where
  entries : Vector Entry maxKeys
  lastNow : Option Nat

namespace LocalLimiter

variable {maxKeys : Nat} (s : LocalLimiter maxKeys)

def new (maxKeys : Nat) : LocalLimiter maxKeys := ⟨Vector.replicate maxKeys .empty, none⟩

/-- The first entry of a key. -/
def position (key : CounterKey) : Option (Fin maxKeys) :=
  (List.finRange maxKeys).find? fun index => s.entries[index].key == some key

/-- The first free entry. -/
def vacant (excluded : Option (Fin maxKeys)) : Option (Fin maxKeys) :=
  (List.finRange maxKeys).find? fun index =>
    some index != excluded && s.entries[index].key.isNone

def findOrEmpty (key : CounterKey) (excluded : Option (Fin maxKeys)) : Option (Fin maxKeys) :=
  (s.position key).or (s.vacant excluded)

def installAndCommit (index : Fin maxKeys) (key : CounterKey)
    (preview : Preview) : LocalLimiter maxKeys :=
  let entry := s.entries[index]
  let entry := if entry.key.isNone then { entry with key := some key } else entry
  { s with entries := s.entries.set index { entry with state := entry.state.commit preview } }

/-- The entry of the rule's bucket, for a request that has one. -/
def globalEntry (r : Request) (sourceIndex : Fin maxKeys) :
    Except DecisionReason (Option (Fin maxKeys × CounterKey × BucketSpec)) :=
  match r.globalKey, r.globalSpec with
  | some key, some spec =>
    match s.findOrEmpty key (some sourceIndex) with
    | some index => .ok (some (index, key, spec))
    | none => .error .stateCapacityExhausted
  | none, none => .ok none
  | some _, none => .ok none
  | none, some _ => .error .invalidConfig

/-- The preview of the rule's bucket. -/
def globalPreview (now : Nat) : Option (Fin maxKeys × CounterKey × BucketSpec) →
      Except DecisionReason (Option (Fin maxKeys × CounterKey × Preview))
  | some (index, key, spec) =>
    match s.entries[index].state.preview now spec with
    | .ok preview => .ok (some (index, key, preview))
    | .error _ => .error .invalidConfig
  | none => .ok none

/-- The rest of `admits` once the entry of the source's bucket is chosen. -/
def charge (r : Request) (sourceKey : CounterKey)
    (sourceIndex : Fin maxKeys) : Admission × LocalLimiter maxKeys :=
  match s.globalEntry r sourceIndex with
  | .error reason => (deny reason 0 r.kind, s)
  | .ok rule =>
    match s.entries[sourceIndex].state.preview r.now r.sourceSpec, s.globalPreview r.now rule with
    | .error _, _ => (deny .invalidConfig 0 r.kind, s)
    | .ok _, .error reason => (deny reason 0 r.kind, s)
    | .ok source, .ok none =>
      if !source.allowed then (deny .sourceLimited source.retryAfterNs r.kind, s)
      else (allow .allowed, s.installAndCommit sourceIndex sourceKey source)
    | .ok source, .ok (some (index, key, preview)) =>
      if !source.allowed then (deny .sourceLimited source.retryAfterNs r.kind, s)
      else if !preview.allowed then (deny .ruleGlobalLimited preview.retryAfterNs r.kind, s)
      else (allow .allowed,
        (s.installAndCommit sourceIndex sourceKey source).installAndCommit index key preview)

def admits (r : Request) : Admission × LocalLimiter maxKeys :=
  if s.lastNow.any (r.now < ·) then (deny .clockRegressed 0 r.kind, s)
  else
    let s := { s with lastNow := some r.now }
    match r.sourceKey with
    | none => (allow .existingSession, s)
    | some sourceKey =>
      match s.findOrEmpty sourceKey none with
      | none => (deny .stateCapacityExhausted 0 r.kind, s)
      | some sourceIndex => s.charge r sourceKey sourceIndex

def keyCount : Nat := s.entries.countP (·.key.isSome)

def resetGeneration (generation : StableId) : Nat × LocalLimiter maxKeys :=
  (s.entries.countP (·.key.any (·.generation = generation)),
    { s with entries := s.entries.map fun entry =>
        if entry.key.any (·.generation = generation) then .empty else entry })

def disable : Nat × LocalLimiter maxKeys :=
  (s.keyCount, ⟨Vector.replicate maxKeys .empty, none⟩)

end LocalLimiter

inductive Call where
  | admits (r : Request)
  | resetGeneration (generation : StableId)
  | disable
  deriving DecidableEq

namespace LocalLimiter

variable {maxKeys : Nat} {s : LocalLimiter maxKeys}

def step (s : LocalLimiter maxKeys) : Call → LocalLimiter maxKeys
  | .admits r => (s.admits r).2
  | .resetGeneration generation => (s.resetGeneration generation).2
  | .disable => s.disable.2

/-- The state after some calls. -/
def runFrom (s : LocalLimiter maxKeys) (calls : List Call) : LocalLimiter maxKeys :=
  calls.foldl step s

def run (maxKeys : Nat) (calls : List Call) : LocalLimiter maxKeys :=
  (new maxKeys).runFrom calls

theorem entries_new (i : Fin maxKeys) : (new maxKeys).entries[i] = .empty :=
  Vector.getElem_replicate i.2

/-- An entry after `reset_generation`. -/
theorem resetGeneration_entry (generation : StableId) (i : Fin maxKeys) :
    (s.resetGeneration generation).2.entries[i] =
      if s.entries[i].key.any (·.generation = generation) then .empty else s.entries[i] :=
  Vector.getElem_map ..

/-! ## The entry of a key -/

open List

/-- The entry that a key has, or the free one it is given. -/
def Slot (s : LocalLimiter maxKeys) (index : Fin maxKeys) (key : CounterKey) : Prop :=
  s.entries[index].key = some key ∨
    (s.entries[index].key = none ∧ ∀ other : Fin maxKeys, s.entries[other].key ≠ some key)

variable {key : CounterKey} {index : Fin maxKeys} {spec : BucketSpec} {now : Nat} {r : Request}
  {s' : LocalLimiter maxKeys} {other global : CounterKey} {excluded : Option (Fin maxKeys)}
  {requests : List Request} {k : Nat}

theorem position_eq_some (h : s.position key = some index) : s.entries[index].key = some key := by
  have hfound := find?_some h
  exact beq_iff_eq.mp hfound

theorem position_eq_none (h : s.position key = none) (index : Fin maxKeys) :
    s.entries[index].key ≠ some key := by
  have hnot := find?_eq_none.mp h index (mem_finRange index)
  simpa using hnot

theorem findOrEmpty_slot (h : s.findOrEmpty key excluded = some index) : s.Slot index key := by
  rcases Option.or_eq_some_iff.mp h with hposition | ⟨hnone, hvacant⟩
  · exact .inl (position_eq_some hposition)
  · have hfree := find?_some hvacant
    rw [Bool.and_eq_true, Option.isNone_iff_eq_none] at hfree
    exact .inr ⟨hfree.2, position_eq_none hnone⟩

/-- Two keys of one request are given two entries. -/
theorem findOrEmpty_ne {index' : Fin maxKeys} (hne : key ≠ other)
    (h : s.findOrEmpty key excluded = some index)
    (h' : s.findOrEmpty other (some index) = some index') : index ≠ index' := by
  rintro rfl
  rcases Option.or_eq_some_iff.mp h' with hposition | ⟨_, hvacant⟩
  · have hother := position_eq_some hposition
    rcases findOrEmpty_slot h with hkey | ⟨hfree, _⟩
    · exact hne (Option.some.inj (hkey.symm.trans hother))
    · exact nomatch hfree.symm.trans hother
  · have hfree := find?_some hvacant
    simp at hfree

/-- An entry after its bucket has admitted a request. -/
def moved (s : LocalLimiter maxKeys) (index : Fin maxKeys) (key : CounterKey) (spec : BucketSpec)
    (now : Nat) : LocalLimiter maxKeys :=
  let arrival := s.entries[index].state.theoreticalArrivalNs
  let entry : Entry := ⟨some key, ⟨nextArrival spec.emissionIntervalNs arrival now⟩⟩
  { s with entries := s.entries.set index entry }

/-- A bucket that admits: its entry, and how far ahead its clock may be. -/
structure Admits (s : LocalLimiter maxKeys) (index : Fin maxKeys) (key : CounterKey)
    (spec : BucketSpec) (now : Nat) : Prop where
  slot : s.Slot index key
  paced : s.entries[index].state.theoreticalArrivalNs ≤ now + spec.toleranceNs

theorem Slot.free_or (h : s.Slot index key) :
    s.entries[index].key = none ∨ s.entries[index].key = some key := by
  rcases h with hkey | ⟨hfree, _⟩
  · exact .inr hkey
  · exact .inl hfree

theorem installAndCommit_eq {preview : Preview}
    (hslot : s.entries[index].key = none ∨ s.entries[index].key = some key)
    (h : s.entries[index].state.preview now spec = .ok preview) (hallowed : preview.allowed = true)
    :
    s.installAndCommit index key preview = s.moved index key spec now := by
  have hkey : (if s.entries[index].key.isNone = true then
      (⟨some key, s.entries[index].state⟩ : Entry) else s.entries[index]) =
      ⟨some key, s.entries[index].state⟩ := by
    rcases hslot with hfree | hkey
    · rw [hfree]
      rfl
    · rw [hkey]
      show s.entries[index] = _
      rw [← hkey]
  unfold installAndCommit moved
  dsimp only
  rw [hkey]
  rw [((GcraState.preview_ok h).2.1 hallowed).2]

@[simp] theorem moved_self : (s.moved index key spec now).entries[index] = ⟨some key,
      ⟨nextArrival spec.emissionIntervalNs s.entries[index].state.theoreticalArrivalNs now⟩⟩ :=
  Vector.getElem_set_self index.2

theorem moved_of_ne {other : Fin maxKeys} (hne : index ≠ other) :
    (s.moved index key spec now).entries[other] = s.entries[other] :=
  Vector.getElem_set_ne index.2 other.2 fun h => hne (Fin.ext h)

/-! ## What a call does -/

/-- The step of an admission: the entries of the charged keys move. -/
inductive Charged (s : LocalLimiter maxKeys) (r : Request) : LocalLimiter maxKeys → Prop
  | one {key : CounterKey} {i : Fin maxKeys} :
    r.charges = [(key, r.sourceSpec)] → s.Admits i key r.sourceSpec r.now →
    Charged s r (s.moved i key r.sourceSpec r.now)
  | both {key global : CounterKey} {spec : BucketSpec} {i j : Fin maxKeys} :
    r.charges = [(key, r.sourceSpec), (global, spec)] → key ≠ global → i ≠ j →
    s.Admits i key r.sourceSpec r.now → s.Admits j global spec r.now →
    Charged s r ((s.moved i key r.sourceSpec r.now).moved j global spec r.now)

/-- The clock that a call leaves behind. -/
def seen (s : LocalLimiter maxKeys) (now : Nat) : LocalLimiter maxKeys :=
  { s with lastNow := some now }

/-- The entry of the rule's bucket is that of the second key charged. -/
theorem globalEntry_ok {rule : Option (Fin maxKeys × CounterKey × BucketSpec)}
    (hkey : r.sourceKey = some key) (h : s.globalEntry r index = .ok rule) :
    (rule = none ∧ r.charges = [(key, r.sourceSpec)]) ∨
      ∃ index' global spec, rule = some (index', global, spec) ∧ r.globalKey = some global ∧
        s.findOrEmpty global (some index) = some index' ∧
        r.charges = [(key, r.sourceSpec), (global, spec)] := by
  revert h
  unfold charges
  rw [hkey]
  fun_cases globalEntry s r index with
  | case1 global spec hspec hglobal index' hfound =>
    rintro ⟨⟩
    rw [hglobal, hspec]
    exact .inr ⟨index', global, spec, rfl, rfl, hfound, rfl⟩
  | case3 hspec | case4 _ hspec =>
    rintro ⟨⟩
    rw [hspec]
    exact .inl ⟨rfl, by cases r.globalKey <;> rfl⟩
  | _ => nofun

theorem charge_cases (hkey : r.sourceKey = some key)
    (hindex : s.findOrEmpty key none = some index) :
    ((s.charge r key index).1.action = .deny ∧ (s.charge r key index).2 = s) ∨
      ((s.charge r key index).1.action = .allow ∧ s.Charged r (s.charge r key index).2) := by
  have hslot := findOrEmpty_slot hindex
  fun_cases charge s r key index with
  | case5 rule hrule source hpreview hsource hlimited =>
    -- only the source's bucket is charged
    rw [Bool.not_eq_true, Bool.not_eq_false'] at hlimited
    rcases globalEntry_ok hkey hrule with ⟨-, hcharges⟩ | ⟨_, _, _, rfl, _⟩
    · rw [installAndCommit_eq hslot.free_or hsource hlimited]
      exact .inr ⟨rfl, .one hcharges ⟨hslot, ((GcraState.preview_ok hsource).2.1 hlimited).1⟩⟩
    · rw [globalPreview] at hpreview
      split at hpreview <;> cases hpreview
  | case8 rule hrule source index' global preview hpreview hsource hlimited hruleLimited =>
    rw [Bool.not_eq_true, Bool.not_eq_false'] at hlimited hruleLimited
    rcases globalEntry_ok hkey hrule with ⟨rfl, _⟩ | ⟨_, _, spec, rfl, hglobal, hindex', hcharges⟩
    · cases hpreview
    · rw [globalPreview] at hpreview
      split at hpreview <;> cases hpreview
      rename_i hrule
      have hkeys := globalKey_ne hkey hglobal
      have hne := findOrEmpty_ne hkeys hindex hindex'
      have hslot' := findOrEmpty_slot hindex'
      -- the second entry is as it was before the first was written
      have hkept : (s.moved index key r.sourceSpec r.now).entries[index'] = s.entries[index'] :=
        moved_of_ne hne
      rw [installAndCommit_eq hslot.free_or hsource hlimited,
        installAndCommit_eq (hkept ▸ hslot'.free_or) (hkept ▸ hrule) hruleLimited]
      exact .inr ⟨rfl, .both hcharges hkeys hne
        ⟨hslot, ((GcraState.preview_ok hsource).2.1 hlimited).1⟩
        ⟨hslot', ((GcraState.preview_ok hrule).2.1 hruleLimited).1⟩⟩
  | _ => exact .inl ⟨rfl, rfl⟩

/-- Everything that a call of `admits` can do. -/
theorem admit_cases (s : LocalLimiter maxKeys) (r : Request) :
    (s.lastNow.any (r.now < ·) = true ∧ (s.admits r).1.action = .deny ∧ (s.admits r).2 = s) ∨
    (s.lastNow.any (r.now < ·) = false ∧
      (((s.admits r).1.action = .deny ∧ (s.admits r).2 = s.seen r.now) ∨
        ((s.admits r).1.action = .allow ∧ r.sourceKey = none ∧ (s.admits r).2 = s.seen r.now) ∨
        ((s.admits r).1.action = .allow ∧ (s.seen r.now).Charged r (s.admits r).2))) := by
  fun_cases admits s r with
  | case1 hregressed => exact .inl ⟨hregressed, rfl, rfl⟩
  | case2 hlater _ hnone => exact .inr ⟨eq_false_of_ne_true hlater, .inr (.inl ⟨rfl, hnone, rfl⟩)⟩
  | case3 hlater => exact .inr ⟨eq_false_of_ne_true hlater, .inl ⟨rfl, rfl⟩⟩
  | case4 hlater _ key hkey index hindex =>
    refine .inr ⟨eq_false_of_ne_true hlater, ?_⟩
    rcases charge_cases hkey hindex with hdenied | hallowed
    · exact .inl hdenied
    · exact .inr (.inr hallowed)

/-- An admission for a key charges its entries. -/
theorem charged_of_allow (hallowed : (s.admits r).1.action = .allow)
    (hmem : (key, spec) ∈ r.charges) : (s.seen r.now).Charged r (s.admits r).2 := by
  rcases s.admit_cases r with
    ⟨_, hdenied, _⟩ | ⟨_, ⟨hdenied, _⟩ | ⟨_, hnone, _⟩ | ⟨_, hcharged⟩⟩
  · exact nomatch hdenied.symm.trans hallowed
  · exact nomatch hdenied.symm.trans hallowed
  · rw [charges, hnone] at hmem
    exact nomatch hmem
  · exact hcharged

/-- Any other answer leaves the entries. -/
theorem charged_or_kept (s : LocalLimiter maxKeys) (r : Request) :
    ((s.admits r).1.action = .allow ∧ (s.seen r.now).Charged r (s.admits r).2) ∨
      ∃ last, (s.admits r).2 = ⟨s.entries, last⟩ := by
  rcases s.admit_cases r with
    ⟨_, _, hsame⟩ | ⟨_, ⟨_, hsame⟩ | ⟨_, _, hsame⟩ | hcharged⟩
  · exact .inr ⟨_, hsame⟩
  · exact .inr ⟨_, hsame⟩
  · exact .inr ⟨_, hsame⟩
  · exact .inl hcharged

/-! ## One clock for each key -/

/-- No key has two entries, and a free entry holds no time. -/
structure Tidy (s : LocalLimiter maxKeys) : Prop where
  single : ∀ (i j : Fin maxKeys) (key : CounterKey),
    s.entries[i].key = some key → s.entries[j].key = some key → i = j
  blank : ∀ i : Fin maxKeys, s.entries[i].key = none → s.entries[i] = .empty

/-- The theoretical arrival time of a key, 0 if it has no entry. -/
def arrival (s : LocalLimiter maxKeys) (key : CounterKey) : Nat :=
  match s.position key with
  | some index => s.entries[index].state.theoreticalArrivalNs
  | none => 0

theorem Tidy.arrival_of_entry (hs : s.Tidy) (h : s.entries[index].key = some key) :
    s.arrival key = s.entries[index].state.theoreticalArrivalNs := by
  unfold arrival
  cases hposition : s.position key with
  | none => exact absurd h (position_eq_none hposition index)
  | some other =>
    obtain rfl := hs.single _ _ _ h (position_eq_some hposition)
    rfl

theorem arrival_of_absent (h : ∀ index : Fin maxKeys, s.entries[index].key ≠ some key) :
    s.arrival key = 0 := by
  unfold arrival
  cases hposition : s.position key with
  | none => rfl
  | some index => exact absurd (position_eq_some hposition) (h index)

/-- The clock of a key depends on the entries that have it. -/
theorem arrival_congr (h : ∀ i : Fin maxKeys, s'.entries[i] = s.entries[i] ∨
    s.entries[i].key ≠ some key ∧ s'.entries[i].key ≠ some key) :
    s'.arrival key = s.arrival key := by
  have hposition : s'.position key = s.position key := by
    unfold position
    congr 1
    funext i
    rcases h i with hsame | ⟨hnot, hnot'⟩
    · rw [hsame]
    · rw [beq_false_of_ne hnot, beq_false_of_ne hnot']
  unfold arrival
  rw [hposition]
  cases hfound : s.position key with
  | none => rfl
  | some i =>
    have hkey := position_eq_some hfound
    rcases h i with hsame | ⟨hnot, _⟩
    · exact congrArg (·.state.theoreticalArrivalNs) hsame
    · exact absurd hkey hnot

theorem Tidy.arrival_of_slot (hs : s.Tidy) (h : s.Slot index key) :
    s.arrival key = s.entries[index].state.theoreticalArrivalNs := by
  rcases h with hkey | ⟨hfree, habsent⟩
  · exact hs.arrival_of_entry hkey
  · rw [arrival_of_absent habsent, hs.blank index hfree]
    rfl

/-- Another key's slot, after an entry has moved. -/
theorem Slot.of_moved {i j : Fin maxKeys} (hkeys : key ≠ other) (hij : i ≠ j) (h : s.Slot j other) :
    (s.moved i key spec now).Slot j other := by
  unfold Slot
  rw [moved_of_ne hij]
  rcases h with hkey | ⟨hfree, habsent⟩
  · exact .inl hkey
  · refine .inr ⟨hfree, fun k => ?_⟩
    by_cases hk : i = k
    · subst hk
      rw [moved_self]
      exact fun h => hkeys (Option.some.inj h)
    · rw [moved_of_ne hk]
      exact habsent k

theorem Tidy.moved (hs : s.Tidy) (h : s.Slot index key) : (s.moved index key spec now).Tidy := by
  -- no other entry has the key that the moved one has now
  have hother : ∀ j : Fin maxKeys, index ≠ j → s.entries[j].key ≠ some key := by
    intro j hj hkey
    rcases h with hown | ⟨_, habsent⟩
    · exact hj (hs.single _ _ _ hown hkey)
    · exact habsent j hkey
  constructor
  · intro i j k hi hj
    by_cases hii : index = i <;> by_cases hjj : index = j
    · exact hii.symm.trans hjj
    · subst hii
      rw [moved_self] at hi
      rw [moved_of_ne hjj] at hj
      exact absurd (hj.trans hi.symm) (hother j hjj)
    · subst hjj
      rw [moved_self] at hj
      rw [moved_of_ne hii] at hi
      exact absurd (hi.trans hj.symm) (hother i hii)
    · rw [moved_of_ne hii] at hi
      rw [moved_of_ne hjj] at hj
      exact hs.single i j k hi hj
  · intro i hi
    by_cases hii : index = i
    · subst hii
      rw [moved_self] at hi
      exact nomatch hi
    · rw [moved_of_ne hii] at hi ⊢
      exact hs.blank i hi

/-- An admission moves the clock of its key. -/
theorem Tidy.arrival_moved_self (hs : s.Tidy) (h : s.Slot index key) :
    (s.moved index key spec now).arrival key =
      nextArrival spec.emissionIntervalNs (s.arrival key) now := by
  have hentry : (s.moved index key spec now).entries[index].key = some key := by rw [moved_self]
  rw [(hs.moved h).arrival_of_entry hentry, moved_self, hs.arrival_of_slot h]

/-- It moves no other clock. -/
theorem arrival_moved_of_ne (hne : key ≠ other) (h : s.Slot index key) :
    (s.moved index key spec now).arrival other = s.arrival other := by
  refine arrival_congr fun j => ?_
  by_cases hij : index = j
  · subst hij
    rw [moved_self]
    refine .inr ⟨fun hother => ?_, fun hother => hne (Option.some.inj hother)⟩
    rcases h.free_or with hfree | hown
    · exact nomatch hfree.symm.trans hother
    · exact hne (Option.some.inj (hown.symm.trans hother))
  · exact .inl (moved_of_ne hij)

theorem Charged.tidy (hs : s.Tidy) (h : s.Charged r s') : s'.Tidy := by
  cases h with
  | one _ hi => exact hs.moved hi.slot
  | both _ hkeys hij hi hj => exact (hs.moved hi.slot).moved (hj.slot.of_moved hkeys hij)

theorem Charged.lastNow (h : s.Charged r s') : s'.lastNow = s.lastNow := by
  cases h <;> rfl

/-- A charged bucket was within its tolerance, and its clock has moved. -/
theorem Charged.of_mem (hs : s.Tidy) (h : s.Charged r s') (hmem : (key, spec) ∈ r.charges) :
    s.arrival key ≤ r.now + spec.toleranceNs ∧
      s'.arrival key = nextArrival spec.emissionIntervalNs (s.arrival key) r.now := by
  cases h with
  | one hcharges hi =>
    rw [hcharges, mem_singleton] at hmem
    cases hmem
    exact ⟨hs.arrival_of_slot hi.slot ▸ hi.paced, hs.arrival_moved_self hi.slot⟩
  | both hcharges hkeys hij hi hj =>
    have hslot : (s.moved _ _ r.sourceSpec r.now).Slot _ _ := hj.slot.of_moved hkeys hij
    rw [hcharges, mem_cons, mem_singleton] at hmem
    rcases hmem with hmem | hmem
    · cases hmem
      refine ⟨hs.arrival_of_slot hi.slot ▸ hi.paced, ?_⟩
      rw [arrival_moved_of_ne hkeys.symm hslot, hs.arrival_moved_self hi.slot]
    · cases hmem
      refine ⟨hs.arrival_of_slot hj.slot ▸ hj.paced, ?_⟩
      rw [(hs.moved hi.slot).arrival_moved_self hslot, arrival_moved_of_ne hkeys hi.slot]

/-- The clocks of the other keys stay. -/
theorem Charged.of_not_mem (h : s.Charged r s') (hnot : ∀ spec, (key, spec) ∉ r.charges) :
    s'.arrival key = s.arrival key := by
  cases h with
  | one hcharges hi =>
    refine arrival_moved_of_ne ?_ hi.slot
    rintro rfl
    exact hnot _ (hcharges ▸ mem_cons_self)
  | both hcharges hkeys hij hi hj =>
    rw [hcharges] at hnot
    rw [arrival_moved_of_ne _ (hj.slot.of_moved hkeys hij), arrival_moved_of_ne _ hi.slot]
    · rintro rfl
      exact hnot _ mem_cons_self
    · rintro rfl
      exact hnot _ (mem_cons_of_mem _ mem_cons_self)

/-! ## What every call keeps -/

theorem tidy_new : (new maxKeys).Tidy := by
  constructor
  · intro i j key hi
    rw [entries_new] at hi
    cases hi
  · exact fun i _ => entries_new i

theorem Tidy.seen (hs : s.Tidy) (now : Nat) : (s.seen now).Tidy := ⟨hs.single, hs.blank⟩

theorem Tidy.resetGeneration (hs : s.Tidy) (generation : StableId) :
    (s.resetGeneration generation).2.Tidy := by
  have hkept : ∀ (i : Fin maxKeys) (key : CounterKey),
      (s.resetGeneration generation).2.entries[i].key = some key → s.entries[i].key = some key := by
    intro i key hi
    rw [resetGeneration_entry] at hi
    split_ifs at hi
    · exact nomatch hi
    · exact hi
  constructor
  · intro i j key hi hj
    exact hs.single i j key (hkept i key hi) (hkept j key hj)
  · intro i hi
    rw [resetGeneration_entry] at hi ⊢
    split_ifs at hi ⊢ with hgeneration
    · rfl
    · exact hs.blank i hi

theorem Tidy.step (hs : s.Tidy) (call : Call) : (s.step call).Tidy := by
  cases call with
  | admits r =>
    show (s.admits r).2.Tidy
    rcases s.charged_or_kept r with ⟨_, hcharged⟩ | ⟨last, hsame⟩
    · exact hcharged.tidy (hs.seen r.now)
    · rw [hsame]
      exact ⟨hs.single, hs.blank⟩
  | resetGeneration generation => exact hs.resetGeneration generation
  | disable => exact tidy_new

theorem Tidy.runFrom (hs : s.Tidy) (calls : List Call) : (s.runFrom calls).Tidy := by
  induction calls generalizing s with
  | nil => exact hs
  | cons call calls ih => exact ih (hs.step call)

theorem tidy_run (maxKeys : Nat) (calls : List Call) : (run maxKeys calls).Tidy :=
  tidy_new.runFrom calls

/-! ## Denied and admitted requests -/

/-- The entries after an HTTP request with a limit for its rule is admitted. -/
theorem Charged.entries (hs : s.Tidy) (h : s.Charged r s')
    (hcharges : r.charges = [(key, r.sourceSpec), (global, spec)]) :
    ∃ i j : Fin maxKeys, i ≠ j ∧ s.Slot i key ∧ s.Slot j global ∧
      s'.entries[i] = ⟨some key, ⟨max r.now (s.arrival key) + r.sourceSpec.emissionIntervalNs⟩⟩ ∧
      s'.entries[j] = ⟨some global, ⟨max r.now (s.arrival global) + spec.emissionIntervalNs⟩⟩ ∧
      ∀ k : Fin maxKeys, k ≠ i → k ≠ j → s'.entries[k] = s.entries[k] := by
  cases h with
  | one hone _ => exact nomatch hcharges.symm.trans hone
  | @both key' global' spec' i j hboth hkeys hij hi hj =>
    obtain ⟨hfirst, hsecond⟩ := cons.inj (hcharges.symm.trans hboth)
    cases hfirst
    cases (cons.inj hsecond).1
    refine ⟨i, j, hij, hi.slot, hj.slot, ?_, ?_, ?_⟩
    · rw [moved_of_ne hij.symm, moved_self, hs.arrival_of_slot hi.slot, nextArrival, Nat.max_comm]
    · rw [moved_self, moved_of_ne hij, hs.arrival_of_slot hj.slot, nextArrival, Nat.max_comm]
    · intro k hki hkj
      rw [moved_of_ne (Ne.symm hkj), moved_of_ne (Ne.symm hki)]

/-- In every state that calls lead to: no key has two entries; a request that is denied
changes no entry, and the last time only if the clock has not gone back; and a request
that charges two buckets and is admitted advances both by one interval, from the later of
the time and their old values, and changes no other entry. -/
theorem admit_frame (maxKeys : Nat) (calls : List Call) :
    (∀ (i j : Fin maxKeys) (key : CounterKey), (run maxKeys calls).entries[i].key = some key →
      (run maxKeys calls).entries[j].key = some key → i = j) ∧
    (∀ r : Request, ((run maxKeys calls).admits r).1.action = .deny →
      ((run maxKeys calls).admits r).2.entries = (run maxKeys calls).entries ∧
      ((run maxKeys calls).admits r).2.lastNow =
        if (run maxKeys calls).lastNow.any (r.now < ·) then (run maxKeys calls).lastNow
        else some r.now) ∧
    ∀ (r : Request) (spec : BucketSpec), r.kind = .http → r.globalSpec = some spec →
      ((run maxKeys calls).admits r).1.action = .allow →
      ∃ (i j : Fin maxKeys) (key global : CounterKey),
        r.sourceKey = some key ∧ r.globalKey = some global ∧ i ≠ j ∧
        (run maxKeys calls).Slot i key ∧ (run maxKeys calls).Slot j global ∧
        ((run maxKeys calls).admits r).2.entries[i] = ⟨some key,
          ⟨max r.now ((run maxKeys calls).arrival key) + r.sourceSpec.emissionIntervalNs⟩⟩ ∧
        ((run maxKeys calls).admits r).2.entries[j] = ⟨some global,
          ⟨max r.now ((run maxKeys calls).arrival global) + spec.emissionIntervalNs⟩⟩ ∧
        ∀ k : Fin maxKeys, k ≠ i → k ≠ j →
          ((run maxKeys calls).admits r).2.entries[k] = (run maxKeys calls).entries[k] := by
  have htidy := tidy_run maxKeys calls
  generalize run maxKeys calls = s at htidy ⊢
  refine ⟨htidy.single, ?_, ?_⟩
  · intro r hdenied
    rcases s.admit_cases r with
      ⟨hregressed, _, hsame⟩ | ⟨hgoes, ⟨_, hsame⟩ | ⟨hallowed, _⟩ | ⟨hallowed, _⟩⟩
    · rw [hsame, if_pos hregressed]
      exact ⟨rfl, rfl⟩
    · rw [hsame, if_neg (by rw [hgoes]; exact nofun)]
      exact ⟨rfl, rfl⟩
    · exact nomatch hdenied.symm.trans hallowed
    · exact nomatch hdenied.symm.trans hallowed
  · intro r spec hhttp hspec hallowed
    obtain ⟨key, global, hkey, hglobal, hcharges⟩ := Request.charges_http hhttp hspec
    have hcharged := charged_of_allow hallowed (Request.mem_charges hkey)
    obtain ⟨i, j, hij, hi, hj, hentries⟩ := hcharged.entries (htidy.seen r.now) hcharges
    exact ⟨i, j, key, global, hkey, hglobal, hij, hi, hj, hentries⟩

/-! ## The admissions of a key -/

/-- The times at which requests that charge a key are admitted. -/
def admittedTimes (key : CounterKey) : LocalLimiter maxKeys → List Call → List Nat
  | _, [] => []
  | s, .admits r :: rest =>
    let later := admittedTimes key (s.step (.admits r)) rest
    if (s.admits r).1.action = .allow ∧ r.charges.any (·.1 == key) then r.now :: later else later
  | s, .resetGeneration generation :: rest =>
    admittedTimes key (s.step (.resetGeneration generation)) rest
  | s, .disable :: rest => admittedTimes key (s.step .disable) rest

/-- Calls that charge the key by one specification and do not reset its entry. -/
def Steady (key : CounterKey) (spec : BucketSpec) (calls : List Call) : Prop :=
  ∀ call ∈ calls, match call with
    | .admits r => ∀ other, (key, other) ∈ r.charges → other = spec
    | .resetGeneration generation => generation ≠ key.generation
    | .disable => False

theorem any_charges : r.charges.any (·.1 == key) = true ↔ ∃ spec, (key, spec) ∈ r.charges := by
  rw [any_eq_true]
  constructor
  · rintro ⟨⟨key', spec⟩, hmem, hkey⟩
    exact ⟨spec, beq_iff_eq.mp hkey ▸ hmem⟩
  · rintro ⟨spec, hmem⟩
    exact ⟨(key, spec), hmem, beq_self_eq_true key⟩

/-- A request that is not admitted for a key leaves its clock. -/
theorem arrival_admit_of_not
    (h : ¬ ((s.admits r).1.action = .allow ∧ r.charges.any (·.1 == key) = true)) :
    (s.admits r).2.arrival key = s.arrival key := by
  rcases s.charged_or_kept r with ⟨hallowed, hcharged⟩ | ⟨last, hsame⟩
  · have hnot : ∀ spec, (key, spec) ∉ r.charges :=
      fun spec hmem => h ⟨hallowed, any_charges.mpr ⟨spec, hmem⟩⟩
    exact (hcharged.of_not_mem hnot :)
  · rw [hsame]
    rfl

/-- A request that is admitted for a key moves its clock as a pace does. -/
theorem Tidy.arrival_admit (hs : s.Tidy) (hallowed : (s.admits r).1.action = .allow)
    (hmem : (key, spec) ∈ r.charges) :
    s.arrival key ≤ r.now + spec.toleranceNs ∧
      (s.admits r).2.arrival key = nextArrival spec.emissionIntervalNs (s.arrival key) r.now := by
  exact ((charged_of_allow hallowed hmem).of_mem (hs.seen r.now) hmem :)

/-- A reset of another generation leaves the clock of a key. -/
theorem arrival_resetGeneration {generation : StableId} (h : generation ≠ key.generation) :
    (s.resetGeneration generation).2.arrival key = s.arrival key := by
  refine arrival_congr fun i => ?_
  rw [resetGeneration_entry]
  split_ifs with hreset
  · refine .inr ⟨fun hkey => ?_, nofun⟩
    rw [hkey] at hreset
    exact h (of_decide_eq_true hreset).symm
  · exact .inl rfl

/-- The admissions of a key are paced by its specification, and its clock is where they
have moved it. -/
theorem Tidy.paced (hs : s.Tidy) {calls : List Call} (hsteady : Steady key spec calls) :
    Paced spec.emissionIntervalNs spec.toleranceNs (s.arrival key) (admittedTimes key s calls) ∧
      (s.runFrom calls).arrival key =
        arrivalAfter spec.emissionIntervalNs (s.arrival key) (admittedTimes key s calls) := by
  induction calls generalizing s with
  | nil => exact ⟨trivial, rfl⟩
  | cons call rest ih =>
    have hcall := hsteady call mem_cons_self
    obtain ⟨hpaced, hclock⟩ := ih (hs.step call) fun c hc => hsteady c (mem_cons_of_mem _ hc)
    cases call with
    | admits r =>
      rw [admittedTimes]
      by_cases hadmitted : (s.admits r).1.action = .allow ∧ r.charges.any (·.1 == key) = true
      · rw [if_pos hadmitted]
        obtain ⟨spec', hmem⟩ := any_charges.mp hadmitted.2
        obtain rfl := hcall spec' hmem
        obtain ⟨hwithin, hmoved⟩ := hs.arrival_admit hadmitted.1 hmem
        rw [show (s.step (.admits r)).arrival key = _ from hmoved] at hpaced hclock
        exact ⟨⟨hwithin, hpaced⟩, hclock⟩
      · rw [if_neg hadmitted]
        have hkept := arrival_admit_of_not hadmitted
        rw [show (s.step (.admits r)).arrival key = _ from hkept] at hpaced hclock
        exact ⟨hpaced, hclock⟩
    | resetGeneration generation =>
      have hkept := arrival_resetGeneration (s := s) hcall
      rw [show (s.step (.resetGeneration generation)).arrival key = _ from hkept] at hpaced hclock
      exact ⟨hpaced, hclock⟩
    | disable => exact hcall.elim

/-! ## Requests that find room -/

section Capacity

variable (s)

/-- The free entries. -/
def free : Finset (Fin maxKeys) :=
  Finset.univ.filter fun i => s.entries[i].key = none

/-- The keys of a request that have no entry yet. -/
def newKeys (r : Request) : List CounterKey :=
  (r.charges.map Prod.fst).filter fun key => (s.position key).isNone

/-- There is a free entry for each of them. -/
def Room (r : Request) : Prop := (s.newKeys r).length ≤ s.free.card

instance (r : Request) : Decidable (s.Room r) :=
  inferInstanceAs (Decidable (_ ≤ _))

end Capacity

theorem vacant_of_free {i : Fin maxKeys} (hi : i ∈ s.free)
    (hne : some i ≠ excluded) : ∃ j, s.vacant excluded = some j := by
  rw [← Option.isSome_iff_exists, vacant, find?_isSome]
  refine ⟨i, mem_finRange i, ?_⟩
  rw [Bool.and_eq_true, bne_iff_ne, Option.isNone_iff_eq_none]
  exact ⟨hne, (Finset.mem_filter.mp hi).2⟩

theorem findOrEmpty_of_vacant (h : s.position key = none → ∃ j, s.vacant excluded = some j) :
    ∃ i, s.findOrEmpty key excluded = some i := by
  unfold findOrEmpty
  cases hposition : s.position key with
  | some i => exact ⟨i, rfl⟩
  | none => exact h hposition

theorem Room.source (h : s.Room r) (hkey : r.sourceKey = some key) :
    ∃ i, s.findOrEmpty key none = some i := by
  refine findOrEmpty_of_vacant fun hnew => ?_
  have hmem : key ∈ s.newKeys r := by
    rw [newKeys, mem_filter, hnew]
    exact ⟨mem_map_of_mem (Request.mem_charges hkey), rfl⟩
  obtain ⟨i, hi⟩ := Finset.card_pos.mp ((length_pos_of_mem hmem).trans_le h)
  exact vacant_of_free hi nofun

theorem Room.rule {i : Fin maxKeys} (h : s.Room r)
    (hcharges : r.charges = [(key, r.sourceSpec), (global, spec)])
    (hi : s.findOrEmpty key none = some i) : ∃ j, s.findOrEmpty global (some i) = some j := by
  refine findOrEmpty_of_vacant fun hnew => ?_
  unfold Room newKeys at h
  rw [hcharges] at h
  rcases Option.or_eq_some_iff.mp hi with hposition | ⟨hnone, _⟩
  · -- the source has its entry, so the free one is another
    obtain ⟨j, hj⟩ : s.free.Nonempty := by simpa [hposition, hnew] using h
    refine vacant_of_free hj fun hji => ?_
    cases hji
    exact nomatch ((Finset.mem_filter.mp hj).2).symm.trans (position_eq_some hposition)
  · have htwo : 2 ≤ s.free.card := by simpa [hnone, hnew] using h
    obtain ⟨j, hj, hne⟩ := Finset.exists_mem_ne htwo i
    exact vacant_of_free hj fun hji => hne (Option.some.inj hji)

/-- The bucket of a key admits a request. -/
def Admitting (s : LocalLimiter maxKeys) (key : CounterKey) (spec : BucketSpec) (now : Nat) :
    Prop :=
  ∃ preview, (⟨s.arrival key⟩ : GcraState).preview now spec = .ok preview ∧ preview.allowed = true

/-- The previews of the buckets that a request charges. -/
def previews (s : LocalLimiter maxKeys) (r : Request) : List (Except ConfigError Preview) :=
  r.charges.map fun (key, spec) => (⟨s.arrival key⟩ : GcraState).preview r.now spec

/-- The decision that the previews lead to. -/
def decision (kind : AdmissionKind) : List (Except ConfigError Preview) → Admission
  | [.ok source] =>
    if !source.allowed then deny .sourceLimited source.retryAfterNs kind else allow .allowed
  | [.ok source, .ok rule] =>
    if !source.allowed then deny .sourceLimited source.retryAfterNs kind
    else if !rule.allowed then deny .ruleGlobalLimited rule.retryAfterNs kind
    else allow .allowed
  | _ => deny .invalidConfig 0 kind

/-- A request that has its entries is decided by the previews of its buckets. -/
theorem Tidy.charge_decision (hs : s.Tidy) {i : Fin maxKeys} (hkey : r.sourceKey = some key)
    (hi : s.findOrEmpty key none = some i)
    {rule : Option (Fin maxKeys × CounterKey × BucketSpec)} (hrule : s.globalEntry r i = .ok rule) :
    (s.charge r key i).1 = decision r.kind (s.previews r) := by
  have hsource : s.entries[i].state = ⟨s.arrival key⟩ := by
    rw [hs.arrival_of_slot (findOrEmpty_slot hi)]
  unfold charge previews
  rw [hsource, hrule]
  rcases globalEntry_ok hkey hrule with ⟨rfl, hcharges⟩ | ⟨j, global, spec, rfl, _, hj, hcharges⟩
  · rw [hcharges]
    cases hpreview : (⟨s.arrival key⟩ : GcraState).preview r.now r.sourceSpec with
    | error err => simp [decision, hpreview]
    | ok preview =>
      cases hallowed : preview.allowed <;> simp [globalPreview, decision, hpreview, hallowed]
  · have hother : s.entries[j].state = ⟨s.arrival global⟩ := by
      rw [hs.arrival_of_slot (findOrEmpty_slot hj)]
    rw [hcharges]
    simp only [globalPreview, hother, map_cons, map_nil]
    cases (⟨s.arrival key⟩ : GcraState).preview r.now r.sourceSpec with
    | error err => rfl
    | ok preview =>
      cases (⟨s.arrival global⟩ : GcraState).preview r.now spec with
      | error err => rfl
      | ok preview' =>
        cases hallowed : preview.allowed <;> cases hallowed' : preview'.allowed <;>
          simp [decision, hallowed, hallowed']

/-- All buckets that it charges have to admit it. -/
theorem decision_allow_iff {kind : AdmissionKind} (hkey : r.sourceKey = some key) :
    (decision kind (s.previews r)).action = .allow ↔
      ∀ c ∈ r.charges, s.Admitting c.1 c.2 r.now := by
  unfold Admitting previews Request.charges
  rw [hkey]
  dsimp only
  split
  · rename_i global spec _ _
    simp only [forall_mem_cons, map]
    cases (⟨s.arrival key⟩ : GcraState).preview r.now r.sourceSpec with
    | error err => simp [decision, deny]
    | ok preview =>
      cases (⟨s.arrival global⟩ : GcraState).preview r.now spec with
      | error err => simp [decision, deny]
      | ok preview' =>
        cases hallowed : preview.allowed <;> cases hallowed' : preview'.allowed <;>
          simp [decision, allow, deny, hallowed, hallowed']
  · simp only [forall_mem_cons, map]
    cases (⟨s.arrival key⟩ : GcraState).preview r.now r.sourceSpec with
    | error err => simp [decision, deny]
    | ok preview => cases hallowed : preview.allowed <;> simp [decision, allow, deny, hallowed]

/-- A request that has its entries. -/
def Placed (s : LocalLimiter maxKeys) (r : Request) : Prop :=
  ∃ key i rule, r.sourceKey = some key ∧ s.findOrEmpty key none = some i ∧
    s.globalEntry r i = .ok rule

/-- A request that finds room has them. -/
theorem Room.placed (h : s.Room r) (hkey : r.sourceKey = some key)
    (hplain : r.kind ≠ .http → r.globalSpec = none) : s.Placed r := by
  obtain ⟨i, hi⟩ := h.source hkey
  refine ⟨key, i, ?_⟩
  unfold globalEntry
  cases hglobal : r.globalKey with
  | none =>
    have hkind : r.kind ≠ .http := fun h => nomatch (if_pos h).symm.trans hglobal
    rw [hplain hkind]
    exact ⟨none, hkey, hi, rfl⟩
  | some global =>
    cases hspec : r.globalSpec with
    | none => exact ⟨none, hkey, hi, rfl⟩
    | some spec =>
      have hcharges : r.charges = [(key, r.sourceSpec), (global, spec)] := by
        rw [Request.charges, hkey, hglobal, hspec]
      obtain ⟨j, hj⟩ := h.rule hcharges hi
      dsimp only
      rw [hj]
      exact ⟨_, hkey, hi, rfl⟩

theorem admits_eq (hgoes : s.lastNow.any (r.now < ·) = false) (hkey : r.sourceKey = some key) :
    s.admits r = match s.findOrEmpty key none with
      | none => (deny .stateCapacityExhausted 0 r.kind, s.seen r.now)
      | some i => (s.seen r.now).charge r key i := by
  unfold admits
  rw [if_neg (by rw [hgoes]; exact nofun), hkey]
  rfl

theorem Tidy.admits_decision (hs : s.Tidy) (hgoes : s.lastNow.any (r.now < ·) = false)
    (h : s.Placed r) : (s.admits r).1 = decision r.kind (s.previews r) := by
  obtain ⟨key, i, rule, hkey, hi, hrule⟩ := h
  rw [admits_eq hgoes hkey, hi]
  exact (hs.seen r.now).charge_decision hkey hi hrule

theorem Tidy.admit_allow_iff (hs : s.Tidy) (hgoes : s.lastNow.any (r.now < ·) = false)
    (h : s.Placed r) :
    (s.admits r).1.action = .allow ↔ ∀ c ∈ r.charges, s.Admitting c.1 c.2 r.now := by
  rw [hs.admits_decision hgoes h]
  exact decision_allow_iff h.choose_spec.choose_spec.choose_spec.1

/-! ## The limit -/

/-- A bucket whose clock is `k` intervals ahead admits while `k` is below its burst. -/
theorem admitting_of_le (hvalid : spec.validate = .ok spec) (hk : k < spec.burst)
    (harrival : s.arrival key ≤ now + k * spec.emissionIntervalNs)
    (hfits : now + spec.burst * spec.emissionIntervalNs < 2 ^ 64) :
    s.Admitting key spec now := by
  obtain ⟨b, hb⟩ : ∃ b, spec.burst = b + 1 := Nat.exists_eq_succ_of_ne_zero (by omega)
  have hle : k * spec.emissionIntervalNs ≤ b * spec.emissionIntervalNs :=
    Nat.mul_le_mul_right _ (by omega)
  have htolerance : spec.toleranceNs = b * spec.emissionIntervalNs := by
    rw [BucketSpec.toleranceNs, hb, Nat.add_sub_cancel, Nat.mul_comm]
  rw [hb, Nat.succ_mul] at hfits
  refine ⟨_, GcraState.preview_of_le hvalid ?_ ?_, rfl⟩
  · show s.arrival key ≤ _
    omega
  · show max (s.arrival key) now + _ < _
    omega

/-- Requests at one time move the clock of a key by at most an interval each. -/
theorem Tidy.arrival_burst (hs : s.Tidy)
    (harrival : s.arrival key ≤ now + k * spec.emissionIntervalNs)
    (hnow : ∀ r ∈ requests, r.now = now)
    (hspec : ∀ r ∈ requests, ∀ other, (key, other) ∈ r.charges → other = spec) :
    (s.runFrom (requests.map .admits)).arrival key ≤
      now + (k + requests.length) * spec.emissionIntervalNs := by
  induction requests generalizing s k with
  | nil => exact harrival
  | cons r rest ih =>
    have hstep : (s.admits r).2.arrival key ≤ now + (k + 1) * spec.emissionIntervalNs := by
      rw [Nat.succ_mul]
      by_cases hadmitted : (s.admits r).1.action = .allow ∧ r.charges.any (·.1 == key) = true
      · obtain ⟨other, hmem⟩ := any_charges.mp hadmitted.2
        obtain rfl := hspec r mem_cons_self other hmem
        rw [(hs.arrival_admit hadmitted.1 hmem).2, nextArrival, hnow r mem_cons_self]
        omega
      · rw [arrival_admit_of_not hadmitted]
        omega
    have hrest := ih (hs.step (.admits r)) hstep (fun q hq => hnow q (mem_cons_of_mem _ hq))
      fun q hq => hspec q (mem_cons_of_mem _ hq)
    rw [length_cons, Nat.add_comm rest.length 1, ← Nat.add_assoc]
    exact hrest

/-- A request leaves its time behind unless the clock has gone back. -/
theorem lastNow_admits (hgoes : s.lastNow.any (r.now < ·) = false) :
    (s.admits r).2.lastNow = some r.now := by
  rcases s.admit_cases r with
    ⟨hregressed, _⟩ | ⟨_, ⟨_, hsame⟩ | ⟨_, _, hsame⟩ | ⟨_, hcharged⟩⟩
  · exact nomatch hgoes.symm.trans hregressed
  · rw [hsame]
    rfl
  · rw [hsame]
    rfl
  · exact hcharged.lastNow

/-- Requests at one time leave the clock of the limiter there. -/
theorem lastNow_burst (hlast : s.lastNow.any (now < ·) = false)
    (hnow : ∀ r ∈ requests, r.now = now) :
    (s.runFrom (requests.map .admits)).lastNow.any (now < ·) = false := by
  induction requests generalizing s with
  | nil => exact hlast
  | cons r rest ih =>
    obtain rfl := hnow r mem_cons_self
    refine ih ?_ fun q hq => hnow q (mem_cons_of_mem _ hq)
    show (s.admits r).2.lastNow.any _ = false
    rw [lastNow_admits hlast]
    simp

/-- The limit of a key, in any calls that charge it by one specification and do not reset
its entry, after any calls at all. A closed window takes at most the burst and one
admission for each interval in it. If the key had no entry before them and its last
admission is a burst of intervals ago, then requests at one time, up to the burst, are
admitted by its bucket: a request that finds room is admitted if the other bucket it
charges, if any, admits it. -/
theorem admissions_bounded (maxKeys : Nat) (before calls : List Call) (key : CounterKey)
    (spec : BucketSpec) (hvalid : spec.validate = .ok spec) (hsteady : Steady key spec calls) :
    (∀ start width : Nat,
      (inWindow start width (admittedTimes key (run maxKeys before) calls)).length ≤
        spec.burst + width / spec.emissionIntervalNs) ∧
    ∀ (now : Nat) (earlier : List Request) (r : Request),
      (∀ i : Fin maxKeys, (run maxKeys before).entries[i].key ≠ some key) →
      (∀ t ∈ admittedTimes key (run maxKeys before) calls,
        t + spec.burst * spec.emissionIntervalNs ≤ now) →
      (run maxKeys (before ++ calls)).lastNow.any (now < ·) = false →
      now + spec.burst * spec.emissionIntervalNs < 2 ^ 64 →
      earlier.length < spec.burst →
      (∀ q ∈ earlier ++ [r], q.now = now ∧ (key, spec) ∈ q.charges ∧
        (q.kind ≠ .http → q.globalSpec = none)) →
      (run maxKeys (before ++ calls ++ earlier.map .admits)).Room r →
      (((run maxKeys (before ++ calls ++ earlier.map .admits)).admits r).1.action = .allow ↔
        ∀ other otherSpec, (other, otherSpec) ∈ r.charges → other ≠ key →
          (run maxKeys (before ++ calls ++ earlier.map .admits)).Admitting other otherSpec now) := by
  have htidy := tidy_run maxKeys before
  obtain ⟨_, hinterval, hburst⟩ := BucketSpec.validate_ok hvalid
  obtain ⟨hpaced, hclock⟩ := htidy.paced hsteady
  refine ⟨fun start width => hpaced.count_le hburst hinterval, ?_⟩
  intro now earlier r hnew hidle hlast hfits hfew hrequests hroom
  -- the clock of the idle key is not ahead of the time
  have hzero : (run maxKeys before).arrival key = 0 := arrival_of_absent hnew
  have hbursts : spec.toleranceNs + spec.emissionIntervalNs =
      spec.burst * spec.emissionIntervalNs := by
    obtain ⟨b, hb⟩ : ∃ b, spec.burst = b + 1 := Nat.exists_eq_succ_of_ne_zero (by omega)
    rw [BucketSpec.toleranceNs, hb, Nat.add_sub_cancel, Nat.succ_mul, Nat.mul_comm]
  have hcaught : (run maxKeys (before ++ calls)).arrival key ≤ now := by
    have hsplit : run maxKeys (before ++ calls) = (run maxKeys before).runFrom calls :=
      foldl_append
    rw [hsplit, hclock]
    refine hpaced.arrival_le (hzero ▸ Nat.zero_le now) fun t ht => ?_
    have := hidle t ht
    omega
  have hsplit : run maxKeys (before ++ calls ++ earlier.map .admits) =
      (run maxKeys (before ++ calls)).runFrom (earlier.map .admits) := foldl_append
  have htidy' := tidy_run maxKeys (before ++ calls)
  have hearlier : ∀ q ∈ earlier, q ∈ earlier ++ [r] := fun q hq => mem_append_left _ hq
  obtain ⟨hnow, hmem, hplain⟩ := hrequests r (mem_append_right _ mem_cons_self)
  -- each earlier request has moved it by an interval at most
  have hahead : (run maxKeys (before ++ calls ++ earlier.map .admits)).arrival key ≤
      now + earlier.length * spec.emissionIntervalNs := by
    rw [hsplit, ← Nat.zero_add earlier.length]
    exact htidy'.arrival_burst (by omega) (fun q hq => (hrequests q (hearlier q hq)).1)
      fun q hq other hother => Request.charges_unique hother (hrequests q (hearlier q hq)).2.1
  have hgoes : (run maxKeys (before ++ calls ++ earlier.map .admits)).lastNow.any (r.now < ·) =
      false := by
    rw [hsplit, hnow]
    exact lastNow_burst hlast fun q hq => (hrequests q (hearlier q hq)).1
  have htidy'' := tidy_run maxKeys (before ++ calls ++ earlier.map .admits)
  obtain ⟨source, hsource⟩ : ∃ source, r.sourceKey = some source := by
    cases hnone : r.sourceKey with
    | none =>
      rw [Request.charges, hnone] at hmem
      cases hmem
    | some source => exact ⟨source, rfl⟩
  rw [htidy''.admit_allow_iff hgoes (hroom.placed hsource hplain), hnow, Prod.forall]
  constructor
  · exact fun h other otherSpec hother _ => h other otherSpec hother
  · intro h other otherSpec hother
    by_cases hkey : other = key
    · subst hkey
      obtain rfl := Request.charges_unique hother hmem
      exact admitting_of_le hvalid hfew hahead hfits
    · exact h other otherSpec hother hkey

/-- An HTTP request of a source: two at once, then one in ten. -/
def sample (source now : Nat) (globalSpec : Option BucketSpec) : Request :=
  ⟨.http, now, 1, 1, 1, source, ⟨10, 2⟩, globalSpec⟩

/-- Two of three requests at once are admitted. -/
theorem admissions_bounded_sample :
    let calls := [Call.admits (sample 7 0 none), .admits (sample 7 0 none), .admits (sample 7 0 none)]
    let key : CounterKey := ⟨1, 1, 1, 7, .httpSource⟩
    admittedTimes key (run 4 []) calls = [0, 0] ∧
      (inWindow 0 5 (admittedTimes key (run 4 []) calls)).length ≤ 2 + 5 / 10 ∧
      ((run 4 (calls ++ [.admits (sample 7 20 none)])).admits (sample 7 20 none)).1.action =
        .allow := by
  intro calls key
  have hsteady : Steady key ⟨10, 2⟩ calls := by
    intro call hcall
    have hsame : call = .admits (sample 7 0 none) := by simpa [calls] using hcall
    subst hsame
    intro other hother
    exact (Prod.mk.inj (mem_singleton.mp hother)).2
  have hbound := admissions_bounded 4 [] calls key ⟨10, 2⟩ (by decide) hsteady
  refine ⟨by decide, hbound.1 0 5, ?_⟩
  refine (hbound.2 20 [sample 7 20 none] (sample 7 20 none) (by decide)
    (by decide) (by decide) (by decide) (by decide) ?_
    (by decide)).mpr ?_
  · intro q hq
    have hsame : q = sample 7 20 none := by simpa using hq
    subst hsame
    exact ⟨rfl, mem_cons_self, fun _ => rfl⟩
  · intro other otherSpec hother hne
    exact absurd (Prod.mk.inj (mem_singleton.mp hother)).1 hne

/-- The bucket of an idle source admits, and its request is denied all the same: another
source has used up the limit of the rule. -/
theorem idle_source_denied :
    let rule : Option BucketSpec := some ⟨10, 1⟩
    let calls := [Call.admits (sample 8 0 rule)]
    let key : CounterKey := ⟨1, 1, 1, 7, .httpSource⟩
    admittedTimes key (run 4 []) calls = [] ∧ (run 4 calls).lastNow = some 0 ∧
      (key, ⟨10, 2⟩) ∈ (sample 7 0 rule).charges ∧ (run 4 calls).Room (sample 7 0 rule) ∧
      ((run 4 calls).admits (sample 7 0 rule)).1 = deny .ruleGlobalLimited 10 .http := by
  decide

end LocalLimiter

end NrePlugins.RateLimit
