import Nre.Base.Pacing
import Nre.PolicyGuest.Messages

/-!
# Buckets and requests

Model of `gcra.rs`, and of the keys and requests of `limiter.rs`. Times and intervals are
the numbers of the source's `u64`, with its checked operations.

- `GcraState.preview`: whether a bucket admits a request, and its next state;
- `Request.charges`: the buckets that a request charges.
-/

namespace NrePlugins.RateLimit

open List
open PolicyGuest (PolicyAction)

/-! ## One bucket -/

inductive ConfigError where
  | zeroInterval | zeroBurst | arithmeticOverflow
  deriving DecidableEq

structure BucketSpec where
  emissionIntervalNs : Nat
  burst : Nat
  deriving DecidableEq

def BucketSpec.validate (spec : BucketSpec) : Except ConfigError BucketSpec :=
  if spec.emissionIntervalNs = 0 then .error .zeroInterval
  else if spec.burst = 0 then .error .zeroBurst
  else if 2 ^ 64 ≤ spec.emissionIntervalNs * (spec.burst - 1) then .error .arithmeticOverflow
  else .ok spec

def BucketSpec.toleranceNs (spec : BucketSpec) : Nat :=
  spec.emissionIntervalNs * (spec.burst - 1)

/-- `GcraState`. -/
structure GcraState where
  theoreticalArrivalNs : Nat

def GcraState.new : GcraState := ⟨0⟩

structure Preview where
  allowed : Bool
  retryAfterNs : Nat
  nextTheoreticalArrivalNs : Nat

def GcraState.preview (state : GcraState) (nowNs : Nat) (spec : BucketSpec) :
    Except ConfigError Preview := do
  let spec ← spec.validate
  -- `saturating_sub`
  let earliest := state.theoreticalArrivalNs - spec.toleranceNs
  if nowNs < earliest then
    return ⟨false, earliest - nowNs, state.theoreticalArrivalNs⟩
  else
    let base := max state.theoreticalArrivalNs nowNs
    -- `checked_add`
    if 2 ^ 64 ≤ base + spec.emissionIntervalNs then throw .arithmeticOverflow
    else return ⟨true, 0, base + spec.emissionIntervalNs⟩

def GcraState.commit (state : GcraState) (preview : Preview) : GcraState :=
  if preview.allowed then ⟨preview.nextTheoreticalArrivalNs⟩ else state

theorem BucketSpec.validate_ok {spec spec' : BucketSpec} (h : spec.validate = .ok spec') :
    spec' = spec ∧ 0 < spec.emissionIntervalNs ∧ 0 < spec.burst := by
  unfold validate at h
  split_ifs at h with hinterval hburst hoverflow
  exact ⟨(Except.ok.inj h).symm, Nat.pos_of_ne_zero hinterval, Nat.pos_of_ne_zero hburst⟩

/-- What a preview says of the first time at which its bucket admits; a bucket that admits
moves as a pace does. -/
theorem GcraState.preview_ok {state : GcraState} {nowNs : Nat} {spec : BucketSpec}
    {preview : Preview} (h : state.preview nowNs spec = .ok preview) :
    spec.validate = .ok spec ∧
      (preview.allowed = true → state.theoreticalArrivalNs ≤ nowNs + spec.toleranceNs ∧
        state.commit preview =
          ⟨nextArrival spec.emissionIntervalNs state.theoreticalArrivalNs nowNs⟩) ∧
      (preview.allowed = false →
        state.theoreticalArrivalNs - spec.toleranceNs = nowNs + preview.retryAfterNs ∧
        nowNs < state.theoreticalArrivalNs - spec.toleranceNs) := by
  unfold GcraState.preview at h
  cases hvalid : spec.validate with
  | error err => exact nomatch hvalid ▸ h
  | ok valid =>
    obtain ⟨rfl, _⟩ := BucketSpec.validate_ok hvalid
    rw [hvalid] at h
    dsimp only [bind, Except.bind] at h
    refine ⟨rfl, ?_⟩
    split_ifs at h with hearly hoverflow
    · cases h
      exact ⟨nofun, fun _ => ⟨(Nat.add_sub_of_le hearly.le).symm, hearly⟩⟩
    · cases h
      exact ⟨fun _ => ⟨by omega, rfl⟩, nofun⟩

/-- A bucket that is no further ahead than its tolerance admits. -/
theorem GcraState.preview_of_le {state : GcraState} {nowNs : Nat} {spec : BucketSpec}
    (hvalid : spec.validate = .ok spec)
    (harrival : state.theoreticalArrivalNs ≤ nowNs + spec.toleranceNs)
    (hfits : max state.theoreticalArrivalNs nowNs + spec.emissionIntervalNs < 2 ^ 64) :
    state.preview nowNs spec =
      .ok ⟨true, 0, nextArrival spec.emissionIntervalNs state.theoreticalArrivalNs nowNs⟩ := by
  unfold GcraState.preview
  rw [hvalid]
  dsimp only [bind, Except.bind]
  rw [if_neg (by omega), if_neg (by omega)]
  rfl

/-! ## Requests -/

/-- `StableId`. -/
abbrev StableId := Nat

inductive AdmissionKind where
  | http | l4NewConnection | l4NewFlow | l4ExistingSession
  deriving DecidableEq

inductive BucketScope where
  | httpSource | httpRuleGlobal | l4Source
  deriving DecidableEq

structure CounterKey where
  generation : StableId
  policy : StableId
  rule : StableId
  source : StableId
  scope : BucketScope
  deriving DecidableEq

inductive DecisionReason where
  | allowed | existingSession | sourceLimited | ruleGlobalLimited | clockRegressed
  | stateCapacityExhausted | invalidConfig
  deriving DecidableEq

structure Admission where
  action : PolicyAction
  httpStatus : Option Nat
  reason : DecisionReason
  retryAfterNs : Nat
  deriving DecidableEq

def allow (reason : DecisionReason) : Admission := ⟨.allow, none, reason, 0⟩

def deny (reason : DecisionReason) (retryAfterNs : Nat) (kind : AdmissionKind) : Admission :=
  ⟨.deny, if kind = .http then some 429 else none, reason, retryAfterNs⟩

/-- The arguments of `admits`. -/
structure Request where
  kind : AdmissionKind
  now : Nat
  generation : StableId
  policy : StableId
  rule : StableId
  source : StableId
  sourceSpec : BucketSpec
  globalSpec : Option BucketSpec
  deriving DecidableEq

/-- The key of the source's bucket; an existing session has none. -/
def Request.sourceKey (r : Request) : Option CounterKey :=
  match r.kind with
  | .http => some ⟨r.generation, r.policy, r.rule, r.source, .httpSource⟩
  | .l4NewConnection => some ⟨r.generation, r.policy, r.rule, r.source, .l4Source⟩
  | .l4NewFlow => some ⟨r.generation, r.policy, r.rule, r.source, .l4Source⟩
  | .l4ExistingSession => none

def Request.globalKey (r : Request) : Option CounterKey :=
  if r.kind = .http then some ⟨r.generation, r.policy, r.rule, 0, .httpRuleGlobal⟩ else none

/-- The buckets that a request charges: the source's, and the rule's for an HTTP request
that has a limit for it. -/
def Request.charges (r : Request) : List (CounterKey × BucketSpec) :=
  match r.sourceKey with
  | none => []
  | some key =>
    match r.globalKey, r.globalSpec with
    | some global, some spec => [(key, r.sourceSpec), (global, spec)]
    | _, _ => [(key, r.sourceSpec)]

variable {r : Request} {key : CounterKey}

theorem Request.globalKey_ne {global : CounterKey} (hkey : r.sourceKey = some key)
    (hglobal : r.globalKey = some global) : key ≠ global := by
  unfold sourceKey at hkey
  unfold globalKey at hglobal
  split_ifs at hglobal with hhttp
  rw [hhttp] at hkey
  cases hkey
  cases hglobal
  intro h
  exact nomatch congrArg CounterKey.scope h

theorem Request.charges_cons (hkey : r.sourceKey = some key) :
    ∃ rest, r.charges = (key, r.sourceSpec) :: rest := by
  unfold charges
  rw [hkey]
  dsimp only
  split <;> exact ⟨_, rfl⟩

theorem Request.mem_charges (hkey : r.sourceKey = some key) : (key, r.sourceSpec) ∈ r.charges := by
  obtain ⟨rest, hcharges⟩ := charges_cons hkey
  rw [hcharges]
  exact mem_cons_self

theorem Request.nodup_charges : (r.charges.map Prod.fst).Nodup := by
  unfold charges
  split
  · exact nodup_nil
  · rename_i source hsource
    split
    · rename_i global limit hglobal hlimit
      simpa using globalKey_ne hsource hglobal
    · exact nodup_singleton source

/-- A request charges a key by one specification. -/
theorem Request.charges_unique {spec spec' : BucketSpec} (h : (key, spec) ∈ r.charges)
    (h' : (key, spec') ∈ r.charges) : spec = spec' :=
  congrArg Prod.snd (inj_on_of_nodup_map nodup_charges h h' rfl)

theorem Request.charges_http {spec : BucketSpec} (hhttp : r.kind = .http)
    (hspec : r.globalSpec = some spec) :
    ∃ key global, r.sourceKey = some key ∧ r.globalKey = some global ∧
      r.charges = [(key, r.sourceSpec), (global, spec)] := by
  unfold charges sourceKey globalKey
  rw [hhttp, hspec]
  exact ⟨_, _, rfl, rfl, rfl⟩

end NrePlugins.RateLimit
