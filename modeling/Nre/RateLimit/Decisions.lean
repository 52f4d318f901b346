import Nre.RateLimit.Limiter

/-!
# The decisions of a bucket

All keys share one table and one clock. A key whose requests charge no bucket of a rule is
decided all the same as by a bucket of its own (`filter_answers`), whatever the others do:

- `decisions_of_key`: two runs with the same requests of the key decide them alike.

A denial tells when to come again:

- `retry_after_exact`: when a denied request is admitted, if no other comes before it.
-/

namespace NrePlugins.RateLimit

open List

/-- What one bucket on its own decides. -/
def GcraState.judge (bucket : GcraState) (r : Request) : Admission × GcraState :=
  (LocalLimiter.decision r.kind [bucket.preview r.now r.sourceSpec],
    match bucket.preview r.now r.sourceSpec with
    | .error _ => bucket
    | .ok preview => bucket.commit preview)

def GcraState.judgements : GcraState → List Request → List (Request × Admission)
  | _, [] => []
  | bucket, r :: rest => (r, (bucket.judge r).1) :: (bucket.judge r).2.judgements rest

/-- The requests among some calls. -/
def requests (calls : List Call) : List Request :=
  calls.filterMap fun | .admits r => some r | _ => none

/-- A request that charges the bucket of a key as its source's. -/
def Request.isOf (key : CounterKey) (r : Request) : Bool := r.sourceKey == some key

/-- Calls as they concern a key that no bucket of a rule goes with: they come in the order
of their times and do not reset its entry. -/
structure Apart (key : CounterKey) (calls : List Call) : Prop where
  source : key.scope ≠ .httpRuleGlobal
  timed : (requests calls).Pairwise (·.now ≤ ·.now)
  plain : ∀ r ∈ requests calls, r.isOf key = true → r.globalSpec = none
  kept : ∀ call ∈ calls, call ≠ .disable ∧ call ≠ .resetGeneration key.generation

namespace LocalLimiter

variable {maxKeys : Nat} {s : LocalLimiter maxKeys} {r : Request} {key : CounterKey}
  {spec : BucketSpec}

/-- The requests of a run with their decisions. -/
def answers (s : LocalLimiter maxKeys) : List Call → List (Request × Admission)
  | [] => []
  | .admits r :: rest => (r, (s.admits r).1) :: (s.step (.admits r)).answers rest
  | .resetGeneration generation :: rest => (s.step (.resetGeneration generation)).answers rest
  | .disable :: rest => (s.step .disable).answers rest

/-! ## One source and the others -/

/-- A request of another source does not charge the bucket of a source. -/
theorem not_charges (hsource : key.scope ≠ .httpRuleGlobal) (hof : r.isOf key = false) :
    ¬ ∃ spec, (key, spec) ∈ r.charges := by
  rintro ⟨spec, hmem⟩
  have hne : r.sourceKey ≠ some key := by simpa [Request.isOf] using hof
  unfold Request.charges at hmem
  cases hkey : r.sourceKey with
  | none =>
    rw [hkey] at hmem
    exact nomatch hmem
  | some other =>
    rw [hkey] at hmem hne
    dsimp only at hmem
    split at hmem
    · rename_i global limit hglobal hspec
      unfold Request.globalKey at hglobal
      split_ifs at hglobal
      simp only [mem_cons, Prod.mk.injEq, not_mem_nil, or_false] at hmem
      rcases hmem with ⟨rfl, _⟩ | ⟨rfl, _⟩
      · exact hne rfl
      · exact hsource (Option.some.inj hglobal ▸ rfl)
    · exact hne (congrArg some (Prod.mk.inj (mem_singleton.mp hmem)).1.symm)

/-- A request of a source has its entries unless the table is full, or it has a limit for a
rule that it does not charge. -/
theorem placed_or (hgoes : s.lastNow.any (r.now < ·) = false) (hkey : r.sourceKey = some key) :
    s.Placed r ∨ (s.admits r).1.reason = .stateCapacityExhausted ∨
      ((s.admits r).1.reason = .invalidConfig ∧ r.globalSpec ≠ none) := by
  rw [admits_eq hgoes hkey]
  cases hi : s.findOrEmpty key none with
  | none => exact .inr (.inl rfl)
  | some i =>
    dsimp only
    cases hrule : (s.seen r.now).globalEntry r i with
    | ok rule => exact .inl ⟨key, i, rule, hkey, hi, hrule⟩
    | error reason =>
      rw [charge, hrule]
      unfold globalEntry at hrule
      split at hrule
      · split at hrule <;> cases hrule
        exact .inr (.inl rfl)
      · cases hrule
      · cases hrule
      · cases hrule
        exact .inr (.inr ⟨rfl, by simp [*]⟩)

/-- A request that charges no bucket of a rule is decided by its source's bucket alone. -/
theorem Tidy.admits_alone (hs : s.Tidy) (hgoes : s.lastNow.any (r.now < ·) = false)
    (hkey : r.sourceKey = some key) (hplain : r.globalSpec = none)
    (hroom : (s.admits r).1.reason ≠ .stateCapacityExhausted) :
    (s.admits r).1 = ((⟨s.arrival key⟩ : GcraState).judge r).1 ∧
      (⟨(s.admits r).2.arrival key⟩ : GcraState) = ((⟨s.arrival key⟩ : GcraState).judge r).2 := by
  have hcharges : r.charges = [(key, r.sourceSpec)] := by
    rw [Request.charges, hkey, hplain]
    cases r.globalKey <;> rfl
  have hone : (s.admits r).1 = ((⟨s.arrival key⟩ : GcraState).judge r).1 := by
    rcases placed_or hgoes hkey with hplaced | hfull | ⟨_, hlimit⟩
    · rw [hs.admits_decision hgoes hplaced, previews, hcharges]
      rfl
    · exact absurd hfull hroom
    · exact absurd hplain hlimit
  refine ⟨hone, ?_⟩
  have hmoved : (s.admits r).1.action = .allow → _ :=
    fun hallowed => (hs.arrival_admit hallowed (Request.mem_charges hkey)).2
  have hkept : (s.admits r).1.action ≠ .allow → (s.admits r).2.arrival key = _ :=
    fun hdenied => arrival_admit_of_not fun h => hdenied h.1
  rw [hone] at hmoved hkept
  unfold GcraState.judge at hmoved hkept ⊢
  cases hpreview : (⟨s.arrival key⟩ : GcraState).preview r.now r.sourceSpec with
  | error err =>
    rw [hpreview] at hkept
    rw [hkept (by rintro ⟨⟩)]
  | ok preview =>
    rw [hpreview] at hmoved hkept
    cases hallowed : preview.allowed with
    | false =>
      rw [hkept (by simp [decision, hallowed, deny])]
      simp [GcraState.commit, hallowed]
    | true =>
      rw [hmoved (by simp [decision, hallowed, allow])]
      exact ((GcraState.preview_ok hpreview).2.1 hallowed).2.symm

/-- The decisions of a key are those of a bucket of its own. -/
theorem Tidy.filter_answers (hs : s.Tidy) {calls : List Call} (hcalls : Apart key calls)
    (hclock : ∀ r ∈ requests calls, s.lastNow.any (r.now < ·) = false)
    (hroom : ∀ answer ∈ s.answers calls, answer.2.reason ≠ .stateCapacityExhausted) :
    (s.answers calls).filter (·.1.isOf key) =
      (⟨s.arrival key⟩ : GcraState).judgements ((requests calls).filter (·.isOf key)) := by
  induction calls generalizing s with
  | nil => rfl
  | cons call rest ih =>
    have hkept := hcalls.kept call mem_cons_self
    have hrest := fun c hc => hcalls.kept c (mem_cons_of_mem call hc)
    cases call with
    | admits r =>
      obtain ⟨hlater, htimed⟩ := pairwise_cons.mp hcalls.timed
      have hgoes := hclock r mem_cons_self
      have hnext := ih (s := (s.admits r).2) (hs.step (.admits r))
        ⟨hcalls.source, htimed, fun q hq => hcalls.plain q (mem_cons_of_mem _ hq), hrest⟩
        (fun q hq => by simpa [lastNow_admits hgoes] using hlater q hq)
        fun answer hanswer => hroom answer (mem_cons_of_mem _ hanswer)
      show (filter _ ((r, (s.admits r).1) :: (s.admits r).2.answers rest)) =
        (⟨s.arrival key⟩ : GcraState).judgements ((r :: requests rest).filter _)
      cases hof : r.isOf key with
      | true =>
        obtain ⟨hone, hmoved⟩ := hs.admits_alone hgoes (beq_iff_eq.mp hof)
          (hcalls.plain r mem_cons_self hof) (hroom _ mem_cons_self)
        rw [filter_cons_of_pos (by exact hof), filter_cons_of_pos hof, hnext, hone, hmoved]
        rfl
      | false =>
        rw [filter_cons_of_neg (by simp [hof]), filter_cons_of_neg (by simp [hof]), hnext,
          arrival_admit_of_not fun h => not_charges hcalls.source hof (any_charges.mp h.2)]
    | resetGeneration generation =>
      have hother : generation ≠ key.generation := fun h => hkept.2 (h ▸ rfl)
      have hnext := ih (hs.step (.resetGeneration generation))
        ⟨hcalls.source, hcalls.timed, hcalls.plain, hrest⟩ hclock hroom
      rw [show (s.step (.resetGeneration generation)).arrival key = _ from
        arrival_resetGeneration hother] at hnext
      exact hnext
    | disable => exact absurd rfl hkept.1

/-- No source has an influence on the limit of another. In two runs with the same requests
of a key, each in the order of its times and never out of room, the decisions of these
requests are the same, whatever other requests and resets there are. -/
theorem decisions_of_key (maxKeys maxKeys' : Nat) (key : CounterKey) (calls calls' : List Call)
    (h : Apart key calls) (h' : Apart key calls')
    (hsame : (requests calls).filter (·.isOf key) = (requests calls').filter (·.isOf key))
    (hroom : ∀ answer ∈ (new maxKeys).answers calls, answer.2.reason ≠ .stateCapacityExhausted)
    (hroom' : ∀ answer ∈ (new maxKeys').answers calls', answer.2.reason ≠ .stateCapacityExhausted) :
    ((new maxKeys).answers calls).filter (·.1.isOf key) =
      ((new maxKeys').answers calls').filter (·.1.isOf key) := by
  -- a key has no entry in an empty table
  have hnew : ∀ size, (new size).arrival key = 0 := by
    intro size
    refine arrival_of_absent fun i => ?_
    rw [entries_new]
    rintro ⟨⟩
  have htidy : ∀ size, (new size).Tidy := fun _ => tidy_new
  rw [(htidy maxKeys).filter_answers h (fun _ _ => rfl) hroom,
    (htidy maxKeys').filter_answers h' (fun _ _ => rfl) hroom', hsame, hnew, hnew]

/-- Calls for another source in between. -/
theorem decisions_of_key_sample :
    let key : CounterKey := ⟨1, 1, 1, 7, .httpSource⟩
    let own := Call.admits (sample 7 5 none)
    let busy := [Call.admits (sample 8 0 (some ⟨10, 1⟩)), own, .resetGeneration 3, own, own]
    ((new 4).answers busy).filter (·.1.isOf key) =
        ((new 4).answers [own, own, own]).filter (·.1.isOf key) ∧
      (((new 4).answers busy).filter (·.1.isOf key)).map (·.2) =
        [allow .allowed, allow .allowed, deny .sourceLimited 10 .http] := by
  refine ⟨decisions_of_key 4 4 _ _ _ ⟨by decide, ?_, ?_, by decide⟩ ⟨by decide, ?_, ?_, by decide⟩
    (by decide) (by decide +kernel) (by decide +kernel), by decide +kernel⟩ <;> decide

/-! ## The time of a retry -/

/-- The first time at which a bucket admits. -/
def opens (s : LocalLimiter maxKeys) (charge : CounterKey × BucketSpec) : Nat :=
  s.arrival charge.1 - charge.2.toleranceNs

/-- The buckets that a request charges are in step: none is at the end of the clock's range,
and after one that is closed comes none that opens later. -/
structure InStep (s : LocalLimiter maxKeys) (r : Request) : Prop where
  fits : ∀ c ∈ r.charges, s.arrival c.1 + c.2.emissionIntervalNs < 2 ^ 64
  order : r.charges.Pairwise fun c c' => r.now < s.opens c → s.opens c' ≤ s.opens c

/-- A bucket of the request opens at a time, and none later exactly if they are in order. -/
structure Opens (s : LocalLimiter maxKeys) (r : Request) (time : Nat) : Prop where
  valid : ∀ c ∈ r.charges, c.2.validate = .ok c.2
  opens : ∃ c ∈ r.charges, s.opens c = time
  last : (∀ c ∈ r.charges, s.opens c ≤ time) ↔
    r.charges.Pairwise fun c c' => r.now < s.opens c → s.opens c' ≤ s.opens c

/-- A bucket admits from the time at which it opens on, as far as the clock's range goes. -/
theorem admitting_iff {c : CounterKey × BucketSpec} (hvalid : c.2.validate = .ok c.2) :
    s.Admitting c.1 c.2 now ↔
      s.opens c ≤ now ∧ max (s.arrival c.1) now + c.2.emissionIntervalNs < 2 ^ 64 := by
  unfold opens
  constructor
  · rintro ⟨preview, hpreview, hallowed⟩
    have harrival : s.arrival c.1 ≤ _ := ((GcraState.preview_ok hpreview).2.1 hallowed).1
    refine ⟨by omega, ?_⟩
    by_contra hover
    -- `checked_add` fails, so there is no preview
    unfold GcraState.preview at hpreview
    rw [hvalid] at hpreview
    dsimp only [bind, Except.bind] at hpreview
    rw [if_neg (by omega), if_pos (by omega)] at hpreview
    cases hpreview
  · rintro ⟨hopen, hfits⟩
    refine ⟨_, GcraState.preview_of_le hvalid ?_ hfits, rfl⟩
    show s.arrival c.1 ≤ _
    omega

/-- A decision for a limit is that of the first bucket that is closed. -/
theorem decision_limited {kind : AdmissionKind} {l : List (Except ConfigError Preview)}
    (h : (decision kind l).reason = .sourceLimited ∨
      (decision kind l).reason = .ruleGlobalLimited) :
    ∃ front p back reason, l = front ++ .ok p :: back ∧ p.allowed = false ∧
      (∀ q ∈ front, ∃ p', q = .ok p' ∧ p'.allowed = true) ∧ (∀ q ∈ back, ∃ p', q = .ok p') ∧
      back.length ≤ 1 ∧ decision kind l = deny reason p.retryAfterNs kind := by
  revert h
  fun_cases decision kind l with
  | case1 source hclosed =>
    exact fun _ => ⟨[], source, [], _, rfl, by simpa using hclosed, by simp, by simp, by simp, rfl⟩
  | case3 source rule hclosed =>
    exact fun _ => ⟨[], source, [.ok rule], _, rfl, by simpa using hclosed, by simp, by simp,
      by simp, rfl⟩
  | case4 source rule hopen hclosed =>
    exact fun _ => ⟨[.ok source], rule, [], _, rfl, by simpa using hclosed,
      by simpa using hopen, by simp, by simp, rfl⟩
  | case2 | case5 | case6 => simp [allow, deny]

/-- It tells when this bucket opens. -/
theorem opens_of_limited {kind : AdmissionKind}
    (h : (decision kind (s.previews r)).reason = .sourceLimited ∨
      (decision kind (s.previews r)).reason = .ruleGlobalLimited) :
    ∃ reason wait, decision kind (s.previews r) = deny reason wait kind ∧
      s.Opens r (r.now + wait) := by
  obtain ⟨_, p, _, reason, hall, hclosed, hfront, hback, hone, hdecision⟩ := decision_limited h
  obtain ⟨front, _, hcharges, rfl, hrest⟩ := map_eq_append_iff.mp hall
  obtain ⟨c, back, rfl, hc, rfl⟩ := map_eq_cons_iff.mp hrest
  obtain ⟨hvalid, -, hopens⟩ := GcraState.preview_ok hc
  obtain ⟨hopens, hlater⟩ : s.opens c = _ ∧ r.now < s.opens c := hopens hclosed
  have hearly : ∀ c ∈ front, c.2.validate = .ok c.2 ∧ s.opens c ≤ r.now := by
    intro c hmem
    obtain ⟨preview, hpreview, hallowed⟩ := hfront _ (mem_map_of_mem hmem)
    obtain ⟨hvalid, hopen, -⟩ := GcraState.preview_ok hpreview
    exact ⟨hvalid, Nat.sub_le_of_le_add (hopen hallowed).1⟩
  have hnext : ∀ c ∈ back, c.2.validate = .ok c.2 := by
    intro c hmem
    obtain ⟨preview, hpreview⟩ := hback _ (mem_map_of_mem hmem)
    exact (GcraState.preview_ok hpreview).1
  refine ⟨reason, p.retryAfterNs, hdecision, ?_, ⟨c, by simp [hcharges], hopens⟩, ?_⟩
  · rw [hcharges, forall_mem_append, forall_mem_cons]
    exact ⟨fun c hmem => (hearly c hmem).1, hvalid, hnext⟩
  · rw [hcharges, forall_mem_append, forall_mem_cons, pairwise_append, pairwise_cons]
    have hsingle : back.Pairwise fun c c' => r.now < s.opens c → s.opens c' ≤ s.opens c := by
      rw [length_map] at hone
      rcases back with _ | ⟨c', _ | _⟩
      · exact .nil
      · exact pairwise_singleton _ _
      · simp at hone
    constructor
    · rintro ⟨-, -, hlast⟩
      refine ⟨pairwise_of_forall_mem_list ?_, ⟨?_, hsingle⟩, ?_⟩
      · intro a ha b _ hlate
        exact absurd (hearly a ha).2 (Nat.not_le.mpr hlate)
      · intro c' hmem _
        exact (hlast c' hmem).trans hopens.ge
      · intro a ha b _ hlate
        exact absurd (hearly a ha).2 (Nat.not_le.mpr hlate)
    · rintro ⟨-, ⟨hnext, -⟩, -⟩
      exact ⟨fun c hmem => (hearly c hmem).2.trans (Nat.le_add_right _ _), hopens.le,
        fun c' hmem => (hnext c' hmem hlater).trans hopens.le⟩

/-- What a denial for a limit says of the buckets. -/
theorem Tidy.limited (hs : s.Tidy)
    (h : (s.admits r).1.reason = .sourceLimited ∨ (s.admits r).1.reason = .ruleGlobalLimited) :
    s.Placed r ∧ (s.admits r).2 = s.seen r.now ∧
      s.Opens r (r.now + (s.admits r).1.retryAfterNs) := by
  rcases s.admit_cases r with ⟨hregressed, _⟩ | ⟨hgoes, hcases⟩
  · rw [admits, if_pos hregressed] at h
    exact nomatch h
  · cases hkey : r.sourceKey with
    | none =>
      rw [admits, if_neg (by rw [hgoes]; exact nofun), hkey] at h
      exact nomatch h
    | some key =>
      rcases placed_or hgoes hkey with hplaced | hfull | ⟨hinvalid, _⟩
      · rw [hs.admits_decision hgoes hplaced] at h hcases ⊢
        obtain ⟨reason, wait, hdecision, hopens⟩ := opens_of_limited h
        rw [hdecision] at hcases ⊢
        rcases hcases with ⟨_, hsame⟩ | ⟨hallowed, _⟩ | ⟨hallowed, _⟩
        · exact ⟨hplaced, hsame, hopens⟩
        · exact nomatch hallowed
        · exact nomatch hallowed
      · simp [hfull] at h
      · simp [hinvalid] at h

/-- When a request that a bucket has denied is admitted, in any state that calls lead to, if no
other request comes before it. Before the wait is over it is denied; when it is over, and the
clock does not overflow, it is admitted exactly if the buckets it charges are in step. -/
theorem retry_after_exact (maxKeys : Nat) (calls : List Call) (r : Request)
    (hreason : ((run maxKeys calls).admits r).1.reason = .sourceLimited ∨
      ((run maxKeys calls).admits r).1.reason = .ruleGlobalLimited) :
    let limiter := run maxKeys calls
    let retry := (limiter.admits r).1.retryAfterNs
    let later := (limiter.admits r).2
    (∀ now, r.now ≤ now → now < r.now + retry →
      (later.admits { r with now := now }).1.action = .deny) ∧
      ((∀ c ∈ r.charges, r.now + retry + c.2.emissionIntervalNs < 2 ^ 64) →
        ((later.admits { r with now := r.now + retry }).1.action = .allow ↔ limiter.InStep r)) := by
  intro limiter retry later
  have htidy : limiter.Tidy := tidy_run maxKeys calls
  obtain ⟨hplaced, hlater, hopens⟩ := htidy.limited hreason
  have hallow : ∀ now, r.now ≤ now → ((later.admits { r with now := now }).1.action = .allow ↔
      ∀ c ∈ r.charges, limiter.Admitting c.1 c.2 now) := by
    intro now hnow
    show (((limiter.admits r).2).admits _).1.action = _ ↔ _
    rw [hlater]
    exact (htidy.seen r.now).admit_allow_iff (by simpa [seen] using hnow) hplaced
  constructor
  · intro now hnow hearly
    obtain ⟨c, hmem, hopen⟩ := hopens.opens
    have hno : (later.admits { r with now := now }).1.action ≠ .allow := by
      -- it would find the bucket open whose wait it was
      intro hyes
      have hadmitting := (hallow now hnow).mp hyes c hmem
      have hopened := ((admitting_iff (hopens.valid c hmem)).mp hadmitting).1
      exact Nat.not_le.mpr hearly (hopen.symm.trans_le hopened)
    rcases later.admit_cases { r with now := now } with
      ⟨_, hdenied, _⟩ | ⟨_, ⟨hdenied, _⟩ | ⟨hyes, _⟩ | ⟨hyes, _⟩⟩
    exacts [hdenied, hdenied, absurd hyes hno, absurd hyes hno]
  · intro hfits
    have hadmit : ∀ c ∈ r.charges, (limiter.Admitting c.1 c.2 (r.now + retry) ↔
        limiter.opens c ≤ r.now + retry ∧
          limiter.arrival c.1 + c.2.emissionIntervalNs < 2 ^ 64) := by
      intro c hmem
      have hend := hfits c hmem
      have hmax : max (limiter.arrival c.1) (r.now + retry) + c.2.emissionIntervalNs < 2 ^ 64 ↔
          limiter.arrival c.1 + c.2.emissionIntervalNs < 2 ^ 64 := by
        omega
      rw [admitting_iff (hopens.valid c hmem), hmax]
    rw [hallow _ (Nat.le_add_right _ _), forall₂_congr hadmit, forall₂_and, hopens.last]
    exact ⟨fun h => ⟨h.2, h.1⟩, fun h => ⟨h.order, h.fits⟩⟩

/-- The rule's bucket opens before that of the source. -/
theorem retry_after_exact_sample :
    let rule : Option BucketSpec := some ⟨5, 2⟩
    let limiter := run 4 [.admits (sample 7 0 rule), .admits (sample 7 0 rule)]
    (limiter.admits (sample 7 3 rule)).1 = deny .sourceLimited 7 .http ∧
      ((limiter.admits (sample 7 3 rule)).2.admits (sample 7 10 rule)).1.action = .allow :=
  ⟨by decide, ((retry_after_exact 4 _ (sample 7 3 (some ⟨5, 2⟩)) (by decide)).2
    (by decide)).mpr ⟨by decide, by decide⟩⟩

/-- The wait of the source's bucket is told, and when it is over the request is denied for
the rule's bucket, which opens later. -/
theorem rule_opens_later :
    let rule : Option BucketSpec := some ⟨100, 2⟩
    let limiter := run 4 [.admits (sample 7 0 rule), .admits (sample 7 0 rule)]
    (limiter.admits (sample 7 0 rule)).1 = deny .sourceLimited 10 .http ∧
      ((limiter.admits (sample 7 0 rule)).2.admits (sample 7 10 rule)).1 =
        deny .ruleGlobalLimited 90 .http := by
  decide

end LocalLimiter

end NrePlugins.RateLimit
