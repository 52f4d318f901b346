import Nre.Base.GoStrings
import Nre.Base.Rely
import Nre.Base.Schedule

/-!
# The panel of the firewall

Model of `Configuration.Validate` of `model.go`, of `currentConfig`, `replaceConfig` of
`controller.go` and of the requests of `app_ui.go` and `app_management.go` that change the
configuration. A request reads the configuration in memory, computes the next one from it,
stores it with the host and takes it over into memory.

No version is compared. `Undisturbed` is the condition under which no update is lost: when a
request stores, what it has read is what is stored, and no other request is between its store and
its take-over. In runs that meet it, memory and store agree when no request is running, and they
are what the successful requests make of the first configuration one after the other
(`panel_no_lost_update`). Without it a confirmed rule is gone (`confirmed_rule_is_lost`).
-/

namespace NrePlugins.Waf.Panel

open List

/-! ## Configurations -/

inductive Err where
  | unavailable | policyUnavailable | boundExceeded | invalidMode | invalidRule
  | invalidExclusion | duplicateRule | agentRequired | host
  deriving DecidableEq

structure CustomRule where
  id : Bytes
  target : Bytes
  needle : Bytes
  deriving DecidableEq

structure Exclusion where
  ruleID : Bytes
  pathPrefix : Bytes
  deriving DecidableEq

structure Configuration where
  mode : Bytes
  customRules : List CustomRule
  exclusions : List Exclusion
  deriving DecidableEq

/-- `MaxRules` and `MaxExclusions`. -/
def maxRules : Nat := 16

def maxExclusions : Nat := 16

def validMode (value : Bytes) : Bool := value == ascii "observe" || value == ascii "deny"

def validID (value : Bytes) : Bool :=
  value.length ≤ 32 && value.head?.any (fun b => ch 'a' ≤ b && b ≤ ch 'z') &&
    value.all fun b => (ch 'a' ≤ b && b ≤ ch 'z') || (ch '0' ≤ b && b ≤ ch '9') || b == ch '-'

/-- `boundedLiteral`. A rune beyond ASCII is refused whatever its length, so the bytes are
counted; of the other runes those are printed or space that are neither a line break nor zero. -/
def boundedLiteral (value : Bytes) (minimum maximum : Nat) : Bool :=
  minimum ≤ value.length && value.length ≤ maximum &&
    value.all fun b => (0x20 ≤ b && b ≤ 0x7e) || b == 0x09 || b == 0x0b || b == 0x0c

def CustomRule.validate (rule : CustomRule) : Except Err Unit :=
  if validID rule.id && [ascii "path", ascii "query", ascii "headers", ascii "body"].contains
      rule.target && boundedLiteral rule.needle 2 64 then .ok ()
  else .error .invalidRule

def Exclusion.validate (exclusion : Exclusion) : Except Err Unit :=
  if validID exclusion.ruleID && (ascii "/").isPrefixOf exclusion.pathPrefix &&
      boundedLiteral exclusion.pathPrefix 1 96 then .ok ()
  else .error .invalidExclusion

/-- The loop of `Validate` over the rules, with the ids seen before. -/
def checkRules : List Bytes → List CustomRule → Except Err Unit
  | _, [] => .ok ()
  | seen, rule :: rest => do
    rule.validate
    if rule.id ∈ seen then .error .duplicateRule else checkRules (rule.id :: seen) rest

def checkExclusions (known : List Bytes) : List Exclusion → Except Err Unit
  | [] => .ok ()
  | exclusion :: rest => do
    exclusion.validate
    if exclusion.ruleID ∈ known then checkExclusions known rest else .error .invalidExclusion

/-- `Validate`, with the ids of the managed rules. -/
def Configuration.validate (managed : List Bytes) (config : Configuration) : Except Err Unit := do
  if !validMode config.mode then .error .invalidMode
  else if maxRules < config.customRules.length ∨ maxExclusions < config.exclusions.length then
    .error .boundExceeded
  else
    checkRules [] config.customRules
    checkExclusions (managed ++ config.customRules.map (·.id)) config.exclusions

/-! ## Requests -/

/-- What a controller has, and what the SDK says about identities. -/
structure Controller where
  managed : List Bytes
  validAgentID : Bytes → Bool
  catalog : Bool
  overlaysW : Bool
  configs : Bool

/-- What is looked at of an `HTTPEntry`. -/
structure HTTPEntry where
  ruleRef : Bytes
  attached : Bool
  overlayInvalid : Bool

inductive Call where
  | currentConfig
  | storeConfig (next : Configuration)
  /-- The end of `replaceConfig`, under the mutex. -/
  | setConfig (next : Configuration)
  | list (agentID : Bytes)
  | setMode (agentID ruleRef mode : Bytes)

abbrev Answer : Call → Type
  | .currentConfig => Configuration
  | .setConfig _ => Unit
  | .list _ => Except Err (List HTTPEntry)
  | .storeConfig _ | .setMode _ _ _ => Except Err Unit

abbrev PanelM := Prog Answer Err

/-- A call whose error is returned. -/
def orFail {α : Type} (c : Call) (h : Answer c = Except Err α) : PanelM α := do
  let answer ← Prog.ask c
  .ofExcept (h ▸ answer)

inductive Request where
  | setGlobalMode (agentID mode : Bytes)
  | addCustomRule (rule : CustomRule)
  | addExclusion (exclusion : Exclusion)
  | removeCustomRule (id : Bytes)
  | removeExclusion (id path : Bytes)
  deriving DecidableEq

section Programs

variable (ctl : Controller)

/-- `listEntries`. It reads the configuration for the mode that it shows. -/
def listEntries (agentID : Bytes) : PanelM (List HTTPEntry) :=
  if !ctl.validAgentID agentID then .fail .agentRequired
  else if !ctl.catalog then .fail .policyUnavailable
  else do
    let listed ← orFail (.list agentID) rfl
    let _ ← Prog.ask Call.currentConfig
    return listed

/-- The loop of `setGlobalMode`. -/
def setModes (agentID mode : Bytes) : List HTTPEntry → PanelM Unit
  | [] => .ret ()
  | entry :: rest =>
    if entry.overlayInvalid || !entry.attached || trimSpace entry.ruleRef == [] then
      setModes agentID mode rest
    else do
      orFail (.setMode agentID entry.ruleRef mode) rfl
      setModes agentID mode rest

namespace Request

/-- What a request does before it reads the configuration. -/
def prepare : Request → PanelM Unit
  | setGlobalMode agentID mode =>
    if !validMode mode then .fail .invalidMode
    else if !ctl.overlaysW then .fail .unavailable
    else if trimSpace agentID = [] then .ret ()
    else do
      let entries ← listEntries ctl agentID
      setModes agentID mode entries
  | addCustomRule rule => .ofExcept rule.validate
  | addExclusion exclusion => .ofExcept exclusion.validate
  | removeCustomRule _ | removeExclusion _ _ => .ret ()

/-- The configuration that a request makes of the one it has read. -/
def next (config : Configuration) : Request → Except Err Configuration
  | setGlobalMode _ mode => .ok { config with mode }
  | addCustomRule rule =>
    if maxRules ≤ config.customRules.length then .error .boundExceeded
    else if config.customRules.any (·.id == rule.id) then .error .duplicateRule
    else .ok { config with customRules := config.customRules ++ [rule] }
  | addExclusion exclusion =>
    if maxExclusions ≤ config.exclusions.length then .error .boundExceeded
    else .ok { config with exclusions := config.exclusions ++ [exclusion] }
  | removeCustomRule id =>
    if config.customRules.any (·.id == id) then
      .ok { config with
        customRules := config.customRules.eraseP (·.id == id)
        exclusions := config.exclusions.filter (·.ruleID != id) }
    else .error .invalidRule
  | removeExclusion id path =>
    if config.exclusions.any (fun e => e.ruleID == id && e.pathPrefix == path) then
      .ok { config with
        exclusions := config.exclusions.eraseP fun e => e.ruleID == id && e.pathPrefix == path }
    else .error .invalidExclusion

end Request

/-- `replaceConfig`. -/
def replaceConfig (next : Configuration) : PanelM Unit := do
  .ofExcept (next.validate ctl.managed)
  if !ctl.configs then .fail .unavailable
  else
    orFail (.storeConfig next) rfl
    Prog.ask (Call.setConfig next)

/-- `setGlobalMode`, `addCustomRule`, `addExclusion`, `removeCustomRule`, `removeExclusion`. -/
def Request.handler (request : Request) : PanelM Unit := do
  request.prepare ctl
  let config ← Prog.ask Call.currentConfig
  let next ← Prog.ofExcept (request.next config)
  replaceConfig ctl next

/-- The answer of a request is its error, or none. -/
def Request.program (request : Request) : Prog Answer Empty (Except Err Unit) :=
  (request.handler ctl).caught

/-- A request alone: the configuration that it leaves. -/
def Request.execute (request : Request) (config : Configuration) : Except Err Configuration := do
  let next ← request.next config
  next.validate ctl.managed
  return next

end Programs

/-! ## Runs -/

/-- The configuration in memory and the stored one. Beside them: what each request has read last,
the requests that have stored with what they had read and what they have stored, the newest
first, and the one that has not taken its configuration over yet. -/
structure Shared where
  memory : Configuration
  stored : Configuration
  reads : Nat → Option Configuration
  standing : List (Nat × Configuration × Configuration)
  taking : Option Nat

/-- A configuration is stored, or the host fails and stores nothing. -/
def respond (i : Nat) (s : Shared) : (c : Call) → Answer c → Shared → Prop
  | .currentConfig, answer, s' =>
    answer = s.memory ∧ s' = { s with reads := Function.update s.reads i (some s.memory) }
  | .storeConfig next, .ok _, s' => s' = { s with
      stored := next
      standing := (i, (s.reads i).getD next, next) :: s.standing
      taking := some i }
  | .storeConfig _, .error _, s' => s' = s
  | .setConfig next, _, s' => s' = { s with memory := next, taking := none }
  | .list _, _, s' => s' = s
  | .setMode _ _ _, _, s' => s' = s

abbrev PanelThread := Thread Answer Request Empty (Except Err Unit)

abbrev PanelSystem := System Answer Request Empty (Except Err Unit) Shared

section Runs

variable (ctl : Controller)

def Step : PanelSystem → Label Answer Request → PanelSystem → Prop :=
  System.Step (Request.program ctl) respond

/-- No request has arrived, and memory and store have the same valid configuration. -/
def Initial (start : Configuration) (s : PanelSystem) : Prop :=
  start.validate ctl.managed = .ok () ∧ s = ⟨⟨start, start, fun _ => none, [], none⟩, []⟩

/-- A request that stores has read what is stored, and no other one has stored without having
taken over. -/
def Over (i : Nat) (s : Shared) : (c : Call) → Answer c → Prop
  | .storeConfig _, .ok _ => s.reads i = some s.stored ∧ s.taking = none
  | .storeConfig _, .error _ | .currentConfig, _ | .setConfig _, _ | .list _, _
  | .setMode _ _ _, _ => True

/-- The condition on steps. -/
def Undisturbed (s : PanelSystem) : Label Answer Request → Prop
  | .act i ⟨c, answer⟩ => Over i s.shared c answer
  | _ => True

/-- The request of thread `i` has reported success. -/
def Succeeded (s : PanelSystem) (i : Nat) (request : Request) : Prop :=
  ∃ t, s.threads[i]? = some t ∧ t.request = request ∧ t.result = some (.ok (.ok ()))

/-- What a request can add. -/
inductive Item where
  | rule (rule : CustomRule)
  | exclusion (exclusion : Exclusion)

def Configuration.Has (config : Configuration) : Item → Prop
  | .rule rule => rule ∈ config.customRules
  | .exclusion exclusion => exclusion ∈ config.exclusions

def Request.adds : Request → Option Item
  | addCustomRule rule => some (.rule rule)
  | addExclusion exclusion => some (.exclusion exclusion)
  | _ => none

/-- A removal that names the item, or the rule of an exclusion. -/
def Request.removes : Item → Request → Bool
  | .rule rule, removeCustomRule id => rule.id == id
  | .exclusion exclusion, removeCustomRule id => exclusion.ruleID == id
  | .exclusion exclusion, removeExclusion id path =>
    exclusion.ruleID == id && exclusion.pathPrefix == path
  | _, _ => false

/-- Memory and store agree, and they are the result of executing exactly the successful requests
one after the other; what a request has added is there, unless a later one removes it. -/
structure NothingLost (start : Configuration) (s : PanelSystem) : Prop where
  same : s.shared.memory = s.shared.stored
  serial : ∃ order : List (Nat × Request), (order.map Prod.fst).Nodup ∧
    (∀ i request, (i, request) ∈ order ↔ Succeeded s i request) ∧
    (order.map Prod.snd).foldlM (fun config request => request.execute ctl config) start =
      .ok s.shared.stored ∧
    ∀ before i request later, order = before ++ (i, request) :: later → ∀ item ∈ request.adds,
      (∀ removal ∈ later, removal.2.removes item = false) → s.shared.stored.Has item

end Runs

/-! ## What a request keeps -/

/-- The request has stored. -/
def Stands (s : Shared) (i : Nat) : Prop := ∃ read next, (i, read, next) ∈ s.standing

/-- Each configuration was made from the one below it. -/
def Chain (start : Configuration) :
    List (Nat × Configuration × Configuration) → Configuration → Prop
  | [], last => last = start
  | (_, read, next) :: rest, last => last = next ∧ Chain start rest read

/-- The changes that stand form a chain to what is stored. -/
structure Inv (start : Configuration) (s : Shared) : Prop where
  nodup : (s.standing.map Prod.fst).Nodup
  chain : Chain start s.standing s.stored
  memory : s.taking = none → s.memory = s.stored
  taking : ∀ i, s.taking = some i → Stands s i

/-- What thread `i` relies on. -/
structure Rely (i : Nat) (s s' : Shared) : Prop where
  standing : ∀ entry, (i, entry) ∈ s'.standing ↔ (i, entry) ∈ s.standing
  taking : s'.taking = some i ↔ s.taking = some i
  stored : s.taking = some i → s'.stored = s.stored
  read : s'.reads i = s.reads i

def Pre (i : Nat) (s : Shared) : Call → Prop
  | .storeConfig _ => ¬ Stands s i
  | .setConfig next => s.taking = some i ∧ next = s.stored
  | _ => True

/-- What is true when a request has answered. -/
def Done (ctl : Controller) (request : Request) (i : Nat) (s : Shared) : Except Err Unit → Prop
  | .ok _ => s.taking ≠ some i ∧
      ∃ read next, (i, read, next) ∈ s.standing ∧ request.execute ctl read = .ok next
  | .error _ => ¬ Stands s i

theorem Rely.refl (i : Nat) (s : Shared) : Rely i s s :=
  ⟨fun _ => Iff.rfl, Iff.rfl, fun _ => rfl, rfl⟩

variable {i : Nat} {s s' : Shared}

theorem Rely.trans {s'' : Shared} (h : Rely i s s') (h' : Rely i s' s'') : Rely i s s'' :=
  ⟨fun entry => (h'.standing entry).trans (h.standing entry), h'.taking.trans h.taking,
    fun ht => (h'.stored (h.taking.mpr ht)).trans (h.stored ht), h'.read.trans h.read⟩

theorem Rely.stands (h : Rely i s s') : Stands s' i ↔ Stands s i := by
  constructor
  · rintro ⟨read, next, hmem⟩
    exact ⟨read, next, (h.standing _).mp hmem⟩
  · rintro ⟨read, next, hmem⟩
    exact ⟨read, next, (h.standing _).mpr hmem⟩

theorem Done.stable {ctl : Controller} (request : Request) (i : Nat) (s s' : Shared)
    (answer : Except Err Unit) (h : Rely i s s') (hdone : Done ctl request i s answer) :
    Done ctl request i s' answer := by
  cases answer with
  | error e => exact fun hstands => hdone (h.stands.mp hstands)
  | ok _ =>
    obtain ⟨htaking, read, next, hmem, hnext⟩ := hdone
    exact ⟨fun ht => htaking (h.taking.mp ht), read, next, (h.standing _).mpr hmem, hnext⟩

/-- Every call keeps the invariant, and what the others rely on. -/
theorem keeps {start : Configuration} {s : PanelSystem} {c : Call} {answer : Answer c}
    (hinv : Inv start s.shared) (hok : Undisturbed s (.act i ⟨c, answer⟩))
    (hpre : Pre i s.shared c) (hresp : respond i s.shared c answer s') :
    Inv start s' ∧ ∀ j, j ≠ i → Rely j s.shared s' := by
  cases c with
  | currentConfig =>
    obtain ⟨-, rfl⟩ := hresp
    refine ⟨⟨hinv.nodup, hinv.chain, hinv.memory, hinv.taking⟩, fun j hj => ?_⟩
    exact ⟨fun _ => Iff.rfl, Iff.rfl, fun _ => rfl, Function.update_of_ne hj _ _⟩
  | storeConfig next =>
    cases answer with
    | error e =>
      obtain rfl : s' = s.shared := hresp
      exact ⟨hinv, fun j _ => .refl j _⟩
    | ok _ =>
      obtain ⟨hread, hnone⟩ : s.shared.reads i = some s.shared.stored ∧ s.shared.taking = none :=
        hok
      obtain rfl : s' = _ := hresp
      refine ⟨⟨?_, ⟨rfl, ?_⟩, fun h => (by cases h), ?_⟩, fun j hj => ⟨?_, ?_, ?_, rfl⟩⟩
      · refine nodup_cons.mpr ⟨?_, hinv.nodup⟩
        intro hmem
        obtain ⟨⟨_, read, stored⟩, hentry, rfl⟩ := mem_map.mp hmem
        exact hpre ⟨read, stored, hentry⟩
      · rw [hread]
        exact hinv.chain
      · intro j hj
        cases hj
        exact ⟨_, _, mem_cons_self⟩
      · intro entry
        simp [hj]
      · simp [hnone, Ne.symm hj]
      · intro ht
        simp [hnone] at ht
  | setConfig next =>
    obtain ⟨htaking, rfl⟩ := hpre
    obtain rfl : s' = _ := hresp
    refine ⟨⟨hinv.nodup, hinv.chain, fun _ => rfl, fun j h => (by cases h)⟩, fun j hj => ?_⟩
    refine ⟨fun _ => Iff.rfl, ?_, fun _ => rfl, rfl⟩
    simp [htaking, Ne.symm hj]
  | list | setMode =>
    obtain rfl : s' = s.shared := hresp
    exact ⟨hinv, fun j _ => .refl j _⟩

/-! ## Requests are safe -/

section

variable {ctl : Controller} {start : Configuration}

section Safety

variable {i : Nat} {α : Type} {post : Shared → Except Err Unit → Prop}

/-- Calls that store nothing. -/
def Call.Calm : Call → Prop
  | .currentConfig | .list _ | .setMode _ _ _ => True
  | _ => False

theorem calm_orFail {c : Call} (h : Answer c = Except Err α) (hc : c.Calm) :
    Only Call.Calm (orFail c h) :=
  Only.bind (Only.ask hc) fun _ => Only.ofExcept _

theorem calm_listEntries (agentID : Bytes) : Only Call.Calm (listEntries ctl agentID) := by
  unfold listEntries
  split_ifs
  · trivial
  · trivial
  · refine Only.bind (calm_orFail rfl trivial) fun _ => ?_
    exact Only.bind (Only.ask trivial) fun _ => trivial

theorem calm_setModes (agentID mode : Bytes) (entries : List HTTPEntry) :
    Only Call.Calm (setModes agentID mode entries) := by
  induction entries with
  | nil => trivial
  | cons entry rest ih =>
    unfold setModes
    split
    · exact ih
    · exact Only.bind (calm_orFail rfl trivial) fun _ => ih

theorem calm_prepare (request : Request) : Only Call.Calm (request.prepare ctl) := by
  cases request with
  | setGlobalMode agentID mode =>
    show Only Call.Calm (if _ then _ else if _ then _ else if _ then _ else _)
    split_ifs
    · trivial
    · trivial
    · trivial
    · exact Only.bind (calm_listEntries agentID) fun _ => calm_setModes agentID mode _
  | addCustomRule | addExclusion => exact Only.ofExcept _
  | removeCustomRule | removeExclusion => trivial

/-- A part without stores: the request does not stand after it either. -/
theorem safe_calm {p : PanelM α} {f : α → PanelM Unit} (hp : Only Call.Calm p)
    (herror : ∀ s e, ¬ Stands s i → post s (.error e))
    (hf : ∀ a s, ¬ Stands s i → System.Safe respond Rely (Inv start) Pre i post (f a).caught s)
    (hs : ¬ Stands s i) : System.Safe respond Rely (Inv start) Pre i post (p >>= f).caught s := by
  induction p generalizing s with
  | ret a => exact hf a s hs
  | fail e => exact herror s e hs
  | call c next ih =>
    intro s₁ hrely _
    have hs₁ : ¬ Stands s₁ i := fun h => hs (hrely.stands.mp h)
    have hcalm : c.Calm := hp.1
    refine ⟨?_, fun answer s₂ hresp _ => ih answer (hp.2 answer () trivial) ?_⟩
    · cases c with
      | storeConfig | setConfig => exact hcalm.elim
      | _ => trivial
    · cases c with
      | storeConfig | setConfig => exact hcalm.elim
      | currentConfig =>
        obtain ⟨-, rfl⟩ := hresp
        exact hs₁
      | list | setMode =>
        obtain rfl : s₂ = s₁ := hresp
        exact hs₁

/-- `replaceConfig`, with a configuration that was made from the one the request has read. -/
theorem safe_replaceConfig {request : Request} {read next : Configuration}
    (hnext : request.next read = .ok next) (hs : ¬ Stands s i) (hread : s.reads i = some read) :
    System.Safe respond Rely (Inv start) Pre i (Done ctl request i)
      (replaceConfig ctl next).caught s := by
  unfold replaceConfig
  cases hvalid : next.validate ctl.managed with
  | error e => exact hs
  | ok _ =>
    show System.Safe _ _ _ _ _ _ (Prog.caught (if _ then _ else _)) s
    split_ifs with hconfigs
    · exact hs
    intro s₁ hrely _
    have hs₁ : ¬ Stands s₁ i := fun h => hs (hrely.stands.mp h)
    refine ⟨hs₁, fun answer s₂ hresp _ => ?_⟩
    cases answer with
    | error e =>
      obtain rfl : s₂ = s₁ := hresp
      exact hs₁
    | ok _ =>
      obtain rfl : s₂ = _ := hresp
      intro s₃ hrely' _
      refine ⟨⟨hrely'.taking.mpr rfl, (hrely'.stored rfl).symm⟩, fun answer s₄ hresp' _ => ?_⟩
      obtain rfl : s₄ = _ := hresp'
      refine ⟨fun h => (by cases h), read, next, (hrely'.standing _).mpr ?_, ?_⟩
      · rw [hrely.read, hread]
        exact mem_cons_self
      · rw [Request.execute, hnext]
        show (next.validate ctl.managed >>= fun _ => pure next) = _
        rw [hvalid]
        rfl

theorem safe_program (request : Request) (hs : ¬ Stands s i) :
    System.Safe respond Rely (Inv start) Pre i (Done ctl request i) (request.program ctl) s := by
  refine safe_calm (calm_prepare request) (fun _ _ h => h) (fun _ s hs => ?_) hs
  intro s₁ hrely _
  refine ⟨trivial, fun config s₂ hresp _ => ?_⟩
  obtain ⟨rfl, rfl⟩ := hresp
  have hs₁ : ¬ Stands s₁ i := fun h => hs (hrely.stands.mp h)
  show System.Safe _ _ _ _ _ _ (Prog.caught (Prog.ofExcept (request.next s₁.memory) >>= _)) _
  cases hnext : request.next s₁.memory with
  | error e => exact hs₁
  | ok next => exact safe_replaceConfig hnext hs₁ (Function.update_self _ _ _)

end Safety

/-! ## The order of the stores -/

section Order

/-- The stores, the oldest first, execute their requests one after the other. -/
theorem Chain.executed {requestOf : Nat → Request}
    {standing : List (Nat × Configuration × Configuration)} {last : Configuration}
    (hchain : Chain start standing last) (hexec : ∀ i read next, (i, read, next) ∈ standing →
      (requestOf i).execute ctl read = .ok next) :
    (standing.reverse.map fun entry => requestOf entry.1).foldlM
      (fun config request => request.execute ctl config) start = .ok last := by
  induction standing generalizing last with
  | nil => exact congrArg Except.ok (Eq.symm hchain)
  | cons entry rest ih =>
    obtain ⟨i, read, next⟩ := entry
    obtain ⟨rfl, hrest⟩ := hchain
    have hrun := ih hrest fun j read next hmem => hexec j read next (mem_cons_of_mem _ hmem)
    rw [reverse_cons, map_append, foldlM_append, hrun]
    show (requestOf i).execute ctl read >>= _ = _
    rw [hexec i read _ mem_cons_self]
    rfl

variable {request : Request} {config config' : Configuration} {item : Item}

theorem Request.next_of_execute (h : request.execute ctl config = .ok config') :
    request.next config = .ok config' := by
  obtain ⟨next, hnext, h⟩ := bind_eq_ok.mp h
  obtain ⟨-, -, h⟩ := bind_eq_ok.mp h
  cases h
  exact hnext

/-- What a request adds is there. -/
theorem Request.has_added (h : request.next config = .ok config') (hitem : item ∈ request.adds) :
    config'.Has item := by
  revert h
  fun_cases Request.next config request with
  | case4 | case6 =>
    rintro ⟨⟩
    cases hitem
    exact mem_append_right _ (mem_singleton.mpr rfl)
  | case1 | case7 | case9 => cases hitem
  | _ => nofun

/-- A request that does not remove an item leaves it. -/
theorem Request.has_kept (h : request.next config = .ok config')
    (hnot : request.removes item = false) (hhas : config.Has item) : config'.Has item := by
  revert h
  fun_cases Request.next config request with
  | case1 agentID mode =>
    rintro ⟨⟩
    cases item <;> exact hhas
  | case4 added =>
    rintro ⟨⟩
    cases item with
    | rule rule => exact mem_append_left _ hhas
    | exclusion exclusion => exact hhas
  | case6 added =>
    rintro ⟨⟩
    cases item with
    | rule rule => exact hhas
    | exclusion exclusion => exact mem_append_left _ hhas
  | case7 id =>
    rintro ⟨⟩
    cases item with
    | rule rule =>
      refine (mem_eraseP_of_neg ?_).mpr hhas
      simpa [Request.removes] using hnot
    | exclusion exclusion =>
      refine mem_filter.mpr ⟨hhas, ?_⟩
      simpa [Request.removes] using hnot
  | case9 id path =>
    rintro ⟨⟩
    cases item with
    | rule rule => exact hhas
    | exclusion exclusion =>
      refine (mem_eraseP_of_neg ?_).mpr hhas
      simpa [Request.removes] using hnot
  | _ => nofun

/-- Requests that do not remove an item leave it. -/
theorem has_kept_run {later : List (Nat × Request)}
    (hrun : (later.map Prod.snd).foldlM (fun config request => request.execute ctl config) config =
      .ok config')
    (hnot : ∀ removal ∈ later, removal.2.removes item = false) (hhas : config.Has item) :
    config'.Has item := by
  induction later generalizing config with
  | nil =>
    cases hrun
    exact hhas
  | cons head rest ih =>
    obtain ⟨next, hexec, hrun⟩ := bind_eq_ok.mp hrun
    refine ih hrun (fun removal hmem => hnot removal (mem_cons_of_mem _ hmem)) ?_
    exact Request.has_kept (Request.next_of_execute hexec) (hnot head mem_cons_self) hhas

end Order

section Finished

variable {s : PanelSystem}

theorem inv_initial (h : Initial ctl start s) :
    Inv start s.shared ∧ s.threads = [] ∧ ∀ i, ¬ Stands s.shared i := by
  obtain ⟨-, rfl⟩ := h
  refine ⟨⟨nodup_nil, rfl, fun _ => rfl, fun _ h => (by cases h)⟩, rfl, ?_⟩
  rintro i ⟨_, _, hmem⟩
  cases hmem

/-- When all requests have answered, exactly the successful ones have stored. -/
theorem finished_of_reachable
    (h : Reachable (Initial ctl start) (Guarded (Step ctl) Undisturbed) s)
    (hall : ∀ t ∈ s.threads, t.result.isSome = true) :
    Inv start s.shared ∧ (∀ i, Stands s.shared i → ∃ request, Succeeded s i request) ∧
      ∀ i request, Succeeded s i request → Done ctl request i s.shared (.ok ()) := by
  have hfollows := System.follows _ _ (fun s (hs : Initial ctl start s) => by rw [hs.2])
    h.of_guarded
  obtain ⟨hinv, hlater, hsafe⟩ := System.safe_of_reachable (fun i s => ¬ Stands s i)
    Rely.refl (fun _ _ _ _ => Rely.trans) (fun s hs => inv_initial hs)
    (fun i s s' hrely hs hs' => hs (hrely.stands.mp hs'))
    (fun i s request _ hs => safe_program request hs) Done.stable
    (fun s i c answer shared hinv hok hpre hresp => keeps hinv hok hpre hresp) h
  have hdone : ∀ i t answer, s.threads[i]? = some t → t.result = some (.ok answer) →
      Done ctl t.request i s.shared answer := by
    intro i t answer ht hresult
    have hprog := (hfollows t (mem_of_getElem? ht)).2 _ hresult
    have hlast := hsafe i t ht
    rw [hprog] at hlast
    exact hlast
  refine ⟨hinv, ?_, ?_⟩
  · intro i hi
    cases ht : s.threads[i]? with
    | none => exact absurd hi (hlater i (getElem?_eq_none_iff.mp ht))
    | some t =>
      obtain ⟨result, hresult⟩ := Option.isSome_iff_exists.mp (hall t (mem_of_getElem? ht))
      rcases result with e | (e | _)
      · exact e.elim
      · exact absurd hi (hdone i t _ ht hresult)
      · exact ⟨t.request, t, ht, rfl, hresult⟩
  · rintro i _ ⟨t, ht, rfl, hresult⟩
    exact hdone i t _ ht hresult

/-- The request of a thread. -/
def requestOf (s : PanelSystem) (i : Nat) : Request :=
  (s.threads[i]?.map (·.request)).getD (.removeCustomRule [])

theorem Succeeded.requestOf {request : Request} (h : Succeeded s i request) :
    requestOf s i = request := by
  obtain ⟨t, ht, rfl, -⟩ := h
  rw [Panel.requestOf, ht]
  rfl

/-- In every run in which each request stores over what it has read, no update is lost: when all
requests have answered, memory and store are what the successful ones make of the start. -/
theorem panel_no_lost_update
    (h : Reachable (Initial ctl start) (Guarded (Step ctl) Undisturbed) s)
    (hall : ∀ t ∈ s.threads, t.result.isSome = true) : NothingLost ctl start s := by
  obtain ⟨hinv, hstands, hdone⟩ := finished_of_reachable h hall
  have htaking : s.shared.taking = none := by
    by_contra hsome
    obtain ⟨i, hi⟩ := Option.ne_none_iff_exists'.mp hsome
    obtain ⟨request, hrequest⟩ := hstands i (hinv.taking i hi)
    exact (hdone i request hrequest).1 hi
  have hexec : ∀ i read next, (i, read, next) ∈ s.shared.standing →
      (requestOf s i).execute ctl read = .ok next := by
    intro i read next hmem
    obtain ⟨request, hrequest⟩ := hstands i ⟨read, next, hmem⟩
    obtain ⟨-, read', next', hmem', hnext⟩ := hdone i request hrequest
    -- a thread stands once
    cases (Prod.mk.inj (inj_on_of_nodup_map hinv.nodup hmem hmem' rfl)).2
    rwa [hrequest.requestOf]
  have hrun := hinv.chain.executed hexec
  have hmapped : (s.shared.standing.reverse.map fun entry => (entry.1, requestOf s entry.1)).map
      Prod.snd = s.shared.standing.reverse.map fun entry => requestOf s entry.1 := by
    rw [map_map]
    rfl
  refine ⟨hinv.memory htaking,
    s.shared.standing.reverse.map fun entry => (entry.1, requestOf s entry.1), ?_, ?_, ?_, ?_⟩
  · rw [map_map, map_reverse]
    exact nodup_reverse.mpr hinv.nodup
  · intro i request
    constructor
    · intro hmem
      obtain ⟨⟨j, read, next⟩, hentry, heq⟩ := mem_map.mp hmem
      cases heq
      obtain ⟨request, hrequest⟩ := hstands j ⟨read, next, mem_reverse.mp hentry⟩
      rwa [hrequest.requestOf]
    · intro hrequest
      obtain ⟨-, read, next, hmem, -⟩ := hdone i request hrequest
      refine mem_map.mpr ⟨_, mem_reverse.mpr hmem, ?_⟩
      rw [hrequest.requestOf]
  · rw [hmapped]
    exact hrun
  · intro before i request later horder item hitem hnot
    rw [← hmapped, horder, map_append, map_cons, foldlM_append] at hrun
    obtain ⟨config, -, hrun⟩ := bind_eq_ok.mp hrun
    obtain ⟨next, hadd, hrun⟩ := bind_eq_ok.mp hrun
    exact has_kept_run hrun hnot (Request.has_added (Request.next_of_execute hadd) hitem)

end Finished

end

/-! ## Two rules added at once -/

namespace Sample

def ctl : Controller := ⟨[], fun _ => true, true, true, true⟩

def config : Configuration := ⟨ascii "observe", [], []⟩

def first : CustomRule := ⟨ascii "first", ascii "path", ascii "/admin"⟩

def second : CustomRule := ⟨ascii "second", ascii "query", ascii "union"⟩

def start : PanelSystem :=
  System.withRequests (Request.program ctl) ⟨⟨config, config, fun _ => none, [], none⟩, []⟩
    [.addCustomRule first, .addCustomRule second]

/-- A host that stores. -/
def behave (i : Nat) (s : Shared) : (c : Call) → Answer c × Shared
  | .currentConfig =>
    (s.memory, { s with reads := Function.update s.reads i (some s.memory) })
  | .storeConfig next => (.ok (), { s with
      stored := next
      standing := (i, (s.reads i).getD next, next) :: s.standing
      taking := some i })
  | .setConfig next => ((), { s with memory := next, taking := none })
  | .list _ => (.ok [], s)
  | .setMode _ _ _ => (.ok (), s)

theorem respond_behave (i : Nat) (s : Shared) (c : Call) (_ : True) :
    respond i s c (behave i s c).1 (behave i s c).2 := by
  cases c with
  | currentConfig => exact ⟨rfl, rfl⟩
  | _ => rfl

instance (s : PanelSystem) : (l : Label Answer Request) → Decidable (Undisturbed s l)
  | .act i ⟨.storeConfig _, .ok _⟩ =>
    inferInstanceAs (Decidable (s.shared.reads i = some s.shared.stored ∧ s.shared.taking = none))
  | .act _ ⟨.storeConfig _, .error _⟩ | .act _ ⟨.currentConfig, _⟩ | .act _ ⟨.setConfig _, _⟩
  | .act _ ⟨.list _, _⟩ | .act _ ⟨.setMode _ _ _, _⟩ | .start _ | .ret _ => .isTrue trivial

def inTurn : List Nat := [0, 0, 0, 0, 1, 1, 1, 1]

def atOnce : List Nat := [0, 1, 0, 0, 1, 1, 0, 1]

def ended (s : PanelSystem) : Prop :=
  s.threads.map (fun t => (t.request, t.result)) =
    [(.addCustomRule first, some (.ok (.ok ()))), (.addCustomRule second, some (.ok (.ok ())))]

instance (s : PanelSystem) : Decidable (ended s) := inferInstanceAs (Decidable (_ = _))

theorem runs :
    (System.Meets behave Undisturbed start inTurn ∧
      ended (System.runSchedule behave start inTurn) ∧
      (System.runSchedule behave start inTurn).shared.memory =
        ⟨ascii "observe", [first, second], []⟩) ∧
    ended (System.runSchedule behave start atOnce) ∧
      (System.runSchedule behave start atOnce).shared.stored = ⟨ascii "observe", [second], []⟩ := by
  decide

theorem reachable_start : Reachable (Initial ctl config) (Guarded (Step ctl) Undisturbed) start :=
  have hempty : Reachable (Initial ctl config) (Guarded (Step ctl) Undisturbed) _ :=
    .start ⟨by decide, rfl⟩
  System.reachable_start _ _ (System.reachable_start _ _ hempty (.addCustomRule first) trivial)
    (.addCustomRule second) trivial

theorem ended.mem {s : PanelSystem} (h : ended s) {t : PanelThread} (ht : t ∈ s.threads) :
    t.result = some (.ok (.ok ())) ∧ ∃ rule, t.request = .addCustomRule rule := by
  have hmem := mem_map_of_mem (f := fun t => (t.request, t.result)) ht
  rw [h] at hmem
  simp only [mem_cons, Prod.mk.injEq, not_mem_nil, or_false] at hmem
  obtain ⟨hrequest, hresult⟩ | ⟨hrequest, hresult⟩ := hmem
  · exact ⟨hresult, _, hrequest⟩
  · exact ⟨hresult, _, hrequest⟩

theorem ended.first {s : PanelSystem} (h : ended s) : Succeeded s 0 (.addCustomRule first) := by
  have hzero := congrArg (·[0]?) h
  rw [getElem?_map] at hzero
  obtain ⟨t, ht, hpair⟩ := Option.map_eq_some_iff.mp hzero
  exact ⟨t, ht, (Prod.mk.inj hpair).1, (Prod.mk.inj hpair).2⟩

end Sample

open Sample

/-- One request after the other: both have succeeded, and both rules are there. -/
theorem panel_no_lost_update_two :
    ∃ s, Reachable (Initial ctl config) (Guarded (Step ctl) Undisturbed) s ∧
      ended s ∧ NothingLost ctl config s ∧
      s.shared.memory.customRules = [first, second] := by
  obtain ⟨⟨hmeets, hended, hmemory⟩, -⟩ := runs
  have hreach := System.reachable_meets (fun _ _ => id)
    (fun s i c _ => respond_behave i s.shared c trivial) reachable_start hmeets
  refine ⟨_, hreach, hended, ?_, by rw [hmemory]⟩
  exact panel_no_lost_update hreach fun t ht => by rw [(hended.mem ht).1]; rfl

/-- Both requests read the empty configuration. Both report success, the second store overwrites
the first, and the first rule is gone. -/
theorem confirmed_rule_is_lost :
    ∃ s, Reachable (Initial ctl config) (Step ctl) s ∧
      ended s ∧ first ∉ s.shared.stored.customRules ∧
      ¬ NothingLost ctl config s := by
  obtain ⟨-, hended, hstored⟩ := runs
  have hgone : first ∉ [second] := by decide
  refine ⟨_, System.reachable_runSchedule respond_behave
    reachable_start.of_guarded (System.mayRun_true ..), hended, by rwa [hstored], ?_⟩
  rintro ⟨-, order, -, horder, -, hkeeps⟩
  obtain ⟨before, later, rfl⟩ := append_of_mem ((horder 0 _).mpr hended.first)
  have hkept := hkeeps before 0 _ later rfl _ rfl
  refine hgone (hkept fun removal hlater => ?_)
  -- no request of the run removes anything
  obtain ⟨t, ht, hremoval, -⟩ :=
    (horder _ _).mp (mem_append_right _ (mem_cons_of_mem _ hlater))
  obtain ⟨-, rule, hrequest⟩ := hended.mem (mem_of_getElem? ht)
  rw [← hremoval, hrequest]
  rfl

end NrePlugins.Waf.Panel
