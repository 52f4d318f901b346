import Nre.Base.GoStrings
import Nre.Shadowsocks.Address

/-!
# Routing decisions

`routeSnapshot.decide` (routing.go) walks the rules of a snapshot and asks the
dataset service one question per rule: about the address when the target's host
is an IP address, about the lower-cased domain otherwise. The first rule whose
question is answered with a match decides.

A client can spell one destination in several ways (`AddressField`), and two
spellings of one destination (`AddressField.dest`) need not lead to the same
question: `netip` prints an IPv4-mapped text in its mapped form, and the final dot
of a fully qualified name is kept. `decide_same_iff_spelling` states exactly when
two spellings are treated alike.
-/

namespace NrePlugins.Shadowsocks

open List

/-! ## Snapshots -/

inductive RouteAction where
  | direct
  | reject
  | upstream
  deriving DecidableEq

/-- The kinds of a classification, as far as routing tells them apart. -/
inductive ClassificationKind where
  | domain
  | address
  deriving DecidableEq

structure Classification where
  kind : ClassificationKind
  name : Bytes
  attributes : List Bytes
  deriving DecidableEq

structure Upstream where
  id : Bytes
  host : Bytes
  port : Nat
  method : Bytes
  secretRef : Bytes
  secretVersion : Bytes
  enabled : Bool
  tcp : Bool
  udp : Bool
  deriving DecidableEq

structure RouteRule where
  id : Bytes
  sourceID : Bytes
  classification : Classification
  action : RouteAction
  upstreamID : Bytes
  deriving DecidableEq

/-- `RoutingConfiguration`; an empty `default_action` is `none`. -/
structure RoutingConfiguration where
  upstreams : List Upstream
  rules : List RouteRule
  defaultAction : Option RouteAction
  defaultUpstreamID : Bytes
  deriving DecidableEq

def RoutingConfiguration.effectiveDefault (configuration : RoutingConfiguration) : RouteAction :=
  configuration.defaultAction.getD .direct

structure DatasetReference where
  sourceID : Bytes
  versionDigest : Bytes

/-- `DatasetQueryRequest`. -/
structure DatasetQuery where
  reference : DatasetReference
  classifications : List Classification
  domain : Bytes := []
  address : Bytes := []
  maxDurationMicros : Nat := 2000
  maxResponseBytes : Nat := 32768

/-- `DatasetQueryResponse`: whether the status is OK, the matches, the reference. -/
structure DatasetAnswer where
  ok : Bool
  matched : List Bool
  reference : DatasetReference

/-- `routeSnapshot`; a source that was not resolved has the zero reference. -/
structure RouteSnapshot where
  configuration : RoutingConfiguration
  references : Bytes → DatasetReference

structure RouteDecision where
  /-- `none` is the empty string of a decision that comes with an error. -/
  action : Option RouteAction := none
  ruleID : Bytes := []
  upstream : Option Upstream := none
  versionDigest : Bytes := []

inductive RouteErr where
  | invalid
  | datasetUnavailable
  | upstreamUnavailable
  deriving DecidableEq

inductive Protocol where
  | tcp
  | udp
  deriving DecidableEq

def supportsProtocol (upstream : Upstream) : Protocol → Bool
  | .tcp => upstream.tcp
  | .udp => upstream.udp

/-- `routeSnapshot.upstream`: the first enabled upstream with the id. -/
def RouteSnapshot.upstream (snapshot : RouteSnapshot) (id : Bytes) : Option Upstream :=
  snapshot.configuration.upstreams.find? fun upstream => upstream.id = id && upstream.enabled

/-- What `decide` did: the questions it asked, in order, and what it returned. -/
structure Routed where
  asked : List DatasetQuery
  decision : RouteDecision
  err : Option RouteErr

/-! ## The decision -/

section Decide

variable (L : RuneLower) (datasets : DatasetQuery → Option DatasetAnswer)
  (snapshot : RouteSnapshot) (protocol : Protocol)

/-- The end of `decide`: no rule matched. -/
def decideDefault : Routed :=
  match snapshot.configuration.effectiveDefault with
  | .upstream =>
    match snapshot.upstream snapshot.configuration.defaultUpstreamID with
    | none => ⟨[], {}, some .upstreamUnavailable⟩
    | some upstream =>
      if supportsProtocol upstream protocol then
        ⟨[], { action := some .upstream, upstream := some upstream }, none⟩
      else ⟨[], {}, some .upstreamUnavailable⟩
  | action => ⟨[], { action := some action }, none⟩

/-- The body of the loop after a match. -/
def decideMatched (rule : RouteRule) (versionDigest : Bytes) : RouteDecision × Option RouteErr :=
  let decision : RouteDecision := { action := some rule.action, ruleID := rule.id, versionDigest }
  match rule.action with
  | .upstream =>
    match snapshot.upstream rule.upstreamID with
    | none => (decision, some .upstreamUnavailable)
    | some upstream =>
      if supportsProtocol upstream protocol then
        ({ decision with upstream := some upstream }, none)
      else (decision, some .upstreamUnavailable)
  | _ => (decision, none)

/-- The request for one rule. -/
def ruleQuery (host : Bytes) (address : Option Addr) (rule : RouteRule) : DatasetQuery :=
  let query : DatasetQuery :=
    { reference := snapshot.references rule.sourceID, classifications := [rule.classification] }
  match address with
  | none => { query with domain := toLower L host }
  | some address => { query with address := address.text }

/-- Domain rules are for domains and the others for addresses. -/
def relevant (address : Option Addr) (rule : RouteRule) : Bool :=
  (rule.classification.kind = .domain) == address.isNone

/-- The loop over the rules. -/
def decideRules (host : Bytes) (address : Option Addr) : List RouteRule → Routed
  | [] => decideDefault snapshot protocol
  | rule :: rules =>
    if relevant address rule then
      let query := ruleQuery L snapshot host address rule
      let unavailable : Routed :=
        { asked := [query],
          decision := { ruleID := rule.id, versionDigest := query.reference.versionDigest },
          err := some .datasetUnavailable }
      match datasets query with
      | none => unavailable
      | some answer =>
        match answer.ok, answer.matched with
        | true, [true] =>
          let (decision, err) := decideMatched snapshot protocol rule answer.reference.versionDigest
          { asked := [query], decision, err }
        | true, [false] =>
          let routed := decideRules host address rules
          { routed with asked := query :: routed.asked }
        | _, _ => unavailable
    else decideRules host address rules

end Decide

/-- `routeSnapshot.decide`. -/
def RouteSnapshot.decide (L : RuneLower) (datasets : DatasetQuery → Option DatasetAnswer)
    (snapshot : Option RouteSnapshot) (protocol : Protocol) (target : Bytes) : Routed :=
  match snapshot with
  | none => { asked := [], decision := { action := some .direct }, err := none }
  | some snapshot =>
    match splitHostPort target with
    | none => { asked := [], decision := {}, err := some .invalid }
    | some (host, _) =>
      let host := trimBrackets host
      decideRules L datasets snapshot protocol host (parseAddr host) snapshot.configuration.rules

/-! ## Spellings of a destination -/

/-- The address of a client's request, as its bytes have it. -/
inductive AddressField where
  | ip4 (a b c d : UInt8)
  | ip6 (o : Octets16)
  | domain (text : Bytes)
  deriving DecidableEq

/-- What a client means. -/
inductive Dest where
  | ip4 (a b c d : UInt8)
  | ip6 (o : Octets16) (zone : Bytes)
  | name (text : Bytes)
  deriving DecidableEq

/-- An IPv4-mapped address is the IPv4 address. -/
def destOfAddr : Addr → Dest
  | .v4 a b c d => .ip4 a b c d
  | .v6 o zone =>
    if zone = [] ∧ isMapped o.1 then
      .ip4 (o.1.getD 12 0) (o.1.getD 13 0) (o.1.getD 14 0) (o.1.getD 15 0)
    else .ip6 o zone

/-- Does the text end with a dot? -/
def endsWithDot (text : Bytes) : Bool := text.getLast? = some (ch '.')

/-- A name without the dot of its root. -/
def stripDot (text : Bytes) : Bytes := if endsWithDot text then text.dropLast else text

/-- The destination a field denotes: an address in either type or as text, or a
name up to letter case and a final dot. A domain field with a bracket in it is no
spelling of a host. -/
def AddressField.dest : AddressField → Option Dest
  | .ip4 a b c d => some (.ip4 a b c d)
  | .ip6 o => some (destOfAddr (.v6 o []))
  | .domain text =>
    if NoBracket text then
      match parseAddr text with
      | some address => some (destOfAddr address)
      | none => some (.name (stripDot (asciiLower text)))
    else none

/-- The host text `decodeAddress` makes of a field. -/
def AddressField.host : AddressField → Bytes
  | .ip4 a b c d => ipString [a, b, c, d]
  | .ip6 o => ipString o.1
  | .domain text => text

/-- An IPv4-mapped address, which `netip` keeps apart from the IPv4 address. -/
def mappedAddr : Addr → Bool
  | .v6 o zone => zone = [] && isMapped o.1
  | _ => false

/-- A domain field that spells an IPv4 address in its mapped form. -/
def AddressField.mappedText : AddressField → Bool
  | .domain text => (parseAddr text).any mappedAddr
  | _ => false

/-- A domain field that spells a name with the dot of its root. -/
def AddressField.rootDot : AddressField → Bool
  | .domain text => (parseAddr text).isNone && endsWithDot text
  | _ => false

def readIP4Field : Bytes → Option (AddressField × Nat)
  | a :: b :: c :: d :: rest => some (.ip4 a b c d, readBE (rest.take 2))
  | _ => none

def readIP6Field (wire : Bytes) : Option (AddressField × Nat) :=
  if h : (wire.take 16).length = 16 then
    some (.ip6 ⟨wire.take 16, h⟩, readBE (slice wire 16 18))
  else none

def readDomainField : Bytes → Option (AddressField × Nat)
  | [] => none
  | length :: rest =>
    some (.domain (rest.take length.toNat), readBE (slice rest length.toNat (length.toNat + 2)))

/-- The field and the port a client sent. -/
def readField : Bytes → Option (AddressField × Nat)
  | [] => none
  | kind :: rest =>
    if kind = 1 then readIP4Field rest
    else if kind = 4 then readIP6Field rest
    else if kind = 3 then readDomainField rest
    else none

/-- `decodeHost` turns a field into its host text. -/
theorem decodeHost_field {wire host : Bytes} {position : Nat}
    (h : decodeHost wire = .ok (host, position)) :
    ∃ field, readField wire = some (field, readBE (slice wire position (position + 2))) ∧
      field.host = host := by
  revert h
  fun_cases decodeHost wire with
  | case3 rest hlen =>
    rintro ⟨⟩
    rcases rest with _ | ⟨a, _ | ⟨b, _ | ⟨c, _ | ⟨d, _ | ⟨p, _ | ⟨q, rest⟩⟩⟩⟩⟩⟩
    case cons.cons.cons.cons.cons.cons => exact ⟨_, rfl, rfl⟩
    all_goals simp at hlen
  | case5 rest hlen =>
    rintro ⟨⟩
    have htake : (rest.take 16).length = 16 := by
      rw [length_take]
      omega
    exact ⟨.ip6 ⟨rest.take 16, htake⟩, dif_pos htake, rfl⟩
  | case6 rest =>
    fun_cases decodeDomain rest with
    | case4 length rest =>
      rintro ⟨⟩
      refine ⟨.domain (rest.take length.toNat), ?_, rfl⟩
      rw [Nat.add_comm 2]
      rfl
    | _ => rintro ⟨⟩
  | _ => rintro ⟨⟩

/-- `decodeAddress` turns a field into its host text. -/
theorem decodeAddress_field {wire target : Bytes} {consumed : Nat}
    (h : decodeAddress wire = .ok (target, consumed)) :
    ∃ field port, readField wire = some (field, port) ∧ port < 65536 ∧
      target = joinHostPort field.host (itoa port) := by
  revert h
  fun_cases decodeAddress wire with
  | case3 host position hhost =>
    rintro ⟨⟩
    obtain ⟨field, hfield, rfl⟩ := decodeHost_field hhost
    exact ⟨field, _, hfield, readBE_slice_lt wire position 2, rfl⟩
  | _ => rintro ⟨⟩

/-! ## The question about a destination -/

/-- What a rule is asked about. -/
def queryText (L : RuneLower) (host : Bytes) (address : Option Addr) : Bytes :=
  match address with
  | none => toLower L host
  | some address => address.text

def Dest.isName : Dest → Bool
  | .name _ => true
  | _ => false

/-- The question about a destination in a given spelling. -/
def Dest.question (L : RuneLower) (mapped dot : Bool) : Dest → Bytes
  | .ip4 a b c d => if mapped then ascii "::ffff:" ++ text4 a b c d else text4 a b c d
  | .ip6 o zone => Addr.text (.v6 o zone)
  | .name text => toLower L (if dot then text ++ [ch '.'] else text)

theorem asciiLower_endsWithDot (text : Bytes) : endsWithDot (asciiLower text) = endsWithDot text := by
  rw [endsWithDot, endsWithDot, asciiLower, getLast?_map]
  cases text.getLast? with
  | none => rfl
  | some b => simp [lowerByte_dot]

theorem stripDot_append (text : Bytes) :
    (if endsWithDot text then stripDot text ++ [ch '.'] else stripDot text) = text := by
  rw [stripDot]
  split_ifs with h
  · have hlast : text.getLast? = some (ch '.') := by simpa [endsWithDot] using h
    exact dropLast_append_getLast? _ hlast
  · rfl

/-- `netip` prints an address as the question about its destination. -/
theorem text_destOfAddr (L : RuneLower) (dot : Bool) (address : Addr) :
    address.text = (destOfAddr address).question L (mappedAddr address) dot := by
  cases address with
  | v4 a b c d => rfl
  | v6 o zone =>
    by_cases h : zone = [] ∧ isMapped o.1 = true
    · rw [destOfAddr, Addr.text]
      simp [mappedAddr, h, Dest.question, unmapText, zoneText]
    · rw [destOfAddr, if_neg h, Dest.question]

theorem isName_destOfAddr (address : Addr) : (destOfAddr address).isName = false := by
  fun_cases destOfAddr address <;> rfl

/-- Only an IPv4 destination has a mapped spelling. -/
theorem mappedAddr_eq_false {address : Addr} (h : ∀ a b c d, destOfAddr address ≠ .ip4 a b c d) :
    mappedAddr address = false := by
  cases address with
  | v4 a b c d => rfl
  | v6 o zone =>
    by_cases hm : zone = [] ∧ isMapped o.1 = true
    · exact absurd (if_pos hm) (h _ _ _ _)
    · simpa [mappedAddr] using hm

/-- How `decide` reads a spelled host: it is an address exactly when the
destination is no name, and then, as well as for a name, the question is that of
the destination in this spelling. -/
structure Reads (L : RuneLower) (field : AddressField) (d : Dest) : Prop where
  noBracket : NoBracket field.host
  isName : (parseAddr field.host).isNone = d.isName
  question : queryText L field.host (parseAddr field.host) =
    d.question L field.mappedText field.rootDot
  mapped : (∀ a b c e, d ≠ .ip4 a b c e) → field.mappedText = false
  dot : d.isName = false → field.rootDot = false

variable {field : AddressField} {L : RuneLower} {d : Dest}

theorem reads_address {address : Addr} (hb : NoBracket field.host)
    (hp : parseAddr field.host = some address) (hm : field.mappedText = mappedAddr address)
    (hd : field.rootDot = false) :
    Reads L field (destOfAddr address) where
  noBracket := hb
  isName := by rw [hp, isName_destOfAddr]; rfl
  question := by
    rw [hp, hm, hd]
    exact text_destOfAddr L false address
  mapped h := by rw [hm, mappedAddr_eq_false h]
  dot _ := hd

open AddressField

theorem AddressField.reads (L : RuneLower) (h : field.dest = some d) : Reads L field d := by
  cases field with
  | ip4 a b c e =>
    cases h
    have hb : NoBracket (ipString [a, b, c, e]) := noBracket_ipString (.inl rfl)
    show Reads L _ (destOfAddr (.v4 a b c e))
    exact reads_address hb (parseAddr_text4 a b c e) rfl rfl
  | ip6 o =>
    cases h
    have hb : NoBracket (ipString o.1) := noBracket_ipString (.inr o.2)
    rcases ipString_cases o.2 with ⟨a, b, c, e, ho⟩ | ⟨hnone, htext⟩
    · -- printed as an IPv4 address, and read back as one
      have hdest : destOfAddr (.v6 o []) = destOfAddr (.v4 a b c e) := by
        obtain rfl : o = ⟨mappedPrefix ++ [a, b, c, e], rfl⟩ := Subtype.ext ho
        rfl
      rw [hdest]
      refine reads_address hb ?_ rfl rfl
      rw [host, ho, ipString_mapped, parseAddr_text4]
    · have hmapped : mappedAddr (.v6 o []) = false := by
        have hlen : ¬ o.1.length = 4 := by rw [o.2]; decide
        rw [to4] at hnone
        split_ifs at hnone with hm
        simpa [mappedAddr, o.2] using hm
      refine reads_address hb ?_ hmapped.symm rfl
      rw [host, htext, parseAddr_text6]
  | domain text =>
    rw [dest] at h
    split_ifs at h with hb
    cases hp : parseAddr text with
    | some address =>
      simp only [hp, Option.some.injEq] at h
      subst h
      exact reads_address hb hp (by simp [mappedText, hp]) (by simp [rootDot, hp])
    | none =>
      simp only [hp, Option.some.injEq] at h
      subst h
      have hdot : (domain text).rootDot = endsWithDot (asciiLower text) := by
        rw [rootDot, hp, asciiLower_endsWithDot]
        rfl
      refine ⟨hb, by rw [host, hp]; rfl, ?_, fun _ => by
        simp [mappedText, hp], by rintro ⟨⟩⟩
      rw [host, hp, Dest.question, hdot, stripDot_append, toLower_asciiLower]
      rfl

/-- Two spellings of one destination have one question exactly when they agree on
the mapped form and on the root's dot. -/
theorem question_eq_iff {field' : AddressField} (h : Reads L field d) (h' : Reads L field' d) :
    d.question L field.mappedText field.rootDot = d.question L field'.mappedText field'.rootDot ↔
      field.mappedText = field'.mappedText ∧ field.rootDot = field'.rootDot := by
  cases d with
  | ip4 a b c e =>
    rw [h.dot rfl, h'.dot rfl]
    have hmapped : ascii "::ffff:" ≠ [] := by decide
    cases field.mappedText <;> cases field'.mappedText <;> simp [Dest.question, hmapped]
  | ip6 o zone =>
    have hne : ∀ a b c e, Dest.ip6 o zone ≠ .ip4 a b c e := by simp
    rw [h.dot rfl, h'.dot rfl, h.mapped hne, h'.mapped hne]
    simp
  | name text =>
    have hne : ∀ a b c e, Dest.name text ≠ .ip4 a b c e := by simp
    rw [h.mapped hne, h'.mapped hne]
    cases field.rootDot <;> cases field'.rootDot <;> simp [Dest.question, toLower_dot]

/-! ## The questions decide -/

section Questions

variable {datasets : DatasetQuery → Option DatasetAnswer} {snapshot : RouteSnapshot}
  {protocol : Protocol} {host host' : Bytes}
  {address address' : Option Addr}

theorem ruleQuery_congr (haddress : address.isNone = address'.isNone)
    (htext : queryText L host address = queryText L host' address') (rule : RouteRule) :
    ruleQuery L snapshot host address rule = ruleQuery L snapshot host' address' rule := by
  cases address <;> cases address' <;> first
    | cases haddress; done
    | simp only [queryText] at htext
      simp only [ruleQuery, htext]

/-- The same kind of host with the same question is treated the same. -/
theorem decideRules_congr (haddress : address.isNone = address'.isNone)
    (htext : queryText L host address = queryText L host' address') (rules : List RouteRule) :
    decideRules L datasets snapshot protocol host address rules =
      decideRules L datasets snapshot protocol host' address' rules := by
  induction rules with
  | nil => rfl
  | cons rule rules ih =>
    rw [decideRules, relevant, haddress, ruleQuery_congr haddress htext, ih, decideRules, relevant]

theorem decideDefault_asked : (decideDefault snapshot protocol).asked = [] := by
  fun_cases decideDefault snapshot protocol <;> rfl

/-- The first question is asked for the first relevant rule. -/
theorem decideRules_head (rules : List RouteRule) :
    (decideRules L datasets snapshot protocol host address rules).asked.head? =
      (rules.find? (relevant address)).map (ruleQuery L snapshot host address) := by
  induction rules with
  | nil => rw [decideRules, decideDefault_asked]; rfl
  | cons rule rules ih =>
    rw [decideRules, find?_cons]
    cases hr : relevant address rule with
    | false => simpa [hr] using ih
    | true =>
      simp only [if_true, Option.map_some]
      split
      · rfl
      · split <;> rfl

/-- Without a relevant rule the default decides. -/
theorem decideRules_irrelevant {rules : List RouteRule}
    (h : ∀ rule ∈ rules, relevant address rule = false) :
    decideRules L datasets snapshot protocol host address rules =
      decideDefault snapshot protocol := by
  induction rules with
  | nil => rfl
  | cons rule rules ih =>
    rw [decideRules, h rule (by simp)]
    exact ih fun r hr => h r (mem_cons_of_mem _ hr)

/-- A query tells what it asks about. -/
theorem queryText_of_ruleQuery (haddress : address.isNone = address'.isNone) {rule : RouteRule}
    (h : ruleQuery L snapshot host address rule = ruleQuery L snapshot host' address' rule) :
    queryText L host address = queryText L host' address' := by
  cases address <;> cases address' <;> first
    | cases haddress; done
    | exact congrArg DatasetQuery.domain h
    | exact congrArg DatasetQuery.address h

end Questions

/-- Rules about domains are for names, the others for addresses. -/
def Dest.consults (d : Dest) (rule : RouteRule) : Bool :=
  (rule.classification.kind = .domain) == d.isName

/-- The snapshot has a rule that is consulted for the destination. -/
def Consulted (snapshot : Option RouteSnapshot) (d : Dest) : Prop :=
  ∃ s ∈ snapshot, ∃ rule ∈ s.configuration.rules, d.consults rule = true

theorem Reads.relevant_eq (h : Reads L field d) : relevant (parseAddr field.host) = d.consults := by
  funext rule
  rw [relevant, h.isName, Dest.consults]

open RouteSnapshot

/-- `decide` on a spelled destination. -/
theorem decide_field (datasets : DatasetQuery → Option DatasetAnswer) (snapshot : RouteSnapshot)
    (protocol : Protocol) {port : Nat} (h : Reads L field d) (hport : port < 65536) :
    RouteSnapshot.decide L datasets (some snapshot) protocol
        (joinHostPort field.host (itoa port)) =
      decideRules L datasets snapshot protocol field.host (parseAddr field.host)
        snapshot.configuration.rules := by
  obtain ⟨hb, hc, -⟩ := port_text hport
  rw [RouteSnapshot.decide, splitHostPort_joinHostPort h.noBracket hb hc]
  simp only [trimBrackets_of_noBracket h.noBracket]

/-- **Respelling a destination.** Two address fields that `decodeAddress` accepts and
that denote one destination and port are asked about alike and decided alike, for
every snapshot and every dataset service, exactly when they agree on the mapped form
and on the root's dot, or the snapshot has no rule for such a destination. -/
theorem decide_same_iff_spelling (L : RuneLower)
    (datasets : DatasetQuery → Option DatasetAnswer) (snapshot : Option RouteSnapshot)
    (protocol : Protocol) {wire wire' target target' : Bytes} {consumed consumed' : Nat}
    (h : decodeAddress wire = .ok (target, consumed))
    (h' : decodeAddress wire' = .ok (target', consumed'))
    {field field' : AddressField} {port : Nat} {d : Dest}
    (hfield : readField wire = some (field, port)) (hfield' : readField wire' = some (field', port))
    (hd : field.dest = some d) (hd' : field'.dest = some d) :
    decide L datasets snapshot protocol target =
        decide L datasets snapshot protocol target' ↔
      (Consulted snapshot d →
        field.mappedText = field'.mappedText ∧ field.rootDot = field'.rootDot) := by
  have hr := reads L hd
  have hr' := reads L hd'
  obtain ⟨f, p, hf, hport, rfl⟩ := decodeAddress_field h
  obtain ⟨f', p', hf', -, rfl⟩ := decodeAddress_field h'
  cases Option.some.inj (hfield.symm.trans hf)
  cases Option.some.inj (hfield'.symm.trans hf')
  rw [← question_eq_iff hr hr', ← hr.question, ← hr'.question]
  have hkind : (parseAddr field.host).isNone = (parseAddr field'.host).isNone :=
    hr.isName.trans hr'.isName.symm
  cases snapshot with
  | none =>
    refine ⟨fun _ hcons => ?_, fun _ => rfl⟩
    obtain ⟨s, hs, -⟩ := hcons
    cases hs
  | some s =>
    rw [decide_field datasets s protocol hr hport, decide_field datasets s protocol hr' hport]
    constructor
    · rintro hsame ⟨s', hs', rule, hrule, hconsulted⟩
      cases hs'
      have hheads := congrArg (fun routed => routed.asked.head?) hsame
      simp only [decideRules_head, hr.relevant_eq, hr'.relevant_eq] at hheads
      obtain ⟨first, hfirst⟩ := Option.isSome_iff_exists.mp
        (find?_isSome.mpr ⟨rule, hrule, hconsulted⟩)
      rw [hfirst] at hheads
      exact queryText_of_ruleQuery hkind (Option.some.inj hheads)
    · intro himp
      by_cases hcons : Consulted (some s) d
      · exact decideRules_congr hkind (himp hcons) _
      · have hnone : ∀ rule ∈ s.configuration.rules, d.consults rule = false := by
          intro rule hrule
          by_contra hyes
          exact hcons ⟨s, rfl, rule, hrule, by simpa using hyes⟩
        rw [decideRules_irrelevant (hr.relevant_eq ▸ hnone),
          decideRules_irrelevant (hr'.relevant_eq ▸ hnone)]

/-! ## A rule dodged -/

/-- A snapshot that rejects one class of addresses and one of names. -/
def rejectSnapshot : RouteSnapshot where
  configuration :=
    { upstreams := []
      rules := [⟨ascii "r1", ascii "geo", ⟨.address, ascii "private", []⟩, .reject, []⟩,
        ⟨ascii "r2", ascii "geo", ⟨.domain, ascii "ads", []⟩, .reject, []⟩]
      defaultAction := none
      defaultUpstreamID := [] }
  references source := ⟨source, ascii "v1"⟩

/-- A dataset that has `10.0.0.1` and `ads.example` in every class. -/
def tenDataset (query : DatasetQuery) : Option DatasetAnswer :=
  some ⟨true, [query.address = ascii "10.0.0.1" || query.domain = ascii "ads.example"],
    query.reference⟩

/-- `10.0.0.1:80` as type 1. -/
def plainWire : Bytes := [1, 10, 0, 0, 1, 0, 80]

/-- `10.0.0.1:80` with the address as text in a domain field. -/
def textWire (text : Bytes) : Bytes := 3 :: UInt8.ofNat text.length :: text ++ [0, 80]

/-- A name in two cases is rejected in both. -/
theorem decide_cased_text :
    decide .asciiOnly tenDataset (some rejectSnapshot) .tcp (ascii "Ads.example:80") =
      decide .asciiOnly tenDataset (some rejectSnapshot) .tcp (ascii "ads.EXAMPLE:80") ∧
    (decide .asciiOnly tenDataset (some rejectSnapshot) .tcp
      (ascii "Ads.example:80")).decision.action = some .reject := by
  have hname : decodeAddress (textWire (ascii "Ads.example")) =
      .ok (ascii "Ads.example:80", 15) := by
    decide +kernel
  have hname' : decodeAddress (textWire (ascii "ads.EXAMPLE")) =
      .ok (ascii "ads.EXAMPLE:80", 15) := by
    decide +kernel
  have hfield : readField (textWire (ascii "Ads.example")) =
      some (.domain (ascii "Ads.example"), 80) := by
    decide
  have hfield' : readField (textWire (ascii "ads.EXAMPLE")) =
      some (.domain (ascii "ads.EXAMPLE"), 80) := by
    decide
  have hdest : dest (.domain (ascii "Ads.example")) = some (.name (ascii "ads.example")) := by
    decide
  have hdest' : dest (.domain (ascii "ads.EXAMPLE")) = some (.name (ascii "ads.example")) := by
    decide
  refine ⟨?_, by decide +kernel⟩
  exact (decide_same_iff_spelling .asciiOnly tenDataset (some rejectSnapshot) .tcp hname hname'
    hfield hfield' hdest hdest').mpr fun _ => by decide

/-- The rule that rejects `10.0.0.1` is dodged by its mapped text: both fields denote
one destination and port, one is rejected and the other dialled directly. -/
theorem decide_mapped_text :
    decodeAddress plainWire = .ok (ascii "10.0.0.1:80", 7) ∧
      decodeAddress (textWire (ascii "::ffff:10.0.0.1")) =
        .ok (ascii "[::ffff:10.0.0.1]:80", 19) ∧
      (readField plainWire).map (fun f => (f.1.dest, f.2)) = some (some (.ip4 10 0 0 1), 80) ∧
      (readField (textWire (ascii "::ffff:10.0.0.1"))).map
        (fun f => (f.1.dest, f.2)) = some (some (.ip4 10 0 0 1), 80) ∧
      (decide .asciiOnly tenDataset (some rejectSnapshot) .tcp
        (ascii "10.0.0.1:80")).decision.action = some .reject ∧
      (decide .asciiOnly tenDataset (some rejectSnapshot) .tcp
        (ascii "[::ffff:10.0.0.1]:80")).decision.action = some .direct := by
  refine ⟨?_, ?_, ?_, ?_, ?_, ?_⟩ <;> decide +kernel

end NrePlugins.Shadowsocks
