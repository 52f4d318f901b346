import Nre.Base.Scan
import Nre.IpPolicy.Address

/-!
# Configurations and overlays

Model of `config.rs`: the JSON parser of an IP policy, which accepts no escapes in its
strings, and the resolution of references. The fixed arrays with a length beside them
(`datasets`, `dataset_len`, …) are lists here; a read of an array beyond its length finds
the `EMPTY` value (`Config.classificationAt`).

- `Config.parse`, `Overlay.parse`;
- `RawConfig.resolve`, `RawOverlay.resolve`: references become indices into the table of
  all classifications.
-/

namespace NrePlugins.IpPolicy

open PolicyGuest (DatasetClassificationKind)

def maxDatasets : Nat := 4

def maxClassifications : Nat := 256

def maxRules : Nat := 256

def maxOverlayRules : Nat := 64

def maxProvinces : Nat := 31

inductive ParseError where
  | invalidJson | unknownField | duplicateField | missingField | invalidValue | duplicateId
  | missingReference | capacityExceeded
  deriving DecidableEq

/-! ## Values -/

/-- `FixedStr<N>`: a text of at most `n` bytes. -/
structure FixedStr (n : Nat) where
  asStr : Str
  fits : asStr.bytes.length ≤ n
  deriving DecidableEq

namespace FixedStr

def empty {n : Nat} : FixedStr n := ⟨default, Nat.zero_le n⟩

def set {n : Nat} (value : Str) : Except ParseError (FixedStr n) :=
  if value.bytes = [] then .error .invalidValue
  else if h : value.bytes.length ≤ n ∧ value.bytes.length ≤ 65535 then .ok ⟨value, h.1⟩
  else .error .invalidValue

end FixedStr

inductive RuleEffect where
  | allow | deny
  deriving DecidableEq

structure Dataset where
  id : FixedStr 32
  sourceId : FixedStr 32
  classificationStart : Nat
  classificationLen : Nat

def Dataset.empty : Dataset := ⟨.empty, .empty, 0, 0⟩

structure Classification where
  id : FixedStr 32
  name : FixedStr 128
  kind : DatasetClassificationKind
  dataset : Nat
  indexInDataset : Nat

def Classification.empty : Classification := ⟨.empty, .empty, .cidr, 0, 0⟩

inductive Selector where
  | ip (address : IpAddress)
  | cidr (cidr : Cidr)
  | classification (index : Nat)
  deriving DecidableEq

structure Rule where
  id : FixedStr 32
  action : RuleEffect
  selector : Selector

def Rule.matchesLocal (rule : Rule) (address : IpAddress) : Bool :=
  match rule.selector with
  | .ip expected => expected == address
  | .cidr cidr => cidr.contains address
  | .classification _ => false

structure Config where
  defaultAction : RuleEffect
  datasets : List Dataset
  classifications : List Classification
  provinceWhitelist : List Nat
  rules : List Rule

def Config.empty : Config := ⟨.deny, [], [], [], []⟩

/-- `classifications.get(index)` on the array of 256. -/
def Config.classificationAt (config : Config) (index : Nat) : Option Classification :=
  if index < maxClassifications then some (config.classifications.getD index .empty) else none

structure Overlay where
  rules : List Rule

structure RawReference where
  datasetId : FixedStr 32
  classificationId : FixedStr 32

def RawReference.empty : RawReference := ⟨.empty, .empty⟩

inductive RawSelectorKind where
  | missing | ip | cidr | classification
  deriving DecidableEq

structure RawRule where
  id : FixedStr 32
  action : RuleEffect
  selectorKind : RawSelectorKind
  value : FixedStr 64
  reference : RawReference

def RawRule.empty : RawRule := ⟨.empty, .deny, .missing, .empty, .empty⟩

/-! ## Resolution -/

/-- `resolve_classification`. The range of a dataset lies within the classifications that
were read. -/
def resolveClassification (config : Config) (reference : RawReference) : Except ParseError Nat :=
  match config.datasets.find? (·.id == reference.datasetId) with
  | none => .error .missingReference
  | some entry =>
    if maxClassifications < entry.classificationStart + entry.classificationLen then
      .error .missingReference
    else
      match ((config.classifications.drop entry.classificationStart).take
          entry.classificationLen).findIdx? (·.id == reference.classificationId) with
      | some offset => .ok (entry.classificationStart + offset)
      | none => .error .missingReference

/-- An address error of a rule is an invalid value. -/
def orInvalidValue {α : Type} : Except ConfigError α → Except ParseError α
  | .ok a => .ok a
  | .error _ => .error .invalidValue

/-- The selector of a raw rule. -/
def RawRule.resolveSelector (raw : RawRule) (config : Config) : Except ParseError Selector :=
  match raw.selectorKind with
  | .ip => do
    let address ← orInvalidValue (IpAddress.parseStrict raw.value.asStr.bytes)
    return .ip address
  | .cidr => do
    let cidr ← orInvalidValue (Cidr.parseStrict raw.value.asStr.bytes)
    return .cidr cidr
  | .classification => do
    let index ← resolveClassification config raw.reference
    if 256 ≤ index then .error .capacityExceeded else return .classification index
  | .missing => .error .missingField

def RawRule.resolve (raw : RawRule) (config : Config) : Except ParseError Rule := do
  let selector ← raw.resolveSelector config
  return ⟨raw.id, raw.action, selector⟩

structure RawConfig where
  config : Config
  provinces : List RawReference
  rawRules : List RawRule

def RawConfig.empty : RawConfig := ⟨.empty, [], []⟩

/-- `is_cn_province`. -/
def isCnProvince (value : Bytes) : Bool :=
  [11, 12, 13, 14, 15, 21, 22, 23, 31, 32, 33, 34, 35, 36, 37, 41, 42, 43, 44, 45, 46, 50, 51, 52,
    53, 54, 61, 62, 63, 64, 65].any fun n => value == ascii "cn-" ++ itoa n

/-- One province of `RawConfig::resolve`. -/
def resolveProvince (config : Config) (whitelist : List Nat) (reference : RawReference) :
    Except ParseError (List Nat) := do
  let classification ← resolveClassification config reference
  match config.classificationAt classification with
  | none => .error .capacityExceeded
  | some candidate =>
    if candidate.kind ≠ .region ∨ isCnProvince candidate.name.asStr.bytes = false ∨
        classification ∈ whitelist then .error .invalidValue
    else return whitelist ++ [classification]

/-- One rule of the `resolve` functions; `taken` are the ids it must not repeat. -/
def resolveRule (config : Config) (taken : List Rule) (rules : List Rule) (raw : RawRule) :
    Except ParseError (List Rule) := do
  let resolved ← raw.resolve config
  if taken.any (·.id == resolved.id) || rules.any (·.id == resolved.id) then .error .duplicateId
  else return rules ++ [resolved]

def RawConfig.resolve (raw : RawConfig) : Except ParseError Config := do
  let whitelist ← raw.provinces.foldlM (resolveProvince raw.config) []
  let config := { raw.config with provinceWhitelist := whitelist }
  let rules ← raw.rawRules.foldlM (resolveRule config []) []
  return { config with rules }

structure RawOverlay where
  rules : List RawRule

def RawOverlay.resolve (raw : RawOverlay) (config : Config) : Except ParseError Overlay := do
  let rules ← raw.rules.foldlM (resolveRule config config.rules) []
  return ⟨rules⟩

/-! ## Names -/

def isLower (b : UInt8) : Bool := ch 'a' ≤ b && b ≤ ch 'z'

/-- `is_id`. -/
def isId (value : Bytes) : Bool :=
  value.head?.any isLower && value.length ≤ 32 &&
    value.tail.all fun b => isLower b || isDigit b || b == ch '-'

/-- A byte of a classification name after the first. -/
def isNameByte (b : UInt8) : Bool :=
  PolicyGuest.isAsciiAlphanumeric b || b == ch '_' || b == ch '.' || b == ch '!' ||
    b == ch '@' || b == ch '+' || b == ch '-'

/-- `is_classification_name`. It holds of the empty text, which `FixedStr::set` refuses. -/
def isClassificationName (value : Bytes) : Bool :=
  value.length ≤ 128 && value != ascii "." && value != ascii ".." &&
    value.head?.all PolicyGuest.isAsciiAlphanumeric && value.tail.all isNameByte

/-! ## The parser -/

abbrev Parser := Scanner ParseError

namespace Parser

open Scanner hiding ofExcept

/-- The loop of `string`, without escapes: the text up to the closing quote. -/
def stringLoop : Bytes → Except ParseError (Bytes × Bytes)
  | [] => .error .invalidJson
  | b :: rest =>
    if b = ch '"' then .ok ([], rest)
    else if b = ch '\\' then .error .invalidValue
    else if b < 0x20 then .error .invalidJson
    else do
      let (text, rest) ← stringLoop rest
      return (b :: text, rest)

/-- The text after the opening quote. -/
def quoted : Parser Str := fun input => do
  let (text, rest) ← stringLoop input
  match Str.fromUTF8 text with
  | some value => .ok (value, rest)
  | none => .error .invalidJson

/-- `string(false)`. -/
def string : Parser Str := do
  expect .invalidJson (ch '"')
  quoted

/-- A key of an object. -/
def key : Parser Bytes := do
  let name ← string
  return name.bytes

/-- An object whose members are read by `member`; the state and the bits of its keys. -/
def object {σ : Type} (init : σ) (member : σ → Bytes → Parser (σ × Nat)) : Parser (σ × Nat) := do
  expect .invalidJson (ch '\x7b')
  let left ← get
  membersLoop .invalidJson .duplicateField key member (left.length + 1) init 0

def array {σ : Type} (init : σ) (element : σ → Parser σ) : Parser σ := do
  expect .invalidJson (ch '[')
  let left ← get
  elementsLoop .invalidJson element (left.length + 1) init

/-- An object that must have exactly the keys of the given bits. -/
def completeObject {σ : Type} (bits : Nat) (init : σ) (member : σ → Bytes → Parser (σ × Nat)) :
    Parser σ := do
  let (value, seen) ← object init member
  if seen ≠ bits then throw .missingField else return value

/-- A string that is an id, stored in a field. -/
def idField : Parser (FixedStr 32) := do
  let value ← string
  if !isId value.bytes then throw .invalidValue else Scanner.ofExcept (FixedStr.set value)

def action : Parser RuleEffect := do
  let value ← string
  if value.bytes = ascii "allow" then return .allow
  else if value.bytes = ascii "deny" then return .deny
  else throw .invalidValue

def kindField : Parser DatasetClassificationKind := do
  let value ← string
  if value.bytes = ascii "country" then return .country
  else if value.bytes = ascii "region" then return .region
  else if value.bytes = ascii "cidr" then return .cidr
  else throw .invalidValue

def nameField : Parser (FixedStr 128) := do
  let value ← string
  if !isClassificationName value.bytes then throw .invalidValue
  else Scanner.ofExcept (FixedStr.set value)

def classificationMember (value : Classification) (name : Bytes) :
    Parser (Classification × Nat) := do
  if name = ascii "id" then return ({ value with id := ← idField }, 1)
  else if name = ascii "name" then return ({ value with name := ← nameField }, 2)
  else if name = ascii "kind" then return ({ value with kind := ← kindField }, 4)
  else throw .unknownField

/-- `classification`. -/
def classification (value : Classification) : Parser Classification :=
  completeObject 7 value classificationMember

/-- One element of `classifications`. -/
def classificationElement (start dataset : Nat) (config : Config) : Parser Config := do
  let index := config.classifications.length
  if maxClassifications ≤ index ∨ 64 ≤ index - start then throw .capacityExceeded
  else
    let value ← classification { Classification.empty with dataset, indexInDataset := index - start }
    if (config.classifications.drop start).any fun existing =>
        existing.id == value.id || (existing.name == value.name && existing.kind == value.kind) then
      throw .duplicateId
    else return { config with classifications := config.classifications ++ [value] }

def classifications (config : Config) (dataset : Nat) : Parser Config :=
  array config (classificationElement config.classifications.length dataset)

def datasetMember (value : Dataset × Config) (name : Bytes) : Parser ((Dataset × Config) × Nat) := do
  if name = ascii "id" then return (({ value.1 with id := ← idField }, value.2), 1)
  else if name = ascii "source_id" then
    return (({ value.1 with sourceId := ← idField }, value.2), 2)
  else if name = ascii "classifications" then
    return ((value.1, ← classifications value.2 value.2.datasets.length), 4)
  else throw .unknownField

def dataset (config : Config) : Parser (Dataset × Config) :=
  completeObject 7 (Dataset.empty, config) datasetMember

/-- One element of `datasets`. -/
def datasetElement (config : Config) : Parser Config := do
  if maxDatasets ≤ config.datasets.length then throw .capacityExceeded
  else
    let start := config.classifications.length
    let (value, after) ← dataset config
    let length := after.classifications.length - start
    if length = 0 ∨ config.datasets.any (·.id == value.id) then throw .duplicateId
    else
      let value := { value with classificationStart := start, classificationLen := length }
      return { after with datasets := after.datasets ++ [value] }

def datasets (config : Config) : Parser Config := array config datasetElement

def referenceMember (value : RawReference) (name : Bytes) : Parser (RawReference × Nat) := do
  let text ← string
  if !isId text.bytes then throw .invalidValue
  else if name = ascii "dataset_id" then
    return ({ value with datasetId := ← Scanner.ofExcept (FixedStr.set text) }, 1)
  else if name = ascii "classification_id" then
    return ({ value with classificationId := ← Scanner.ofExcept (FixedStr.set text) }, 2)
  else throw .unknownField

def reference : Parser RawReference := completeObject 3 .empty referenceMember

def referenceElement (capacity : Nat) (output : List RawReference) :
    Parser (List RawReference) := do
  if capacity ≤ output.length then throw .capacityExceeded
  else return output ++ [← reference]

def references (capacity : Nat) : Parser (List RawReference) :=
  array [] (referenceElement capacity)

def selectorKind : Parser RawSelectorKind := do
  let value ← string
  if value.bytes = ascii "ip" then return .ip
  else if value.bytes = ascii "cidr" then return .cidr
  else if value.bytes = ascii "classification" then return .classification
  else throw .invalidValue

def selectorMember (value : RawRule) (name : Bytes) : Parser (RawRule × Nat) := do
  if name = ascii "type" then return ({ value with selectorKind := ← selectorKind }, 1)
  else if name = ascii "value" then
    return ({ value with value := ← Scanner.ofExcept (FixedStr.set (← string)) }, 2)
  else if name = ascii "dataset_id" then
    return ({ value with reference := { value.reference with datasetId := ← idField } }, 4)
  else if name = ascii "classification_id" then
    return ({ value with reference := { value.reference with classificationId := ← idField } }, 8)
  else throw .unknownField

/-- The keys a selector must have. -/
def selectorComplete (kind : RawSelectorKind) (seen : Nat) : Bool :=
  match kind with
  | .ip => seen == 3
  | .cidr => seen == 3
  | .classification => seen == 13
  | .missing => false

def selector (value : RawRule) : Parser RawRule := do
  let (value, seen) ← object value selectorMember
  if selectorComplete value.selectorKind seen then return value else throw .invalidValue

def ruleMember (value : RawRule) (name : Bytes) : Parser (RawRule × Nat) := do
  if name = ascii "id" then return ({ value with id := ← idField }, 1)
  else if name = ascii "action" then return ({ value with action := ← action }, 2)
  else if name = ascii "selector" then return (← selector value, 4)
  else throw .unknownField

def rule : Parser RawRule := completeObject 7 .empty ruleMember

def ruleElement (capacity : Nat) (output : List RawRule) : Parser (List RawRule) := do
  if capacity ≤ output.length then throw .capacityExceeded
  else
    let value ← rule
    if output.any (·.id == value.id) then throw .duplicateId else return output ++ [value]

def rules (capacity : Nat) : Parser (List RawRule) := array [] (ruleElement capacity)

def schemaField (expected : Bytes) : Parser Unit := do
  let value ← string
  if value.bytes ≠ expected then throw .invalidValue else return ()

def configMember (raw : RawConfig) (name : Bytes) : Parser (RawConfig × Nat) := do
  if name = ascii "schema" then
    schemaField (ascii "sakullla.ip-policy/v1")
    return (raw, 1)
  else if name = ascii "default_action" then
    return ({ raw with config := { raw.config with defaultAction := ← action } }, 2)
  else if name = ascii "datasets" then return ({ raw with config := ← datasets raw.config }, 4)
  else if name = ascii "province_whitelist" then
    return ({ raw with provinces := ← references maxProvinces }, 8)
  else if name = ascii "rules" then return ({ raw with rawRules := ← rules maxRules }, 16)
  else throw .unknownField

def config : Parser RawConfig := completeObject 31 .empty configMember

def overlayMember (raw : RawOverlay) (name : Bytes) : Parser (RawOverlay × Nat) := do
  if name = ascii "schema" then
    schemaField (ascii "sakullla.ip-policy-overlay/v1")
    return (raw, 1)
  else if name = ascii "rules" then return (⟨← rules maxOverlayRules⟩, 2)
  else throw .unknownField

def overlay : Parser RawOverlay := completeObject 3 ⟨[]⟩ overlayMember

/-- `end`. -/
def finish : Parser Unit := do
  space
  let left ← get
  if left = [] then return () else throw .invalidJson

end Parser

def Config.parse (frame : Bytes) : Except ParseError Config := do
  if frame = [] ∨ 64 * 1024 < frame.length then .error .capacityExceeded
  else
    let (raw, rest) ← Parser.config frame
    let _ ← Parser.finish rest
    raw.resolve

def Overlay.parse (frame : Bytes) (config : Config) : Except ParseError Overlay := do
  if frame = [] ∨ 16 * 1024 < frame.length then .error .capacityExceeded
  else
    let (raw, rest) ← Parser.overlay frame
    let _ ← Parser.finish rest
    raw.resolve config

end NrePlugins.IpPolicy
