import Nre.DockerApp.Binds

/-!
# The risk preview of a compose plan

`composeServiceFromYAML` turns a decoded service into a `ComposeService`, and `PreviewCompose`
lists what is risky about a plan of them; `ConfirmComposeRisk` wants the digest of the preview
to be repeated when there are host mounts, capabilities or privileged services.

`BindSound`: a source that leaves the directory of its app is a host mount of every preview, and
has to be confirmed; a relative one can be resolved. `binds_sound`: this holds for all directories
exactly if the source does not come back (`ComesBack`), and `comes_back` is one that does.
-/

namespace NrePlugins.DockerApp

open List

/-! ## Services -/

/-- A value of a YAML document, as it is decoded into `any`. -/
inductive Yaml where
  | null
  | text (value : Bytes)
  | list (items : List Yaml)
  /-- A mapping whose keys are texts, in the order in which it is gone through. -/
  | fields (entries : List (Bytes × Yaml))
  /-- Numbers, truth values, and mappings with other keys. -/
  | other

inductive ComposeError where
  | invalidAdoptSource
  | missingComposeImage
  | boundExceeded
  | invalidService
  | invalidImage
  | invalidValue
  | duplicateValue
  | duplicateService
  | invalidRuleRef
  | invalidPreview
  deriving DecidableEq

/-- `composeService`; its published ports are left out. -/
structure RawService where
  image : Bytes
  privileged : Bool
  capAdd : List Bytes
  volumes : List Bytes
  networks : Yaml
  environment : Yaml

structure ComposeService where
  name : Bytes
  image : Bytes := []
  privileged : Bool
  hostMounts : List Bytes
  relativeBinds : List Bytes
  addCapabilities : List Bytes
  networks : List Bytes
  volumes : List Bytes
  secretRefs : List Bytes := []
  deriving DecidableEq

structure TransientCredential where
  name : Bytes
  material : Bytes
  deriving DecidableEq

def volumeSource (spec : Bytes) : Bytes :=
  if windowsDrive spec then spec.take 2 ++ (spec.drop 2).takeWhile (· != ch ':')
  else spec.takeWhile (· != ch ':')

/-- What `classifyVolume` finds, and what goes into the lists of `classifyVolumes`. -/
structure ClassifiedVolume where
  hostMount : Bytes
  namedVolume : Bytes
  relativeBind : Bytes

def classifyVolume (spec : Bytes) : ClassifiedVolume :=
  match classifyBindSource (volumeSource spec) with
  | .relative => ⟨[], [], spec⟩
  | .host => ⟨spec, [], []⟩
  | .named => ⟨[], volumeSource spec, []⟩

/-- `classifyVolumes`: what is not empty is kept. -/
def classifyVolumes (specs : List Bytes) (field : ClassifiedVolume → Bytes) : List Bytes :=
  (specs.map fun spec => field (classifyVolume spec)).filter (· ≠ [])

def collectNames : Yaml → Except ComposeError (List Bytes)
  | .null => .ok []
  | .text value => .ok (if value = [] then [] else [value])
  | .list items => items.mapM fun item =>
      match item with
      | .text name => .ok name
      | _ => .error .invalidAdoptSource
  | .fields entries => .ok (entries.map Prod.fst)
  | .other => .error .invalidAdoptSource

/-- `strings.ToUpper`, as far as it makes letters of ASCII. -/
def upperText : Bytes → Bytes
  | 0xc4 :: 0xb1 :: rest => ch 'I' :: upperText rest
  | 0xc5 :: 0xbf :: rest => ch 'S' :: upperText rest
  | b :: rest => (if within (ch 'a') (ch 'z') b then b - 32 else b) :: upperText rest
  | [] => []

def upperWord (b : UInt8) : Bool := within (ch 'A') (ch 'Z') b || isDigit b

/-- `strings.FieldsFunc` at what is not a letter or a digit. -/
def upperWords (s : Bytes) : List Bytes := (s.splitOnP fun b => !upperWord b).filter (· ≠ [])

/-- The loop of `sensitiveEnvironmentName`, with the part before the next one. -/
def sensitiveParts : Option Bytes → List Bytes → Bool
  | _, [] => false
  | before, part :: rest =>
    [ascii "PASSWORD", ascii "PASSWD", ascii "SECRET", ascii "CREDENTIAL", ascii "CREDENTIALS",
      ascii "AUTHORIZATION"].contains part ||
    part == ascii "TOKEN" && (rest.head?.all fun next => next == ascii "VALUE" ||
      next == ascii "SECRET") ||
    part == ascii "KEY" && rest.isEmpty && before.all (· != ascii "PUBLIC") ||
    sensitiveParts (some part) rest

def sensitiveEnvironmentName (name : Bytes) : Bool :=
  sensitiveParts none (upperWords (upperText (trimSpace name)))

section Plans

-- `fmt.Sprint` of a decoded value
variable (sprint : Yaml → Bytes)

def materialBytes : Yaml → Bytes
  | .null => []
  | .text value => value
  | value => sprint value

/-- `appendCredential`, for all entries in turn. -/
def appendCredentials : List (Bytes × Bytes) → Except ComposeError (List TransientCredential)
  | [] => .ok []
  | (name, material) :: rest =>
    if boundedText (trimSpace name) 128 = false then .error .invalidAdoptSource
    else do
      let credentials ← appendCredentials rest
      return if sensitiveEnvironmentName (trimSpace name) then
        ⟨trimSpace name, material⟩ :: credentials else credentials

/-- `strings.Cut(entry, "=")`. -/
def environmentEntry (entry : Bytes) : Bytes × Bytes :=
  (entry.takeWhile (· != ch '='), (entry.dropWhile (· != ch '=')).drop 1)

def collectEnvironment : Yaml → Except ComposeError (List TransientCredential)
  | .null => .ok []
  | .fields entries => appendCredentials (entries.map fun e => (e.1, materialBytes sprint e.2))
  | .list items => do
    let entries ← items.mapM fun item =>
      match item with
      | .text entry => .ok (environmentEntry entry)
      | _ => Except.error ComposeError.invalidAdoptSource
    appendCredentials entries
  | _ => .error .invalidAdoptSource

structure ParsedComposeService where
  service : ComposeService
  image : Bytes
  credentials : List TransientCredential
  deriving DecidableEq

def composeServiceFromYAML (name : Bytes) (raw : RawService) :
    Except ComposeError ParsedComposeService :=
  if validID name = false then .error .invalidAdoptSource
  else if raw.image = [] then .error .missingComposeImage
  else if boundedText raw.image 512 = false then .error .invalidAdoptSource
  else do
    let networks ← collectNames raw.networks
    let credentials ← collectEnvironment sprint raw.environment
    return {
      service := {
        name, privileged := raw.privileged
        hostMounts := classifyVolumes raw.volumes ClassifiedVolume.hostMount
        relativeBinds := classifyVolumes raw.volumes ClassifiedVolume.relativeBind
        addCapabilities := raw.capAdd, networks
        volumes := classifyVolumes raw.volumes ClassifiedVolume.namedVolume }
      image := raw.image, credentials }

end Plans

/-! ## Plans and previews -/

structure ComposePlan where
  appID : Bytes
  generation : Bytes
  project : Bytes
  image : Bytes := []
  ruleRef : Bytes := []
  services : List ComposeService
  ruleImpacts : List Bytes := []
  secretRefs : List Bytes := []

inductive RiskKind where
  | privileged
  | hostMount
  | capability
  | network
  | volume
  | rule
  deriving DecidableEq

def RiskKind.text : RiskKind → Bytes
  | .privileged => ascii "privileged"
  | .hostMount => ascii "host-mount"
  | .capability => ascii "capability"
  | .network => ascii "network"
  | .volume => ascii "volume"
  | .rule => ascii "rule"

structure RiskItem where
  kind : RiskKind
  target : Bytes
  deriving DecidableEq

structure RiskPreview where
  appID : Bytes
  generation : Bytes
  project : Bytes
  items : List RiskItem
  digest : Bytes
  deriving DecidableEq

/-- Go's order of strings. -/
def textLE (a b : Bytes) : Prop := a.map UInt8.toNat ≤ b.map UInt8.toNat

instance : DecidableRel textLE := fun a b =>
  inferInstanceAs (Decidable (a.map UInt8.toNat ≤ b.map UInt8.toNat))

def maxComposeServices : Nat := 128

def maxCollectionItems : Nat := 256

def maxSecretRefs : Nat := maxCollectionItems

/-- The loop of `sortedUnique`, with the value before the next one. -/
def checkSorted : Option Bytes → List Bytes → Except ComposeError Unit
  | _, [] => .ok ()
  | before, value :: rest =>
    if boundedText value 512 = false then .error .invalidValue
    else if before = some value then .error .duplicateValue
    else checkSorted (some value) rest

def sortedUnique (values : List Bytes) (maximum : Nat) : Except ComposeError (List Bytes) :=
  if maximum < values.length then .error .boundExceeded
  else do
    checkSorted none (values.insertionSort textLE)
    return values.insertionSort textLE

/-- One service of `canonicalComposePlan`. -/
def canonicalService (service : ComposeService) : Except ComposeError ComposeService :=
  if validID service.name = false then .error .invalidService
  else if service.image ≠ [] ∧ boundedText service.image 512 = false then .error .invalidImage
  else do
    let secretRefs ← sortedUnique service.secretRefs maxSecretRefs
    let hostMounts ← sortedUnique service.hostMounts maxCollectionItems
    let relativeBinds ← sortedUnique service.relativeBinds maxCollectionItems
    let addCapabilities ← sortedUnique service.addCapabilities maxCollectionItems
    let networks ← sortedUnique service.networks maxCollectionItems
    let volumes ← sortedUnique service.volumes maxCollectionItems
    return { service with
      secretRefs, hostMounts, relativeBinds, addCapabilities, networks, volumes }

/-- Two neighbours have one name. -/
def hasDuplicate : List ComposeService → Bool
  | a :: b :: rest => a.name == b.name || hasDuplicate (b :: rest)
  | _ => false

def canonicalComposePlan (plan : ComposePlan) : Except ComposeError ComposePlan :=
  if validID plan.appID = false ∨ boundedText plan.generation 128 = false ∨
      validID plan.project = false ∨ maxComposeServices < plan.services.length ∨
      maxCollectionItems < plan.ruleImpacts.length then .error .boundExceeded
  else do
    let checked ← plan.services.mapM canonicalService
    let services := checked.insertionSort fun a b => textLE a.name b.name
    if hasDuplicate services then .error .duplicateService
    else if plan.image ≠ [] ∧ boundedText plan.image 512 = false then .error .invalidImage
    else if plan.ruleRef ≠ [] ∧ boundedText plan.ruleRef 128 = false then .error .invalidRuleRef
    else do
      let ruleImpacts ← sortedUnique plan.ruleImpacts maxCollectionItems
      let secretRefs ←
        sortedUnique (plan.secretRefs ++ services.flatMap ComposeService.secretRefs) maxSecretRefs
      let image :=
        if plan.image = [] then (services.head?.map ComposeService.image).getD [] else plan.image
      return { plan with services, ruleImpacts, secretRefs, image }

/-- The items of a service. -/
def serviceItems (service : ComposeService) : List RiskItem :=
  (if service.privileged then [⟨.privileged, service.name⟩] else []) ++
    service.hostMounts.map (fun target => ⟨.hostMount, service.name ++ ch ':' :: target⟩) ++
    service.addCapabilities.map (fun target => ⟨.capability, service.name ++ ch ':' :: target⟩) ++
    service.networks.map (fun target => ⟨.network, target⟩) ++
    service.volumes.map fun target => ⟨.volume, target⟩

def itemLE (a b : RiskItem) : Prop :=
  if a.kind = b.kind then textLE a.target b.target else textLE a.kind.text b.kind.text

instance : DecidableRel itemLE := fun a b =>
  inferInstanceAs (Decidable (if a.kind = b.kind then textLE a.target b.target
    else textLE a.kind.text b.kind.text))

section Preview

-- SHA-256 of the JSON form of a preview
variable (canonicalDigest : (appID generation project : Bytes) → List RiskItem → Bytes)

def previewCompose (plan : ComposePlan) : Except ComposeError RiskPreview := do
  let plan ← canonicalComposePlan plan
  let items := plan.services.flatMap serviceItems ++ plan.ruleImpacts.map fun target =>
    ⟨.rule, target⟩
  if maxCollectionItems < items.length then .error .boundExceeded
  else
    let items := items.insertionSort itemLE
    return ⟨plan.appID, plan.generation, plan.project, items,
      canonicalDigest plan.appID plan.generation plan.project items⟩

def requiresRiskConfirmation (preview : RiskPreview) : Bool :=
  preview.items.any fun item =>
    item.kind == .privileged || item.kind == .hostMount || item.kind == .capability

/-- `ConfirmComposeRisk`; a refused preview is returned too. -/
def confirmComposeRisk (plan : ComposePlan) (confirm : Bytes) :
    Except (ComposeError × Option RiskPreview) RiskPreview :=
  match previewCompose canonicalDigest plan with
  | .error err => .error (err, none)
  | .ok preview =>
    if requiresRiskConfirmation preview = false then .ok preview
    else if confirm ≠ preview.digest then .error (.invalidPreview, some preview)
    else .ok preview

end Preview

/-! ## Host mounts stay in the preview -/

theorem sortedUnique_perm {values result : List Bytes} {maximum : Nat}
    (h : sortedUnique values maximum = .ok result) : result.Perm values := by
  unfold sortedUnique at h
  split_ifs at h
  obtain ⟨-, -, h⟩ := bind_eq_ok.mp h
  cases h
  exact perm_insertionSort _ _

theorem canonicalService_hostMounts {service checked : ComposeService}
    (h : canonicalService service = .ok checked) :
    checked.name = service.name ∧ checked.hostMounts.Perm service.hostMounts := by
  unfold canonicalService at h
  split_ifs at h
  obtain ⟨_, -, h⟩ := bind_eq_ok.mp h
  obtain ⟨mounts, hmounts, h⟩ := bind_eq_ok.mp h
  obtain ⟨_, -, h⟩ := bind_eq_ok.mp h
  obtain ⟨_, -, h⟩ := bind_eq_ok.mp h
  obtain ⟨_, -, h⟩ := bind_eq_ok.mp h
  obtain ⟨_, -, h⟩ := bind_eq_ok.mp h
  cases h
  exact ⟨rfl, sortedUnique_perm hmounts⟩

theorem mem_of_mapM {α β ε : Type} {f : α → Except ε β} {l : List α} {out : List β}
    (h : l.mapM f = .ok out) {a : α} (ha : a ∈ l) : ∃ b ∈ out, f a = .ok b := by
  induction l generalizing out with
  | nil => cases ha
  | cons x l ih =>
    rw [mapM_cons] at h
    obtain ⟨b, hb, h⟩ := bind_eq_ok.mp h
    obtain ⟨bs, hbs, h⟩ := bind_eq_ok.mp h
    cases h
    rcases mem_cons.mp ha with rfl | ha
    · exact ⟨b, mem_cons_self, hb⟩
    · obtain ⟨b', hb', hf⟩ := ih hbs ha
      exact ⟨b', mem_cons_of_mem _ hb', hf⟩

theorem canonicalComposePlan_service {plan normalized : ComposePlan}
    (h : canonicalComposePlan plan = .ok normalized) {service : ComposeService}
    (hservice : service ∈ plan.services) :
    ∃ checked ∈ normalized.services, canonicalService service = .ok checked := by
  unfold canonicalComposePlan at h
  split at h
  · cases h
  obtain ⟨all, hall, h⟩ := bind_eq_ok.mp h
  simp only [ite_error_eq_ok] at h
  obtain ⟨-, -, -, h⟩ := h
  obtain ⟨_, -, h⟩ := bind_eq_ok.mp h
  obtain ⟨_, -, h⟩ := bind_eq_ok.mp h
  cases h
  obtain ⟨checked, hmem, hchecked⟩ := mem_of_mapM hall hservice
  exact ⟨checked, (perm_insertionSort _ _).mem_iff.mpr hmem, hchecked⟩

section Preview

variable {canonicalDigest : (appID generation project : Bytes) → List RiskItem → Bytes}

/-- A host mount of a service is an item of the preview. -/
theorem hostMount_mem_preview {plan : ComposePlan} {preview : RiskPreview}
    (h : previewCompose canonicalDigest plan = .ok preview) {service : ComposeService}
    (hservice : service ∈ plan.services) {mount : Bytes} (hmount : mount ∈ service.hostMounts) :
    ⟨.hostMount, service.name ++ ch ':' :: mount⟩ ∈ preview.items := by
  obtain ⟨normalized, hnormalized, h⟩ := bind_eq_ok.mp h
  dsimp only at h
  split_ifs at h
  cases h
  obtain ⟨checked, hmem, hchecked⟩ := canonicalComposePlan_service hnormalized hservice
  obtain ⟨hname, hperm⟩ := canonicalService_hostMounts hchecked
  refine (perm_insertionSort _ _).mem_iff.mpr (mem_append_left _ ?_)
  refine mem_flatMap.mpr ⟨checked, hmem, ?_⟩
  simp only [serviceItems, mem_append, mem_map]
  exact .inl (.inl (.inl (.inr ⟨mount, hperm.mem_iff.mpr hmount, by rw [hname]⟩)))

theorem composeServiceFromYAML_hostMounts {sprint : Yaml → Bytes} {name : Bytes} {raw : RawService}
    {parsed : ParsedComposeService} (h : composeServiceFromYAML sprint name raw = .ok parsed) :
    parsed.service.name = name ∧
      parsed.service.hostMounts = classifyVolumes raw.volumes ClassifiedVolume.hostMount := by
  unfold composeServiceFromYAML at h
  split_ifs at h
  obtain ⟨_, -, h⟩ := bind_eq_ok.mp h
  obtain ⟨_, -, h⟩ := bind_eq_ok.mp h
  cases h
  exact ⟨rfl, rfl⟩

theorem mem_hostMounts {specs : List Bytes} {spec : Bytes} (hspec : spec ∈ specs)
    (h : classifyBindSource (volumeSource spec) = .host) :
    spec ∈ classifyVolumes specs ClassifiedVolume.hostMount := by
  have hne : spec ≠ [] := by
    rintro rfl
    exact absurd h (by decide)
  refine mem_filter.mpr ⟨mem_map.mpr ⟨spec, hspec, ?_⟩, decide_eq_true hne⟩
  rw [classifyVolume, h]

/-- What the classification of a source promises for a directory: a relative source can be
resolved, and one that leaves the directory is a host mount of every preview and has to be
confirmed. -/
structure BindSound (w : Workdir) (source : Bytes) : Prop where
  resolved : classifyBindSource source = .relative →
    ∃ p, resolveRelativePath w source = some p ∧ AtOrBelow w.path p
  previewed : ¬ AtOrBelow w.path (w.target source) → classifyBindSource source = .host ∧
    ∀ sprint name raw parsed spec, composeServiceFromYAML sprint name raw = .ok parsed →
      spec ∈ raw.volumes → volumeSource spec = source →
      ∀ canonicalDigest plan preview, parsed.service ∈ plan.services →
        previewCompose canonicalDigest plan = .ok preview →
        ⟨.hostMount, name ++ ch ':' :: spec⟩ ∈ preview.items ∧
          requiresRiskConfirmation preview = true ∧
          ∀ confirm, confirm ≠ preview.digest →
            confirmComposeRisk canonicalDigest plan confirm =
              .error (.invalidPreview, some preview)

theorem bindSound_of_inside {w : Workdir} {source : Bytes}
    (hback : ComesBack source → AtOrBelow w.path (w.target source)) : BindSound w source := by
  constructor
  · intro hrelative
    have hinside : AtOrBelow w.path (w.target source) :=
      inside_of_not_host hback (by rw [hrelative]; decide)
    exact ⟨_, resolveRelativePath_of_inside hinside⟩
  · intro hleaves
    have hhost : classifyBindSource source = .host := by
      by_contra hnot
      exact hleaves (inside_of_not_host hback hnot)
    refine ⟨hhost, ?_⟩
    intro sprint name raw parsed spec hparsed hspec hsource canonicalDigest plan preview hservice
      hpreview
    obtain ⟨hname, hmounts⟩ := composeServiceFromYAML_hostMounts hparsed
    have hmount : spec ∈ parsed.service.hostMounts := by
      rw [hmounts]
      exact mem_hostMounts hspec (by rw [hsource, hhost])
    have hitem := hostMount_mem_preview hpreview hservice hmount
    rw [hname] at hitem
    have hrequires : requiresRiskConfirmation preview = true := any_eq_true.mpr ⟨_, hitem, rfl⟩
    refine ⟨hitem, hrequires, ?_⟩
    intro confirm hconfirm
    simp [confirmComposeRisk, hpreview, hrequires, hconfirm]

/-- A source that comes back is taken for a relative one, so it must not leave the directory. -/
theorem BindSound.inside {w : Workdir} {source : Bytes} (h : BindSound w source)
    (hback : ComesBack source) : AtOrBelow w.path (w.target source) := by
  by_contra hleaves
  cases hback.relative.symm.trans (h.previewed hleaves).1

/-- The classification of a source is right for a directory exactly if the source does not come
back or stays inside that directory, and for all directories exactly if it does not come back. -/
theorem binds_sound (source : Bytes) :
    (∀ w, BindSound w source ↔ (ComesBack source → AtOrBelow w.path (w.target source))) ∧
      ((∀ w, BindSound w source) ↔ ¬ ComesBack source) := by
  refine ⟨fun w => ⟨BindSound.inside, bindSound_of_inside⟩, ?_, ?_⟩
  · intro hsound hback
    exact hback.leaves ((hsound other).inside hback)
  · intro hback w
    exact bindSound_of_inside fun h => absurd h hback

end Preview

/-! ## A source that comes back -/

namespace Sample

def workdir : Workdir := ⟨ascii "/srv/app", by decide, by decide⟩

/-- A directory of the host, and one of the app. -/
def raw : RawService :=
  { image := ascii "nginx", privileged := false, capAdd := []
    volumes := [ascii "./a/../../etc:/etc", ascii "data\\db:/db"]
    networks := .null, environment := .null }

def service : ComposeService :=
  { name := ascii "web", privileged := false, hostMounts := [ascii "./a/../../etc:/etc"]
    relativeBinds := [ascii "data\\db:/db"], addCapabilities := [], networks := [], volumes := [] }

def plan : ComposePlan :=
  { appID := ascii "app", generation := ascii "1", project := ascii "app", services := [service] }

def preview : RiskPreview :=
  ⟨ascii "app", ascii "1", ascii "app", [⟨.hostMount, ascii "web:./a/../../etc:/etc"⟩], ascii "ab"⟩

theorem previewed :
    composeServiceFromYAML (fun _ => []) (ascii "web") raw = .ok ⟨service, ascii "nginx", []⟩ ∧
      previewCompose (fun _ _ _ _ => ascii "ab") plan = .ok preview := by
  decide

end Sample

theorem not_comesBack {source : Bytes}
    (h : ascii "work" ∉ GoPath.reduced (slashed source)) : ¬ ComesBack source := by
  rintro ⟨-, k, rest, hreduced⟩
  refine h ?_
  rw [hreduced]
  exact mem_append_right _ mem_cons_self

/-- The two sources of a service: one has to be confirmed, the other one is resolved. A source in a
home directory goes up and down into `work`, and is told apart all the same. -/
theorem binds_sound_previewed :
    (∃ p, resolveRelativePath Sample.workdir (ascii "data\\db") = some p ∧
      AtOrBelow Sample.workdir.path p) ∧
    ⟨.hostMount, ascii "web:./a/../../etc:/etc"⟩ ∈ Sample.preview.items ∧
      confirmComposeRisk (fun _ _ _ _ => ascii "ab") Sample.plan [] =
        .error (.invalidPreview, some Sample.preview) ∧
      ∀ w, BindSound w (ascii "~/../../work") := by
  have hrelative := ((binds_sound (ascii "data\\db")).2.mpr (not_comesBack (by decide))
    Sample.workdir).resolved (by decide)
  have hleaves :
      ¬ AtOrBelow Sample.workdir.path (Sample.workdir.target (ascii "./a/../../etc")) := by
    unfold AtOrBelow
    decide
  obtain ⟨-, hpreview⟩ := ((binds_sound (ascii "./a/../../etc")).2.mpr (not_comesBack (by decide))
    Sample.workdir).previewed hleaves
  obtain ⟨hitem, -, hconfirm⟩ := hpreview _ _ _ _ (ascii "./a/../../etc:/etc") Sample.previewed.1
    (by decide) (by decide) _ _ _ mem_cons_self Sample.previewed.2
  refine ⟨hrelative, hitem, hconfirm [] (by decide), (binds_sound _).2.mpr ?_⟩
  exact fun hback => hback.1 (by decide)

/-- Up from the directory and down into its neighbour `work`. -/
theorem comes_back :
    classifyBindSource (ascii "./../work") = .relative ∧
      resolveRelativePath Sample.workdir (ascii "./../work") = none ∧
      ¬ AtOrBelow Sample.workdir.path (Sample.workdir.target (ascii "./../work")) := by
  refine ⟨by decide, by decide, ?_⟩
  unfold AtOrBelow
  decide

end NrePlugins.DockerApp
