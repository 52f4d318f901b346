import Nre.DockerApp.BackupNames

/-!
# Backup runs

`RunBackup` of `backup_run.go`, `DeleteBackup` of `backup_restore.go`, the push of `backup_node.go`
and the record store of `backup_store.go`, as programs over the calls they make. A run

- checks what it was asked for (`acceptRun`) and that app and target are managed;
- archives the volumes and packs the artifact on the app's Agent;
- brings it to its destination: uploads it to S3, pushes it to another Agent, or leaves it;
- appends the record, and takes the copies back if that fails (`compensateFailedRecord`).

The volumes of a compose document are a parameter. A run of an app never meets another one
here, so its lock is left out.
-/

namespace NrePlugins.DockerApp

open List
open GoTime (Instant)

/-! ## Records -/

/-- The fields of a stored app that a backup reads. -/
structure BackupApp where
  id : Bytes := []
  agentID : Bytes := []
  compose : Bytes := []

inductive BackupDestination where
  | s3 | node
  deriving DecidableEq

structure BackupDestinationRef where
  type : BackupDestination
  location : Bytes
  deriving DecidableEq

structure BackupRecord where
  id : Bytes
  appID : Bytes
  originAgentID : Bytes
  created : Bytes
  sizeBytes : Int
  sha256 : Bytes
  destination : BackupDestinationRef
  deriving DecidableEq

/-- `BackupRecord.Validate` accepts. -/
def BackupRecord.valid (record : BackupRecord) : Bool :=
  boundedText record.id 160 && validID record.appID && validAgentID record.originAgentID &&
    GoTime.parses record.created && decide (0 ≤ record.sizeBytes) && sha256Hex record.sha256 &&
    (record.destination.location == [] || boundedText record.destination.location 512)

def maxBackupRecords : Nat := 256

/-- The stored records; each id has one. -/
structure BackupSnapshot where
  records : List BackupRecord
  nodup : (records.map (·.id)).Nodup

namespace BackupSnapshot

def empty : BackupSnapshot := ⟨[], nodup_nil⟩

def get (snapshot : BackupSnapshot) (id : Bytes) : Option BackupRecord :=
  snapshot.records.find? (·.id == id)

def add (snapshot : BackupSnapshot) (record : BackupRecord) (h : snapshot.get record.id = none) :
    BackupSnapshot :=
  ⟨record :: snapshot.records, by
    rw [map_cons, nodup_cons]
    refine ⟨?_, snapshot.nodup⟩
    intro hmem
    obtain ⟨other, hother, hid⟩ := mem_map.mp hmem
    exact find?_eq_none.mp h other hother (beq_iff_eq.mpr hid)⟩

def drop (snapshot : BackupSnapshot) (id : Bytes) : BackupSnapshot :=
  ⟨snapshot.records.filter (·.id != id),
    snapshot.nodup.sublist (filter_sublist.map BackupRecord.id)⟩

end BackupSnapshot

/-! ## Calls -/

inductive BackupStage where
  | volumeArchive | pack | upload | nodeTransfer | recordStore | destination | record
  deriving DecidableEq

inductive BackupError where
  | typedHandlesUnavailable | appInvalid | destinationInvalid | destinationUnconfigured
  | nodeDisabled | appUnknown | agentOffline | targetUnmanaged | targetOffline | transferInvalid
  | planInvalid | objectMismatch | objectReference | packInvalid | recordInvalid | boundExceeded
  | stateConflict | recordUnknown | recordID | unconfirmed | host
  | stage (stage : BackupStage) (cause : BackupError)
  deriving DecidableEq

structure S3Settings where
  endpoint : Bytes := []
  bucket : Bytes := []
  pathPrefix : Bytes := []

structure BackupSettings where
  s3 : S3Settings := {}
  nodeEnabled : Bool := false

def BackupSettings.s3Configured (settings : BackupSettings) : Bool :=
  trimSpace settings.s3.endpoint != [] && trimSpace settings.s3.bucket != []

structure VolumePlan where
  spec : Bytes
  staged : Bytes
  member : Bytes

/-- What the Agent answers to `pack`. -/
structure PackedArtifact where
  accepted : Bool
  name : Bytes
  path : Bytes
  size : Int
  sha256 : Bytes
  created : Bytes

/-- What it answers to `upload`. -/
structure UploadedObject where
  accepted : Bool
  object : Bytes
  size : Int
  sha256 : Bytes

/-- The calls of a run. `upload` and `transfer` name the artifact that was packed; the Agent
finds it by its path and its name. -/
inductive BackupCall where
  | loadApps
  | report (agentID : Bytes)
  | volumeArchive (app : BackupApp) (spec : Bytes)
  | now
  | pack (app : BackupApp) (plans : List VolumePlan) (created : Instant)
  | clean (app : BackupApp)
  | discard (agentID appID path : Bytes)
  | upload (s3 : S3Settings) (app : BackupApp) (packed : PackedArtifact)
  | deleteObject (s3 : S3Settings) (agentID appID object : Bytes)
  | transfer (source target appID name : Bytes)
  | loadBackups
  | storeBackups (snapshot : BackupSnapshot)

def BackupAnswer : BackupCall → Type
  | .loadApps => Except BackupError (List BackupApp)
  | .report _ => Except BackupError Bool
  | .volumeArchive .. => Except BackupError Bytes
  | .now => Instant
  | .pack .. => Except BackupError PackedArtifact
  | .clean _ => Except BackupError Unit
  | .discard .. => Except BackupError Unit
  | .upload .. => Except BackupError UploadedObject
  | .deleteObject .. => Except BackupError Bool
  | .transfer .. => Except BackupError Unit
  | .loadBackups => Except BackupError (Option BackupSnapshot)
  | .storeBackups _ => Except BackupError Unit

abbrev BackupM := Prog BackupAnswer BackupError

/-- `pluginCall`: the Agent must have an id. -/
def pluginCall {α : Type} (agentID : Bytes) (c : BackupCall)
    (answered : BackupAnswer c → Except BackupError α) : BackupM α :=
  if validAgentID agentID = false then .fail .agentOffline
  else do Prog.ofExcept (answered (← Prog.ask c))

def ensure (ok : Bool) (error : BackupError) : BackupM Unit := if ok then .ret () else .fail error

/-! ## The record store -/

/-- `loadSnapshot`, with what `LoadBackups` refuses. -/
def loadSnapshot : BackupM BackupSnapshot := do
  match ← Prog.ofExcept (← Prog.ask BackupCall.loadBackups) with
  | none => return .empty
  | some snapshot =>
    if maxBackupRecords < snapshot.records.length ∨ snapshot.records.all (·.valid) = false then
      .fail .typedHandlesUnavailable
    else return snapshot

def persist (snapshot : BackupSnapshot) : BackupM Unit :=
  if maxBackupRecords < snapshot.records.length then .fail .typedHandlesUnavailable
  else do Prog.ofExcept (← Prog.ask (BackupCall.storeBackups snapshot))

/-- `Append`. -/
def appendBackupRecord (record : BackupRecord) : BackupM Unit := do
  let record := { record with id := trimSpace record.id }
  if record.valid = false then .fail .recordInvalid
  else
    let snapshot ← loadSnapshot
    if maxBackupRecords ≤ snapshot.records.length then .fail .boundExceeded
    else if h : snapshot.get record.id = none then persist (snapshot.add record h)
    else .fail .stateConflict

/-- `Get`. -/
def getBackupRecord (id : Bytes) : BackupM (Option BackupRecord) := do
  return (← loadSnapshot).get (trimSpace id)

/-- `Remove`. -/
def removeBackupRecord (id : Bytes) : BackupM Unit := do
  let snapshot ← loadSnapshot
  if (snapshot.get (trimSpace id)).isNone then .fail .recordUnknown
  else persist (snapshot.drop (trimSpace id))

/-! ## Cleaning up -/

def cleanBackupStaging (app : BackupApp) : BackupM Unit :=
  if validAgentID app.agentID = false then return ()
  else do
    let _ ← Prog.ask (BackupCall.clean app)
    return ()

def discardBackupArtifactChecked (agentID appID path : Bytes) : BackupM Unit :=
  if validAgentID agentID = false ∨ trimSpace path = [] then return ()
  else do Prog.ofExcept (← Prog.ask (BackupCall.discard agentID appID path))

/-- Best effort: a failure is not looked at. -/
def discardBackupArtifact (agentID appID path : Bytes) : BackupM Unit := do
  let _ ← (discardBackupArtifactChecked agentID appID path).attempt
  return ()

/-- `backupObjectName`: the key without the prefix. -/
def backupObjectName (location pathPrefix : Bytes) : Bytes :=
  let location := trimSpace location
  let pathPrefix := trimSpace pathPrefix
  if pathPrefix ≠ [] ∧ (pathPrefix ++ [ch '/']) <+: location then
    location.drop (pathPrefix.length + 1)
  else location

variable (settings : BackupSettings)

def deleteBackupObject (agentID appID : Bytes) (record : BackupRecord) : BackupM Unit := do
  let object := backupObjectName record.destination.location settings.s3.pathPrefix
  if object = [] then .fail .objectReference
  else
    let accepted ← pluginCall agentID (.deleteObject settings.s3 agentID appID object) id
    ensure accepted .typedHandlesUnavailable

def compensateFailedRecord (app : BackupApp) (record : BackupRecord)
    (cause : BackupError) : BackupM BackupRecord :=
  match record.destination.type with
  | .s3 => do
    let _ ← (deleteBackupObject settings app.agentID app.id record).attempt
    .fail (.stage .recordStore cause)
  | .node => do
    let location := trimSpace record.destination.location
    let removed ←
      if location ≠ [] ∧ location ≠ app.agentID then
        (discardBackupArtifactChecked location app.id (artifactPath record.id)).attempt
      else pure (.ok ())
    match removed with
    | .error _ => .fail (.stage .recordStore cause)
    | .ok _ =>
      let _ ← (discardBackupArtifactChecked app.agentID app.id (artifactPath record.id)).attempt
      .fail (.stage .recordStore cause)

/-! ## A run -/

section Run

variable (planBackupVolumes : Bytes → Except BackupError (List VolumePlan))

/-- What a run is asked for: the app, whether the destination is S3, and the target Agent. -/
structure AcceptedRun where
  appID : Bytes
  useS3 : Bool
  target : Bytes

def destinationS3 : Bytes := ascii "s3"

def destinationNode : Bytes := ascii "node"

def acceptRun (appID destination targetAgentID : Bytes) : Except BackupError AcceptedRun :=
  let appID := trimSpace appID
  let useS3 := destination == destinationS3 || (destination == [] && settings.s3Configured)
  let target := trimSpace targetAgentID
  if validID appID = false then .error .appInvalid
  else if destination ≠ [] ∧ destination ≠ destinationS3 ∧ destination ≠ destinationNode then
    .error .destinationInvalid
  else if useS3 ∧ settings.s3Configured = false then .error .destinationUnconfigured
  else if destination = destinationNode ∧ settings.nodeEnabled = false then .error .nodeDisabled
  else if destination = [] ∧ useS3 = false ∧ settings.nodeEnabled = false then
    .error .destinationUnconfigured
  else if target ≠ [] ∧ (useS3 ∨ validAgentID target = false) then .error .destinationInvalid
  else .ok ⟨appID, useS3, target⟩

def loadApps : BackupM (List BackupApp) := do Prog.ofExcept (← Prog.ask BackupCall.loadApps)

/-- `ManagedBackupAgents`, unsorted. -/
def managedBackupAgents : BackupM (List Bytes) := do
  return ((← loadApps).map (trimSpace ·.agentID)).filter (· ≠ [])

def checkTarget (target : Bytes) : BackupM Unit :=
  if target = [] then return ()
  else do ensure ((← managedBackupAgents).contains target) .targetUnmanaged

/-- The volumes are archived one after the other. -/
def archiveVolumes (app : BackupApp) : List VolumePlan → BackupM Unit
  | [] => .ret ()
  | plan :: rest => do
    match ← Prog.ask (BackupCall.volumeArchive app plan.spec) with
    | .error e =>
      cleanBackupStaging app
      .fail (.stage .volumeArchive e)
    | .ok archivePath =>
      if archivePath ≠ GoPath.join [app.id, backupStagingDir, plan.staged ++ backupVolumeSuffix] then
        cleanBackupStaging app
        .fail (.stage .volumeArchive .typedHandlesUnavailable)
      else archiveVolumes app rest

/-- `packBackup`. -/
def packBackup (app : BackupApp) (plans : List VolumePlan) (created : Instant) :
    BackupM PackedArtifact := do
  let packed ← pluginCall app.agentID (.pack app plans created) id
  if packed.accepted = false ∨ boundedText packed.name 160 = false ∨
      boundedText packed.path 512 = false ∨ packed.size ≤ 0 ∨ sha256Hex packed.sha256 = false ∨
      boundedText packed.created 64 = false then
    .fail .typedHandlesUnavailable
  else return packed

def uploadBackupArtifact (app : BackupApp) (packed : PackedArtifact) : BackupM Bytes := do
  let uploaded ← pluginCall app.agentID (.upload settings.s3 app packed) id
  if uploaded.accepted = false ∨ boundedText uploaded.object 512 = false then
    .fail .typedHandlesUnavailable
  else if uploaded.size ≠ packed.size ∨ uploaded.sha256 ≠ packed.sha256 then .fail .objectMismatch
  else return uploaded.object

/-- `PushPackedBackupArtifact`; it returns the Agent that has the artifact then. -/
def pushPackedBackupArtifact (app : BackupApp) (targetAgentID : Bytes)
    (packed : PackedArtifact) : BackupM Bytes := do
  let source := trimSpace app.agentID
  let target := trimSpace targetAgentID
  let appID := trimSpace app.id
  let name := trimSpace packed.name
  if settings.nodeEnabled = false then .fail .nodeDisabled
  else if validID appID = false ∨ validAgentID source = false ∨ validAgentID target = false ∨
      sha256Hex (asciiLower (trimSpace packed.sha256)) = false then
    .fail .transferInvalid
  else
    let managed ← managedBackupAgents
    if source ∉ managed ∨ target ∉ managed then .fail .targetUnmanaged
    else
      match ← Prog.ask (BackupCall.report target) with
      | .error _ => .fail .targetOffline
      | .ok online =>
        ensure online .targetOffline
        Prog.ofExcept (← Prog.ask (BackupCall.transfer source target appID name))
        return target

/-- A destination that was not reached: the artifact is discarded. -/
def abandonRun {α : Type} (app : BackupApp) (packed : PackedArtifact) (stage : BackupStage)
    (cause : BackupError) : BackupM α := do
  cleanBackupStaging app
  discardBackupArtifact app.agentID app.id packed.path
  .fail (.stage stage cause)

/-- The artifact is brought to its destination. -/
def deliver (app : BackupApp) (useS3 : Bool) (target : Bytes)
    (packed : PackedArtifact) : BackupM BackupDestinationRef :=
  if useS3 then do
    match ← (uploadBackupArtifact settings app packed).attempt with
    | .error e => abandonRun app packed .upload e
    | .ok object => return ⟨.s3, object⟩
  else if target ≠ [] then do
    match ← (pushPackedBackupArtifact settings app target packed).attempt with
    | .error e => abandonRun app packed .nodeTransfer e
    | .ok location => return ⟨.node, location⟩
  else return ⟨.node, app.agentID⟩

/-- From the packed artifact to its record. -/
def recordBackup (app : BackupApp) (useS3 : Bool) (target : Bytes)
    (packed : PackedArtifact) : BackupM BackupRecord := do
  let destination ← deliver settings app useS3 target packed
  let record : BackupRecord :=
    ⟨packed.name, app.id, app.agentID, packed.created, packed.size, packed.sha256, destination⟩
  match ← (appendBackupRecord record).attempt with
  | .error e => compensateFailedRecord settings app record e
  | .ok _ => return record

def runBackup (settings : BackupSettings) (appID destination targetAgentID : Bytes) :
    BackupM BackupRecord := do
  let run ← Prog.ofExcept (acceptRun settings appID destination targetAgentID)
  match (← loadApps).find? (·.id == run.appID) with
  | none => .fail .appUnknown
  | some app =>
    if validAgentID app.agentID = false then .fail .agentOffline
    else
      checkTarget run.target
      let plans ← Prog.ofExcept (planBackupVolumes app.compose)
      let created ← Prog.ask BackupCall.now
      archiveVolumes app plans
      match ← (packBackup app plans created).attempt with
      | .error e =>
        cleanBackupStaging app
        .fail (.stage .pack e)
      | .ok packed => recordBackup settings app run.useS3 run.target packed

end Run

/-! ## A deletion -/

def removeBackupDestination (record : BackupRecord) : BackupM Unit :=
  match record.destination.type with
  | .s3 =>
    if settings.s3Configured = false then .fail .destinationUnconfigured
    else do
      match ← (deleteBackupObject settings record.originAgentID record.appID record).attempt with
      | .error e => .fail (.stage .destination e)
      | .ok _ => return ()
  | .node => do
    let path := backupArtifactDir ++ ch '/' :: record.id
    let discard (agentID : Bytes) : BackupM Unit := do
      match ← (pluginCall agentID (.discard agentID record.appID path) id).attempt with
      | .error e => .fail (.stage .destination e)
      | .ok _ => return ()
    discard record.originAgentID
    let location := trimSpace record.destination.location
    if location ≠ [] ∧ location ≠ record.originAgentID then discard location else return ()

def deleteBackup (recordID confirm : Bytes) : BackupM Unit := do
  let recordID := trimSpace recordID
  if boundedText recordID 160 = false then .fail .recordID
  else
    match ← getBackupRecord recordID with
    | none => .fail .recordUnknown
    | some record =>
      if trimSpace confirm ≠ record.appID then .fail .unconfirmed
      else
        removeBackupDestination settings record
        match ← (removeBackupRecord recordID).attempt with
        | .error e => .fail (.stage .record e)
        | .ok _ => return ()

end NrePlugins.DockerApp
