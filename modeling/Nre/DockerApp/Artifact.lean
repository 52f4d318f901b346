import Nre.Base.FileTree
import Nre.Base.NetIP
import Nre.DockerApp.BackupNames
import Nre.DockerApp.Agent

/-!
# Backup artifacts

The reader of `backup_artifact.go`: an artifact is a tar whose first member is the manifest, with a
digest for every other member. `openBackupArtifact` checks them all; the operations of a reader
read the file again and check the digests of what they use.

- `extractVolume`, `extractWorkspace` of the reader, which share `withMember`;
- `restoreDirFromVolumeTar` of `volume_ops.go`, for a volume that was staged;
- `stageBackupVolumeMember` of `backup_restore.go`, which stages it.

Those that write are programs over the calls to the file system. `Tar` is what a tar reader yields,
with zstd around it or not; file modes are left out.
-/

namespace NrePlugins.DockerApp

open GoPath

/-! ## Archives -/

inductive TarType where
  | reg | dir | other
  deriving DecidableEq

structure TarHeader where
  name : Bytes
  type : TarType
  size : Int

/-- What a tar reader yields, entry by entry. The content of a `truncated` entry breaks off. -/
inductive Tar where
  | eof
  | invalid
  | truncated (header : TarHeader) (content : Bytes)
  | entry (header : TarHeader) (content : Bytes) (rest : Tar)

structure BackupMemberDigest where
  name : Bytes
  sha256 : Bytes
  size : Int
  deriving DecidableEq

structure BackupManifest where
  version : Int
  appID : Bytes
  createdAt : Bytes
  compression : Bytes
  payloadSHA256 : Bytes
  payloadSize : Int
  members : List BackupMemberDigest
  deriving DecidableEq

/-- SHA-256, `json.Unmarshal` of a manifest, and the tar readers: of an artifact, and of a volume
in a stream that may break off after its bytes. -/
structure ArtifactFormat where
  sha256 : Bytes → Bytes
  unmarshal : Bytes → Option BackupManifest
  unpack : Bytes → Tar
  untar : Bytes → Bool → Tar

/-! ## Errors -/

inductive ManifestError where
  | version (value : Int)
  | appID
  | timestamp
  | compression (value : Bytes)
  | payloadChecksum
  | payloadSize
  | member (name : Bytes)
  | memberChecksum (name : Bytes)
  | memberSize (name : Bytes)
  | duplicated (name : Bytes)
  | composeMissing
  deriving DecidableEq

inductive ArtifactError where
  | manifestUnreadable | manifestOversized | manifestTruncated | manifestJSON | manifestMissing
  | manifest (cause : ManifestError)
  | tarInvalid | volumeTarInvalid | unexpectedMember | payloadMismatch
  | memberMissing (name : Bytes)
  | memberIrregular (name : Bytes)
  | memberTruncated (name : Bytes)
  | memberMismatch (name : Bytes)
  | notInManifest (name : Bytes)
  | escapes (name : Bytes)
  | unsupported (name : Bytes)
  | stream | file | notDirectory | volumeName | archiveMissing
  | archiveInvalid | archiveEscapes (name : Bytes) | archiveUnsupported (name : Bytes)
  | restoreCorrupt (cause : ArtifactError)
  | restoreVolume (cause : ArtifactError)
  deriving DecidableEq

/-- The errors that wrap `ErrBackupArtifactCorrupt`. -/
def ArtifactError.corrupt : ArtifactError → Bool
  | manifestUnreadable | manifestOversized | manifestTruncated | manifestJSON | manifestMissing => true
  | manifest _ | tarInvalid | volumeTarInvalid | unexpectedMember | payloadMismatch => true
  | memberMissing _ | memberIrregular _ | memberTruncated _ | memberMismatch _ => true
  | notInManifest _ | escapes _ | unsupported _ => true
  | _ => false

/-! ## Opening -/

def backupManifestName : Bytes := ascii "manifest.json"

def backupManifestVersion : Int := 1

def backupCompressionZstd : Bytes := ascii "zstd"

def backupManifestMaxBytes : Int := 1048576

/-- The members of a manifest, after the names in `seen`. -/
def validateMembers (seen : List Bytes) : List BackupMemberDigest → Except ManifestError Unit
  | [] => if backupComposeMember ∈ seen then .ok () else .error .composeMissing
  | member :: rest =>
    if validBackupMemberName member.name = false then .error (.member member.name)
    else if sha256Hex member.sha256 = false then .error (.memberChecksum member.name)
    else if member.size < 0 then .error (.memberSize member.name)
    else if member.name ∈ seen then .error (.duplicated member.name)
    else validateMembers (member.name :: seen) rest

def validateBackupManifest (manifest : BackupManifest) : Except ManifestError Unit :=
  if manifest.version ≠ backupManifestVersion then .error (.version manifest.version)
  else if validID manifest.appID = false then .error .appID
  else if GoTime.parses manifest.createdAt = false then .error .timestamp
  else if manifest.compression ≠ backupCompressionZstd then
    .error (.compression manifest.compression)
  else if sha256Hex manifest.payloadSHA256 = false then .error .payloadChecksum
  else if manifest.payloadSize < 0 then .error .payloadSize
  else validateMembers [] manifest.members

section Reader

variable (format : ArtifactFormat) (manifest : BackupManifest)

def hexDigest (content : Bytes) : Bytes := hexEncode (format.sha256 content)

/-- The manifest, and what follows it. -/
def readBackupManifest : Tar → Except ArtifactError (BackupManifest × Tar)
  | .eof => .error .manifestUnreadable
  | .invalid => .error .manifestUnreadable
  | .truncated header _ =>
    if header.name ≠ backupManifestName ∨ header.type ≠ .reg ∨
        backupManifestMaxBytes < header.size then
      .error .manifestOversized
    else .error .manifestTruncated
  | .entry header content rest =>
    if header.name ≠ backupManifestName ∨ header.type ≠ .reg ∨
        backupManifestMaxBytes < header.size then
      .error .manifestOversized
    else
      match format.unmarshal content with
      | none => .error .manifestJSON
      | some manifest =>
        match validateBackupManifest manifest with
        | .error e => .error (.manifest e)
        | .ok _ => .ok (manifest, rest)

/-- The members in the order of the manifest; `payload` are the bytes before. -/
def verifyMembers (manifest : BackupManifest) (payload : Bytes) :
    List BackupMemberDigest → Tar → Except ArtifactError Unit
  | [], .eof =>
    if (payload.length : Int) ≠ manifest.payloadSize ∨
        hexDigest format payload ≠ manifest.payloadSHA256 then
      .error .payloadMismatch
    else .ok ()
  | [], .invalid => .error .tarInvalid
  | [], _ => .error .unexpectedMember
  | want :: _, .eof => .error (.memberMissing want.name)
  | _ :: _, .invalid => .error .tarInvalid
  | want :: _, .truncated header _ =>
    if header.name ≠ want.name ∨ header.type ≠ .reg then .error (.memberIrregular want.name)
    else .error (.memberTruncated want.name)
  | want :: members, .entry header content rest =>
    if header.name ≠ want.name ∨ header.type ≠ .reg then .error (.memberIrregular want.name)
    else if (content.length : Int) ≠ want.size ∨ hexDigest format content ≠ want.sha256 then
      .error (.memberMismatch want.name)
    else verifyMembers manifest (payload ++ content) members rest

def verifyBackupArtifact (tar : Tar) : Except ArtifactError BackupManifest := do
  let (manifest, rest) ← readBackupManifest format tar
  verifyMembers format manifest [] manifest.members rest
  return manifest

def openBackupArtifact (file : Bytes) : Except ArtifactError BackupManifest :=
  verifyBackupArtifact format (format.unpack file)

/-! ## Reading again -/

abbrev ExtractM := Prog FileAnswer ArtifactError

/-- What follows the manifest; behind a truncated one the reader finds nothing. -/
def skipBackupManifest : Tar → Except ArtifactError Tar
  | .eof => .error .manifestUnreadable
  | .invalid => .error .manifestUnreadable
  | .truncated header _ =>
    if header.name ≠ backupManifestName then .error .manifestMissing else .ok .invalid
  | .entry header _ rest =>
    if header.name ≠ backupManifestName then .error .manifestMissing else .ok rest

def memberDigest (name : Bytes) : Except ArtifactError Bytes :=
  match manifest.members.find? (·.name == name) with
  | some member => .ok member.sha256
  | none => .error (.notInManifest name)

/-- The member is given to `consume`, with whether it breaks off. -/
def withMemberOf {α : Type} (manifest : BackupManifest) (name : Bytes)
    (consume : Bytes → Bool → ExtractM α) : Tar → ExtractM α
  | .eof => .fail (.memberMissing name)
  | .invalid => .fail .tarInvalid
  | .truncated header content =>
    if header.name ≠ name then .fail .tarInvalid
    else if header.type ≠ .reg then .fail (.memberIrregular name)
    else do
      let _ ← Prog.ofExcept (memberDigest manifest name)
      let _ ← consume content true
      .fail (.memberTruncated name)
  | .entry header content rest =>
    if header.name ≠ name then withMemberOf manifest name consume rest
    else if header.type ≠ .reg then .fail (.memberIrregular name)
    else do
      let want ← Prog.ofExcept (memberDigest manifest name)
      let result ← consume content false
      if hexDigest format content ≠ want then .fail (.memberMismatch name) else return result

def withMember {α : Type} (manifest : BackupManifest) (file : Bytes) (name : Bytes)
    (consume : Bytes → Bool → ExtractM α) : ExtractM α := do
  let tar ← Prog.ofExcept (skipBackupManifest (format.unpack file))
  withMemberOf format manifest name consume tar

/-! ## Extracting -/

def requireBackupDestDir (destDir : Bytes) : ExtractM Unit := do
  match ← Prog.ask (FileCall.stat destDir) with
  | none => .fail .file
  | some .dir => return ()
  | some _ => .fail .notDirectory

def mkdirAll (path : Bytes) : ExtractM Unit := do
  match ← Prog.ask (FileCall.mkdirAll path) with
  | none => .fail .file
  | some _ => return ()

/-- `writeTarFile`, and the copy in `ExtractWorkspace`. -/
def writeTarFile (target content : Bytes) : ExtractM Unit := do
  match ← Prog.ask (FileCall.create target) with
  | none => .fail .file
  | some file =>
    match ← Prog.ask (FileCall.append file content) with
    | none => .fail .file
    | some _ => return ()

/-- One member of the workspace; the digest it must have. -/
def extractMember (destDir name content : Bytes) : ExtractM Bytes :=
  match safeBackupEntryName (name.drop backupWorkspacePrefix.length) with
  | none => .fail (.escapes name)
  | some rel => do
    let want ← Prog.ofExcept (memberDigest manifest name)
    let target := joinTo destDir rel
    mkdirAll (dir target)
    writeTarFile target content
    return want

def TarHeader.workspace (header : TarHeader) : Bool :=
  header.type == .reg && backupWorkspacePrefix.isPrefixOf header.name

def extractMembers (manifest : BackupManifest) (destDir : Bytes) : Tar → ExtractM Unit
  | .eof => .ret ()
  | .invalid => .fail .tarInvalid
  | .truncated header content =>
    if header.workspace = false then .fail .tarInvalid
    else do
      let _ ← extractMember manifest destDir header.name content
      .fail .stream
  | .entry header content rest =>
    if header.workspace = false then extractMembers manifest destDir rest
    else do
      let want ← extractMember manifest destDir header.name content
      if hexDigest format content ≠ want then .fail (.memberMismatch header.name)
      else extractMembers manifest destDir rest

def extractWorkspace (file : Bytes) (destDir : Bytes) : ExtractM Unit := do
  requireBackupDestDir destDir
  let tar ← Prog.ofExcept (skipBackupManifest (format.unpack file))
  extractMembers format manifest destDir tar

/-- An entry of a volume. -/
def extractTarEntry (target : Bytes) (header : TarHeader) (content : Bytes)
    (unsupported : ArtifactError) : ExtractM Unit :=
  match header.type with
  | .dir => mkdirAll target
  | .reg => do
    mkdirAll (dir target)
    writeTarFile target content
  | .other => .fail unsupported

def extractTarToDir (root : Bytes) : Tar → ExtractM Unit
  | .eof => .ret ()
  | .invalid => .fail .volumeTarInvalid
  | .truncated header content =>
    match safeBackupEntryName header.name with
    | none => .fail (.escapes header.name)
    | some rel => do
      extractTarEntry (joinTo root rel) header content (.unsupported header.name)
      .fail (if header.type = .reg then .stream else .volumeTarInvalid)
  | .entry header content rest =>
    match safeBackupEntryName header.name with
    | none => .fail (.escapes header.name)
    | some rel => do
      extractTarEntry (joinTo root rel) header content (.unsupported header.name)
      extractTarToDir root rest

def extractVolume (file : Bytes) (volume destDir : Bytes) : ExtractM Unit :=
  if validBackupVolumeName volume = false then .fail .volumeName
  else do
    requireBackupDestDir destDir
    withMember format manifest file (backupVolumeMember volume) fun content broken =>
      extractTarToDir destDir (format.untar content broken)

/-- `strings.TrimSuffix(name, "/")`. -/
def trimSlash (name : Bytes) : Bytes := if name.getLast? = some (ch '/') then name.dropLast else name

def restoreEntries (dir : Bytes) : Tar → ExtractM Unit
  | .eof => .ret ()
  | .invalid => .fail .archiveInvalid
  | .truncated header content =>
    match safeBackupEntryName (trimSlash header.name) with
    | none => .fail (.archiveEscapes header.name)
    | some rel =>
      if rel = [] ∨ rel = dot then .fail .archiveInvalid
      else do
        extractTarEntry (joinTo dir rel) header content (.archiveUnsupported header.name)
        .fail (if header.type = .reg then .stream else .archiveInvalid)
  | .entry header content rest =>
    match safeBackupEntryName (trimSlash header.name) with
    | none => .fail (.archiveEscapes header.name)
    | some rel =>
      if rel = [] ∨ rel = dot then restoreEntries dir rest
      else do
        extractTarEntry (joinTo dir rel) header content (.archiveUnsupported header.name)
        restoreEntries dir rest

/-- `staged` is the staged file, if it is there and regular. -/
def restoreDirFromVolumeTar (staged : Option Bytes) (dir : Bytes) : ExtractM Unit :=
  match staged with
  | none => .fail .archiveMissing
  | some content => do
    mkdirAll dir
    restoreEntries dir (format.untar content false)

/-! ## Staging a volume -/

def volumeStagedArchivePath (root appID staged : Bytes) : Bytes :=
  joinTo root (join [appID, backupStagingDir, staged ++ backupVolumeSuffix])

/-- The member is copied into a temporary file, which gets its name once the digest is right. -/
def stageBackupVolumeMember (file : Bytes) (root appID staged member : Bytes) : ExtractM Unit := do
  let path := volumeStagedArchivePath root appID staged
  match ← Prog.ask (FileCall.mkdirAll (dir path)) with
  | none => .fail (.restoreVolume .file)
  | some _ =>
    match ← Prog.ask (FileCall.createTemp (dir path)) with
    | none => .fail (.restoreVolume .file)
    | some temporary =>
      let copied ← (withMember format manifest file (backupVolumeMember member)
        fun content broken => do
          match ← Prog.ask (FileCall.append temporary content) with
          | none => .fail .file
          | some _ => if broken then .fail .stream else return ()).attempt
      match copied with
      | .error e =>
        let _ ← Prog.ask (FileCall.remove temporary)
        .fail (if e.corrupt then .restoreCorrupt e else .restoreVolume e)
      | .ok _ =>
        match ← Prog.ask (FileCall.rename temporary path) with
        | none =>
          let _ ← Prog.ask (FileCall.remove temporary)
          .fail (.restoreVolume .file)
        | some _ => return ()

end Reader

end NrePlugins.DockerApp
