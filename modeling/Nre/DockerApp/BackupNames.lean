import Nre.Base.GoPath
import Nre.Base.GoTime
import Nre.DockerApp.Agent

/-!
# Names in backups

The checks of `backup_artifact.go` and `backup_run.go` on names: `safeBackupEntryName` for an
entry that is extracted below a directory, `validBackupMemberName` for a member of an artifact,
`validBackupVolumeName` for a volume.

A safe name is a cleaned path that does not begin with dots (`safeBackupEntryName_eq_some`). A path
of plain elements is safe when it is short, has no backslash and does not look like a Windows drive
(`safeBackupEntryName_join`). The names of artifacts are such paths: the Agent discards the file
that is meant (`discardName_path`), and the key of an object is the prefix and the name
(`backupS3ObjectKey_name`).
-/

namespace NrePlugins.DockerApp

open List
open GoPath
open GoTime (Instant)

/-- `windowsDrive` finds a drive. -/
def windowsDrive : Bytes → Bool
  | letter :: colon :: _ =>
    colon == ch ':' && (within (ch 'A') (ch 'Z') letter || within (ch 'a') (ch 'z') letter)
  | _ => false

def safeBackupEntryName (name : Bytes) : Option Bytes :=
  if name = [] ∨ 512 < name.length ∨ 0 ∈ name ∨ ch '\\' ∈ name then none
  else if isAbs name then none
  else if windowsDrive name then none
  else
    let clean := clean name
    if clean = dotdot ∨ (dotdot ++ [ch '/']) <+: clean ∨ isAbs clean then none
    else some clean

def backupComposeMember : Bytes := ascii "compose.yaml"

def backupWorkspacePrefix : Bytes := ascii "workspace/"

def backupVolumePrefix : Bytes := ascii "volumes/"

def backupVolumeSuffix : Bytes := ascii ".tar"

def validBackupMemberName (name : Bytes) : Bool :=
  (safeBackupEntryName name).isSome && decide (¬ ascii "/../" <:+: name) &&
    (name == backupComposeMember ||
      (backupWorkspacePrefix.isPrefixOf name && backupWorkspacePrefix.length < name.length) ||
      (backupVolumePrefix.isPrefixOf name && backupVolumeSuffix.isSuffixOf name &&
        backupVolumePrefix.length + backupVolumeSuffix.length < name.length))

def isAlnum (c : UInt8) : Bool :=
  within (ch 'a') (ch 'z') c || within (ch 'A') (ch 'Z') c || within (ch '0') (ch '9') c

def backupVolumeNameMax : Nat := 128

def validBackupVolumeName : Bytes → Bool
  | [] => false
  | first :: rest =>
    decide (rest.length < backupVolumeNameMax) && isAlnum first &&
      rest.all fun c => isAlnum c || c == ch '_' || c == ch '.' || c == ch '-'

def backupVolumeMember (volume : Bytes) : Bytes := backupVolumePrefix ++ volume ++ backupVolumeSuffix

def sha256Hex (value : Bytes) : Bool :=
  value.length == 64 && value.all fun c => within (ch '0') (ch '9') c || within (ch 'a') (ch 'f') c

def backupArtifactDir : Bytes := ascii "backups"

def backupStagingDir : Bytes := ascii "backup-staging"

def backupArtifactSuffix : Bytes := ascii ".tar.zst"

def backupArtifactName (appID : Bytes) (created : GoTime.Instant) : Bytes :=
  appID ++ ch '-' :: (created.compact ++ backupArtifactSuffix)

/-- `path.Join(backupArtifactDir, id)`. -/
def artifactPath (id : Bytes) : Bytes := clean (backupArtifactDir ++ ch '/' :: id)

/-- The Agent's side of `backup-pack discard`: the artifact that the path names. -/
def discardName (path : Bytes) : Option Bytes :=
  match safeBackupEntryName (trimSpace path) with
  | none => none
  | some rel =>
    if base rel = rel ∨ dir rel ≠ backupArtifactDir ∨
        backupArtifactSuffix.isSuffixOf rel = false then none
    else some (base rel)

/-- The prefixes that `parseBackupS3Destination` accepts. -/
def validS3Prefix (pathPrefix : Bytes) : Bool :=
  decide (pathPrefix.length ≤ 512) &&
    pathPrefix.all fun c => isAlnum c || c == ch '.' || c == ch '_' || c == ch '/' || c == ch '-'

def backupS3ObjectKey (pathPrefix object : Bytes) : Option Bytes :=
  match safeBackupEntryName (trimSpace object) with
  | none => none
  | some rel =>
    if rel = [] ∨ rel = dot then none
    else if pathPrefix = [] then some rel
    else some (pathPrefix ++ ch '/' :: rel)

/-! ## Safe names -/

theorem safeBackupEntryName_eq_some {name rel : Bytes} (h : safeBackupEntryName name = some rel) :
    isAbs name = false ∧ rel = clean name ∧ rel ≠ dotdot ∧ ¬ (dotdot ++ [ch '/']) <+: rel := by
  unfold safeBackupEntryName at h
  split_ifs at h with hbad habs hdrive
  dsimp only at h
  split_ifs at h with hup
  cases h
  obtain ⟨hdots, hpfx, -⟩ := not_or.mp hup |>.imp_right not_or.mp
  exact ⟨Bool.eq_false_iff.mpr habs, rfl, hdots, hpfx⟩

/-- The bytes of a bounded text. -/
abbrev Printable (c : UInt8) : Prop := c ≠ 0 ∧ c ≠ ch '\r' ∧ c ≠ ch '\n'

/-- The bytes that are not trimmed. -/
abbrev Visible (c : UInt8) : Prop := c < 128 ∧ isSpaceRune c.toNat = false

/-- The bytes of a path that is neither one of Windows nor cut short. -/
abbrev PathByte (c : UInt8) : Prop := Printable c ∧ Visible c ∧ c ≠ ch '\\' ∧ c ≠ ch ':'

theorem windowsDrive_of_colon {s : Bytes} (h : ch ':' ∉ s) : windowsDrive s = false := by
  match s with
  | [] => rfl
  | [_] => rfl
  | letter :: colon :: _ =>
    have hne : colon ≠ ch ':' := fun heq => h (heq ▸ by simp)
    simp [windowsDrive, hne]

theorem safeBackupEntryName_join {es : List Bytes} (h : ∀ e ∈ es, Plain e) (hne : es ≠ [])
    (hlen : (join es).length ≤ 512) (hbytes : ∀ c ∈ join es, PathByte c) :
    safeBackupEntryName (join es) = some (join es) := by
  have habs := isAbs_join fun e he => ⟨(h e he).ne_nil, (h e he).no_slash⟩
  have hdrive := windowsDrive_of_colon fun hc => (hbytes _ hc).2.2.2 rfl
  have hbad : ¬ (join es = [] ∨ 512 < (join es).length ∨ 0 ∈ join es ∨ ch '\\' ∈ join es) := by
    rintro (hnil | hlong | hzero | hslash)
    · exact join_ne_nil h hne hnil
    · omega
    · exact (hbytes _ hzero).1.1 rfl
    · exact (hbytes _ hslash).2.2.1 rfl
  have hup : ¬ (join es = dotdot ∨ (dotdot ++ [ch '/']) <+: join es ∨ isAbs (join es) = true) := by
    rw [← or_assoc]
    rintro (hpfx | htrue)
    · exact join_not_up h hpfx
    · exact Bool.false_ne_true (habs.symm.trans htrue)
  rw [safeBackupEntryName, if_neg hbad, habs, if_neg Bool.false_ne_true, hdrive,
    if_neg Bool.false_ne_true, clean_join h hne, if_neg hup]

/-! ## Names of artifacts -/

theorem validID_spec {id : Bytes} (h : validID id = true) : id ≠ [] ∧ id.length ≤ 64 ∧
    ∀ c ∈ id, isAlnum c = true ∨ c = ch '-' := by
  simp only [validID, Bool.and_eq_true, bne_iff_ne, decide_eq_true_eq, all_eq_true,
    Bool.or_eq_true, beq_iff_eq] at h
  obtain ⟨⟨⟨⟨hne, hlen⟩, -⟩, -⟩, hall⟩ := h
  refine ⟨hne, hlen, fun c hc => ?_⟩
  rcases hall c hc with (hlow | hdigit) | hdash
  · exact .inl (by simp [isAlnum, hlow])
  · exact .inl (by simp [isAlnum, hdigit])
  · exact .inr hdash

/-- The bytes of an artifact's name. -/
def nameByte (c : UInt8) : Bool := isAlnum c || c == ch '-' || c == ch '.'

/-- What the bytes of names are not, gone through once. -/
theorem nameByte_facts : ∀ c : UInt8, (nameByte c = true → PathByte c ∧ c ≠ ch '/') ∧
    (isDigit c = true → nameByte c = true) ∧
    ((isAlnum c || c == ch '.' || c == ch '_' || c == ch '/' || c == ch '-') = true →
      PathByte c) := by
  decide +kernel

theorem separator_facts : (∀ c ∈ backupArtifactDir ++ [ch '/'], PathByte c) ∧
    ∀ c ∈ [ch '-', ch 'T', ch ':', ch 'Z'], Printable c := by
  decide +kernel

theorem two_nameByte (n : Nat) : (GoTime.two n).all nameByte = true := by
  have hall := GoTime.two_all n
  rw [all_eq_true] at hall ⊢
  exact fun c hc => (nameByte_facts c).2.1 (hall c hc)

/-- A time with a year of four digits. -/
def FourDigits (t : Instant) : Prop := 0 ≤ t.year ∧ t.year < 10000

theorem yearText_eq {t : Instant} (h : FourDigits t) :
    GoTime.yearText t.year = GoTime.two (t.year.natAbs / 100) ++ GoTime.two (t.year.natAbs % 100) := by
  have hyear := h.1
  have hlt := h.2
  rw [GoTime.yearText, if_neg (by omega), GoTime.four, if_pos (by omega)]

theorem compact_spec {t : Instant} (h : FourDigits t) :
    t.compact.length = 16 ∧ t.compact.all nameByte = true := by
  have hT : nameByte (ch 'T') = true := by decide
  have hZ : nameByte (ch 'Z') = true := by decide
  constructor
  · rw [Instant.compact, yearText_eq h]
    rfl
  · rw [Instant.compact, yearText_eq h]
    simp [all_append, two_nameByte, hT, hZ]

/-- The name of an artifact of the app. -/
def IsArtifactName (appID name : Bytes) : Prop :=
  validID appID = true ∧ ∃ t, FourDigits t ∧ name = backupArtifactName appID t

theorem plain_backupArtifactDir : Plain backupArtifactDir :=
  ⟨by decide, by decide, by decide, by decide⟩

/-- The path of an artifact in its workspace, element by element. -/
theorem path_eq_join (name : Bytes) :
    backupArtifactDir ++ ch '/' :: name = join [backupArtifactDir, name] := by
  rw [join_cons_cons, join_singleton]

theorem boundedText_of_bytes {s : Bytes} {maximum : Nat} (hne : s ≠ []) (hlen : s.length ≤ maximum)
    (hbytes : ∀ c ∈ s, Printable c) : boundedText s maximum = true := by
  simpa [boundedText, hne, hlen] using hbytes

theorem boundedText_rfc3339 {t : Instant} (ht : FourDigits t) :
    boundedText t.rfc3339 64 = true := by
  have htwo : ∀ n, ∀ c ∈ GoTime.two n, Printable c := fun n c hc =>
    ((nameByte_facts c).1 (all_eq_true.mp (two_nameByte n) c hc)).1.1
  have hrest := separator_facts.2
  rw [Instant.rfc3339, yearText_eq ht]
  refine boundedText_of_bytes (by simp) ?_ ?_
  · exact Nat.le_of_lt (by decide : 20 < 64)
  · intro c hc
    simp only [mem_append, mem_cons, not_mem_nil, or_false] at hc
    rcases hc with (hc | hc) | rfl | hc | rfl | hc | rfl | hc | rfl | hc | rfl | hc | rfl
    all_goals first
      | exact htwo _ c hc
      | exact hrest _ (by simp)

section ArtifactNames

variable {appID name : Bytes} (h : IsArtifactName appID name)
include h

theorem artifactName_all : name.all nameByte = true := by
  obtain ⟨hid, t, ht, rfl⟩ := h
  have hdash : nameByte (ch '-') = true := by decide
  have hsuffix : backupArtifactSuffix.all nameByte = true := by decide
  have happ : appID.all nameByte = true := by
    rw [all_eq_true]
    intro c hc
    rcases (validID_spec hid).2.2 c hc with h | rfl
    · simp [nameByte, h]
    · decide
  simp only [backupArtifactName, all_append, all_cons, happ, hdash, hsuffix,
    (compact_spec ht).2, Bool.and_self]

theorem artifactName_length : 25 ≤ name.length ∧ name.length ≤ 89 := by
  obtain ⟨hid, t, ht, rfl⟩ := h
  have hlen := (validID_spec hid).2.1
  have hcompact := (compact_spec ht).1
  have hsuffix : backupArtifactSuffix.length = 8 := by decide
  simp only [backupArtifactName, length_append, length_cons, hcompact, hsuffix]
  omega

theorem artifactName_byte {c : UInt8} (hc : c ∈ name) : PathByte c ∧ c ≠ ch '/' :=
  (nameByte_facts c).1 (all_eq_true.mp (artifactName_all h) c hc)

theorem artifactName_plain : Plain name := by
  have hlen := (artifactName_length h).1
  refine ⟨?_, ?_, ?_, fun hc => (artifactName_byte h hc).2 rfl⟩
  all_goals
    rintro rfl
    exact absurd hlen (by decide)

theorem suffix_artifactName : backupArtifactSuffix <:+ name := by
  obtain ⟨-, t, -, rfl⟩ := h
  exact ⟨appID ++ ch '-' :: t.compact, by rw [backupArtifactName, append_assoc]; rfl⟩

theorem trimSpace_name : trimSpace name = name :=
  trimSpace_of_visible fun _ hc => (artifactName_byte h hc).1.2.1

theorem path_byte {c : UInt8} (hc : c ∈ backupArtifactDir ++ ch '/' :: name) : PathByte c := by
  rw [← singleton_append, ← append_assoc] at hc
  rcases mem_append.mp hc with hc | hc
  · exact separator_facts.1 c hc
  · exact (artifactName_byte h hc).1

theorem trimSpace_path :
    trimSpace (backupArtifactDir ++ ch '/' :: name) = backupArtifactDir ++ ch '/' :: name :=
  trimSpace_of_visible fun _ hc => (path_byte h hc).2.1

theorem path_plain : ∀ e ∈ [backupArtifactDir, name], Plain e := by
  simp only [forall_mem_cons]
  exact ⟨plain_backupArtifactDir, artifactName_plain h, by simp⟩

theorem artifactPath_eq : artifactPath name = backupArtifactDir ++ ch '/' :: name := by
  rw [artifactPath, path_eq_join, clean_join (path_plain h) (cons_ne_nil _ _)]

theorem path_length : (backupArtifactDir ++ ch '/' :: name).length ≤ 97 := by
  have hlen := (artifactName_length h).2
  have hdir : backupArtifactDir.length = 7 := by decide
  rw [length_append, length_cons]
  omega

theorem safe_path : safeBackupEntryName (backupArtifactDir ++ ch '/' :: name) =
    some (backupArtifactDir ++ ch '/' :: name) := by
  have hlen := path_length h
  have hbyte := fun c => path_byte h (c := c)
  rw [path_eq_join] at hlen hbyte ⊢
  exact safeBackupEntryName_join (path_plain h) (cons_ne_nil _ _) (by omega) hbyte

theorem safe_name : safeBackupEntryName name = some name := by
  have hlen := (artifactName_length h).2
  have hbyte := fun c hc => (artifactName_byte h (c := c) hc).1
  have hplain : ∀ e ∈ [name], Plain e := by
    simpa using artifactName_plain h
  rw [← join_singleton name] at hlen hbyte ⊢
  exact safeBackupEntryName_join hplain (cons_ne_nil _ _) (by omega) hbyte

/-- The Agent discards the artifact that is meant. -/
theorem discardName_path : discardName (backupArtifactDir ++ ch '/' :: name) = some name := by
  have hplain := artifactName_plain h
  have hlast : lastIndexByte (backupArtifactDir ++ ch '/' :: name) (ch '/') =
      some backupArtifactDir.length := lastIndexByte_append hplain.no_slash
  have hbase : base (backupArtifactDir ++ ch '/' :: name) = name := by
    rw [base, hlast]
    simp
  have hdir : dir (backupArtifactDir ++ ch '/' :: name) = backupArtifactDir := by
    rw [dir, hlast]
    rfl
  have hsuffix : backupArtifactSuffix.isSuffixOf (backupArtifactDir ++ ch '/' :: name) = true :=
    isSuffixOf_iff_suffix.mpr ((suffix_artifactName h).trans
      ((suffix_cons _ _).trans (suffix_append _ _)))
  have hne : name ≠ backupArtifactDir ++ ch '/' :: name := by
    intro heq
    have hlen := congrArg List.length heq
    rw [length_append, length_cons] at hlen
    omega
  rw [discardName, trimSpace_path h, safe_path h]
  dsimp only
  rw [hbase, hdir, hsuffix, if_neg (by simp [hne])]

/-- The key under which an artifact is uploaded. -/
theorem backupS3ObjectKey_name (pathPrefix : Bytes) : backupS3ObjectKey pathPrefix name =
    some (if pathPrefix = [] then name else pathPrefix ++ ch '/' :: name) := by
  have hplain := artifactName_plain h
  rw [backupS3ObjectKey, trimSpace_name h, safe_name h]
  dsimp only
  rw [if_neg (not_or.mpr ⟨hplain.ne_nil, hplain.ne_dot⟩)]
  split_ifs <;> rfl

theorem boundedText_name : boundedText name 160 = true :=
  boundedText_of_bytes (artifactName_plain h).ne_nil
    (Nat.le_trans (artifactName_length h).2 (by decide)) fun _ hc => (artifactName_byte h hc).1.1

theorem boundedText_path : boundedText (backupArtifactDir ++ ch '/' :: name) 512 = true :=
  boundedText_of_bytes (by simp) (Nat.le_trans (path_length h) (by decide)) fun _ hc =>
    (path_byte h hc).1

/-- The bytes of the key of an artifact. -/
theorem key_byte {pathPrefix : Bytes} {c : UInt8} (hpfx : validS3Prefix pathPrefix = true)
    (hc : c ∈ if pathPrefix = [] then name else pathPrefix ++ ch '/' :: name) :
    PathByte c := by
  rw [validS3Prefix, Bool.and_eq_true, all_eq_true] at hpfx
  split_ifs at hc
  · exact (artifactName_byte h hc).1
  · rcases mem_append.mp hc with hc | hc
    · exact (nameByte_facts c).2.2 (hpfx.2 c hc)
    · rcases mem_cons.mp hc with rfl | hc
      · decide
      · exact (artifactName_byte h hc).1

/-- The key of an artifact is a bounded text, if it is not too long. -/
theorem boundedText_key {pathPrefix key : Bytes} (hpfx : validS3Prefix pathPrefix = true)
    (hkey : backupS3ObjectKey pathPrefix name = some key) (hlen : key.length ≤ 512) :
    boundedText key 512 = true := by
  rw [backupS3ObjectKey_name h] at hkey
  cases hkey
  refine boundedText_of_bytes ?_ hlen fun c hc => (key_byte h hpfx hc).1
  split_ifs
  · exact (artifactName_plain h).ne_nil
  · simp

end ArtifactNames

end NrePlugins.DockerApp
