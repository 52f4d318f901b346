import Nre.DockerApp.BackupRun

/-!
# Copies of backups

The artifacts in the `backups/` trees of the Agents, the objects in the bucket and the stored
records, over any sequence of `RunBackup` and `DeleteBackup` calls under one set of settings.
A forward step may fail without effect; what cleans up succeeds.

A copy belongs to a record that owns it (`BackupRecord.Owns`). Runs to the Agents keep to that, as
the stages of a run show: `Kept` says that every copy made has its record but for those that the
run has made itself and not recorded yet.

A run to S3 leaves its artifact on the Agent, and neither a failed run nor the deletion of the
record takes it away (`s3_artifact_left`).
-/

namespace NrePlugins.DockerApp

open List
open GoTime (Instant)

/-! ## The estate -/

/-- The bucket that settings name, at the host of their endpoint. -/
structure Bucket where
  endpoint : Bytes
  name : Bytes
  deriving DecidableEq

/-- The bucket of `parseBackupS3Destination`. -/
def S3Settings.place (s3 : S3Settings) : Bucket := ⟨trimSpace s3.endpoint, trimSpace s3.bucket⟩

/-- The key that the Agent uses for a name. It refuses settings with an invalid prefix. -/
def S3Settings.key (s3 : S3Settings) (object : Bytes) : Option Bytes :=
  if validS3Prefix (trimSpace s3.pathPrefix) then
    backupS3ObjectKey (trimSpace s3.pathPrefix) object
  else none

theorem S3Settings.key_eq_some {s3 : S3Settings} {object key : Bytes} :
    s3.key object = some key ↔ validS3Prefix (trimSpace s3.pathPrefix) = true ∧
      backupS3ObjectKey (trimSpace s3.pathPrefix) object = some key := by
  unfold S3Settings.key
  split_ifs with h <;> simp [h]

/-- An artifact on an Agent, or an object in a bucket. -/
inductive Copy where
  | file (agentID appID name : Bytes)
  | object (place : Bucket) (key : Bytes)
  deriving DecidableEq

/-- Artifacts and objects, records, and all copies that were ever made. -/
structure Estate where
  copies : List Copy
  stored : Option BackupSnapshot
  made : List Copy

/-- The answer of an Agent that has packed. -/
structure PackedArtifact.Honest (packed : PackedArtifact) (app : BackupApp) (created : Instant) :
    Prop where
  accepted : packed.accepted = true
  name : packed.name = backupArtifactName app.id created
  path : packed.path = backupArtifactDir ++ ch '/' :: packed.name
  size : 0 < packed.size
  sha256 : sha256Hex packed.sha256 = true
  created : packed.created = created.rfc3339

namespace Estate

def snapshot (e : Estate) : BackupSnapshot := e.stored.getD .empty

def records (e : Estate) : List BackupRecord := e.snapshot.records

def make (e : Estate) (c : Copy) : Estate := { e with copies := c :: e.copies, made := c :: e.made }

def erase (e : Estate) (c : Copy) : Estate := { e with copies := e.copies.filter (· ≠ c) }

/-- The clock shows a year of four digits. A pack fails where the artifact exists. -/
def respond (e : Estate) : (c : BackupCall) → BackupAnswer c → Estate → Prop
  | .loadApps, _, e' => e' = e
  | .report _, _, e' => e' = e
  | .volumeArchive _ _, _, e' => e' = e
  | .now, t, e' => (0 ≤ Instant.year t ∧ Instant.year t < 10000) ∧ e' = e
  | .pack app _ created, answer, e' =>
    match answer with
    | .error _ => e' = e
    | .ok packed => PackedArtifact.Honest packed app created ∧
        .file app.agentID app.id packed.name ∉ e.copies ∧
        e' = e.make (.file app.agentID app.id packed.name)
  | .clean _, _, e' => e' = e
  | .discard agentID appID path, answer, e' =>
    match discardName path with
    | none => answer = .error .packInvalid ∧ e' = e
    | some name => answer = .ok () ∧ e' = e.erase (.file agentID appID name)
  | .upload s3 _ packed, answer, e' =>
    match answer with
    | .error _ => e' = e
    | .ok uploaded =>
      s3.key packed.name = some uploaded.object ∧
        uploaded = ⟨true, uploaded.object, packed.size, packed.sha256⟩ ∧
        e' = e.make (.object s3.place uploaded.object)
  | .deleteObject s3 _ _ object, answer, e' =>
    match s3.key object with
    | none => answer = .error .host ∧ e' = e
    | some key => answer = .ok true ∧ e' = e.erase (.object s3.place key)
  | .transfer _ target appID name, answer, e' =>
    match answer with
    | .error _ => e' = e
    | .ok _ => e' = e.make (.file target appID name)
  | .loadBackups, answer, e' => (∀ found, answer = .ok found → found = e.stored) ∧ e' = e
  | .storeBackups snapshot, answer, e' =>
    match answer with
    | .error _ => e' = e
    | .ok _ => e' = { e with stored := some snapshot }

end Estate

/-- A copy belongs to a record: the artifact on its origin, the one that was pushed to another
Agent, the object. -/
def BackupRecord.Owns (record : BackupRecord) : Copy → Prop
  | .file agentID appID name =>
    name = record.id ∧ appID = record.appID ∧
      (agentID = record.originAgentID ∨
        (record.destination.type = .node ∧ trimSpace record.destination.location ≠ [] ∧
          agentID = trimSpace record.destination.location))
  | .object _ key => record.destination.type = .s3 ∧ key = record.destination.location

/-- Every copy that was made and is there belongs to a record that is stored. -/
def Estate.Recorded (e : Estate) : Prop :=
  ∀ c ∈ e.copies, c ∈ e.made → ∃ record ∈ e.records, record.Owns c

/-! ## Sequences of calls -/

inductive BackupRequest where
  | run (appID destination targetAgentID : Bytes)
  | delete (recordID confirm : Bytes)

abbrev BackupEvent := Event BackupAnswer

open Estate

section Calls

variable (planBackupVolumes : Bytes → Except BackupError (List VolumePlan))
  (settings : BackupSettings)

def BackupRequest.program : BackupRequest → BackupM Unit
  | run appID destination targetAgentID => do
    let _ ← runBackup planBackupVolumes settings appID destination targetAgentID
    return ()
  | delete recordID confirm => deleteBackup settings recordID confirm

/-- One call, with what it has seen. -/
def EstateStep (e : Estate) (call : BackupRequest × List BackupEvent) (e' : Estate) : Prop :=
  ∃ r, Runs respond e (call.1.program planBackupVolumes settings) call.2 e' r

/-- No copy was made yet. -/
def EstateInitial (e : Estate) : Prop := e.made = []

/-- The key of the object is not too long for a record. -/
def KeyFits (packed : PackedArtifact) : Prop :=
  ∀ key, backupS3ObjectKey (trimSpace settings.s3.pathPrefix) packed.name = some key →
    key.length ≤ 512

/-- What lets a record be appended: the state calls succeed, the id is not in use, and the key
of the object fits. -/
def Favourable (e : Estate) : BackupEvent → Prop
  | ⟨.loadBackups, .error _⟩ => False
  | ⟨.storeBackups _, .error _⟩ => False
  | ⟨.pack _ _ _, .ok packed⟩ => e.snapshot.get packed.name = none ∧ KeyFits settings packed
  | _ => True

/-- The condition on calls. A run to S3 gets its record stored; a record of S3 is not deleted. -/
def Covered (e : Estate) (call : BackupRequest × List BackupEvent) : Prop :=
  match call.1 with
  | .run appID destination targetAgentID =>
    (∃ accepted, acceptRun settings appID destination targetAgentID = .ok accepted ∧
      accepted.useS3 = true) →
      e.records.length < maxBackupRecords ∧ e.records.all (·.valid) = true ∧
        ∀ event ∈ call.2, Favourable settings e event
  | .delete recordID _ => ∀ record ∈ e.records, record.id = trimSpace recordID →
      record.destination.type = .node

end Calls

/-! ## Copies on the way to their record -/

/-- Every copy that was made and is there has its record, but for those in `extra`, which are also
the only ones that are not among the `old`; and every artifact that was made has a proper
name. -/
structure Kept (old : List Copy) (extra : Copy → Prop) (e : Estate) : Prop where
  named : ∀ agentID appID name, .file agentID appID name ∈ e.made → IsArtifactName appID name
  recorded : ∀ c ∈ e.copies, c ∈ e.made → extra c ∨ ∃ record ∈ e.records, record.Owns c
  new : ∀ c ∈ e.copies, extra c ∨ c ∈ old

variable {agentID appID : Bytes} {old : List Copy} {extra extra' : Copy → Prop} {e e' : Estate}
  {c : Copy} {settings : BackupSettings} {destination targetAgentID : Bytes}

theorem Kept.mono (h : Kept old extra e) (himp : ∀ c, extra c → extra' c) : Kept old extra' e :=
  ⟨h.named, fun c hc hmade => (h.recorded c hc hmade).imp_left (himp c),
    fun c hc => (h.new c hc).imp_left (himp c)⟩

/-- Every copy has its record. -/
abbrev AllKept (old : List Copy) (e : Estate) : Prop := Kept old (fun _ => False) e

/-- From here on. -/
theorem Kept.renew (h : AllKept old e) : AllKept e.copies e :=
  ⟨h.named, h.recorded, fun _ hc => .inr hc⟩

theorem Kept.erase (h : Kept old extra e) (c : Copy) :
    Kept old (fun other => extra other ∧ other ≠ c) (e.erase c) := by
  refine ⟨h.named, fun other hother hmade => ?_, fun other hother => ?_⟩
  all_goals obtain ⟨hin, hne⟩ := mem_filter.mp hother
  · exact (h.recorded other hin hmade).imp_left fun hextra => ⟨hextra, of_decide_eq_true hne⟩
  · exact (h.new other hin).imp_left fun hextra => ⟨hextra, of_decide_eq_true hne⟩

theorem Kept.make (h : Kept old extra e) (hnamed : ∀ agentID appID name,
      c = .file agentID appID name → IsArtifactName appID name) :
    Kept old (fun other => extra other ∨ other = c) (e.make c) := by
  constructor
  · intro agentID appID name hmade
    rcases mem_cons.mp hmade with heq | hmade
    · exact hnamed agentID appID name heq.symm
    · exact h.named agentID appID name hmade
  · intro other hother hmade
    by_cases heq : other = c
    · exact .inl (.inr heq)
    · have hin := (mem_cons.mp hother).resolve_left heq
      have hwas := (mem_cons.mp hmade).resolve_left heq
      exact (h.recorded other hin hwas).imp_left .inl
  · intro other hother
    rcases mem_cons.mp hother with heq | hin
    · exact .inl (.inr heq)
    · exact (h.new other hin).imp_left .inl

theorem Kept.make_file (h : Kept old extra e) {name : Bytes} (hname : IsArtifactName appID name) :
    Kept old (fun other => extra other ∨ other = .file agentID appID name)
      (e.make (.file agentID appID name)) := by
  refine h.make ?_
  rintro _ _ _ ⟨⟩
  exact hname

/-- Only the records change. -/
structure Rewritten (records : List BackupRecord) (e e' : Estate) : Prop where
  copies : e'.copies = e.copies
  made : e'.made = e.made
  records : e'.records = records

/-- A record is added that owns what had none. -/
theorem Kept.add {record : BackupRecord} (h : Kept old extra e)
    (hnew : Rewritten (record :: e.records) e e') (howns : ∀ c, extra c → record.Owns c) :
    AllKept e'.copies e' := by
  constructor
  · rw [hnew.made]
    exact h.named
  · rw [hnew.copies, hnew.made, hnew.records]
    intro c hc hwas
    rcases h.recorded c hc hwas with hextra | ⟨owner, hin, hown⟩
    · exact .inr ⟨record, mem_cons_self, howns c hextra⟩
    · exact .inr ⟨owner, mem_cons_of_mem _ hin, hown⟩
  · exact fun c hc => .inr hc

/-! ## The stages of a run -/

/-- The answers of the estate that meet a condition. -/
def Within (good : BackupEvent → Prop) (e : Estate) (c : BackupCall) (answer : BackupAnswer c)
    (e' : Estate) : Prop :=
  e.respond c answer e' ∧ good ⟨c, answer⟩

/-- Every run of the program from `e` ends as `post` says. -/
abbrev Ends {α : Type} (good : BackupEvent → Prop) (post : Estate → Except BackupError α → Prop)
    (p : BackupM α) (e : Estate) : Prop :=
  Always (Within good) (fun _ => True) post p e

/-- Calls that leave the estate as it is. -/
def BackupCall.Quiet : BackupCall → Prop
  | .loadApps | .report _ | .volumeArchive _ _ | .clean _ | .loadBackups => True
  | _ => False

section Stages

variable {α β : Type} {good : BackupEvent → Prop} {post : Estate → Except BackupError β → Prop}

theorem respond_quiet {c : BackupCall} {answer : BackupAnswer c} (hc : c.Quiet)
    (h : e.respond c answer e') : e' = e := by
  cases c with
  | loadBackups => exact h.2
  | loadApps | report | volumeArchive | clean => exact h
  | _ => exact hc.elim

/-- A program of quiet calls. -/
theorem ends_quiet {p : BackupM α} (hp : Only BackupCall.Quiet p) :
    Ends good (fun e' _ => e' = e) p e := by
  induction p with
  | ret | fail => exact ⟨trivial, rfl⟩
  | call c next ih =>
    refine ⟨trivial, fun answer e' hresp => ?_⟩
    obtain rfl := respond_quiet hp.1 hresp.1
    exact ih answer (hp.2 answer () trivial)

/-- First a quiet program, then another one. -/
theorem ends_quiet_bind {p : BackupM α} {f : α → BackupM β} (hp : Only BackupCall.Quiet p)
    (hfail : ∀ err, post e (.error err)) (hf : ∀ a, Ends good post (f a) e) :
    Ends good post (p >>= f) e := by
  refine (ends_quiet hp).then ?_ ?_
  · rintro e' err - rfl
    exact hfail err
  · rintro e' a - rfl
    exact hf a

theorem quiet_cleanBackupStaging {app : BackupApp} :
    Only BackupCall.Quiet (cleanBackupStaging app) := by
  unfold cleanBackupStaging
  split_ifs
  · trivial
  · exact Only.bind (Only.ask trivial) fun _ => trivial

theorem quiet_loadApps : Only BackupCall.Quiet loadApps :=
  Only.bind (Only.ask trivial) fun _ => Only.ofExcept _

theorem quiet_ensure {ok : Bool} {err : BackupError} : Only BackupCall.Quiet (ensure ok err) := by
  unfold ensure
  split_ifs <;> trivial

theorem quiet_managedBackupAgents : Only BackupCall.Quiet managedBackupAgents :=
  Only.bind quiet_loadApps fun _ => trivial

theorem quiet_checkTarget {target : Bytes} : Only BackupCall.Quiet (checkTarget target) := by
  unfold checkTarget
  split_ifs
  · trivial
  · exact Only.bind quiet_managedBackupAgents fun _ => quiet_ensure

theorem quiet_archiveVolumes {app : BackupApp} {plans : List VolumePlan} :
    Only BackupCall.Quiet (archiveVolumes app plans) := by
  induction plans with
  | nil => trivial
  | cons plan rest ih =>
    refine Only.bind (Only.ask trivial) fun answer => ?_
    cases answer with
    | error err => exact Only.bind quiet_cleanBackupStaging fun _ => trivial
    | ok archivePath =>
      dsimp only
      split_ifs
      · exact Only.bind quiet_cleanBackupStaging fun _ => trivial
      · exact ih

/-- What is loaded are the stored records, if the state call succeeds and they are proper. -/
theorem ends_loadSnapshot {f : BackupSnapshot → BackupM β}
    (hfail : ¬ (e.records.length ≤ maxBackupRecords ∧ e.records.all (·.valid) = true ∧
      ∀ err, ¬ good ⟨.loadBackups, .error err⟩) → ∀ err, post e (.error err))
    (h : Ends good post (f e.snapshot) e) : Ends good post (loadSnapshot >>= f) e := by
  refine Always.bind (Always.ask trivial ?_)
  rintro (err | found) e' ⟨⟨hfound, rfl⟩, hgood⟩
  · exact ⟨trivial, hfail (fun hproper => hproper.2.2 err hgood) err⟩
  · obtain rfl := hfound found rfl
    unfold records snapshot at hfail
    unfold snapshot at h
    cases hstored : e'.stored with
    | none =>
      rw [hstored] at h
      exact ⟨trivial, h⟩
    | some snapshot =>
      rw [hstored] at h hfail
      dsimp only [Prog.ofExcept]
      show Ends good _ (if maxBackupRecords < snapshot.records.length ∨
        snapshot.records.all (·.valid) = false then _ else pure snapshot) e'
      split_ifs with hbad
      · refine ⟨trivial, hfail ?_ _⟩
        rintro ⟨hlen, hall, -⟩
        exact hbad.elim (Nat.not_lt.mpr hlen) fun hinvalid => nomatch hinvalid.symm.trans hall
      · exact ⟨trivial, h⟩

/-- Nothing stands in the way of a new record with the id. -/
structure Open (good : BackupEvent → Prop) (snapshot : BackupSnapshot) (id : Bytes) : Prop where
  count : snapshot.records.length < maxBackupRecords
  all_valid : snapshot.records.all (·.valid) = true
  fresh : snapshot.get id = none
  load : ∀ err, ¬ good ⟨.loadBackups, .error err⟩
  store : ∀ snapshot err, ¬ good ⟨.storeBackups snapshot, .error err⟩

/-- A record is appended, or nothing changes. -/
theorem ends_appendBackupRecord {record : BackupRecord} (htrim : trimSpace record.id = record.id) :
    Ends good (fun e' r => match r with
    | .ok _ => Rewritten (record :: e.records) e e'
    | .error _ => e' = e ∧ ¬ (record.valid = true ∧ Open good e.snapshot record.id))
      (appendBackupRecord record) e := by
  unfold appendBackupRecord
  rw [htrim]
  extract_lets trimmed
  split_ifs with hvalid
  · exact ⟨trivial, rfl, fun h => by cases hvalid.symm.trans h.1⟩
  · refine ends_loadSnapshot (fun hr _ =>
      ⟨rfl, fun ⟨_, h⟩ => hr ⟨Nat.le_of_lt h.count, h.all_valid, h.load⟩⟩) ?_
    split_ifs with hfull hnew
    · exact ⟨trivial, rfl, fun h => Nat.not_lt.mpr hfull h.2.count⟩
    · unfold persist
      split_ifs with hlong
      · refine ⟨trivial, rfl, fun _ => ?_⟩
        have hone : (e.snapshot.add trimmed hnew).records.length =
          e.snapshot.records.length + 1 := rfl
        omega
      · refine Always.ask trivial ?_
        rintro (err | u) e' ⟨hresp, hgood⟩
        · obtain rfl : e' = e := hresp
          exact ⟨trivial, rfl, fun h => h.2.store _ err hgood⟩
        · obtain rfl : e' = { e with stored := some (e.snapshot.add trimmed hnew) } := hresp
          exact ⟨trivial, rfl, rfl, rfl⟩
    · exact ⟨trivial, rfl, fun h => hnew h.2.fresh⟩

/-- The Agent takes an artifact away. -/
theorem ends_discard {name : Bytes} (hagent : validAgentID agentID = true)
    (hname : IsArtifactName appID name) (h : Kept old extra e) :
    Ends good (fun e' r => r = .ok () ∧
      Kept old (fun c => extra c ∧ c ≠ .file agentID appID name) e')
      (discardBackupArtifactChecked agentID appID (backupArtifactDir ++ ch '/' :: name)) e := by
  have hpath : trimSpace (backupArtifactDir ++ ch '/' :: name) ≠ [] := by
    rw [trimSpace_path hname]
    simp
  unfold discardBackupArtifactChecked
  rw [if_neg (by simp [hagent, hpath])]
  refine Always.ask trivial ?_
  rintro answer e' ⟨hresp, -⟩
  simp only [respond, discardName_path hname] at hresp
  obtain ⟨rfl, rfl⟩ := hresp
  exact ⟨trivial, rfl, h.erase _⟩

/-- A call to an Agent. -/
theorem ends_pluginCall {c : BackupCall} {answered : BackupAnswer c → Except BackupError α}
    {f : α → BackupM β} (hagent : validAgentID agentID = true)
    (h : ∀ answer e', Within good e c answer e' →
      match answered answer with
      | .ok a => Ends good post (f a) e'
      | .error err => post e' (.error err)) :
    Ends good post (pluginCall agentID c answered >>= f) e := by
  unfold pluginCall
  rw [if_neg (by simp [hagent])]
  refine Always.bind (Always.ask trivial fun answer e' hresp => ?_)
  have hnext := h answer e' hresp
  generalize answered answer = r at hnext ⊢
  cases r with
  | ok | error => exact ⟨trivial, hnext⟩

section Run

variable {app : BackupApp} {t : Instant} {packed : PackedArtifact}

/-- The artifact of a run, on the Agent of its app. -/
def originCopy (app : BackupApp) (packed : PackedArtifact) : Copy :=
  .file app.agentID app.id packed.name

/-- An artifact that was packed for an app with a proper id and Agent. -/
structure Packed (app : BackupApp) (t : Instant) (packed : PackedArtifact) : Prop where
  agent : validAgentID app.agentID = true
  trimmed : trimSpace app.id = app.id
  id : validID app.id = true
  time : FourDigits t
  honest : packed.Honest app t

theorem Packed.name (hp : Packed app t packed) : IsArtifactName app.id packed.name :=
  ⟨hp.id, t, hp.time, hp.honest.name⟩

theorem ends_packBackup (plans : List VolumePlan) (hagent : validAgentID app.agentID = true)
    (htrim : trimSpace app.id = app.id) (hid : validID app.id = true) (ht : FourDigits t) :
    Ends good (fun e' r => match r with
      | .ok packed => Packed app t packed ∧ good ⟨.pack app plans t, .ok packed⟩ ∧
          e' = e.make (originCopy app packed)
      | .error _ => e' = e) (packBackup app plans t) e := by
  refine ends_pluginCall hagent ?_
  rintro (err | packed) e' ⟨hresp, hgood⟩
  · exact hresp
  · obtain ⟨hhonest, -, rfl⟩ := hresp
    have hp : Packed app t packed := ⟨hagent, htrim, hid, ht, hhonest⟩
    have hpath : boundedText packed.path 512 = true := by
      rw [hhonest.path]
      exact boundedText_path hp.name
    have hcreated : boundedText packed.created 64 = true := by
      rw [hhonest.created]
      exact boundedText_rfc3339 ht
    have hsize := hhonest.size
    dsimp only [id]
    rw [if_neg (by simp [hhonest.accepted, boundedText_name hp.name, hpath, hcreated,
      hhonest.sha256, hsize])]
    exact ⟨trivial, hp, hgood, rfl⟩

/-- What a run has made when the artifact is at its destination. -/
def Delivered (old : List Copy) (app : BackupApp) (packed : PackedArtifact) (e' : Estate) :
    BackupDestinationRef → Prop
  | ⟨.s3, object⟩ => boundedText object 512 = true ∧
      ∃ place, Kept old (fun c => c = originCopy app packed ∨ c = .object place object) e'
  | ⟨.node, location⟩ =>
    (location = app.agentID ∧ Kept old (· = originCopy app packed) e') ∨
      (trimSpace location = location ∧ validAgentID location = true ∧
        Kept old (fun c => c = originCopy app packed ∨ c = .file location app.id packed.name) e')

/-- The record of the run. -/
def recordOf (app : BackupApp) (packed : PackedArtifact) (destination : BackupDestinationRef) :
    BackupRecord :=
  ⟨packed.name, app.id, app.agentID, packed.created, packed.size, packed.sha256, destination⟩

/-- It owns all that the run has made. -/
theorem Delivered.add {destination : BackupDestinationRef}
    (h : Delivered old app packed e destination)
    (hnew : Rewritten (recordOf app packed destination :: e.records) e e') :
    AllKept e'.copies e' := by
  have horigin : (recordOf app packed destination).Owns (originCopy app packed) :=
    ⟨rfl, rfl, .inl rfl⟩
  obtain ⟨type, location⟩ := destination
  cases type with
  | s3 =>
    obtain ⟨-, place, hkept⟩ := h
    refine hkept.add hnew ?_
    rintro c (rfl | rfl)
    · exact horigin
    · exact ⟨rfl, rfl⟩
  | node =>
    rcases h with ⟨-, hkept⟩ | ⟨hloc, hvalid, hkept⟩
    · refine hkept.add hnew ?_
      rintro c rfl
      exact horigin
    · have howned : (recordOf app packed ⟨.node, location⟩).Owns
          (.file location app.id packed.name) := by
        refine ⟨rfl, rfl, .inr ⟨rfl, ?_⟩⟩
        show trimSpace location ≠ [] ∧ location = trimSpace location
        rw [hloc]
        refine ⟨?_, rfl⟩
        rintro rfl
        cases hvalid
      refine hkept.add hnew ?_
      rintro c (rfl | rfl)
      · exact horigin
      · exact howned

/-- How a run ends: all that was made is recorded, and what it has made itself is gone if it
fails. -/
def Concluded {α : Type} (old : List Copy) (e' : Estate) : Except BackupError α → Prop
  | .ok _ => AllKept e'.copies e'
  | .error _ => AllKept old e'

/-- The staging tree is not an artifact. -/
theorem ends_clean {f : Unit → BackupM β} (app : BackupApp) (h : Ends good post (f ()) e) :
    Ends good post (cleanBackupStaging app >>= f) e := by
  unfold cleanBackupStaging
  split_ifs
  · exact h
  · refine Always.ask trivial fun answer e' hresp => ?_
    obtain rfl : e' = e := hresp.1
    exact h

variable (settings) (hp : Packed app t packed)

include hp

theorem ends_upload (hkey : KeyFits settings packed) :
    Ends good (fun e' r => match r with
      | .ok object => boundedText object 512 = true ∧ e' = e.make (.object settings.s3.place object)
      | .error _ => e' = e) (uploadBackupArtifact settings app packed) e := by
  refine ends_pluginCall hp.agent ?_
  rintro (err | uploaded) e' ⟨hresp, -⟩
  · exact hresp
  · obtain ⟨hobject, huploaded, rfl⟩ := hresp
    obtain ⟨hpfx, hobject⟩ := S3Settings.key_eq_some.mp hobject
    have hbounded := boundedText_key hp.name hpfx hobject (hkey _ hobject)
    have haccepted := congrArg UploadedObject.accepted huploaded
    have hsize := congrArg UploadedObject.size huploaded
    have hsha := congrArg UploadedObject.sha256 huploaded
    dsimp only [id]
    rw [if_neg (by simp [haccepted, hbounded]), if_neg (by simp [hsize, hsha])]
    exact ⟨trivial, hbounded, rfl⟩

theorem ends_push (target : Bytes) : Ends good (fun e' r => match r with
      | .ok location => trimSpace location = location ∧ validAgentID location = true ∧
          e' = e.make (.file location app.id packed.name)
      | .error _ => e' = e) (pushPackedBackupArtifact settings app target packed) e := by
  unfold pushPackedBackupArtifact
  extract_lets source chosen appID name
  split_ifs with hdisabled hinvalid
  · exact ⟨trivial, rfl⟩
  · exact ⟨trivial, rfl⟩
  · refine ends_quiet_bind quiet_managedBackupAgents (fun _ => rfl) fun managed => ?_
    split_ifs
    · exact ⟨trivial, rfl⟩
    · refine Always.ask trivial ?_
      rintro (err | online) e' ⟨hresp, -⟩
      · obtain rfl : e' = e := hresp
        exact ⟨trivial, rfl⟩
      · obtain rfl : e' = e := hresp
        refine ends_quiet_bind quiet_ensure (fun _ => rfl) fun _ => Always.ask trivial ?_
        rintro (err | u) e'' ⟨hresp, -⟩
        · exact ⟨trivial, hresp⟩
        · refine ⟨trivial, trimSpace_trimSpace target, ?_, ?_⟩
          · simp only [not_or, Bool.not_eq_false] at hinvalid
            exact hinvalid.2.2.1
          · obtain rfl : e'' = e'.make (.file chosen appID name) := hresp
            have happ : appID = app.id := hp.trimmed
            have hname : name = packed.name := trimSpace_name hp.name
            rw [happ, hname]

/-- The artifact is taken back from its origin, whatever comes of it. -/
theorem ends_discard_origin {f : Except BackupError Unit → BackupM β} (h : Kept old extra e)
    (hf : ∀ e', Kept old (fun c => extra c ∧ c ≠ originCopy app packed) e' →
      Ends good post (f (.ok ())) e') :
    Ends good post ((discardBackupArtifactChecked app.agentID app.id
      (backupArtifactDir ++ ch '/' :: packed.name)).attempt >>= f) e := by
  refine (ends_discard hp.agent hp.name h).attemptThen ?_
  rintro e' r - ⟨rfl, hkept⟩
  exact hf e' hkept

/-- A run that does not reach its destination takes its artifact back. -/
theorem ends_abandonRun {post : Estate → Except BackupError α → Prop}
    (h : Kept old (· = originCopy app packed) e) (stage : BackupStage) (cause : BackupError)
    (hpost : ∀ e' err, AllKept old e' → post e' (.error err)) :
    Ends good post (abandonRun app packed stage cause) e := by
  refine ends_clean app ?_
  unfold discardBackupArtifact
  rw [hp.honest.path, Prog.bind_assoc]
  refine ends_discard_origin hp h fun e' hkept => ⟨trivial, hpost e' _ ?_⟩
  exact hkept.mono fun c hc => hc.2 hc.1

theorem ends_deliver {useS3 : Bool} (target : Bytes) (hkey : useS3 = true → KeyFits settings packed)
    (h : Kept old (· = originCopy app packed) e) :
    Ends good (fun e' r => match r with
      | .ok destination => (destination.type = .s3 → useS3 = true) ∧ e'.stored = e.stored ∧
          Delivered old app packed e' destination
      | .error _ => AllKept old e') (deliver settings app useS3 target packed) e := by
  unfold deliver
  split_ifs with hS3 htarget
  · refine (ends_upload settings hp (hkey hS3)).attemptThen ?_
    rintro e' (err | object) - hr
    · obtain rfl : e' = e := hr
      exact ends_abandonRun hp h .upload err fun _ _ hkept => hkept
    · obtain ⟨hbounded, rfl⟩ := hr
      exact ⟨trivial, fun _ => hS3, rfl, hbounded, _, h.make nofun⟩
  · refine (ends_push settings hp target).attemptThen ?_
    rintro e' (err | location) - hr
    · obtain rfl : e' = e := hr
      exact ends_abandonRun hp h .nodeTransfer err fun _ _ hkept => hkept
    · obtain ⟨hloc, hvalid, rfl⟩ := hr
      exact ⟨trivial, nofun, rfl, .inr ⟨hloc, hvalid, h.make_file hp.name⟩⟩
  · exact ⟨trivial, nofun, rfl, .inl ⟨rfl, h⟩⟩

/-- A run to an Agent whose record is refused takes back all that it has made. -/
theorem ends_compensate {location : Bytes}
    (h : Delivered old app packed e ⟨.node, location⟩) (cause : BackupError) :
    Ends good (Concluded old)
      (compensateFailedRecord settings app (recordOf app packed ⟨.node, location⟩) cause) e := by
  have hlast : ∀ e', Kept old (· = originCopy app packed) e' → Ends good (Concluded old)
      ((discardBackupArtifactChecked app.agentID app.id
        (backupArtifactDir ++ ch '/' :: packed.name)).attempt >>= fun _ =>
          (.fail (.stage .recordStore cause) : BackupM BackupRecord)) e' := by
    intro e' hkept
    refine ends_discard_origin hp hkept fun e'' hnone => ⟨trivial, ?_⟩
    exact hnone.mono fun c hc => hc.2 hc.1
  show Ends good _ (compensateFailedRecord settings app
    ⟨packed.name, app.id, app.agentID, packed.created, packed.size, packed.sha256,
      ⟨.node, location⟩⟩ cause) e
  unfold compensateFailedRecord
  dsimp only
  rw [artifactPath_eq hp.name]
  split_ifs with hother
  · have hfirst : Ends good (fun e' r => r = .ok () ∧ Kept old (· = originCopy app packed) e')
        (discardBackupArtifactChecked (trimSpace location) app.id
          (backupArtifactDir ++ ch '/' :: packed.name)) e := by
      rcases h with ⟨-, hkept⟩ | ⟨hloc, hvalid, hkept⟩
      · by_cases hvalid : validAgentID (trimSpace location) = true
        · refine Always.mono ?_ (ends_discard hvalid hp.name hkept)
          rintro e' r - ⟨rfl, hstill⟩
          exact ⟨rfl, hstill.mono fun c hc => hc.1⟩
        · unfold discardBackupArtifactChecked
          rw [if_pos (.inl (Bool.eq_false_iff.mpr hvalid))]
          exact ⟨trivial, rfl, hkept⟩
      · rw [hloc]
        refine Always.mono ?_ (ends_discard hvalid hp.name hkept)
        rintro e' r - ⟨rfl, hstill⟩
        exact ⟨rfl, hstill.mono fun c hc => hc.1.resolve_right hc.2⟩
    refine hfirst.attemptThen ?_
    rintro e' r - ⟨rfl, hkept⟩
    exact hlast e' hkept
  · refine hlast e ?_
    rcases h with ⟨-, hkept⟩ | ⟨hloc, hvalid, hkept⟩
    · exact hkept
    · rw [hloc] at hother
      have hne : location ≠ [] := by
        rintro rfl
        cases hvalid
      have hsame : location = app.agentID := not_not.mp fun hdiff => hother ⟨hne, hdiff⟩
      subst hsame
      exact hkept.mono fun c hc => hc.elim id id

/-- From the packed artifact to its record. -/
theorem ends_recordBackup {useS3 : Bool} (target : Bytes)
    (hS3 : useS3 = true → KeyFits settings packed ∧ Open good e.snapshot packed.name)
    (h : Kept old (· = originCopy app packed) e) :
    Ends good (Concluded old) (recordBackup settings app useS3 target packed) e := by
  have hname := trimSpace_name hp.name
  refine (ends_deliver settings hp target (fun hyes => (hS3 hyes).1) h).then
    (fun _ _ _ hr => hr) ?_
  rintro e' destination - ⟨htype, hstored, hdelivered⟩
  show Ends good _ ((appendBackupRecord (recordOf app packed destination)).attempt >>= _) e'
  refine (ends_appendBackupRecord hname).attemptThen ?_
  rintro e'' (err | u) - hr
  · obtain ⟨rfl, hrefused⟩ := hr
    obtain ⟨type, location⟩ := destination
    cases type with
    | node => exact ends_compensate settings hp hdelivered err
    | s3 =>
      -- an object has its record, by the condition
      have hopen := (hS3 (htype rfl)).2
      rw [snapshot, ← hstored] at hopen
      have hcreated : GoTime.parses packed.created = true := by
        rw [hp.honest.created]
        exact t.parses_rfc3339 hp.time.1 hp.time.2
      have hsize : 0 ≤ packed.size := Int.le_of_lt hp.honest.size
      have hlocation : boundedText location 512 = true := hdelivered.1
      refine absurd ⟨?_, hopen⟩ hrefused
      simp [BackupRecord.valid, recordOf, boundedText_name hp.name, hp.id, hp.agent, hcreated,
        hsize, hp.honest.sha256, hlocation]
  · exact ⟨trivial, hdelivered.add hr⟩

end Run

variable {record : BackupRecord}
  {planBackupVolumes : Bytes → Except BackupError (List VolumePlan)}

theorem acceptRun_spec {run : AcceptedRun}
    (h : acceptRun settings appID destination targetAgentID = .ok run) :
    run.appID = trimSpace appID ∧ validID run.appID = true := by
  unfold acceptRun at h
  dsimp only at h
  split_ifs at h with hid
  cases h
  exact ⟨rfl, by simpa using hid⟩

/-- The stages of a run, up to the packed artifact. -/
theorem ends_run {post : Estate → Except BackupError BackupRecord → Prop}
    (hfail : ∀ err, post e (.error err))
    (hrecord : ∀ run app plans t packed,
      acceptRun settings appID destination targetAgentID = .ok run → Packed app t packed →
      good ⟨.pack app plans t, .ok packed⟩ → Ends good post
        (recordBackup settings app run.useS3 run.target packed) (e.make (originCopy app packed))) :
    Ends good post (runBackup planBackupVolumes settings appID destination targetAgentID) e := by
  unfold runBackup
  cases haccept : acceptRun settings appID destination targetAgentID with
  | error err => exact ⟨trivial, hfail _⟩
  | ok run =>
    obtain ⟨hrun, hvalid⟩ := acceptRun_spec haccept
    show Ends good _ (loadApps >>= _) e
    refine ends_quiet_bind quiet_loadApps hfail fun apps => ?_
    cases hfound : apps.find? (·.id == run.appID) with
    | none => exact ⟨trivial, hfail _⟩
    | some app =>
      have hsame : app.id = run.appID := beq_iff_eq.mp (find?_some hfound :)
      have hid : validID app.id = true := hsame ▸ hvalid
      have htrim : trimSpace app.id = app.id := by
        rw [hsame, hrun, trimSpace_trimSpace]
      dsimp only
      split_ifs with hagent
      · exact ⟨trivial, hfail _⟩
      · rw [Bool.not_eq_false] at hagent
        refine ends_quiet_bind quiet_checkTarget hfail fun _ => ?_
        refine ends_quiet_bind (Only.ofExcept _) hfail fun plans => ?_
        refine Always.ask trivial ?_
        rintro (t : Instant) e' ⟨⟨ht, rfl⟩, -⟩
        refine ends_quiet_bind quiet_archiveVolumes hfail fun _ => ?_
        refine (ends_packBackup plans hagent htrim hid ht).attemptThen ?_
        rintro e'' (err | packed) - hr
        · obtain rfl : e'' = e' := hr
          exact ends_clean app ⟨trivial, hfail _⟩
        · obtain ⟨hp, hgood, rfl⟩ := hr
          exact hrecord run app plans t packed haccept hp hgood

/-- A whole run. -/
theorem ends_runBackup
    (hS3 : (∃ run, acceptRun settings appID destination targetAgentID = .ok run ∧
      run.useS3 = true) →
      e.records.length < maxBackupRecords ∧ e.records.all (·.valid) = true ∧
        ∀ event, good event → Favourable settings e event)
    (h : AllKept old e) : Ends good (Concluded old)
      (runBackup planBackupVolumes settings appID destination targetAgentID) e := by
  refine ends_run (fun _ => h) fun run app plans t packed haccept hp hgood => ?_
  refine ends_recordBackup settings hp run.target ?_
    ((h.make_file hp.name).mono fun c hc => hc.resolve_left id)
  intro huse
  obtain ⟨hcount, hall, hfav⟩ := hS3 ⟨run, haccept, huse⟩
  obtain ⟨hfresh, hkey⟩ := hfav _ hgood
  exact ⟨hkey, hcount, hall, hfresh, fun _ => hfav _, fun _ _ => hfav _⟩

/-! ## The stages of a deletion -/

theorem ends_getBackupRecord {id : Bytes} {f : Option BackupRecord → BackupM β}
    (hfail : ∀ err, post e (.error err))
    (h : Ends good post (f (e.snapshot.get (trimSpace id))) e) :
    Ends good post (getBackupRecord id >>= f) e := by
  unfold getBackupRecord
  rw [Prog.bind_assoc]
  exact ends_loadSnapshot (fun _ => hfail) h

theorem ends_removeBackupRecord {id : Bytes} : Ends good (fun e' r => match r with
    | .ok _ => Rewritten (e.records.filter (·.id != trimSpace id)) e e'
    | .error _ => e' = e) (removeBackupRecord id) e := by
  refine ends_loadSnapshot (fun _ _ => rfl) ?_
  unfold persist
  split_ifs
  · exact ⟨trivial, rfl⟩
  · exact ⟨trivial, rfl⟩
  · refine Always.ask trivial ?_
    rintro (err | u) e' ⟨hresp, -⟩
    · exact ⟨trivial, hresp⟩
    · obtain rfl : e' = { e with stored := some (e.snapshot.drop (trimSpace id)) } := hresp
      exact ⟨trivial, rfl, rfl, rfl⟩

/-- The artifact of a record is gone from an Agent. -/
def GoneFrom (record : BackupRecord) (agentID : Bytes) (e : Estate) : Prop :=
  ∀ c ∈ e.copies, c ∈ e.made → c ≠ .file agentID record.appID record.id

/-- What a clean-up leaves: fewer copies, the same records. -/
structure Reduced (old : List Copy) (e e' : Estate) : Prop where
  kept : AllKept old e'
  stored : e'.stored = e.stored
  copies : ∀ c ∈ e'.copies, c ∈ e.copies
  made : e'.made = e.made

theorem Reduced.refl (h : AllKept old e) : Reduced old e e := ⟨h, rfl, fun _ hc => hc, rfl⟩

theorem Reduced.trans {e'' : Estate} (h : Reduced old e e') (h' : Reduced old e' e'') :
    Reduced old e e'' :=
  ⟨h'.kept, h'.stored.trans h.stored, fun c hc => h.copies c (h'.copies c hc), h'.made.trans h.made⟩

theorem GoneFrom.reduced (h : GoneFrom record agentID e) (hreduced : Reduced old e e') :
    GoneFrom record agentID e' := by
  intro c hc hmade
  exact h c (hreduced.copies c hc) (hreduced.made ▸ hmade)

/-- An artifact with a proper name is the one that its path names. -/
theorem goneFrom_erase {name : Bytes} (h : AllKept old e)
    (hname : discardName (backupArtifactDir ++ ch '/' :: record.id) = some name) :
    GoneFrom record agentID (e.erase (.file agentID record.appID name)) := by
  rintro c hc hmade rfl
  rw [discardName_path (h.named _ _ _ hmade)] at hname
  cases hname
  exact of_decide_eq_true (mem_filter.mp hc).2 rfl

/-- A record's artifact is discarded on one Agent. -/
theorem ends_discard_record (h : AllKept old e) :
    Ends good (fun e' r => Reduced old e e' ∧ ∀ u, r = .ok u → GoneFrom record agentID e')
      (do
        match ← (pluginCall agentID (.discard agentID record.appID
          (backupArtifactDir ++ ch '/' :: record.id)) id).attempt with
        | .error err => .fail (.stage .destination err)
        | .ok _ => return () : BackupM Unit) e := by
  unfold pluginCall
  split_ifs with hagent
  · exact ⟨trivial, .refl h, nofun⟩
  · refine Always.bind (Always.attempt (Always.ask trivial ?_))
    rintro answer e' ⟨hresp, -⟩
    rw [respond] at hresp
    split at hresp
    · obtain ⟨rfl, rfl⟩ := hresp
      exact ⟨trivial, trivial, .refl h, nofun⟩
    next name hname =>
      obtain ⟨rfl, rfl⟩ := hresp
      have hreduced : Reduced old e (e.erase (.file agentID record.appID name)) :=
        ⟨(h.erase _).mono fun _ hc => hc.1, rfl, fun _ hc => (mem_filter.mp hc).1, rfl⟩
      exact ⟨trivial, trivial, hreduced, fun _ _ => goneFrom_erase h hname⟩

/-- All copies of a backup on the Agents are discarded. -/
theorem ends_removeBackupDestination (hnode : record.destination.type = .node)
    (h : AllKept old e) :
    Ends good (fun e' r => Reduced old e e' ∧ ∀ u, r = .ok u →
      ∀ c ∈ e'.copies, c ∈ e'.made → ¬ record.Owns c)
      (removeBackupDestination settings record) e := by
  unfold removeBackupDestination
  rw [hnode]
  refine (ends_discard_record h).then (fun _ _ _ hr => ⟨hr.1, nofun⟩) ?_
  rintro e' u - ⟨hreduced, hgone⟩
  have horigin := hgone u rfl
  -- what the record owns besides is on the Agent it was pushed to
  have howned : ∀ {e'' : Estate}, GoneFrom record record.originAgentID e'' →
      (trimSpace record.destination.location ≠ [] →
        GoneFrom record (trimSpace record.destination.location) e'') →
      ∀ c ∈ e''.copies, c ∈ e''.made → ¬ record.Owns c := by
    intro e'' hfirst hsecond c hc hmade howns
    cases c with
    | object place key =>
      obtain ⟨htype, -⟩ := howns
      simp [hnode] at htype
    | file agentID appID name =>
      obtain ⟨rfl, rfl, rfl | ⟨-, hne, rfl⟩⟩ := howns
      · exact hfirst _ hc hmade rfl
      · exact hsecond hne _ hc hmade rfl
  dsimp only
  split_ifs with hother
  · refine Always.mono ?_ (ends_discard_record hreduced.kept)
    rintro e'' r - ⟨hreduced', hgone'⟩
    exact ⟨hreduced.trans hreduced', fun u hu => howned (horigin.reduced hreduced')
      fun _ => hgone' u hu⟩
  · refine ⟨trivial, hreduced, fun _ _ => howned horigin fun hne => ?_⟩
    have hsame : trimSpace record.destination.location = record.originAgentID :=
      not_not.mp fun hdiff => hother ⟨hne, hdiff⟩
    rw [hsame]
    exact horigin

/-- Once its copies are gone, a record may go. -/
theorem Kept.drop (h : AllKept old e) (hin : record ∈ e.records)
    (hnone : ∀ c ∈ e.copies, c ∈ e.made → ¬ record.Owns c)
    (hless : Rewritten (e.records.filter (·.id != record.id)) e e') : AllKept old e' := by
  constructor
  · rw [hless.made]
    exact h.named
  · rw [hless.copies, hless.made, hless.records]
    intro c hc hwas
    obtain ⟨owner, howner, howns⟩ := (h.recorded c hc hwas).resolve_left id
    refine .inr ⟨owner, mem_filter.mpr ⟨howner, ?_⟩, howns⟩
    rw [bne_iff_ne]
    intro hid
    have hsame : owner = record := inj_on_of_nodup_map e.snapshot.nodup howner hin hid
    exact hnone c hc hwas (hsame ▸ howns)
  · rw [hless.copies]
    exact h.new

theorem BackupSnapshot.get_spec {snapshot : BackupSnapshot} {id : Bytes}
    (h : snapshot.get id = some record) : record ∈ snapshot.records ∧ record.id = id :=
  ⟨mem_of_find?_eq_some h, beq_iff_eq.mp (find?_some h :)⟩

/-- No copy of the record with the id is left. -/
def Deleted (recordID : Bytes) (e e' : Estate) : Prop :=
  ∀ record ∈ e.records, record.id = trimSpace recordID →
    ∀ c ∈ e'.copies, c ∈ e'.made → ¬ record.Owns c

/-- The stages of a deletion. -/
theorem ends_deletion {post : Estate → Except BackupError Unit → Prop} {recordID confirm : Bytes}
    (hfail : ∀ err, post e (.error err))
    (hremove : ∀ record ∈ e.records, record.id = trimSpace recordID → Ends good (fun e' r =>
      (∀ err, post e' (.error err)) ∧ ∀ u, r = .ok u → ∀ e'',
        Rewritten (e'.records.filter (·.id != record.id)) e' e'' → post e'' (.ok ()))
          (removeBackupDestination settings record) e) :
    Ends good post (deleteBackup settings recordID confirm) e := by
  unfold deleteBackup
  extract_lets id
  split_ifs with hid
  · exact ⟨trivial, hfail _⟩
  · refine ends_getBackupRecord hfail ?_
    cases hrecord : e.snapshot.get (trimSpace id) with
    | none => exact ⟨trivial, hfail _⟩
    | some record =>
      obtain ⟨hin, hsame⟩ := BackupSnapshot.get_spec hrecord
      have hkey : record.id = trimSpace recordID := hsame.trans (trimSpace_trimSpace recordID)
      dsimp only
      split_ifs
      · exact ⟨trivial, hfail _⟩
      · refine Always.bind (Always.mono ?_ (hremove record hin hkey))
        rintro e'' (err | u) - ⟨hfailed, hdone⟩
        · exact hfailed _
        · refine ends_removeBackupRecord.attemptThen ?_
          rintro e₃ (err | v) - hr
          · obtain rfl : e₃ = e'' := hr
            exact ⟨trivial, hfailed _⟩
          · exact ⟨trivial, hdone u rfl e₃ (hsame ▸ hr)⟩

/-- A whole deletion. -/
theorem ends_deleteBackup {recordID confirm : Bytes}
    (hnode : ∀ record ∈ e.records, record.id = trimSpace recordID →
      record.destination.type = .node) (h : AllKept old e) :
    Ends good (fun e' r => AllKept old e' ∧ (r = .ok () → Deleted recordID e e'))
      (deleteBackup settings recordID confirm) e := by
  refine ends_deletion (fun _ => ⟨h, nofun⟩) fun record hin hkey => ?_
  refine Always.mono ?_ (ends_removeBackupDestination (hnode record hin hkey) h)
  rintro e' r - ⟨hreduced, hgone⟩
  refine ⟨fun _ => ⟨hreduced.kept, nofun⟩, ?_⟩
  intro u hu e'' hless
  have hkeep : e'.records = e.records := by
    unfold records snapshot
    rw [hreduced.stored]
  refine ⟨hreduced.kept.drop (hkeep ▸ hin) (hgone u hu) hless, ?_⟩
  intro _ other hother hother'
  -- the record with the id is the one that was found
  obtain rfl : other = record :=
    inj_on_of_nodup_map e.snapshot.nodup hother hin (hother'.trans hkey.symm)
  rw [hless.copies, hless.made]
  exact hgone u hu

end Stages

/-! ## The copies have their records -/

section Sequences

variable {planBackupVolumes : Bytes → Except BackupError (List VolumePlan)}
  {events : List BackupEvent}
  {r : Except BackupError Unit}

/-- The events of a run to S3 are favourable, those of another run are arbitrary. -/
def FavourableRun (settings : BackupSettings) (e : Estate)
    (appID destination targetAgentID : Bytes) (event : BackupEvent) : Prop :=
  (∃ run, acceptRun settings appID destination targetAgentID = .ok run ∧ run.useS3 = true) →
    Favourable settings e event

theorem kept_run (h : AllKept old e)
    (hcovered : Covered settings e (.run appID destination targetAgentID, events))
    (hruns : Runs respond e (BackupRequest.program planBackupVolumes settings
      (.run appID destination targetAgentID)) events e' r) : Concluded old e' r := by
  have hrun : Ends (FavourableRun settings e appID destination targetAgentID) (Concluded old)
      (runBackup planBackupVolumes settings appID destination targetAgentID) e :=
    ends_runBackup (fun hS3 =>
      ⟨(hcovered hS3).1, (hcovered hS3).2.1, fun _ hgood => hgood hS3⟩) h
  have hwhole : Ends (FavourableRun settings e appID destination targetAgentID) (Concluded old)
      (BackupRequest.program planBackupVolumes settings (.run appID destination targetAgentID)) e := by
    refine Always.bind (Always.mono ?_ hrun)
    rintro e' (err | record) - hkept
    · exact hkept
    · exact ⟨trivial, hkept⟩
  exact (hwhole.runs (hruns.guard fun event hin hS3 => (hcovered hS3).2.2 event hin)).2

theorem kept_delete {recordID confirm : Bytes} (h : AllKept old e)
    (hcovered : Covered settings e (.delete recordID confirm, events))
    (hruns : Runs respond e (BackupRequest.program planBackupVolumes settings
      (.delete recordID confirm)) events e' r) :
    AllKept old e' ∧ (r = .ok () → Deleted recordID e e') := by
  have hdelete : Ends (fun _ => True) _ (deleteBackup settings recordID confirm) e :=
    ends_deleteBackup hcovered h
  exact (hdelete.runs (hruns.guard fun _ _ => trivial)).2

/-- What is left of a call besides its records: nothing of a run that fails, nothing of a backup
that is deleted. -/
def Estate.Cleared (e e' : Estate) (r : Except BackupError Unit) : BackupRequest → Prop
  | .run _ _ _ => (∃ err, r = .error err) → ∀ c ∈ e'.copies, c ∈ e.copies
  | .delete recordID _ => r = .ok () → Deleted recordID e e'

theorem kept_call {request : BackupRequest} (h : AllKept old e)
    (hcovered : Covered settings e (request, events))
    (hruns : Runs respond e (request.program planBackupVolumes settings) events e' r) :
    (∃ now, AllKept now e') ∧ e.Cleared e' r request := by
  cases request with
  | run appID destination targetAgentID =>
    have hconcluded := kept_run h.renew hcovered hruns
    cases r with
    | ok u => exact ⟨⟨_, hconcluded⟩, nofun⟩
    | error err => exact ⟨⟨_, hconcluded⟩, fun _ c hc => (hconcluded.new c hc).resolve_left id⟩
  | delete recordID confirm =>
    obtain ⟨hkept, hdeleted⟩ := kept_delete h hcovered hruns
    exact ⟨⟨_, hkept⟩, hdeleted⟩

theorem kept_reachable (h : Reachable EstateInitial
    (Guarded (EstateStep planBackupVolumes settings) (Covered settings)) e) :
    ∃ old, AllKept old e := by
  induction h with
  | @start e hs =>
    have hmade : e.made = [] := hs
    refine ⟨e.copies, ?_, ?_, fun _ hc => .inr hc⟩
    all_goals
      rw [hmade]
      simp
  | next _ hstep ih =>
    obtain ⟨⟨r, hruns⟩, hcovered⟩ := hstep
    obtain ⟨old, hkept⟩ := ih
    exact (kept_call hkept hcovered hruns).1

/-- For every sequence of `RunBackup` and `DeleteBackup` calls that meets the condition: after
each call, every artifact and every object that these calls have made belongs to a record; a run
that fails has left none, and a backup that is deleted leaves none. -/
theorem backup_copies_recorded (h : Reachable EstateInitial
    (Guarded (EstateStep planBackupVolumes settings) (Covered settings)) e) :
    e.Recorded ∧ ∀ request events e' r,
      Runs respond e (BackupRequest.program planBackupVolumes settings request) events e' r →
        Covered settings e (request, events) → e.Cleared e' r request := by
  obtain ⟨old, hkept⟩ := kept_reachable h
  refine ⟨fun c hc hmade => (hkept.recorded c hc hmade).resolve_left id, ?_⟩
  intro request events e' r hruns hcovered
  exact (kept_call hkept hcovered hruns).2

end Sequences

/-! ## Two sequences -/

section Demo

/-- Surroundings with one app, where all succeeds; only the records may fail to be stored. The clock
shows another second for each call of the demonstration. -/
def Estate.obliging (stores : Bool) (second : Fin 60) (e : Estate) :
    (c : BackupCall) → BackupAnswer c × Estate
  | .loadApps => (.ok [⟨ascii "app", ascii "n1", []⟩], e)
  | .report _ => (.ok true, e)
  | .volumeArchive _ _ => (.error .host, e)
  | .now => ((⟨2026, 1, 2, 3, 4, second, by decide, by decide, by decide, by decide, by decide,
      by decide, second.2⟩ : Instant), e)
  | .pack app _ created =>
    let name := backupArtifactName app.id created
    if .file app.agentID app.id name ∈ e.copies then (.error .host, e)
    else (.ok ⟨true, name, backupArtifactDir ++ ch '/' :: name, 1, List.replicate 64 (ch '0'),
      created.rfc3339⟩, e.make (.file app.agentID app.id name))
  | .clean _ => (.ok (), e)
  | .discard agentID appID path =>
    match discardName path with
    | none => (.error .packInvalid, e)
    | some name => (.ok (), e.erase (.file agentID appID name))
  | .upload s3 _ packed =>
    match s3.key packed.name with
    | none => (.error .host, e)
    | some key => (.ok ⟨true, key, packed.size, packed.sha256⟩, e.make (.object s3.place key))
  | .deleteObject s3 _ _ object =>
    match s3.key object with
    | none => (.error .host, e)
    | some key => (.ok true, e.erase (.object s3.place key))
  | .transfer _ target appID name => (.ok (), e.make (.file target appID name))
  | .loadBackups => (.ok e.stored, e)
  | .storeBackups snapshot =>
    if stores then (.ok (), { e with stored := some snapshot }) else (.error .host, e)

theorem respond_obliging (stores : Bool) (second : Fin 60) (e : Estate) (c : BackupCall) :
    e.respond c (e.obliging stores second c).1 (e.obliging stores second c).2 := by
  have hyear : (0 : Int) ≤ 2026 ∧ (2026 : Int) < 10000 := by decide
  have hsha : sha256Hex (List.replicate 64 (ch '0')) = true := by decide
  cases c with
  | now => exact ⟨hyear, rfl⟩
  | pack app plans created =>
    unfold obliging
    dsimp only
    split_ifs with hin
    · exact rfl
    · exact ⟨⟨rfl, rfl, rfl, Int.one_pos, hsha, rfl⟩, hin, rfl⟩
  | discard agentID appID path =>
    simp only [respond, obliging]
    cases discardName path with
    | none | some => exact ⟨rfl, rfl⟩
  | upload s3 app packed =>
    unfold obliging
    dsimp only
    cases hkey : s3.key packed.name with
    | none => exact rfl
    | some key => exact ⟨hkey, rfl, rfl⟩
  | deleteObject s3 agentID appID object =>
    simp only [respond, obliging]
    cases s3.key object with
    | none | some => exact ⟨rfl, rfl⟩
  | loadBackups => exact ⟨fun found hfound => (Except.ok.inj hfound).symm, rfl⟩
  | storeBackups snapshot =>
    cases stores with
    | true | false => exact rfl
  | _ => exact rfl

def noVolumes (_ : Bytes) : Except BackupError (List VolumePlan) := .ok []

def bothDestinations : BackupSettings := ⟨⟨ascii "endpoint", ascii "bucket", []⟩, true⟩

def nothingYet : Estate := ⟨[], none, []⟩

/-- The state after a call in these surroundings, and what the call has returned. -/
def Estate.after (stores : Bool) (second : Fin 60) (e : Estate) (request : BackupRequest) :
    Except BackupError Unit × Estate :=
  (request.program noVolumes bothDestinations).runWith (obliging stores second) e

def nodeRun : BackupRequest := .run (ascii "app") destinationNode []

def s3Run : BackupRequest := .run (ascii "app") destinationS3 []

/-- The deletion of the backup that was made in the given second. -/
def deletion (second : Nat) : BackupRequest :=
  .delete (ascii "app-20260102T0304" ++ GoTime.two second ++ ascii "Z.tar.zst") (ascii "app")

/-- What a call in these surroundings has seen. -/
def Estate.seen (stores : Bool) (second : Fin 60) (e : Estate) (request : BackupRequest) :
    List BackupEvent :=
  (request.program noVolumes bothDestinations).eventsWith (obliging stores second) e

theorem runs_after (stores : Bool) (second : Fin 60) (e : Estate) (request : BackupRequest) :
    Runs respond e (request.program noVolumes bothDestinations) (e.seen stores second request)
      (e.after stores second request).2 (e.after stores second request).1 :=
  Runs.runWith (respond_obliging stores second) _ _

theorem reachable_after (h : Reachable EstateInitial
      (Guarded (EstateStep noVolumes bothDestinations) (Covered bothDestinations)) e)
    (stores : Bool) (second : Fin 60) (request : BackupRequest)
    (hcovered : Covered bothDestinations e (request, e.seen stores second request)) :
    Reachable EstateInitial (Guarded (EstateStep noVolumes bothDestinations)
      (Covered bothDestinations)) (e.after stores second request).2 :=
  h.next ⟨⟨_, runs_after stores second e request⟩, hcovered⟩

instance (settings : BackupSettings) (e : Estate) (event : BackupEvent) :
    Decidable (Favourable settings e event) := by
  obtain ⟨c, answer⟩ := event
  cases c with
  | loadBackups | storeBackups =>
    cases answer with
    | error => exact .isFalse id
    | ok => exact .isTrue trivial
  | pack =>
    cases answer with
    | error => exact .isTrue trivial
    | ok packed => exact inferInstanceAs (Decidable (_ ∧ ∀ key ∈ backupS3ObjectKey _ packed.name, _))
  | _ => exact .isTrue trivial

/-- A backup to S3. -/
def onS3 : Estate := (nothingYet.after true 5 s3Run).2

/-- Then a run to the node, whose record cannot be stored. -/
def refused : Estate := (onS3.after false 6 nodeRun).2

/-- Then one that succeeds. -/
def onNode : Estate := (refused.after true 7 nodeRun).2

/-- Then the deletion of the last backup. -/
def deleted : Estate := (onNode.after true 8 (deletion 7)).2

theorem covered_node {events : List BackupEvent} :
    Covered bothDestinations e (nodeRun, events) := by
  have haccept : (acceptRun bothDestinations (ascii "app") destinationNode []).map (·.useS3) =
      .ok false := by decide
  rintro ⟨run, hrun, huse⟩
  rw [hrun] at haccept
  exact absurd (huse.symm.trans (Except.ok.inj haccept)) (by decide)

/-- The theorem at that sequence: the failed run has left no copy, the deletion has removed the
artifact of its backup, and the copies that are there, the object and its artifact, belong to the
record of the first run. -/
theorem backup_copies_recorded_sequence :
    deleted.copies.length = 2 ∧ deleted.Recorded ∧
    ((∃ err, (onS3.after false 6 nodeRun).1 = .error err) ∧ ∀ c ∈ refused.copies, c ∈ onS3.copies) ∧
    (onNode.after true 8 (deletion 7)).1 = .ok () ∧
      Deleted (ascii "app-20260102T030407Z.tar.zst") onNode deleted := by
  have hstart : EstateInitial nothingYet := (rfl : nothingYet.made = [])
  have hfirst : Covered bothDestinations nothingYet (s3Run, nothingYet.seen true 5 s3Run) :=
    fun _ => ⟨by decide, by decide, by decide⟩
  have hlast : Covered bothDestinations onNode (deletion 7, onNode.seen true 8 (deletion 7)) := by
    show ∀ record ∈ onNode.records, record.id = _ → record.destination.type = .node
    decide
  have h₁ := reachable_after (.start hstart) true 5 s3Run hfirst
  have h₃ := reachable_after (reachable_after h₁ false 6 nodeRun covered_node) true 7 nodeRun
    covered_node
  have h₄ := reachable_after h₃ true 8 (deletion 7) hlast
  have hfailed : ∃ err, (onS3.after false 6 nodeRun).1 = .error err := ⟨_, rfl⟩
  have hdone : (onNode.after true 8 (deletion 7)).1 = .ok () := by decide
  refine ⟨by decide, (backup_copies_recorded h₄).1, ⟨hfailed, ?_⟩, hdone, ?_⟩
  · exact (backup_copies_recorded h₁).2 nodeRun _ _ _ (runs_after false 6 onS3 nodeRun) covered_node
      hfailed
  · exact (backup_copies_recorded h₃).2 (deletion 7) _ _ _ (runs_after true 8 onNode (deletion 7))
      hlast hdone

/-- A backup to S3 that is deleted, and one whose record cannot be stored: both leave the artifact
on the Agent, without a record. -/
theorem s3_artifact_left :
    (∃ events events' e e', Runs respond nothingYet
        (s3Run.program noVolumes bothDestinations) events e (.ok ()) ∧
      Runs respond e ((deletion 5).program noVolumes bothDestinations) events' e' (.ok ()) ∧
      ¬ e'.Recorded) ∧
    ∃ events e' err, Runs respond nothingYet
        (s3Run.program noVolumes bothDestinations) events e' (.error err) ∧ ¬ e'.Recorded := by
  have hleft : ∀ e : Estate, e.records = [] → (∃ c ∈ e.copies, c ∈ e.made) → ¬ e.Recorded := by
    rintro e hnone ⟨c, hc, hmade⟩ hrecorded
    obtain ⟨record, hin, -⟩ := hrecorded c hc hmade
    simp [hnone] at hin
  constructor
  · exact ⟨_, _, _, _, runs_after true 5 nothingYet s3Run, runs_after true 6 onS3 (deletion 5),
      hleft _ (by decide) (by decide)⟩
  · exact ⟨_, _, _, runs_after false 5 nothingYet s3Run,
      hleft _ (by decide) (by decide)⟩

end Demo

end NrePlugins.DockerApp
