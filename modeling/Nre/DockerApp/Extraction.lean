import Nre.DockerApp.Artifact

/-!
# Extraction stays inside its destination

What `ExtractWorkspace`, `ExtractVolume` and `restoreDirFromVolumeTar` write is below their
destination, whatever the archive, and wherever they stop. The argument is about names: a safe name
is a path of plain elements (`safe_rel`), the target that is made of it is the place below the
destination that it names, and the calls to make directories and files go no further
(`always_mkdirAll`, `always_writeTarFile`).

What `ExtractWorkspace` and `stageBackupVolumeMember` leave behind has the digest of its member,
though the file is read again after it was verified (`Verified`, `Staged`).
-/

namespace NrePlugins.DockerApp

open List
open GoPath FileTree

/-! ## Targets -/

variable {name rel : Bytes}

theorem safe_rel (h : safeBackupEntryName name = some rel) :
    rel ≠ [] ∧ isAbs rel = false ∧ ∀ e ∈ steps rel, Plain e := by
  obtain ⟨habs, rfl, hdots, hup⟩ := safeBackupEntryName_eq_some h
  refine ⟨render_ne_nil (settled_reduced name), ?_, ?_⟩
  · rw [isAbs_clean, habs]
  · rw [steps_clean]
    exact plain_of_clean habs hdots hup

/-- To make the directories of the path, or the first of them, makes only some below the
destination. -/
def MakesInside (cwd : Place) (dest : Bytes) (d : Place) (path : Bytes) : Prop :=
  ∀ t t' es, Leads cwd dest d t → es <+: steps path →
    t.mkdirAll (start cwd path) es.reverse = some t' → Inside d t t'

variable {format : ArtifactFormat} {manifest : BackupManifest} {cwd d : Place}
  {dest : Bytes} {t₀ t : FileTree}

section Targets

variable (h : safeBackupEntryName name = some rel)

include h

theorem target_start : start cwd (joinTo dest rel) = start cwd dest := by
  obtain ⟨hne, habs, hplain⟩ := safe_rel h
  rw [joinTo_eq_render hne habs hplain, start, isAbs_render ((settled_reduced dest).append hplain)]
  rfl

theorem target_steps : steps (joinTo dest rel) = reduced dest ++ steps rel := by
  obtain ⟨hne, habs, hplain⟩ := safe_rel h
  rw [joinTo_eq_render hne habs hplain, steps_render ((settled_reduced dest).append hplain)]

theorem makesInside_target : MakesInside cwd dest d (joinTo dest rel) := by
  intro t t' es hdest hes hmade
  rw [target_steps h] at hes
  rw [target_start h] at hmade
  exact hdest.mkdirAll (safe_rel h).2.2 hes hmade

theorem makesInside_dir : MakesInside cwd dest d (dir (joinTo dest rel)) := by
  obtain ⟨hne, habs, hplain⟩ := safe_rel h
  have hsettled := (settled_reduced dest).append hplain
  intro t t' es hdest hes hmade
  rw [joinTo_eq_render hne habs hplain, dir_render hsettled] at hes hmade
  rw [steps_render hsettled.dropLast] at hes
  rw [start, isAbs_render hsettled.dropLast] at hmade
  exact hdest.mkdirAll hplain (hes.trans (List.dropLast_prefix _)) hmade

end Targets

/-- The destination is there. -/
theorem makesInside_dest : MakesInside cwd dest d dest := by
  rintro t t' es hdest ⟨more, hmore⟩ hmade
  rw [mkdirAll_way hdest.start_dir (hmore.symm ▸ hdest.raw) hdest.dir] at hmade
  cases hmade
  exact hdest.inside

/-! ## One call -/

section Calls

variable {path : Bytes} {names : List Bytes} (hdest : Leads cwd dest d t₀) (hin : Inside d t₀ t)

include hdest hin

theorem always_mkdirAll (hpath : MakesInside cwd dest d path) :
    Always (respond cwd) (Inside d t₀) (fun t' r => r = .ok () → AddsDirs t t')
      (mkdirAll path) t := by
  refine Always.ask hin ?_
  rintro answer t' hresp
  -- a failed call has made some of the directories
  obtain ⟨es, hes, hmade⟩ : ∃ es, es <+: steps path ∧
      t.mkdirAll (start cwd path) es.reverse = some t' := by
    cases answer with
    | some u => exact ⟨_, prefix_refl _, hresp⟩
    | none =>
      obtain ⟨n, hn⟩ := hresp
      refine ⟨((steps path).reverse.drop n).reverse, ?_, by rwa [reverse_reverse]⟩
      rw [drop_reverse, reverse_reverse]
      exact take_prefix _ _
  have hin' : Inside d t₀ t' := hin.trans (hpath t t' es (hdest.mono hin) hes hmade)
  cases answer with
  | none => exact ⟨hin', nofun⟩
  | some u => exact ⟨hin', fun _ => mkdirAll_adds hmade⟩

/-- A file is written at its place, and nothing else changes. -/
def Writes (t t' : FileTree) (p : Place) (content : Bytes) : Prop :=
  t'.entry p = some (.file content) ∧ ∀ q, q ≠ p → t'.entry q = t.entry q

theorem always_writeTarFile (hnames : ∀ e ∈ names, Plain e)
    (hstart : start cwd path = start cwd dest)
    (hsteps : steps path = reduced dest ++ names) (content : Bytes) :
    Always (respond cwd) (Inside d t₀)
      (fun t' r => r = .ok () → Writes t t' (d ++ names) content) (writeTarFile path content) t := by
  refine Always.ask hin ?_
  rintro (_ | file) t₁ hresp
  · obtain rfl : t₁ = t := hresp
    exact ⟨hin, nofun⟩
  · have hcreate : t.create (start cwd path) (steps path) = some (file, t₁) := hresp
    rw [hstart, hsteps] at hcreate
    have hother := create_other hcreate
    obtain ⟨rfl, hbelow, hempty, hin₁⟩ := (hdest.mono hin).create hnames hcreate
    have hnow := hin.trans hin₁
    refine Always.ask hnow ?_
    rintro (_ | u) t₂ hresp₂
    · obtain ⟨n, rfl⟩ := hresp₂
      exact ⟨hnow.trans ((hdest.mono hnow).append hbelow _), nofun⟩
    · obtain rfl : t₂ = t₁.append (d ++ names) content := hresp₂
      refine ⟨hnow.trans ((hdest.mono hnow).append hbelow _), fun _ => ⟨?_, fun q hq => ?_⟩⟩
      · rw [append_entry hempty, nil_append]
      · rw [append_other hq, hother q hq]

/-! ## Archives of volumes -/

theorem always_extractTarEntry (hsafe : safeBackupEntryName name = some rel) (header : TarHeader)
    (content : Bytes) (unsupported : ArtifactError) :
    Always (respond cwd) (Inside d t₀) (fun _ _ => True)
      (extractTarEntry (joinTo dest rel) header content unsupported) t := by
  have hplain := (safe_rel hsafe).2.2
  unfold extractTarEntry
  split
  · exact Always.mono (fun _ _ _ _ => trivial)
      (always_mkdirAll hdest hin (makesInside_target hsafe))
  · refine (always_mkdirAll hdest hin (makesInside_dir hsafe)).then (fun _ _ _ _ => trivial) ?_
    intro t' u hin' _
    exact Always.mono (fun _ _ _ _ => trivial) (always_writeTarFile hdest hin' hplain
      (target_start hsafe) (target_steps hsafe) content)
  · exact ⟨hin, trivial⟩

/-- An entry, and on from there. -/
theorem always_entry_bind (hsafe : safeBackupEntryName name = some rel) {header : TarHeader}
    {content : Bytes} {unsupported : ArtifactError} {next : ExtractM Unit}
    (hnext : ∀ t', Inside d t₀ t' → Always (respond cwd) (Inside d t₀) (fun _ _ => True) next t') :
    Always (respond cwd) (Inside d t₀) (fun _ _ => True)
      (do extractTarEntry (joinTo dest rel) header content unsupported; next) t :=
  (always_extractTarEntry hdest hin hsafe header content unsupported).then
    (fun _ _ _ _ => trivial) fun t' _ hin' _ => hnext t' hin'

theorem always_extractTarToDir (tar : Tar) :
    Always (respond cwd) (Inside d t₀) (fun _ _ => True) (extractTarToDir dest tar) t := by
  fun_induction extractTarToDir dest tar generalizing t with
  | case4 header content rel hsafe =>
    exact always_entry_bind hdest hin hsafe fun _ hin' => ⟨hin', trivial⟩
  | case6 header content rest rel hsafe ih =>
    exact always_entry_bind hdest hin hsafe fun _ hin' => ih hin'
  | _ => exact ⟨hin, trivial⟩

theorem always_restoreEntries (tar : Tar) :
    Always (respond cwd) (Inside d t₀) (fun _ _ => True) (restoreEntries dest tar) t := by
  fun_induction restoreEntries dest tar generalizing t with
  | case5 header content rel hsafe =>
    exact always_entry_bind hdest hin hsafe fun _ hin' => ⟨hin', trivial⟩
  | case7 header content rest rel hsafe hroot ih => exact ih hin
  | case8 header content rest rel hsafe hroot ih =>
    exact always_entry_bind hdest hin hsafe fun _ hin' => ih hin'
  | _ => exact ⟨hin, trivial⟩

end Calls

/-! ## Members -/

section Members

variable {inv : FileTree → Prop} {α : Type}

theorem always_requireBackupDestDir (h : inv t) (destDir : Bytes) :
    Always (respond cwd) inv (fun t' _ => t' = t) (requireBackupDestDir destDir) t := by
  refine Always.ask h ?_
  rintro answer t' ⟨rfl, -⟩
  match answer with
  | none | some .dir | some (.file _) | some (.link _) => exact ⟨h, rfl⟩

theorem always_ofExcept {ε β : Type} {post : FileTree → Except ε β → Prop} {x : Except ε α}
    {f : α → Prog FileAnswer ε β} (h : inv t) (hfail : ∀ e, x = .error e → post t (.error e))
    (hok : ∀ a, x = .ok a → Always (respond cwd) inv post (f a) t) :
    Always (respond cwd) inv post (Prog.ofExcept x >>= f) t := by
  cases x with
  | error e => exact ⟨h, hfail e rfl⟩
  | ok a => exact hok a rfl

variable {consume : Bytes → Bool → ExtractM α} (post : Bytes → FileTree → α → Prop)

section

variable (h : inv t)
  (hwhole : ∀ content, Always (respond cwd) inv (fun t' r => ∀ a, r = .ok a → post content t' a)
    (consume content false) t)
  (hbroken : ∀ content, Always (respond cwd) inv (fun _ _ => True) (consume content true) t)

include h hwhole hbroken

/-- What is made of a member comes from bytes with its digest. -/
theorem always_withMemberOf (tar : Tar) :
    Always (respond cwd) inv (fun t' r => ∀ a, r = .ok a → ∃ content, post content t' a ∧
      memberDigest manifest name = .ok (hexDigest format content))
      (withMemberOf format manifest name consume tar) t := by
  fun_induction withMemberOf format manifest name consume tar with
  | case5 header content =>
    refine always_ofExcept h (fun _ _ => nofun) fun want _ => ?_
    exact (hbroken content).then (fun _ _ _ _ => nofun) fun _ _ hin' _ => ⟨hin', nofun⟩
  | case6 header content rest _ ih => exact ih
  | case8 header content =>
    refine always_ofExcept h (fun _ _ => nofun) fun want hwant => ?_
    refine (hwhole content).then (fun _ _ _ _ => nofun) ?_
    intro t' a hin' hpost
    split_ifs with hdigest
    · exact ⟨hin', nofun⟩
    · refine ⟨hin', fun b hb => ⟨content, Except.ok.inj hb ▸ hpost a rfl, ?_⟩⟩
      rw [hwant, not_not.mp hdigest]
  | _ => exact ⟨h, nofun⟩

theorem always_withMember (file : Bytes) :
    Always (respond cwd) inv (fun t' r => ∀ a, r = .ok a → ∃ content, post content t' a ∧
      memberDigest manifest name = .ok (hexDigest format content))
      (withMember format manifest file name consume) t :=
  always_ofExcept h (fun _ _ => nofun) fun tar _ => always_withMemberOf post h hwhole hbroken tar

end

end Members

/-! ## The workspace -/

/-- The entries that are read before the end or an error. -/
def Tar.entries : Tar → List (TarHeader × Bytes)
  | .entry header content rest => (header, content) :: rest.entries
  | _ => []

/-- A file at the place of a member of the manifest, with its digest. -/
def Verified (format : ArtifactFormat) (manifest : BackupManifest) (d : Place) (t : FileTree)
    (q : Place) : Prop :=
  ∃ name rel content, safeBackupEntryName (name.drop backupWorkspacePrefix.length) = some rel ∧
    q = d ++ steps rel ∧ t.entry q = some (.file content) ∧
    memberDigest manifest name = .ok (hexDigest format content)

/-- All that differs are new directories and files of members. -/
def Leaves (format : ArtifactFormat) (manifest : BackupManifest) (d : Place) (t t' : FileTree) :
    Prop :=
  ∀ q, t'.entry q = t.entry q ∨ (t.entry q = none ∧ t'.entry q = some .dir) ∨
    Verified format manifest d t' q

section Workspace

variable {t' : FileTree}

/-- All files of the workspace in the archive are there. -/
def Unpacked (format : ArtifactFormat) (manifest : BackupManifest) (d : Place) (tar : Tar)
    (t : FileTree) : Prop :=
  ∀ member ∈ tar.entries, member.1.workspace = true → ∃ rel,
    safeBackupEntryName (member.1.name.drop backupWorkspacePrefix.length) = some rel ∧
      Verified format manifest d t (d ++ steps rel)

theorem Verified.same {q : Place} (h : Verified format manifest d t q)
    (hsame : t'.entry q = t.entry q) : Verified format manifest d t' q := by
  obtain ⟨name, rel, content, hsafe, hq, hfile, hdigest⟩ := h
  exact ⟨name, rel, content, hsafe, hq, hsame.trans hfile, hdigest⟩

/-- One member, then the others. -/
theorem Leaves.cons {t₁ : FileTree} {content : Bytes}
    (hsafe : safeBackupEntryName (name.drop backupWorkspacePrefix.length) = some rel)
    (hdigest : memberDigest manifest name = .ok (hexDigest format content))
    (hfile : t₁.entry (d ++ steps rel) = some (.file content))
    (hothers : ∀ q, q ≠ d ++ steps rel → t₁.entry q = t.entry q ∨
      (t.entry q = none ∧ t₁.entry q = some .dir))
    (hrest : Leaves format manifest d t₁ t') :
    Leaves format manifest d t t' ∧ Verified format manifest d t' (d ++ steps rel) := by
  have hverified : Verified format manifest d t₁ (d ++ steps rel) :=
    ⟨name, rel, content, hsafe, rfl, hfile, hdigest⟩
  have hplace : Verified format manifest d t' (d ++ steps rel) := by
    rcases hrest (d ++ steps rel) with hsame | ⟨hnone, -⟩ | hdone
    · exact hverified.same hsame
    · simp [hfile] at hnone
    · exact hdone
  refine ⟨fun q => ?_, hplace⟩
  by_cases hq : q = d ++ steps rel
  · rw [hq]
    exact .inr (.inr hplace)
  · rcases hrest q with hsame | ⟨hnone, hdir⟩ | hdone
    · rw [hsame]
      exact (hothers q hq).imp_right .inl
    · rcases hothers q hq with hwas | ⟨-, hwas⟩
      · exact .inr (.inl ⟨hwas ▸ hnone, hdir⟩)
      · simp [hwas] at hnone
    · exact .inr (.inr hdone)

theorem always_extractMember (hdest : Leads cwd dest d t₀) (hin : Inside d t₀ t)
    (name content : Bytes) :
    Always (respond cwd) (Inside d t₀) (fun t' r => ∀ want, r = .ok want → ∃ rel,
      safeBackupEntryName (name.drop backupWorkspacePrefix.length) = some rel ∧
      memberDigest manifest name = .ok want ∧
      t'.entry (d ++ steps rel) = some (.file content) ∧
      ∀ q, q ≠ d ++ steps rel → t'.entry q = t.entry q ∨
        (t.entry q = none ∧ t'.entry q = some .dir))
      (extractMember manifest dest name content) t := by
  unfold extractMember
  split
  · exact ⟨hin, nofun⟩
  · rename_i rel hsafe
    have hplain := (safe_rel hsafe).2.2
    refine always_ofExcept hin (fun _ _ => nofun) fun want hwant => ?_
    refine (always_mkdirAll hdest hin (makesInside_dir hsafe)).then (fun _ _ _ _ => nofun) ?_
    intro t₁ u hin₁ hadds
    refine (always_writeTarFile hdest hin₁ hplain (target_start hsafe) (target_steps hsafe)
      content).then (fun _ _ _ _ => nofun) ?_
    intro t₂ u hin₂ hwrites
    obtain ⟨hfile, hothers⟩ := hwrites rfl
    refine ⟨hin₂, fun other hother => ⟨rel, hsafe, Except.ok.inj hother ▸ hwant, hfile, ?_⟩⟩
    intro q hq
    rw [hothers q hq]
    exact hadds rfl q

theorem always_extractMembers (hdest : Leads cwd dest d t₀) (hin : Inside d t₀ t) (tar : Tar) :
    Always (respond cwd) (Inside d t₀) (fun t' r => r = .ok () →
      Leaves format manifest d t t' ∧ Unpacked format manifest d tar t')
      (extractMembers format manifest dest tar) t := by
  induction tar generalizing t with
  | eof => exact ⟨hin, fun _ => ⟨fun _ => .inl rfl, forall_mem_nil _⟩⟩
  | invalid => exact ⟨hin, nofun⟩
  | truncated header content =>
    unfold extractMembers
    split_ifs
    · exact ⟨hin, nofun⟩
    · exact (always_extractMember hdest hin header.name content).then (fun _ _ _ _ => nofun)
        fun _ _ hin' _ => ⟨hin', nofun⟩
  | entry header content rest ih =>
    unfold extractMembers
    split_ifs with hworkspace
    · refine Always.mono ?_ (ih hin)
      intro t' r _ hr hok
      obtain ⟨hleaves, hentries⟩ := hr hok
      refine ⟨hleaves, ?_⟩
      rw [Unpacked, Tar.entries, forall_mem_cons]
      refine ⟨fun hyes => ?_, hentries⟩
      simp [hworkspace] at hyes
    · refine (always_extractMember hdest hin header.name content).then (fun _ _ _ _ => nofun) ?_
      intro t₁ want hin₁ hmember
      obtain ⟨rel, hsafe, hdigest, hfile, hothers⟩ := hmember want rfl
      split_ifs with hwant
      · exact ⟨hin₁, nofun⟩
      · obtain rfl := not_not.mp hwant
        refine Always.mono ?_ (ih hin₁)
        intro t' r _ hr hok
        obtain ⟨hleaves, hentries⟩ := hr hok
        obtain ⟨hall, hplace⟩ := Leaves.cons hsafe hdigest hfile hothers hleaves
        refine ⟨hall, ?_⟩
        rw [Unpacked, Tar.entries, forall_mem_cons]
        exact ⟨fun _ => ⟨rel, hsafe, hplace⟩, hentries⟩

end Workspace

/-! ## Staging -/

/-- The volume's archive is at a place with the name of the path, with the digest of its member;
else there are only new directories. -/
def Staged (format : ArtifactFormat) (manifest : BackupManifest) (path name : Bytes)
    (t t' : FileTree) : Prop :=
  ∃ place content, place.getLast? = (steps path).getLast? ∧
    t'.entry place = some (.file content) ∧
    memberDigest manifest name = .ok (hexDigest format content) ∧
    ∀ q, q ≠ place → t'.entry q = t.entry q ∨ (t.entry q = none ∧ t'.entry q = some .dir)

/-- The copy into the temporary file. -/
theorem always_copy {temporary : Place} (hempty : t.entry temporary = some (.file []))
    (file name : Bytes) :
    Always (respond cwd) (fun _ => True) (fun t' r => ∀ u, r = .ok u → ∃ content,
      Writes t t' temporary content ∧ memberDigest manifest name = .ok (hexDigest format content))
      (withMember format manifest file name fun content broken => do
        match ← Prog.ask (FileCall.append temporary content) with
        | none => .fail .file
        | some _ => if broken then .fail .stream else return ()) t := by
  refine always_withMember _ trivial (fun content => ?_) (fun content => ?_) file
  · refine Always.ask trivial ?_
    rintro (_ | u) t' hresp
    · exact ⟨trivial, nofun⟩
    · obtain rfl : t' = t.append temporary content := hresp
      refine ⟨trivial, fun _ _ => ⟨?_, fun q hq => append_other hq⟩⟩
      rw [append_entry hempty, nil_append]
  · refine Always.ask trivial ?_
    rintro (_ | u) t' -
    · exact ⟨trivial, trivial⟩
    · exact ⟨trivial, trivial⟩

theorem always_stageBackupVolumeMember (file root appID staged member : Bytes) :
    Always (respond cwd) (fun _ => True) (fun t' r => r = .ok () →
      Staged format manifest (volumeStagedArchivePath root appID staged)
        (backupVolumeMember member) t t')
      (stageBackupVolumeMember format manifest file root appID staged member) t := by
  unfold stageBackupVolumeMember
  extract_lets path
  refine Always.ask trivial ?_
  rintro (_ | u) t₁ hmade
  · exact ⟨trivial, nofun⟩
  have hadds : AddsDirs t t₁ := mkdirAll_adds hmade
  refine Always.ask trivial ?_
  rintro (_ | temporary) t₂ hresp
  · exact ⟨trivial, nofun⟩
  obtain ⟨q₀, e₀, hfree, -, -, hnone, rfl⟩ := hresp
  refine (always_copy (t₁.put_same temporary (.file []) hfree) file
    (backupVolumeMember member)).attemptThen ?_
  rintro t₃ (err | v) - hcopy
  · refine Always.ask trivial ?_
    intro answer t₄ _
    exact ⟨trivial, nofun⟩
  · obtain ⟨content, ⟨htemp, hothers⟩, hdigest⟩ := hcopy v rfl
    refine Always.ask trivial ?_
    rintro (_ | w) t₄ hrename
    · refine Always.ask trivial ?_
      intro answer t₅ _
      exact ⟨trivial, nofun⟩
    · obtain ⟨es, e, hsteps, hrenamed⟩ := hrename
      refine ⟨trivial, fun _ => ?_⟩
      obtain ⟨q, hplace, hrest, hgone⟩ := rename_spec htemp hrenamed
      refine ⟨q ++ [e], content, ?_, hplace, hdigest, fun p hp => ?_⟩
      · rw [hsteps]
        simp
      · by_cases htemporary : p = temporary
        · -- the temporary file was new
          rw [htemporary] at hp ⊢
          rw [hgone hp]
          rcases hadds temporary with hsame | ⟨hnew, -⟩
          · exact .inl (hnone.symm.trans hsame)
          · exact .inl hnew.symm
        · rw [hrest p hp htemporary, hothers p htemporary,
            t₁.put_other (.file []) hfree htemporary]
          exact hadds p

/-! ## Whole runs -/

theorem validateMembers_spec {seen : List Bytes} {members : List BackupMemberDigest}
    (h : validateMembers seen members = .ok ()) :
    (members.map (·.name)).Nodup ∧ ∀ member ∈ members, member.name ∉ seen := by
  induction members generalizing seen with
  | nil => exact ⟨nodup_nil, forall_mem_nil _⟩
  | cons member rest ih =>
    rw [validateMembers] at h
    split_ifs at h with hname hsha hsize hseen
    obtain ⟨hnodup, hrest⟩ := ih h
    rw [map_cons, nodup_cons, forall_mem_cons]
    refine ⟨⟨fun hin => ?_, hnodup⟩, hseen, fun other hother hold => ?_⟩
    · obtain ⟨other, hother, hsame⟩ := mem_map.mp hin
      exact hrest other hother (hsame ▸ mem_cons_self)
    · exact hrest other hother (mem_cons_of_mem _ hold)

/-- A manifest of an artifact that was opened has been validated. -/
theorem openBackupArtifact_valid {file : Bytes} (h : openBackupArtifact format file = .ok manifest) :
    validateBackupManifest manifest = .ok () := by
  unfold openBackupArtifact verifyBackupArtifact at h
  obtain ⟨⟨other, rest⟩, hread, h⟩ := bind_eq_ok.mp h
  obtain ⟨_, -, h⟩ := bind_eq_ok.mp h
  obtain rfl : other = manifest := Except.ok.inj h
  revert hread
  fun_cases readBackupManifest format (format.unpack file) with
  | case8 _ _ _ _ _ _ _ hvalid =>
    rintro ⟨⟩
    exact hvalid
  | _ => nofun

/-- The digest of a name is the one of the only member that has it. -/
theorem memberDigest_unique {file want : Bytes}
    (hopen : openBackupArtifact format file = .ok manifest)
    (h : memberDigest manifest name = .ok want) :
    ∃ member ∈ manifest.members, member.name = name ∧ member.sha256 = want ∧
      ∀ other ∈ manifest.members, other.name = name → other = member := by
  have hvalid := openBackupArtifact_valid hopen
  unfold validateBackupManifest at hvalid
  split_ifs at hvalid
  have hnodup := (validateMembers_spec hvalid).1
  unfold memberDigest at h
  split at h
  · rename_i member hfind
    have hname : member.name = name := beq_iff_eq.mp (find?_some hfind :)
    refine ⟨member, mem_of_find?_eq_some hfind, hname, Except.ok.inj h, ?_⟩
    intro other hother hsame
    exact inj_on_of_nodup_map hnodup hother (mem_of_find?_eq_some hfind) (hsame.trans hname.symm)
  · cases h

theorem always_extractWorkspace (hdest : Leads cwd dest d t) (file : Bytes) :
    Always (respond cwd) (Inside d t) (fun t' r => r = .ok () →
      Leaves format manifest d t t' ∧ ∃ tar, skipBackupManifest (format.unpack file) = .ok tar ∧
        Unpacked format manifest d tar t')
      (extractWorkspace format manifest file dest) t := by
  refine (always_requireBackupDestDir hdest.inside dest).then (fun _ _ _ _ => nofun) ?_
  rintro t' u hin rfl
  refine always_ofExcept hin (fun _ _ => nofun) fun tar htar => ?_
  refine Always.mono ?_ (always_extractMembers hdest hin tar)
  intro t'' r _ hr hok
  exact ⟨(hr hok).1, tar, htar, (hr hok).2⟩

theorem always_extractVolume (hdest : Leads cwd dest d t) (file volume : Bytes) :
    Always (respond cwd) (Inside d t) (fun _ _ => True)
      (extractVolume format manifest file volume dest) t := by
  unfold extractVolume
  split_ifs
  · exact ⟨hdest.inside, trivial⟩
  · refine (always_requireBackupDestDir hdest.inside dest).then (fun _ _ _ _ => trivial) ?_
    rintro t' u hin rfl
    refine Always.mono (fun _ _ _ _ => trivial) (always_withMember
      (fun _ _ _ => True) hin (fun content => ?_) (fun content => ?_) file)
    · exact Always.mono (fun _ _ _ _ _ _ => trivial) (always_extractTarToDir hdest hin _)
    · exact always_extractTarToDir hdest hin _

theorem always_restoreDirFromVolumeTar (hdest : Leads cwd dest d t) (staged : Option Bytes) :
    Always (respond cwd) (Inside d t) (fun _ _ => True)
      (restoreDirFromVolumeTar format staged dest) t := by
  cases staged with
  | none => exact ⟨hdest.inside, trivial⟩
  | some content =>
    exact (always_mkdirAll hdest hdest.inside makesInside_dest).then (fun _ _ _ _ => trivial)
      fun _ _ hin _ => always_restoreEntries hdest hin _

/-- For every file that `OpenBackupArtifact` accepts, and whatever is in it when it is read again:
the extractions change nothing but what is strictly below their destination, wherever they stop.
What `ExtractWorkspace` and `stageBackupVolumeMember` leave behind when they succeed has the digest
of the one member of its name. -/
theorem extraction_confined {file : Bytes} (hdest : Leads cwd dest d t)
    (hopen : openBackupArtifact format file = .ok manifest) (again : Bytes) :
    (∀ t', Stops (respond cwd) t (extractWorkspace format manifest again dest) t' →
      ∀ q, ¬ Below d q → t'.entry q = t.entry q) ∧
    (∀ volume t', Stops (respond cwd) t
      (extractVolume format manifest again volume dest) t' →
        ∀ q, ¬ Below d q → t'.entry q = t.entry q) ∧
    (∀ staged t', Stops (respond cwd) t (restoreDirFromVolumeTar format staged dest) t' →
      ∀ q, ¬ Below d q → t'.entry q = t.entry q) ∧
    (∀ events t', Runs (respond cwd) t (extractWorkspace format manifest again dest)
      events t' (.ok ()) → Leaves format manifest d t t' ∧
        ∃ tar, skipBackupManifest (format.unpack again) = .ok tar ∧
          ∀ member ∈ tar.entries, member.1.workspace = true → ∃ rel,
            safeBackupEntryName (member.1.name.drop backupWorkspacePrefix.length) = some rel ∧
              Verified format manifest d t' (d ++ steps rel)) ∧
    (∀ root appID staged member before events t', Runs (respond cwd) before
      (stageBackupVolumeMember format manifest again root appID staged member) events t' (.ok ()) →
        Staged format manifest (volumeStagedArchivePath root appID staged)
          (backupVolumeMember member) before t') ∧
    ∀ name want, memberDigest manifest name = .ok want → ∃ member ∈ manifest.members,
      member.name = name ∧ member.sha256 = want ∧
        ∀ other ∈ manifest.members, other.name = name → other = member := by
  refine ⟨fun t' hstop => ?_, fun volume t' hstop => ?_, fun staged t' hstop => ?_,
    fun events t' hruns => ?_, fun root appID staged member before events t' hruns => ?_,
    fun name want hwant => memberDigest_unique hopen hwant⟩
  · exact ((always_extractWorkspace hdest again).stops hstop).outside
  · exact ((always_extractVolume hdest again volume).stops hstop).outside
  · exact ((always_restoreDirFromVolumeTar hdest staged).stops hstop).outside
  · exact ((always_extractWorkspace hdest again).runs hruns).2 rfl
  · exact ((always_stageBackupVolumeMember again root appID staged member).runs hruns).2 rfl

/-! ## An artifact -/

section Demo

/-- A digest that keeps the first 32 bytes. -/
def demoDigest (content : Bytes) : Bytes := (content ++ List.replicate 32 0).take 32

/-- An artifact with the compose document and one file of the workspace. -/
def demoManifest : BackupManifest :=
  ⟨1, ascii "app", ascii "2026-01-02T03:04:05Z", ascii "zstd",
    hexEncode (demoDigest (ascii "xy")), 2,
    [⟨backupComposeMember, hexEncode (demoDigest (ascii "x")), 1⟩,
      ⟨ascii "workspace/a/b", hexEncode (demoDigest (ascii "y")), 1⟩]⟩

/-- Artifacts whose bytes are the two contents in turn. -/
def demoFormat : ArtifactFormat where
  sha256 := demoDigest
  unmarshal text := if text = ascii "manifest" then some demoManifest else none
  unpack file := .entry ⟨backupManifestName, .reg, 8⟩ (ascii "manifest")
    (.entry ⟨backupComposeMember, .reg, 1⟩ (file.take 1)
      (.entry ⟨ascii "workspace/a/b", .reg, 1⟩ (file.drop 1) .eof))
  untar _ _ := .eof

/-- A tree with one directory. -/
def demoTree : FileTree where
  entry p := if p = [] ∨ p = [ascii "d"] then some .dir else none
  root := if_pos (.inl rfl)
  parent p hne hp := by
    have hplace : p = [] ∨ p = [ascii "d"] := not_not.mp fun h => hp (if_neg h)
    rw [hplace.resolve_left hne]
    exact if_pos (.inl rfl)

theorem leads_demo : Leads [] (ascii "/d") [ascii "d"] demoTree where
  cwd_dir := demoTree.root
  raw := by decide
  walk := by decide
  dir := by decide
  no_link p _ target h := by
    change (if _ then _ else _) = _ at h
    split_ifs at h
    cases h

/-- The artifact opens, and whatever is read again, its extraction stays below `/d`. -/
theorem extraction_confined_demo :
    openBackupArtifact demoFormat (ascii "xy") = .ok demoManifest ∧
    ∀ again t', Stops (respond []) demoTree
      (extractWorkspace demoFormat demoManifest again (ascii "/d")) t' →
        ∀ q, ¬ Below [ascii "d"] q → t'.entry q = demoTree.entry q := by
  have hopen : openBackupArtifact demoFormat (ascii "xy") = .ok demoManifest := by decide
  exact ⟨hopen, fun again => (extraction_confined leads_demo hopen again).1⟩

end Demo

end NrePlugins.DockerApp
