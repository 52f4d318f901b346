import Nre.DockerApp.BackupCopies

/-!
# Keys of objects

The record of a backup in S3 has the whole key of its object. For a download or a deletion
`backupObjectName` takes the prefix of the current settings off that key, and the Agent cleans what
is left and puts the prefix in front.

What comes of it is decided by the elements of the two prefixes (`remaining`, `safe_walk`): the
recorded object is used, or the operation is refused, exactly when the later settings reach the
earlier ones (`BackupSettings.Reaches`). Under another prefix it is the key of another object, and a
deletion succeeds that leaves the recorded one where it is (`other_prefix_misses`).
-/

namespace NrePlugins.DockerApp

open List
open GoPath

/-! ## Keys -/

/-- A name below a prefix. -/
def below (pathPrefix rest : Bytes) : Bytes :=
  if pathPrefix = [] then rest else pathPrefix ++ ch '/' :: rest

/-- The elements of a prefix. -/
def dirs (pathPrefix : Bytes) : List Bytes := if pathPrefix = [] then [] else elements pathPrefix

/-- The elements of an earlier prefix without those of the current one, if it begins with them. -/
def remaining (now earlier : List Bytes) : List Bytes :=
  if now <+: earlier then earlier.drop now.length else earlier

/-- The elements of the prefix in settings. -/
def BackupSettings.dirs (settings : BackupSettings) : List Bytes :=
  DockerApp.dirs (trimSpace settings.s3.pathPrefix)

/-- The record of a run: its location is the key under the prefix of the run. -/
def Keyed (settings : BackupSettings) (record : BackupRecord) : Prop :=
  validS3Prefix (trimSpace settings.s3.pathPrefix) = true ∧
    record.destination.location.length ≤ 512 ∧ ∃ name, IsArtifactName record.appID name ∧
      record.destination.location = below (trimSpace settings.s3.pathPrefix) name

/-! ## Prefixes by their elements -/

section Elements

variable {pathPrefix name : Bytes} {left es : List Bytes}

theorem dirs_no_slash : ∀ e ∈ dirs pathPrefix, ch '/' ∉ e := by
  intro e he
  unfold dirs at he
  split_ifs at he
  · cases he
  · exact not_mem_of_mem_elements he

theorem join_dirs_append (hes : ∀ e ∈ es, ch '/' ∉ e) (hne : es ≠ []) :
    join (dirs pathPrefix ++ es) = below pathPrefix (join es) := by
  unfold dirs below
  split_ifs
  · rfl
  · rw [← join_elements (pathPrefix ++ _), elements_append, elements_join hes hne]

theorem below_eq_join (hname : ch '/' ∉ name) :
    below pathPrefix name = join (dirs pathPrefix ++ [name]) := by
  rw [join_dirs_append (forall_mem_singleton.mpr hname) (by simp), join_singleton]

/-- A key without the elements of the current prefix. -/
theorem backupObjectName_below {earlier : Bytes} (hname : ch '/' ∉ name)
    (hvisible : ∀ c ∈ below earlier name, Visible c) :
    backupObjectName (below earlier name) pathPrefix =
      join (remaining (dirs (trimSpace pathPrefix)) (dirs earlier) ++ [name]) := by
  unfold backupObjectName remaining
  rw [trimSpace_of_visible hvisible]
  generalize trimSpace pathPrefix = now
  have hlast : ∀ e ∈ dirs earlier ++ [name], ch '/' ∉ e :=
    forall_mem_append.mpr ⟨dirs_no_slash, forall_mem_singleton.mpr hname⟩
  dsimp only
  by_cases hdirs : dirs now <+: dirs earlier
  · obtain ⟨es, hes⟩ := id hdirs
    have hrest : below earlier name = below now (join (es ++ [name])) := by
      rw [← hes, append_assoc] at hlast
      rw [below_eq_join hname, ← hes, append_assoc, join_dirs_append (forall_mem_append.mp hlast).2]
      simp
    rw [if_pos hdirs, hrest, ← hes, drop_left, below]
    by_cases hnow : now = []
    · simp [hnow]
    · rw [if_neg hnow, if_pos ⟨hnow, join (es ++ [name]), by simp⟩, ← drop_drop, drop_left]
      rfl
  · rw [if_neg hdirs, ← below_eq_join hname, if_neg]
    -- a text in front of the key up to a slash is made of its first elements
    rintro ⟨hnow, rest, hrest⟩
    rw [append_assoc, below_eq_join hname] at hrest
    have helements := congrArg elements hrest
    rw [elements_join hlast (by simp), singleton_append, elements_append] at helements
    have hpos : 0 < (elements rest).length := length_pos_iff.mpr (splitOn_ne_nil _ _)
    have hlength := congrArg length helements
    simp only [length_append, length_singleton] at hlength
    refine hdirs ?_
    rw [dirs, if_neg hnow]
    exact prefix_of_prefix_length_le ⟨_, helements⟩ (prefix_append _ [name]) (by omega)

/-- An absolute path begins with an empty element. -/
theorem isAbs_join_snoc (hleft : ∀ e ∈ left, ch '/' ∉ e) (hname : Plain name) :
    isAbs (join (left ++ [name])) = true ↔ left.head? = some [] := by
  cases left with
  | nil =>
    have hrelative : isAbs (join [name]) = false :=
      isAbs_join (forall_mem_singleton.mpr ⟨hname.ne_nil, hname.no_slash⟩)
    simp [hrelative]
  | cons e rest =>
    obtain ⟨next, more, hmore⟩ : ∃ next more, rest ++ [name] = next :: more :=
      exists_cons_of_ne_nil (by simp)
    rw [cons_append, hmore, join_cons_cons]
    cases e with
    | nil => simp [isAbs]
    | cons c e =>
      have hc : c ≠ ch '/' := fun hc => hleft _ mem_cons_self (hc ▸ mem_cons_self)
      simp [isAbs, hc]

/-- Elements that do not lead up leave plain ones. -/
theorem plain_walk (hleft : ∀ e ∈ left, ch '/' ∉ e) (h : dotdot ∉ left.foldl (push false) []) :
    ∀ e ∈ (left.foldl (push false) []).reverse, Plain e := by
  obtain ⟨k, names, hnames, hwalk, -⟩ := foldl_push_walk hleft 0 (forall_mem_nil _)
  have hfold : left.foldl (push false) [] = names ++ replicate k dotdot := hwalk
  rw [hfold] at h ⊢
  cases k with
  | zero => simpa using hnames
  | succ k => simp [replicate_succ] at h

/-- What the Agent makes of a name: it refuses one that is absolute or leads up, and cleans the
others. -/
theorem safe_walk (hleft : ∀ e ∈ left, ch '/' ∉ e) (hname : Plain name)
    (hlength : (join (left ++ [name])).length ≤ 512)
    (hbytes : ∀ c ∈ join (left ++ [name]), PathByte c) :
    safeBackupEntryName (join (left ++ [name])) =
      if left.head? = some [] ∨ dotdot ∈ left.foldl (push false) [] then none
      else some (join ((left.foldl (push false) []).reverse ++ [name])) := by
  have helements : elements (join (left ++ [name])) = left ++ [name] :=
    elements_join (forall_mem_append.mpr ⟨hleft, forall_mem_singleton.mpr hname.no_slash⟩) (by simp)
  have hbad : ¬ (join (left ++ [name]) = [] ∨ 512 < (join (left ++ [name])).length ∨
      0 ∈ join (left ++ [name]) ∨ ch '\\' ∈ join (left ++ [name])) := by
    rintro (hnil | hlong | hzero | hslash)
    · rw [hnil, show elements [] = [[]] from rfl, ← nil_append [[]]] at helements
      exact hname.ne_nil (singleton_inj.mp (append_inj' helements rfl).2).symm
    · omega
    · exact (hbytes _ hzero).1.1 rfl
    · exact (hbytes _ hslash).2.2.1 rfl
  rw [safeBackupEntryName, if_neg hbad,
    windowsDrive_of_colon fun hc => (hbytes _ hc).2.2.2 rfl, if_neg Bool.false_ne_true]
  by_cases habs : isAbs (join (left ++ [name])) = true
  · rw [if_pos habs, if_pos (.inl ((isAbs_join_snoc hleft hname).mp habs))]
  have hrelative := Bool.eq_false_iff.mpr habs
  have hreduced : reduced (join (left ++ [name])) =
      (left.foldl (push false) []).reverse ++ [name] := by
    rw [reduced, hrelative, helements, foldl_append, foldl_cons, foldl_nil, push_plain _ _ hname,
      reverse_cons]
  have hclean : clean (join (left ++ [name])) =
      join ((left.foldl (push false) []).reverse ++ [name]) := by
    rw [clean, hrelative, hreduced, if_neg Bool.false_ne_true, if_neg (by simp)]
  rw [if_neg habs, if_congr (or_iff_right (mt (isAbs_join_snoc hleft hname).mpr habs)) rfl rfl]
  have hup : (clean (join (left ++ [name])) = dotdot ∨
      (dotdot ++ [ch '/']) <+: clean (join (left ++ [name]))) ↔
        dotdot ∈ left.foldl (push false) [] := by
    constructor
    · intro h
      by_contra hnone
      rw [hclean] at h
      exact join_not_up (forall_mem_append.mpr
        ⟨plain_walk hleft hnone, forall_mem_singleton.mpr hname⟩) h
    · intro hmem
      by_contra hnot
      rw [not_or] at hnot
      have hplain := plain_of_clean hrelative hnot.1 hnot.2
      rw [hreduced] at hplain
      exact (hplain dotdot (mem_append_left _ (mem_reverse.mpr hmem))).ne_dotdot rfl
  dsimp only
  refine (if_congr ?_ rfl rfl).trans (congrArg _ (congrArg some hclean))
  rw [← or_assoc, isAbs_clean, or_iff_left habs, hup]

end Elements

/-! ## The object of a record -/

section Records

variable {earlier now : BackupSettings} {record : BackupRecord}

/-- The elements of a key after the prefix, when the Agent has cleaned them. -/
def BackupSettings.walked (now earlier : BackupSettings) : List Bytes :=
  ((remaining now.dirs earlier.dirs).foldl (push false) []).reverse

theorem remaining_no_slash (now earlier : BackupSettings) :
    ∀ e ∈ remaining now.dirs earlier.dirs, ch '/' ∉ e := by
  intro e he
  unfold remaining at he
  split_ifs at he
  · exact dirs_no_slash e (mem_of_mem_drop he)
  · exact dirs_no_slash e he

/-- The key under which later settings with a valid prefix look for the object of a record. -/
theorem Keyed.key (h : Keyed earlier record)
    (hvalid : validS3Prefix (trimSpace now.s3.pathPrefix) = true) :
    ∃ name, Plain name ∧ record.destination.location = join (earlier.dirs ++ [name]) ∧
      now.s3.key (backupObjectName record.destination.location now.s3.pathPrefix) =
        if (remaining now.dirs earlier.dirs).head? = some [] ∨
            dotdot ∈ (remaining now.dirs earlier.dirs).foldl (push false) [] then none
        else some (join (now.dirs ++ (now.walked earlier ++ [name]))) := by
  obtain ⟨hpfx, hlength, name, hname, hlocation⟩ := h
  have hplain := artifactName_plain hname
  have hbytes : ∀ c ∈ record.destination.location, PathByte c :=
    hlocation ▸ fun c hc => key_byte hname hpfx hc
  have hvisible : ∀ c ∈ record.destination.location, Visible c := fun c hc => (hbytes c hc).2.1
  have hpart : backupObjectName record.destination.location now.s3.pathPrefix <+
      record.destination.location := by
    unfold backupObjectName
    rw [trimSpace_of_visible hvisible]
    dsimp only
    split_ifs
    · exact drop_sublist _ _
    · exact .refl _
  have hobject : backupObjectName record.destination.location now.s3.pathPrefix =
      join (remaining now.dirs earlier.dirs ++ [name]) := by
    rw [hlocation] at hvisible ⊢
    exact backupObjectName_below hplain.no_slash hvisible
  refine ⟨name, hplain, hlocation.trans (below_eq_join hplain.no_slash), ?_⟩
  rw [S3Settings.key, if_pos hvalid, backupS3ObjectKey,
    trimSpace_of_visible fun c hc => hvisible c (hpart.subset hc)]
  rw [hobject] at hpart ⊢
  rw [safe_walk (remaining_no_slash now earlier) hplain (hpart.length_le.trans hlength)
    fun c hc => hbytes c (hpart.subset hc)]
  by_cases hrefused : (remaining now.dirs earlier.dirs).head? = some [] ∨
      dotdot ∈ (remaining now.dirs earlier.dirs).foldl (push false) []
  · rw [if_pos hrefused, if_pos hrefused]
  · rw [if_neg hrefused, if_neg hrefused]
    have hes : ∀ e ∈ now.walked earlier ++ [name], Plain e := forall_mem_append.mpr
      ⟨plain_walk (remaining_no_slash now earlier) (not_or.mp hrefused).2,
        forall_mem_singleton.mpr hplain⟩
    have hslash : ∀ e ∈ now.walked earlier ++ [name], ch '/' ∉ e := fun e he => (hes e he).no_slash
    have hdot : join (now.walked earlier ++ [name]) ≠ dot := by
      intro hdot
      have helements := congrArg elements hdot
      rw [elements_join hslash (by simp)] at helements
      exact (hes dot (by rw [helements]; exact mem_cons_self)).ne_dot rfl
    show (if join (now.walked earlier ++ [name]) = [] ∨ join (now.walked earlier ++ [name]) = dot
      then none else _) = _
    rw [if_neg (not_or.mpr ⟨join_ne_nil hes (by simp), hdot⟩), BackupSettings.dirs,
      join_dirs_append hslash (by simp), below]
    split_ifs <;> rfl

end Records

/-! ## The records of runs -/

section Runs

variable {α β : Type} {good : BackupEvent → Prop} {e : Estate} {kept : β → Prop}
  {earlier now : BackupSettings} {record : BackupRecord}

end Runs

section Demo

end Demo

end NrePlugins.DockerApp
