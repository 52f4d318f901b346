import Nre.DockerApp.BackupNames

/-!
# Bind sources

`classifyBindSource` tells the sources of volumes apart: names, directories below the directory
of the app, and directories of the host. Whether a relative source leaves the directory is
tested on a directory of a fixed name, `/work`, and the source is later resolved against the
app's own.

A source goes up some directories and then down (`GoPath.joinTo_walk`). Up from `/work` and down
into a directory that is called `work` leads back to where it started, and from another directory
it need not: `ComesBack`. Such a source is taken for a relative one (`ComesBack.relative`), and there
is a directory that it leaves (`ComesBack.leaves`). All other sources are told apart correctly for
every directory (`inside_of_not_host`).
-/

namespace NrePlugins.DockerApp

open List
open GoPath

inductive BindClass where
  | named
  | relative
  | host
  deriving DecidableEq

/-- Backslashes are read as slashes. -/
def slashed (source : Bytes) : Bytes := source.map fun b => if b = ch '\\' then ch '/' else b

def dummy : Bytes := ascii "/work"

def relativeEscapes (source : Bytes) : Bool :=
  let joined := joinTo dummy (slashed source)
  if joined = dummy then false else !(dummy ++ [ch '/']).isPrefixOf joined

def classifyBindSource (source : Bytes) : BindClass :=
  if source = [] then .named
  else if [ch '~'] <+: source ∨ [ch '/'] <+: source ∨ [ch '\\'] <+: source then .host
  else if windowsDrive source then .host
  else
    let normalized := slashed source
    if normalized = dotdot ∨ (dotdot ++ [ch '/']) <+: normalized then .host
    else if normalized = dot ∨ (dot ++ [ch '/']) <+: normalized then
      if relativeEscapes normalized then .host else .relative
    else if ch '/' ∈ normalized then
      if relativeEscapes normalized then .host else .relative
    else .named

/-- A directory of an app. -/
structure Workdir where
  path : Bytes
  rooted : isAbs path = true
  cleaned : clean path = path

def relativePathInside (rel : Bytes) : Bool :=
  if rel = dot then true
  else if rel = dotdot ∨ (dotdot ++ [ch '/']) <+: rel then false
  else true

/-- `resolveRelativePath`; there is one error. -/
def resolveRelativePath (w : Workdir) (source : Bytes) : Option Bytes :=
  let joined := joinTo w.path (slashed source)
  let cleaned := clean joined
  if relativePathInside (relTo w.path cleaned) then some cleaned else none

/-- An absolute path is a directory or lies below it. -/
def AtOrBelow (dir p : Bytes) : Prop := reduced dir <+: reduced p

/-- What a source leads to from a directory. -/
abbrev Workdir.target (w : Workdir) (source : Bytes) : Bytes := joinTo w.path (slashed source)

/-- The source is taken for one of the host by what it begins with. -/
def HostLike (source : Bytes) : Prop :=
  ([ch '~'] <+: source ∨ [ch '/'] <+: source ∨ [ch '\\'] <+: source) ∨ windowsDrive source = true ∨
    slashed source = dotdot ∨ (dotdot ++ [ch '/']) <+: slashed source

instance decidableHostLike (source : Bytes) : Decidable (HostLike source) :=
  inferInstanceAs (Decidable (_ ∨ _))

/-- The source goes up and then down into a directory called `work`, and is not taken for one of
the host by what it begins with. -/
def ComesBack (source : Bytes) : Prop :=
  ¬ HostLike source ∧
    ∃ k rest, reduced (slashed source) = List.replicate (k + 1) dotdot ++ ascii "work" :: rest

/-! ## Paths inside -/

theorem slashed_slashed (source : Bytes) : slashed (slashed source) = slashed source := by
  unfold slashed
  rw [map_map]
  refine map_congr_left fun b _ => ?_
  by_cases hb : b = ch '\\'
  · subst hb
    rfl
  · simp [hb]

theorem relativePathInside_plain {es : List Bytes} (h : ∀ e ∈ es, Plain e) :
    relativePathInside (join es) = true := by
  unfold relativePathInside
  rw [if_neg (join_not_up h)]
  split <;> rfl

theorem relativePathInside_up (l : List Bytes) :
    relativePathInside (join (dotdot :: l)) = false := by
  have hup : join (dotdot :: l) = dotdot ∨ (dotdot ++ [ch '/']) <+: join (dotdot :: l) := by
    cases l with
    | nil => exact .inl (join_singleton dotdot)
    | cons e l =>
      refine .inr ⟨join (e :: l), ?_⟩
      rfl
  have hdot : join (dotdot :: l) ≠ dot := by
    intro heq
    rw [heq] at hup
    exact absurd hup (by decide)
  rw [relativePathInside, if_neg hdot, if_pos hup]

theorem relativePathInside_relTo {base targ : Bytes} (htarg : isAbs targ = true) :
    relativePathInside (relTo base targ) = true ↔ AtOrBelow base targ := by
  unfold AtOrBelow relTo
  by_cases hsame : clean targ = clean base
  · rw [← steps_clean, ← steps_clean, hsame]
    simp [relativePathInside]
  rw [if_neg hsame, steps_clean, steps_clean, ← afterCommon_fst_eq_nil]
  obtain ⟨common, -, hts⟩ := afterCommon_eq (reduced base) (reduced targ)
  dsimp only
  cases hleft : (afterCommon (reduced base) (reduced targ)).1 with
  | nil =>
    have hnames : ∀ e ∈ (afterCommon (reduced base) (reduced targ)).2, Plain e := by
      intro e he
      refine plain_of_rooted htarg e ?_
      rw [hts]
      exact mem_append_right _ he
    simpa using relativePathInside_plain hnames
  | cons b bs => simp [relativePathInside_up]

theorem Workdir.rooted_target (w : Workdir) (source : Bytes) : isAbs (w.target source) = true := by
  have hne : w.path ≠ [] := by
    intro hnil
    have := w.rooted
    rw [hnil] at this
    cases this
  rw [Workdir.target, joinTo, if_pos hne, isAbs_clean, isAbs_append hne, w.rooted]

variable {w : Workdir} {source : Bytes}

theorem resolveRelativePath_of_inside (h : AtOrBelow w.path (w.target source)) :
    resolveRelativePath w source = some (clean (w.target source)) ∧
      AtOrBelow w.path (clean (w.target source)) := by
  have hclean : AtOrBelow w.path (clean (w.target source)) := by
    unfold AtOrBelow at h ⊢
    rw [← steps_clean (clean _), clean_clean, steps_clean]
    exact h
  have hrooted : isAbs (clean (w.target source)) = true := by
    rw [isAbs_clean, w.rooted_target]
  refine ⟨?_, hclean⟩
  rw [resolveRelativePath, if_pos ((relativePathInside_relTo hrooted).mpr hclean)]

/-! ## The two directories -/

theorem reduced_dummy : reduced dummy = [ascii "work"] := by decide

theorem plain_work : Plain (ascii "work") := by
  refine ⟨?_, ?_, ?_, ?_⟩ <;> decide

/-- Not to leave the directory called `work` is not to go up, or to come back. -/
theorem relativeEscapes_eq_false (h : relativeEscapes source = false) {k : Nat} {names : List Bytes}
    (hnames : ∀ e ∈ names, Plain e) (hwalk : joinTo dummy (slashed source) =
      render true ((reduced dummy).take ((reduced dummy).length - k) ++ names)) :
    k = 0 ∨ ∃ rest, names = ascii "work" :: rest := by
  cases k with
  | zero => exact .inl rfl
  | succ k =>
    right
    rw [reduced_dummy, length_singleton, Nat.sub_eq_zero_of_le (Nat.succ_le_succ k.zero_le),
      take_zero, nil_append] at hwalk
    have hstart : join names = ascii "work" ∨ (ascii "work" ++ [ch '/']) <+: join names := by
      simp only [relativeEscapes, hwalk, render, if_true] at h
      split at h
      · rename_i hsame
        exact .inl (List.cons.inj hsame).2
      · refine .inr ?_
        rw [Bool.not_eq_false', isPrefixOf_iff_prefix] at h
        exact (cons_prefix_cons.mp h).2
    have hne : names ≠ [] := by
      rintro rfl
      exact absurd hstart (by decide)
    exact eq_cons_of_join plain_work.no_slash (fun e he => (hnames e he).no_slash) hstart hne

/-- A source that does not go up stays inside. -/
theorem inside_of_walk {names : List Bytes} (hnames : ∀ e ∈ names, Plain e)
    (hwalk : w.target source =
      render true ((reduced w.path).take ((reduced w.path).length - 0) ++ names)) :
    AtOrBelow w.path (w.target source) := by
  rw [AtOrBelow, hwalk, Nat.sub_zero, take_length, reduced_render]
  · exact prefix_append _ _
  · rw [forall_mem_append]
    exact ⟨plain_of_rooted w.rooted, hnames⟩

theorem head_slashed (h : ¬ ([ch '/'] <+: source ∨ [ch '\\'] <+: source)) :
    isAbs (slashed source) = false := by
  cases source with
  | nil => rfl
  | cons b rest =>
    simp only [cons_prefix_cons, nil_prefix, and_true, not_or] at h
    have hb : ¬ b = ch '\\' := fun hb => h.2 hb.symm
    simpa [slashed, isAbs, hb] using fun hb => h.1 hb.symm

/-- A source with its classification: it is taken for one that stays inside, and it does unless
it comes back. -/
theorem inside_of_not_escapes (hback : ComesBack source → AtOrBelow w.path (w.target source))
    (habs : isAbs (slashed source) = false) (hhost : ¬ HostLike source)
    (h : relativeEscapes source = false) : AtOrBelow w.path (w.target source) := by
  obtain ⟨k, names, hnames, hreduced, hwalk⟩ := joinTo_walk habs
  rcases relativeEscapes_eq_false h hnames (hwalk dummy rfl) with rfl | ⟨rest, rfl⟩
  · exact inside_of_walk hnames (hwalk w.path w.rooted)
  · cases k with
    | zero => exact inside_of_walk hnames (hwalk w.path w.rooted)
    | succ k => exact hback ⟨hhost, k, rest, hreduced⟩

/-- A name does not go up. -/
theorem reduced_name (hslash : ch '/' ∉ slashed source) (hdots : slashed source ≠ dotdot)
    (k : Nat) (names : List Bytes) :
    reduced (slashed source) ≠ List.replicate (k + 1) dotdot ++ names := by
  intro hreduced
  rw [reduced, elements_self hslash] at hreduced
  by_cases hskip : slashed source = [] ∨ slashed source = dot
  · simp [push, hskip] at hreduced
  · simp only [foldl_cons, foldl_nil, push, if_neg hskip, if_neg hdots,
      reverse_singleton] at hreduced
    exact hdots (List.cons.inj hreduced).1

/-- A name stays inside. -/
theorem inside_of_name (habs : isAbs (slashed source) = false) (hslash : ch '/' ∉ slashed source)
    (hdots : slashed source ≠ dotdot) : AtOrBelow w.path (w.target source) := by
  obtain ⟨k, names, hnames, hreduced, hwalk⟩ := joinTo_walk habs
  cases k with
  | zero => exact inside_of_walk hnames (hwalk w.path w.rooted)
  | succ k => exact absurd hreduced (reduced_name hslash hdots k names)

theorem relativeEscapes_slashed (source : Bytes) :
    relativeEscapes (slashed source) = relativeEscapes source := by
  rw [relativeEscapes, relativeEscapes, slashed_slashed]

theorem not_hostLike (hroot : ¬ ([ch '~'] <+: source ∨ [ch '/'] <+: source ∨ [ch '\\'] <+: source))
    (hdrive : ¬ windowsDrive source = true)
    (hdots : ¬ (slashed source = dotdot ∨ (dotdot ++ [ch '/']) <+: slashed source)) :
    ¬ HostLike source := by
  rintro (h | h | h)
  exacts [hroot h, hdrive h, hdots h]

/-- What `classifyBindSource` goes by. -/
theorem classifyBindSource_cases (source : Bytes) :
    classifyBindSource source = .host ∧ (HostLike source ∨ relativeEscapes source = true) ∨
    ¬ HostLike source ∧
      (classifyBindSource source = .relative ∧ relativeEscapes source = false ∨
        classifyBindSource source = .named ∧ ch '/' ∉ slashed source) := by
  rw [← relativeEscapes_slashed source]
  fun_cases classifyBindSource source with
  | case1 hnil =>
    subst hnil
    exact .inr ⟨by decide, .inr ⟨rfl, not_mem_nil⟩⟩
  | case2 _ hhost => exact .inl ⟨rfl, .inl (.inl hhost)⟩
  | case3 _ _ hdrive => exact .inl ⟨rfl, .inl (.inr (.inl hdrive))⟩
  | case4 _ _ _ _ hdots => exact .inl ⟨rfl, .inl (.inr (.inr hdots))⟩
  | case5 _ _ _ _ _ _ hescapes | case7 _ _ _ _ _ _ _ hescapes => exact .inl ⟨rfl, .inr hescapes⟩
  | case6 _ hhost hdrive _ hdots _ hescapes | case8 _ hhost hdrive _ hdots _ _ hescapes =>
    rw [Bool.not_eq_true] at hescapes
    exact .inr ⟨not_hostLike hhost hdrive hdots, .inl ⟨rfl, hescapes⟩⟩
  | case9 _ hhost hdrive _ hdots _ hslash =>
    exact .inr ⟨not_hostLike hhost hdrive hdots, .inr ⟨rfl, hslash⟩⟩

/-- A source that is not taken for one of the host stays inside, unless it comes back. -/
theorem inside_of_not_host (hback : ComesBack source → AtOrBelow w.path (w.target source))
    (h : classifyBindSource source ≠ .host) : AtOrBelow w.path (w.target source) := by
  obtain ⟨hhost, hclass⟩ := (classifyBindSource_cases source).resolve_left fun hleft => h hleft.1
  have habs : isAbs (slashed source) = false := head_slashed fun hroot => hhost (.inl (.inr hroot))
  rcases hclass with ⟨-, hescapes⟩ | ⟨-, hslash⟩
  · exact inside_of_not_escapes hback habs hhost hescapes
  · exact inside_of_name habs hslash fun heq => hhost (.inr (.inr (.inl heq)))

/-! ## Sources that come back -/

/-- How far up a path leads is determined by its elements. -/
theorem replicate_append_inj {a b : Nat} {names names' : List Bytes} (h : ∀ e ∈ names, Plain e)
    (h' : ∀ e ∈ names'.head?, e ≠ dotdot)
    (heq : List.replicate a dotdot ++ names = List.replicate b dotdot ++ names') :
    a = b ∧ names = names' := by
  induction a generalizing b with
  | zero =>
    cases b with
    | zero => exact ⟨rfl, heq⟩
    | succ b =>
      have hmem : dotdot ∈ names := by
        rw [show names = _ from heq]
        exact mem_append_left _ mem_cons_self
      exact absurd rfl (h _ hmem).ne_dotdot
  | succ a ih =>
    cases b with
    | zero =>
      refine absurd rfl (h' dotdot ?_)
      rw [show names' = _ from heq.symm]
      rfl
    | succ b =>
      obtain ⟨hab, hnames⟩ := ih (List.cons.inj heq).2
      exact ⟨congrArg _ hab, hnames⟩

/-- Where a source that comes back leads: as many directories up as it says, then down. -/
theorem ComesBack.walk (h : ComesBack source) : ∃ k rest, (∀ e ∈ rest, Plain e) ∧
    ∀ base, isAbs base = true → joinTo base (slashed source) =
      render true ((reduced base).take ((reduced base).length - (k + 1)) ++ ascii "work" :: rest) := by
  obtain ⟨hhost, k, rest, hback⟩ := h
  have habs : isAbs (slashed source) = false := head_slashed fun hroot => hhost (.inl (.inr hroot))
  obtain ⟨k', names, hnames, hreduced, hwalk⟩ := joinTo_walk habs
  obtain ⟨rfl, rfl⟩ := replicate_append_inj hnames (by simp; decide) (hreduced.symm.trans hback)
  exact ⟨k, rest, fun e he => hnames e (mem_cons_of_mem _ he), hwalk⟩

/-- It is taken for a relative one. -/
theorem ComesBack.relative (h : ComesBack source) : classifyBindSource source = .relative := by
  obtain ⟨k, rest, hnames, hwalk⟩ := h.walk
  obtain ⟨hhost, k', rest', hback⟩ := h
  have hinside : relativeEscapes source = false := by
    have hjoined := hwalk dummy rfl
    rw [reduced_dummy, length_singleton, Nat.sub_eq_zero_of_le (Nat.succ_le_succ k.zero_le),
      take_zero, nil_append] at hjoined
    unfold relativeEscapes
    rw [hjoined]
    cases rest with
    | nil => rfl
    | cons e rest =>
      have hbelow : (dummy ++ [ch '/']).isPrefixOf (render true (ascii "work" :: e :: rest)) = true :=
        isPrefixOf_iff_prefix.mpr ⟨join (e :: rest), by rw [render, join_cons_cons]; rfl⟩
      simp [hbelow]
  rcases classifyBindSource_cases source with
    ⟨-, hlike | hescapes⟩ | ⟨-, ⟨hrelative, -⟩ | ⟨-, hslash⟩⟩
  · exact absurd hlike hhost
  · cases hinside.symm.trans hescapes
  · exact hrelative
  · exact absurd hback (reduced_name hslash (fun heq => hhost (.inr (.inr (.inl heq)))) k' _)

/-- A directory of an app that is not called `work`. -/
def other : Workdir := ⟨ascii "/app", by decide, by decide⟩

/-- It leaves this one. -/
theorem ComesBack.leaves (h : ComesBack source) : ¬ AtOrBelow other.path (other.target source) := by
  obtain ⟨k, rest, hnames, hwalk⟩ := h.walk
  have hreduced : reduced other.path = [ascii "app"] := by decide
  have htarget : other.target source = render true (ascii "work" :: rest) := by
    rw [Workdir.target, hwalk other.path rfl, hreduced, length_singleton,
      Nat.sub_eq_zero_of_le (Nat.succ_le_succ k.zero_le), take_zero, nil_append]
  rw [AtOrBelow, htarget, hreduced, reduced_render (forall_mem_cons.mpr ⟨plain_work, hnames⟩),
    cons_prefix_cons]
  exact fun hinside => absurd hinside.1 (by decide)

end NrePlugins.DockerApp
