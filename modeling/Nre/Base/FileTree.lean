import Nre.Base.GoPath
import Nre.Base.Interrupted

/-!
# File trees

Directories, files and symbolic links, and the calls of Go's package `os` that change them. A path
is walked name by name; a link on the way is followed, at most `maxLinks` times.

- `mkdirAll`, `create`, `append`, `rename` are the calls when nothing goes wrong;
- `respond` are all their answers: a call may fail at any time, with a part of its effect done;
- `Leads` says that a path leads to a directory without links below it. What is made by a plain
  path from there stays below (`Leads.mkdirAll`, `Leads.create`).
-/

namespace NrePlugins

open List
open GoPath (Plain dotdot steps)
open Option
open GoPath

/-- Where an entry is: the names from the root on. -/
abbrev Place := List Bytes

inductive Node where
  | dir
  | file (content : Bytes)
  | link (target : Bytes)
  deriving DecidableEq

/-- Every entry is in a directory. -/
structure FileTree where
  entry : Place → Option Node
  root : entry [] = some .dir
  parent : ∀ p, p ≠ [] → entry p ≠ none → entry p.dropLast = some .dir

namespace FileTree

variable (t : FileTree)

/-- Something other than a directory may be put here. -/
def Free (p : Place) : Prop :=
  p ≠ [] ∧ t.entry p.dropLast = some .dir ∧ t.entry p ≠ some .dir

instance (t : FileTree) (p : Place) : Decidable (t.Free p) := inferInstanceAs (Decidable (_ ∧ _ ∧ _))

variable {p : Place}

theorem dropLast_ne (h : p ≠ []) : p.dropLast ≠ p := by
  intro heq
  have hlen := congrArg List.length heq
  have hpos := length_pos_of_ne_nil h
  rw [length_dropLast] at hlen
  omega

def put (p : Place) (node : Node) (h : t.Free p) : FileTree where
  entry q := if q = p then some node else t.entry q
  root := by rw [if_neg h.1.symm, t.root]
  parent q hne hq := by
    have hup : q.dropLast ≠ p := by
      rintro rfl
      -- a directory would be at the place
      rw [if_neg (dropLast_ne hne).symm] at hq
      exact h.2.2 (t.parent q hne hq)
    rw [if_neg hup]
    by_cases heq : q = p
    · rw [heq]
      exact h.2.1
    · rw [if_neg heq] at hq
      exact t.parent q hne hq

def drop (p : Place) (h : t.entry p ≠ some .dir) : FileTree where
  entry q := if q = p then none else t.entry q
  root := by
    have hne : ([] : Place) ≠ p := by
      rintro rfl
      exact h t.root
    rw [if_neg hne, t.root]
  parent q hne hq := by
    have hq' : q ≠ p := fun heq => hq (if_pos heq)
    rw [if_neg hq'] at hq
    have hparent := t.parent q hne hq
    have hup : q.dropLast ≠ p := by
      rintro rfl
      exact h hparent
    rw [if_neg hup, hparent]

@[simp] theorem put_same (p : Place) (node : Node) (h : t.Free p) :
    (t.put p node h).entry p = some node := if_pos rfl

theorem put_other {q : Place} (node : Node) (h : t.Free p) (hne : q ≠ p) :
    (t.put p node h).entry q = t.entry q := if_neg hne

theorem drop_other {q : Place} (h : t.entry p ≠ some .dir) (hne : q ≠ p) :
    (t.drop p h).entry q = t.entry q := if_neg hne

theorem entry_dropLast (h : t.entry p = some .dir) : t.entry p.dropLast = some .dir := by
  by_cases hnil : p = []
  · rw [hnil]
    exact t.root
  · exact t.parent p hnil (by simp [h])

/-! ## Walking -/

/-- Name by name; `follow` goes on at a link. The last name need not be there. -/
def walkWith (t : FileTree) (follow : Place → List Bytes → Option Place) :
    Place → List Bytes → Option Place
  | here, [] => some here
  | here, e :: rest =>
    if e = dotdot then t.walkWith follow here.dropLast rest
    else
      match t.entry (here ++ [e]) with
      | some .dir => t.walkWith follow (here ++ [e]) rest
      | some (.link target) =>
        follow (if isAbs target then [] else here) (steps target ++ rest)
      | _ => if rest = [] then some (here ++ [e]) else none

/-- With at most so many links. -/
def walk (t : FileTree) : Nat → Place → List Bytes → Option Place
  | 0 => t.walkWith fun _ _ => none
  | n + 1 => t.walkWith (t.walk n)

def maxLinks : Nat := 40

section Walking

variable {t t' : FileTree} {n : Nat} {here d q : Place} {e target : Bytes} {rest es : List Bytes}

@[simp] theorem walk_nil : t.walk n here [] = some here := by cases n <;> rfl

@[simp] theorem walk_up : t.walk n here (dotdot :: rest) = t.walk n here.dropLast rest := by
  cases n <;> simp [walk, walkWith]

theorem walk_dir (he : e ≠ dotdot) (h : t.entry (here ++ [e]) = some .dir) :
    t.walk n here (e :: rest) = t.walk n (here ++ [e]) rest := by
  cases n <;> simp [walk, walkWith, he, h]

theorem walk_link (he : e ≠ dotdot) (h : t.entry (here ++ [e]) = some (.link target)) :
    t.walk (n + 1) here (e :: rest) =
      t.walk n (if isAbs target then [] else here) (steps target ++ rest) := by
  simp [walk, walkWith, he, h]

theorem walk_link_zero (he : e ≠ dotdot) (h : t.entry (here ++ [e]) = some (.link target)) :
    t.walk 0 here (e :: rest) = none := by
  simp [walk, walkWith, he, h]

theorem walk_end (he : e ≠ dotdot) (hdir : t.entry (here ++ [e]) ≠ some .dir)
    (hlink : ∀ target, t.entry (here ++ [e]) ≠ some (.link target)) :
    t.walk n here (e :: rest) = if rest = [] then some (here ++ [e]) else none := by
  have hnode : ∀ follow, t.walkWith follow here (e :: rest) =
      if rest = [] then some (here ++ [e]) else none := by
    intro follow
    rw [walkWith, if_neg he]
    split
    · exact absurd ‹_› hdir
    · exact absurd ‹_› (hlink _)
    · rfl
  cases n <;> exact hnode _

/-- Induction along a walk that takes all names, since more of them follow or it ends at a
directory. -/
theorem walk_induction {motive : Nat → Place → List Bytes → Prop} {more : List Bytes}
    (hend : more ≠ [] ∨ t.entry d = some .dir)
    (nil : ∀ n here, t.walk n here more = some d → motive n here [])
    (up : ∀ n here rest, motive n here.dropLast rest → motive n here (dotdot :: rest))
    (dir : ∀ n here e rest, e ≠ dotdot → t.entry (here ++ [e]) = some .dir →
      motive n (here ++ [e]) rest → motive n here (e :: rest))
    (link : ∀ n here e rest target, e ≠ dotdot → t.entry (here ++ [e]) = some (.link target) →
      motive n (if isAbs target then [] else here) (steps target ++ rest) →
        motive (n + 1) here (e :: rest))
    (h : t.walk n here (es ++ more) = some d) : motive n here es := by
  -- the names are gone through within one number of links
  have names : ∀ n, (∀ here e rest target, e ≠ dotdot → t.entry (here ++ [e]) = some (.link target) →
      t.walk n here (e :: (rest ++ more)) = some d → motive n here (e :: rest)) →
      ∀ here es, t.walk n here (es ++ more) = some d → motive n here es := by
    intro n atLink here es h
    induction es generalizing here with
    | nil => exact nil n here h
    | cons e rest ih =>
      rw [cons_append] at h
      by_cases he : e = dotdot
      · subst he
        exact up n here rest (ih _ (walk_up ▸ h))
      · by_cases hdir : t.entry (here ++ [e]) = some .dir
        · exact dir n here e rest he hdir (ih _ (walk_dir he hdir ▸ h))
        · by_cases hlink : ∃ target, t.entry (here ++ [e]) = some (.link target)
          · exact hlink.elim fun target hlink => atLink here e rest target he hlink h
          · rw [walk_end he hdir (not_exists.mp hlink)] at h
            split_ifs at h with hnil
            cases h
            exact absurd hend (not_or.mpr ⟨not_not.mpr (append_eq_nil_iff.mp hnil).2, hdir⟩)
  induction n generalizing here es with
  | zero =>
    refine names 0 ?_ here es h
    intro here e rest target he hlink h
    simp [walk_link_zero he hlink] at h
  | succ n ih =>
    refine names _ ?_ here es h
    intro here e rest target he hlink h
    rw [walk_link he hlink, ← append_assoc] at h
    exact link n here e rest target he hlink (ih h)

/-- Directories and links stay. -/
structure Grows (t t' : FileTree) : Prop where
  dir : ∀ p, t.entry p = some .dir → t'.entry p = some .dir
  link : ∀ p target, t.entry p = some (.link target) → t'.entry p = some (.link target)

/-- A walk to a directory, and on from there. -/
theorem walk_append (hgrows : Grows t t') (h : t.walk n here es = some d)
    (hd : t.entry d = some .dir) (more : List Bytes) :
    ∃ k, t'.walk n here (es ++ more) = t'.walk k d more := by
  rw [← append_nil es] at h
  refine walk_induction (motive := fun n here es => ∃ k, t'.walk n here (es ++ more) =
    t'.walk k d more) (.inr hd) ?_ ?_ ?_ ?_ h
  · intro n here h
    rw [walk_nil] at h
    cases h
    exact ⟨n, rfl⟩
  · intro n here rest ih
    rw [cons_append, walk_up]
    exact ih
  · intro n here e rest he hdir ih
    rw [cons_append, walk_dir he (hgrows.dir _ hdir)]
    exact ih
  · intro n here e rest target he hlink ih
    rw [cons_append, walk_link he (hgrows.link _ _ hlink), ← append_assoc]
    exact ih

theorem walk_grows (hgrows : Grows t t') (h : t.walk n here es = some d)
    (hd : t.entry d = some .dir) : t'.walk n here es = some d := by
  obtain ⟨k, hk⟩ := walk_append hgrows h hd []
  rwa [append_nil, walk_nil] at hk

/-- What a walk goes through are directories. -/
theorem walk_init (hhere : t.entry here = some .dir) {more : List Bytes} (hmore : more ≠ [])
    (h : t.walk n here (es ++ more) = some d) :
    ∃ q, t.walk n here es = some q ∧ t.entry q = some .dir := by
  refine walk_induction (motive := fun n here es => t.entry here = some .dir →
    ∃ q, t.walk n here es = some q ∧ t.entry q = some .dir) (.inl hmore) ?_ ?_ ?_ ?_ h hhere
  · intro n here _ hhere
    exact ⟨here, walk_nil, hhere⟩
  · intro n here rest ih hhere
    rw [walk_up]
    exact ih (t.entry_dropLast hhere)
  · intro n here e rest he hdir ih _
    rw [walk_dir he hdir]
    exact ih hdir
  · intro n here e rest target he hlink ih hhere
    rw [walk_link he hlink]
    exact ih (by split_ifs <;> [exact t.root; exact hhere])

end Walking

/-! ## Calls -/

/-- Where a path starts. -/
def start (cwd : Place) (path : Bytes) : Place := if isAbs path then [] else cwd

def mkdir (here : Place) (es : List Bytes) (e : Bytes) : Option FileTree :=
  match t.walk maxLinks here es with
  | none => none
  | some q =>
    if h : t.Free (q ++ [e]) ∧ t.entry (q ++ [e]) = none ∧ e ≠ dotdot then
      some (t.put (q ++ [e]) .dir h.1)
    else none

/-- `os.MkdirAll`, on the names of the path from the last to the first: where the path leads to
nothing, its parent is made before. -/
def mkdirAll (t : FileTree) (here : Place) : List Bytes → Option FileTree
  | [] => some t
  | e :: above =>
    match (t.walk maxLinks here (above.reverse ++ [e])).bind t.entry with
    | some .dir => some t
    | some _ => none
    | none => (t.mkdirAll here above).bind fun t' => t'.mkdir here above.reverse e

/-- `os.OpenFile` for writing, which creates or truncates. -/
def create (here : Place) (es : List Bytes) : Option (Place × FileTree) :=
  match t.walk maxLinks here es with
  | none => none
  | some p => if h : t.Free p then some (p, t.put p (.file []) h) else none

/-- An open file is written to. -/
def append (p : Place) (content : Bytes) : FileTree :=
  match t.entry p with
  | some (.file old) => if h : t.Free p then t.put p (.file (old ++ content)) h else t
  | _ => t

/-- A file gets a new name; what has it is replaced, unless it is a directory. -/
def rename (p : Place) (here : Place) (es : List Bytes) (e : Bytes) : Option FileTree :=
  match t.walk maxLinks here es, t.entry p with
  | some q, some (.file content) =>
    if h : t.entry p ≠ some .dir then
      if h' : (t.drop p h).Free (q ++ [e]) then
        some ((t.drop p h).put (q ++ [e]) (.file content) h')
      else none
    else none
  | _, _ => none

end FileTree

/-- An open file is known by its place. -/
inductive FileCall where
  | stat (path : Bytes)
  | mkdirAll (path : Bytes)
  | create (path : Bytes)
  | append (file : Place) (content : Bytes)
  | createTemp (dir : Bytes)
  | rename (file : Place) (path : Bytes)
  | remove (file : Place)

/-- `none` is an error. -/
def FileAnswer : FileCall → Type
  | .stat _ => Option Node
  | .mkdirAll _ => Option Unit
  | .create _ => Option Place
  | .append _ _ => Option Unit
  | .createTemp _ => Option Place
  | .rename _ _ => Option Unit
  | .remove _ => Option Unit

namespace FileTree

/-- All that a call may answer, with what it leaves. -/
def respond (cwd : Place) (t : FileTree) : (c : FileCall) → FileAnswer c → FileTree → Prop
  | .stat path, answer, t' => t' = t ∧ ∀ node, answer = some node →
      (t.walk maxLinks (start cwd path) (steps path)).bind t.entry = some node
  | .mkdirAll path, some _, t' => t.mkdirAll (start cwd path) (steps path).reverse = some t'
  | .mkdirAll path, none, t' =>
      ∃ n, t.mkdirAll (start cwd path) ((steps path).reverse.drop n) = some t'
  | .create path, some file, t' => t.create (start cwd path) (steps path) = some (file, t')
  | .create _, none, t' => t' = t
  | .append file content, some _, t' => t' = t.append file content
  | .append file content, none, t' => ∃ n, t' = t.append file (content.take n)
  | .createTemp dir, some file, t' => ∃ q e h, t.walk maxLinks (start cwd dir) (steps dir) = some q ∧
      file = q ++ [e] ∧ t.entry file = none ∧ t' = t.put file (.file []) h
  | .createTemp _, none, t' => t' = t
  | .rename file path, some _, t' => ∃ es e, steps path = es ++ [e] ∧
      t.rename file (start cwd path) es e = some t'
  | .rename _ _, none, t' => t' = t
  | .remove file, some _, t' => ∃ h, t' = t.drop file h
  | .remove _, none, t' => t' = t

/-! ## Staying below a directory -/

def Below (d p : Place) : Prop := d <+: p ∧ p ≠ d

/-- The path leads to `d`, a directory without links below it, as it stands and when it is
cleaned. -/
structure Leads (cwd : Place) (dest : Bytes) (d : Place) (t : FileTree) : Prop where
  cwd_dir : t.entry cwd = some .dir
  raw : t.walk maxLinks (start cwd dest) (steps dest) = some d
  walk : t.walk maxLinks (start cwd dest) (reduced dest) = some d
  dir : t.entry d = some .dir
  no_link : ∀ p, Below d p → ∀ target, t.entry p ≠ some (.link target)

/-- Only what is below `d` differs, and its directories stay. -/
structure Inside (d : Place) (t t' : FileTree) : Prop where
  outside : ∀ p, ¬ Below d p → t'.entry p = t.entry p
  dir : ∀ p, t.entry p = some .dir → t'.entry p = some .dir
  no_link : ∀ p, Below d p → ∀ target, t'.entry p ≠ some (.link target)

section Below

variable {cwd d p q : Place} {dest : Bytes} {t t' t'' : FileTree} {names : List Bytes} {e : Bytes}
  {es : List Bytes} {here file : Place} {content : Bytes}

theorem below_append (h : names ≠ []) : Below d (d ++ names) :=
  ⟨prefix_append _ _, by simpa using h⟩

theorem Inside.trans (h : Inside d t t') (h' : Inside d t' t'') : Inside d t t'' :=
  ⟨fun p hp => (h'.outside p hp).trans (h.outside p hp), fun p hp => h'.dir p (h.dir p hp),
    h'.no_link⟩

/-- Below the directory a walk does not turn. -/
theorem walk_below {k : Nat} (hlink : ∀ p, Below d p → ∀ target, t.entry p ≠ some (.link target))
    (hnames : ∀ e ∈ names, Plain e) (h : t.walk k d names = some q) : q = d ++ names := by
  induction names generalizing d with
  | nil =>
    rw [walk_nil] at h
    rw [← some.inj h, append_nil]
  | cons e rest ih =>
    rw [forall_mem_cons] at hnames
    have he := hnames.1.ne_dotdot
    have hnot := hlink (d ++ [e]) (below_append (cons_ne_nil _ _))
    by_cases hdir : t.entry (d ++ [e]) = some .dir
    · rw [walk_dir he hdir] at h
      have hq := ih (fun p hp => hlink p ⟨(prefix_append _ _).trans hp.1, ?_⟩) hnames.2 h
      · rw [hq, append_assoc]
        rfl
      · rintro rfl
        have hlen := hp.1.length_le
        rw [length_append, length_singleton] at hlen
        omega
    · rw [walk_end he hdir hnot] at h
      split_ifs at h with hrest
      rw [← some.inj h, hrest]

/-- A directory that is there is not made. -/
theorem mkdirAll_there (hq : t.walk maxLinks here es = some q) (hdir : t.entry q = some .dir) :
    t.mkdirAll here es.reverse = some t := by
  cases hrev : es.reverse with
  | nil => rfl
  | cons e above =>
    have hpath : above.reverse ++ [e] = es := by
      rw [← reverse_cons, ← hrev, reverse_reverse]
    rw [FileTree.mkdirAll, hpath, hq, bind_some, hdir]

/-- Nor are those on the way to it. -/
theorem mkdirAll_way {more : List Bytes} (hhere : t.entry here = some .dir)
    (hd : t.walk maxLinks here (es ++ more) = some d) (hdir : t.entry d = some .dir) :
    t.mkdirAll here es.reverse = some t := by
  by_cases hnil : more = []
  · rw [hnil, append_nil] at hd
    exact mkdirAll_there hd hdir
  · obtain ⟨q, hq, hqdir⟩ := walk_init hhere hnil hd
    exact mkdirAll_there hq hqdir

/-- Only directories are new. -/
def AddsDirs (t t' : FileTree) : Prop :=
  ∀ p, t'.entry p = t.entry p ∨ (t.entry p = none ∧ t'.entry p = some .dir)

theorem AddsDirs.refl (t : FileTree) : AddsDirs t t := fun _ => .inl rfl

theorem AddsDirs.trans (h : AddsDirs t t') (h' : AddsDirs t' t'') : AddsDirs t t'' := by
  intro p
  rcases h' p with hsame | ⟨hnone, hdir⟩
  · exact hsame ▸ h p
  · rcases h p with hwas | ⟨-, hwas⟩
    · exact .inr ⟨hwas ▸ hnone, hdir⟩
    · simp [hwas] at hnone

theorem mkdir_adds (h : t.mkdir here es e = some t') : AddsDirs t t' := by
  unfold mkdir at h
  split at h
  · cases h
  · rename_i q _
    split_ifs at h with hfree
    cases h
    intro p
    by_cases hp : p = q ++ [e]
    · rw [hp]
      exact .inr ⟨hfree.2.1, put_same ..⟩
    · exact .inl (t.put_other _ hfree.1 hp)

theorem mkdirAll_adds (h : t.mkdirAll here es = some t') : AddsDirs t t' := by
  induction es generalizing t' with
  | nil =>
    cases h
    exact .refl t
  | cons e above ih =>
    rw [mkdirAll] at h
    split at h
    · cases h
      exact .refl t
    · cases h
    · obtain ⟨t₁, hparent, hlast⟩ := bind_eq_some_iff.mp h
      exact (ih hparent).trans (mkdir_adds hlast)

theorem create_other (h : t.create here es = some (file, t')) (q : Place) (hq : q ≠ file) :
    t'.entry q = t.entry q := by
  unfold create at h
  split at h
  · cases h
  · split_ifs at h with hfree
    cases h
    exact t.put_other _ hfree hq

theorem append_entry {old : Bytes} (h : t.entry p = some (.file old)) :
    (t.append p content).entry p = some (.file (old ++ content)) := by
  have hne : p ≠ [] := by
    rintro rfl
    simp [t.root] at h
  have hfree : t.Free p := ⟨hne, t.parent p hne (by simp [h]), by simp [h]⟩
  rw [append, h]
  dsimp only
  rw [dif_pos hfree, put_same]

theorem append_other (h : q ≠ p) : (t.append p content).entry q = t.entry q := by
  unfold append
  split
  · split_ifs with hfree
    · exact t.put_other _ hfree h
    · rfl
  · rfl

/-- A file that was renamed. -/
theorem rename_spec (hfile : t.entry file = some (.file content))
    (h : t.rename file here es e = some t') :
    ∃ q, t'.entry (q ++ [e]) = some (.file content) ∧
      (∀ p, p ≠ q ++ [e] → p ≠ file → t'.entry p = t.entry p) ∧
      (file ≠ q ++ [e] → t'.entry file = none) := by
  unfold rename at h
  split at h
  · rename_i q old _ hold
    rw [hfile] at hold
    obtain rfl : content = old := by simpa using hold
    split_ifs at h with hnot hfree
    cases h
    refine ⟨q, put_same .., fun p hp hne => ?_, fun hne => ?_⟩
    · rw [put_other _ _ hfree hp, drop_other _ _ hne]
    · rw [put_other _ _ hfree hne]
      exact if_pos rfl
  · cases h

variable (h : Leads cwd dest d t) (hnames : ∀ e ∈ names, Plain e)

include h

theorem Leads.inside : Inside d t t :=
  ⟨fun _ _ => rfl, fun _ hp => hp, h.no_link⟩

theorem Leads.grows (hin : Inside d t t') : Grows t t' where
  dir := hin.dir
  link p target hp := by
    by_cases hbelow : Below d p
    · exact absurd hp (h.no_link p hbelow target)
    · exact (hin.outside p hbelow).trans hp

theorem Leads.mono (hin : Inside d t t') : Leads cwd dest d t' :=
  ⟨hin.dir _ h.cwd_dir, walk_grows (h.grows hin) h.raw h.dir,
    walk_grows (h.grows hin) h.walk h.dir, hin.dir _ h.dir, hin.no_link⟩

theorem Leads.put {node : Node} (hfree : t.Free p) (hp : Below d p)
    (hnode : ∀ target, node ≠ .link target) : Inside d t (t.put p node hfree) where
  outside q hq := t.put_other node hfree (by rintro rfl; exact hq hp)
  dir q hq := by
    have hne : q ≠ p := by
      rintro rfl
      exact hfree.2.2 hq
    exact (t.put_other node hfree hne).trans hq
  no_link q hq target := by
    by_cases hqp : q = p
    · rw [hqp, put_same]
      exact fun heq => hnode target (some.inj heq)
    · rw [t.put_other node hfree hqp]
      exact h.no_link q hq target

theorem Leads.append (hp : Below d p) (content : Bytes) : Inside d t (t.append p content) := by
  unfold FileTree.append
  split
  · split_ifs with hfree
    · exact h.put hfree hp nofun
    · exact h.inside
  · exact h.inside

theorem Leads.start_dir : t.entry (start cwd dest) = some .dir := by
  unfold start
  split_ifs
  · exact t.root
  · exact h.cwd_dir

include hnames

/-- A plain path from the destination leads to the place below that it names. -/
theorem Leads.walk_names (hq : t.walk maxLinks (start cwd dest) (reduced dest ++ names) = some q) :
    q = d ++ names := by
  obtain ⟨k, hk⟩ := walk_append (h.grows h.inside) h.walk h.dir names
  exact walk_below h.no_link hnames (hk.symm.trans hq)

theorem Leads.mkdir (hmk : t.mkdir (start cwd dest) (reduced dest ++ names) e = some t') :
    Inside d t t' := by
  unfold FileTree.mkdir at hmk
  split at hmk
  · cases hmk
  · rename_i q hq
    split_ifs at hmk with hfree
    cases hmk
    obtain rfl := h.walk_names hnames hq
    refine h.put hfree.1 ?_ nofun
    rw [append_assoc]
    exact below_append (by simp)

/-- Directories are made below the destination only. -/
theorem Leads.mkdirAll_names
    (hmk : t.mkdirAll (start cwd dest) (reduced dest ++ names).reverse = some t') :
    Inside d t t' := by
  induction names using List.reverseRecOn generalizing t' with
  | nil =>
    rw [append_nil, mkdirAll_there h.walk h.dir] at hmk
    cases hmk
    exact h.inside
  | append_singleton names e ih =>
    rw [forall_mem_append] at hnames
    rw [← append_assoc, reverse_append, reverse_singleton, singleton_append,
      FileTree.mkdirAll] at hmk
    split at hmk
    · cases hmk
      exact h.inside
    · cases hmk
    · obtain ⟨t₁, hparent, hlast⟩ := bind_eq_some_iff.mp hmk
      have hin := ih hnames.1 hparent
      rw [reverse_reverse] at hlast
      exact hin.trans ((h.mono hin).mkdir hnames.1 hlast)

theorem Leads.mkdirAll (hes : es <+: reduced dest ++ names)
    (hmk : t.mkdirAll (start cwd dest) es.reverse = some t') : Inside d t t' := by
  obtain ⟨more, hmore⟩ := hes
  rcases append_eq_append_iff.mp hmore with ⟨rest, hrest, -⟩ | ⟨first, rfl, hsplit⟩
  · rw [mkdirAll_way h.start_dir (hrest ▸ h.walk) h.dir] at hmk
    cases hmk
    exact h.inside
  · exact h.mkdirAll_names (fun e he => hnames e (hsplit ▸ mem_append_left _ he)) hmk

/-- A file is created or truncated below the destination only. -/
theorem Leads.create
    (hcreate : t.create (start cwd dest) (reduced dest ++ names) = some (file, t')) :
    file = d ++ names ∧ Below d file ∧ t'.entry file = some (.file []) ∧ Inside d t t' := by
  unfold FileTree.create at hcreate
  split at hcreate
  · cases hcreate
  · rename_i p hp
    split_ifs at hcreate with hfree
    cases hcreate
    obtain rfl := h.walk_names hnames hp
    have hne : names ≠ [] := by
      rintro rfl
      rw [append_nil] at hfree
      exact hfree.2.2 h.dir
    exact ⟨rfl, below_append hne, put_same .., h.put hfree (below_append hne) nofun⟩

end Below

end FileTree

end NrePlugins
