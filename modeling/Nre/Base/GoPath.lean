import Nre.Base.Bytes

/-!
# Slash paths

Go's package `path`, on bytes. A path is cut at its slashes into elements; `clean` goes over
them with a stack, where `..` takes away the element below it.

`Plain` elements are the ones that name an entry of a directory. A list of them is its own
reduced form (`reduced_join`), and a relative path whose cleaned form does not begin with `..`
reduces to such a list (`plain_of_clean`): the path leads to a place below where it starts.
-/

namespace NrePlugins.GoPath

open List

def dot : Bytes := ascii "."

def dotdot : Bytes := ascii ".."

/-- The elements between the slashes, empty ones too. -/
def elements (p : Bytes) : List Bytes := p.splitOn (ch '/')

def join (es : List Bytes) : Bytes := [ch '/'].intercalate es

/-- `path.IsAbs`. -/
def isAbs (p : Bytes) : Bool := p.head? == some (ch '/')

/-- One element of a path, on the stack of those before it. -/
def push (rooted : Bool) (stack : List Bytes) (e : Bytes) : List Bytes :=
  if e = [] ∨ e = dot then stack
  else if e = dotdot then
    match stack with
    | [] => if rooted then [] else [dotdot]
    | top :: below => if top = dotdot then dotdot :: stack else below
  else e :: stack

/-- The elements that are left. -/
def reduced (p : Bytes) : List Bytes := ((elements p).foldl (push (isAbs p)) []).reverse

/-- `path.Clean`. -/
def clean (p : Bytes) : Bytes :=
  if isAbs p then ch '/' :: join (reduced p)
  else if reduced p = [] then dot
  else join (reduced p)

/-- `path.Base` of a path that does not end in a slash. -/
def base (p : Bytes) : Bytes :=
  match lastIndexByte p (ch '/') with
  | none => if p = [] then dot else p
  | some i => p.drop (i + 1)

/-- `path.Dir`. -/
def dir (p : Bytes) : Bytes :=
  match lastIndexByte p (ch '/') with
  | none => dot
  | some i => clean (p.take (i + 1))

/-! ## Plain elements -/

/-- The name of an entry of a directory. -/
structure Plain (e : Bytes) : Prop where
  ne_nil : e ≠ []
  ne_dot : e ≠ dot
  ne_dotdot : e ≠ dotdot
  no_slash : ch '/' ∉ e

variable {e : Bytes} {es : List Bytes}

theorem push_plain (rooted : Bool) (stack : List Bytes) (h : Plain e) :
    push rooted stack e = e :: stack := by
  unfold push
  rw [if_neg (not_or.mpr ⟨h.ne_nil, h.ne_dot⟩), if_neg h.ne_dotdot]

theorem foldl_push_plain (rooted : Bool) (h : ∀ e ∈ es, Plain e) (stack : List Bytes) :
    es.foldl (push rooted) stack = es.reverse ++ stack := by
  induction es generalizing stack with
  | nil => rfl
  | cons e es ih =>
    rw [foldl_cons, push_plain rooted stack (h e mem_cons_self),
      ih (fun e he => h e (mem_cons_of_mem _ he)), reverse_cons, append_assoc]
    rfl

theorem elements_join (h : ∀ e ∈ es, ch '/' ∉ e) (hne : es ≠ []) : elements (join es) = es :=
  splitOn_intercalate (ch '/') h hne

theorem join_elements (p : Bytes) : join (elements p) = p := intercalate_splitOn (ch '/')

theorem elements_self (he : ch '/' ∉ e) : elements e = [e] := splitOn_eq_singleton he

theorem elements_append (a b : Bytes) : elements (a ++ ch '/' :: b) = elements a ++ elements b :=
  splitOn_append_cons_self a b

theorem join_cons_cons (e e' : Bytes) (es : List Bytes) :
    join (e :: e' :: es) = e ++ ch '/' :: join (e' :: es) := by
  simp [join, List.intercalate]

theorem join_singleton (e : Bytes) : join [e] = e := by
  simp [join, List.intercalate]

theorem join_ne_nil (h : ∀ e ∈ es, Plain e) (hne : es ≠ []) : join es ≠ [] := by
  obtain ⟨e, es, rfl⟩ := exists_cons_of_ne_nil hne
  have he := (h e mem_cons_self).ne_nil
  cases es with
  | nil => rwa [join_singleton]
  | cons e' es =>
    rw [join_cons_cons]
    simp

/-- A path whose first element is not empty is relative. -/
theorem isAbs_join (h : ∀ e ∈ es, e ≠ [] ∧ ch '/' ∉ e) : isAbs (join es) = false := by
  cases es with
  | nil => rfl
  | cons e es =>
    obtain ⟨hne, hslash⟩ := h e mem_cons_self
    obtain ⟨b, rest, rfl⟩ := exists_cons_of_ne_nil hne
    have hb : b ≠ ch '/' := fun hb => hslash (hb ▸ mem_cons_self)
    cases es with
    | nil => simpa [join_singleton, isAbs] using hb
    | cons e' es => simpa [join_cons_cons, isAbs] using hb

theorem reduced_join (h : ∀ e ∈ es, Plain e) : reduced (join es) = es := by
  cases es with
  | nil => rfl
  | cons e es =>
    rw [reduced, elements_join (fun e he => (h e he).no_slash) (cons_ne_nil e es),
      foldl_push_plain _ h, append_nil, reverse_reverse]

theorem clean_join (h : ∀ e ∈ es, Plain e) (hne : es ≠ []) : clean (join es) = join es := by
  rw [clean, isAbs_join fun e he => ⟨(h e he).ne_nil, (h e he).no_slash⟩, reduced_join h,
    if_neg Bool.false_ne_true, if_neg hne]

/-! ## Paths that stay below -/

variable {p : Bytes}

theorem not_mem_of_mem_elements {e p : Bytes} (h : e ∈ elements p) : ch '/' ∉ e := by
  by_cases hp : ch '/' ∈ p
  · obtain ⟨a, b, hab, ha⟩ := eq_append_cons_of_mem hp
    rw [hab, elements_append, elements_self ha] at h
    rcases mem_cons.mp h with rfl | hb
    · exact ha
    · exact not_mem_of_mem_elements hb
  · rw [elements_self hp] at h
    rwa [mem_singleton.mp h]
termination_by p.length

/-- The first element of a path. -/
theorem eq_cons_of_join (he : ch '/' ∉ e) (h : ∀ e ∈ es, ch '/' ∉ e)
    (hjoin : join es = e ∨ (e ++ [ch '/']) <+: join es) (hne : es ≠ []) :
    ∃ rest, es = e :: rest := by
  have helements := elements_join h hne
  rcases hjoin with hjoin | ⟨rest, hrest⟩
  · refine ⟨[], ?_⟩
    rw [← helements, hjoin, elements_self he]
  · refine ⟨elements rest, ?_⟩
    rw [← helements, ← hrest, append_assoc]
    show elements (e ++ ch '/' :: rest) = _
    rw [elements_append, elements_self he]
    rfl

/-- What a path reduces to: dots that lead up, and plain elements after them. A rooted path has no
dots. -/
def Settled (rooted : Bool) (es : List Bytes) : Prop :=
  ∃ k names, es = replicate k dotdot ++ names ∧ (∀ e ∈ names, Plain e) ∧
    (rooted = true → k = 0)

/-- One element, taken on its own and from any directory: `names` (the last one first) have been
entered after `k` steps up. -/
theorem push_walk (k : Nat) {names : List Bytes} (hnames : ∀ e ∈ names, Plain e) (he : ch '/' ∉ e) :
    ∃ k' names', (∀ e ∈ names', Plain e) ∧
      push false (names ++ replicate k dotdot) e = names' ++ replicate k' dotdot ∧
      ∀ stack : List Bytes, (∀ e ∈ stack, e ≠ dotdot) →
        push true (names ++ stack.drop k) e = names' ++ stack.drop k' := by
  unfold push
  by_cases hskip : e = [] ∨ e = dot
  · exact ⟨k, names, hnames, if_pos hskip, fun _ _ => if_pos hskip⟩
  simp only [if_neg hskip]
  by_cases hdots : e = dotdot
  · simp only [if_pos hdots]
    cases names with
    | cons top below =>
      have htop : top ≠ dotdot := (hnames top mem_cons_self).ne_dotdot
      exact ⟨k, below, fun e he => hnames e (mem_cons_of_mem _ he), if_neg htop,
        fun _ _ => if_neg htop⟩
    | nil =>
      refine ⟨k + 1, [], forall_mem_nil _, ?_, ?_⟩
      · cases k with
        | zero | succ => rfl
      · intro stack hstack
        rw [← drop_drop]
        cases hdrop : stack.drop k with
        | nil => rfl
        | cons top below =>
          have htop : top ≠ dotdot := hstack top (mem_of_mem_drop (hdrop ▸ mem_cons_self))
          exact if_neg htop
  · simp only [if_neg hdots]
    obtain ⟨hnil, hdot⟩ := not_or.mp hskip
    exact ⟨k, e :: names, forall_mem_cons.mpr ⟨⟨hnil, hdot, hdots, he⟩, hnames⟩, rfl,
      fun _ _ => rfl⟩

theorem foldl_push_walk {l : List Bytes} (hl : ∀ e ∈ l, ch '/' ∉ e) (k : Nat) {names : List Bytes}
    (hnames : ∀ e ∈ names, Plain e) :
    ∃ k' names', (∀ e ∈ names', Plain e) ∧
      l.foldl (push false) (names ++ replicate k dotdot) = names' ++ replicate k' dotdot ∧
      ∀ stack : List Bytes, (∀ e ∈ stack, e ≠ dotdot) →
        l.foldl (push true) (names ++ stack.drop k) = names' ++ stack.drop k' := by
  induction l generalizing k names with
  | nil => exact ⟨k, names, hnames, rfl, fun _ _ => rfl⟩
  | cons e l ih =>
    obtain ⟨k₁, names₁, hnames₁, hown₁, hfrom₁⟩ := push_walk k hnames (hl e mem_cons_self)
    obtain ⟨k', names', hnames', hown, hfrom⟩ :=
      ih (fun e he => hl e (mem_cons_of_mem _ he)) k₁ hnames₁
    refine ⟨k', names', hnames', ?_, ?_⟩
    · rw [foldl_cons, hown₁, hown]
    · intro stack hstack
      rw [foldl_cons, hfrom₁ stack hstack, hfrom stack hstack]

theorem settled_reduced (p : Bytes) : Settled (isAbs p) (reduced p) := by
  obtain ⟨k, names, hnames, hown, hfrom⟩ := foldl_push_walk
    (fun e he => not_mem_of_mem_elements he : ∀ e ∈ elements p, ch '/' ∉ e) 0 (forall_mem_nil _)
  have hplain : ∀ e ∈ names.reverse, Plain e := fun e he => hnames e (mem_reverse.mp he)
  unfold reduced
  cases hroot : isAbs p with
  | true =>
    refine ⟨0, names.reverse, ?_, hplain, fun _ => rfl⟩
    have hwalk := hfrom [] (forall_mem_nil _)
    simp only [drop_nil, append_nil] at hwalk
    rw [← hwalk]
    rfl
  | false =>
    refine ⟨k, names.reverse, ?_, hplain, nofun⟩
    rw [← reverse_replicate, ← reverse_append, ← hown]
    rfl

theorem dotdot_no_slash : ch '/' ∉ dotdot := by decide

/-- A path of plain elements does not lead up. -/
theorem join_not_up (h : ∀ e ∈ es, Plain e) :
    ¬ (join es = dotdot ∨ (dotdot ++ [ch '/']) <+: join es) := by
  intro hup
  by_cases hnil : es = []
  · rw [hnil] at hup
    exact absurd hup (by decide)
  · obtain ⟨rest, rfl⟩ :=
      eq_cons_of_join dotdot_no_slash (fun e he => (h e he).no_slash) hup hnil
    exact (h dotdot mem_cons_self).ne_dotdot rfl

/-- A relative path that does not begin with dots when it is cleaned stays below. -/
theorem plain_of_clean (habs : isAbs p = false) (hdots : clean p ≠ dotdot)
    (hup : ¬ (dotdot ++ [ch '/']) <+: clean p) : ∀ e ∈ reduced p, Plain e := by
  obtain ⟨k, es, hreduced, hes, -⟩ := settled_reduced p
  cases k with
  | zero =>
    rw [hreduced]
    exact hes
  | succ k =>
    have hclean : clean p = join (dotdot :: (replicate k dotdot ++ es)) := by
      rw [clean, habs, hreduced, if_neg Bool.false_ne_true, replicate_succ, cons_append,
        if_neg (cons_ne_nil _ _)]
    cases hrest : replicate k dotdot ++ es with
    | nil =>
      rw [hrest] at hclean
      exact absurd hclean hdots
    | cons e rest =>
      rw [hrest] at hclean
      refine absurd ⟨join (e :: rest), ?_⟩ hup
      rw [hclean]
      rfl

/-! ## Joining paths -/

/-- `filepath.Join` of two elements. -/
def joinTo (a b : Bytes) : Bytes :=
  if a ≠ [] then clean (a ++ ch '/' :: b) else if b ≠ [] then clean b else []

/-- The elements that lead somewhere. -/
def steps (p : Bytes) : List Bytes := (elements p).filter fun e => e ≠ [] ∧ e ≠ dot

/-- The text of a cleaned path. -/
def render (rooted : Bool) (es : List Bytes) : Bytes :=
  if rooted then ch '/' :: join es else if es = [] then dot else join es

theorem clean_eq_render (p : Bytes) : clean p = render (isAbs p) (reduced p) := rfl

section Settled

variable {rooted : Bool} {es names : List Bytes}

section Render

variable (h : Settled rooted es)

include h

theorem Settled.mem (he : e ∈ es) : e ≠ [] ∧ e ≠ dot ∧ ch '/' ∉ e := by
  obtain ⟨k, names, rfl, hnames, -⟩ := h
  rcases mem_append.mp he with hdots | hname
  · rw [eq_of_mem_replicate hdots]
    decide
  · exact ⟨(hnames e hname).ne_nil, (hnames e hname).ne_dot, (hnames e hname).no_slash⟩

theorem Settled.append (hnames : ∀ e ∈ names, Plain e) : Settled rooted (es ++ names) := by
  obtain ⟨k, first, rfl, hfirst, hroot⟩ := h
  refine ⟨k, first ++ names, append_assoc _ _ _, ?_, hroot⟩
  rw [forall_mem_append]
  exact ⟨hfirst, hnames⟩

theorem Settled.dropLast : Settled rooted es.dropLast := by
  obtain ⟨k, names, rfl, hnames, hroot⟩ := h
  by_cases hnil : names = []
  · rw [hnil, append_nil, dropLast_replicate]
    exact ⟨k - 1, [], (append_nil _).symm, forall_mem_nil _, fun hr => by rw [hroot hr]⟩
  · rw [dropLast_append_of_ne_nil hnil]
    exact ⟨k, names.dropLast, rfl, fun e he => hnames e (dropLast_subset _ he), hroot⟩

theorem isAbs_render : isAbs (render rooted es) = rooted := by
  unfold render
  cases rooted with
  | true => rfl
  | false =>
    by_cases hnil : es = []
    · rw [if_pos hnil]
      rfl
    · rw [if_neg Bool.false_ne_true, if_neg hnil]
      exact isAbs_join fun e he => ⟨(h.mem he).1, (h.mem he).2.2⟩

theorem Settled.steps_self : es.filter (fun e => e ≠ [] ∧ e ≠ dot) = es :=
  filter_eq_self.mpr fun _ he => decide_eq_true ⟨(h.mem he).1, (h.mem he).2.1⟩

@[simp] theorem steps_render : steps (render rooted es) = es := by
  have hno : ∀ e ∈ es, ch '/' ∉ e := fun e he => (h.mem he).2.2
  unfold render steps
  by_cases hnil : es = []
  · subst hnil
    cases rooted <;> decide
  · cases rooted with
    | true =>
      rw [if_pos rfl, ← nil_append (ch '/' :: join es), elements_append,
        elements_join hno hnil, filter_append, h.steps_self]
      rfl
    | false =>
      rw [if_neg Bool.false_ne_true, if_neg hnil, elements_join hno hnil, h.steps_self]

end Render

theorem steps_clean (p : Bytes) : steps (clean p) = reduced p :=
  steps_render (settled_reduced p)

theorem isAbs_clean (p : Bytes) : isAbs (clean p) = isAbs p :=
  isAbs_render (settled_reduced p)

/-- Elements that lead nowhere do not count. -/
theorem foldl_push_filter (stack : List Bytes) (l : List Bytes) :
    l.foldl (push rooted) stack =
      (l.filter fun e => e ≠ [] ∧ e ≠ dot).foldl (push rooted) stack := by
  rw [foldl_filter]
  refine foldl_ext _ _ _ fun stack e _ => ?_
  split_ifs with hleads
  · rfl
  · have hskip : e = [] ∨ e = dot := by simpa [or_iff_not_imp_left] using hleads
    exact if_pos hskip

theorem reduced_eq_steps (p : Bytes) :
    reduced p = ((steps p).foldl (push (isAbs p)) []).reverse := by
  rw [reduced, foldl_push_filter]
  rfl

theorem Settled.foldl_push (h : Settled rooted es) : (es.foldl (push rooted) []).reverse = es := by
  obtain ⟨k, names, rfl, hnames, hroot⟩ := h
  have hdots : (replicate k dotdot).foldl (push rooted) [] = replicate k dotdot := by
    cases rooted with
    | true => rw [hroot rfl]; rfl
    | false =>
      clear hroot
      induction k with
      | zero => rfl
      | succ k ih =>
        rw [replicate_succ', foldl_append, ih, ← replicate_succ', foldl_cons,
          foldl_nil, replicate_succ]
        cases k with
        | zero | succ => rfl
  rw [foldl_append, hdots, foldl_push_plain _ hnames, reverse_append,
    reverse_reverse, reverse_replicate]

theorem clean_render (h : Settled rooted es) : clean (render rooted es) = render rooted es := by
  rw [clean_eq_render, isAbs_render h, reduced_eq_steps, steps_render h, isAbs_render h,
    h.foldl_push]

theorem clean_clean (p : Bytes) : clean (clean p) = clean p := clean_render (settled_reduced p)

theorem isAbs_append {a : Bytes} (ha : a ≠ []) (b : Bytes) : isAbs (a ++ b) = isAbs a := by
  obtain ⟨c, a, rfl⟩ := exists_cons_of_ne_nil ha
  rfl

theorem steps_append (a b : Bytes) : steps (a ++ ch '/' :: b) = steps a ++ steps b := by
  rw [steps, elements_append, filter_append]
  rfl

theorem clean_trailing {a : Bytes} (ha : a ≠ []) : clean (a ++ [ch '/']) = clean a := by
  have hsteps : steps (a ++ [ch '/']) = steps a := by
    rw [steps_append]
    exact append_nil _
  rw [clean_eq_render, clean_eq_render, reduced_eq_steps, reduced_eq_steps, isAbs_append ha, hsteps]

theorem render_ne_nil (h : Settled rooted es) : render rooted es ≠ [] := by
  intro hnil
  have hsteps := steps_render h
  have habs := isAbs_render h
  rw [hnil] at hsteps habs
  have hes : es = [] := hsteps.symm
  subst hes
  cases rooted <;> cases hnil

/-- A plain path below another one. -/
theorem joinTo_eq_render {dest rel : Bytes} (hne : rel ≠ []) (hrel : isAbs rel = false)
    (hplain : ∀ e ∈ steps rel, Plain e) :
    joinTo dest rel = render (isAbs dest) (reduced dest ++ steps rel) := by
  unfold joinTo
  by_cases hdest : dest = []
  · rw [if_neg (not_not.mpr hdest), if_pos hne, clean_eq_render, hrel, hdest, reduced_eq_steps,
      foldl_push_plain _ hplain, append_nil, reverse_reverse]
    rfl
  · rw [if_pos hdest, clean_eq_render, isAbs_append hdest, reduced_eq_steps, isAbs_append hdest,
      steps_append, foldl_append, foldl_push_plain _ hplain, reverse_append,
      reverse_reverse, ← reduced_eq_steps]

theorem join_append_singleton (hne : es ≠ []) (last : Bytes) :
    join (es ++ [last]) = join es ++ ch '/' :: last := by
  induction es with
  | nil => exact absurd rfl hne
  | cons e es ih =>
    cases es with
    | nil => rw [singleton_append, join_cons_cons, join_singleton, join_singleton]
    | cons e' es =>
      rw [cons_append, cons_append, join_cons_cons, ← cons_append,
        ih (cons_ne_nil _ _), join_cons_cons, append_assoc]
      rfl

/-- The parent of a cleaned path. -/
theorem dir_render (h : Settled rooted es) :
    dir (render rooted es) = render rooted es.dropLast := by
  rcases eq_nil_or_concat es with rfl | ⟨init, last, rfl⟩
  · cases rooted <;> decide
  · rw [concat_eq_append] at h ⊢
    rw [dropLast_concat]
    have hlast : ch '/' ∉ last := (h.mem (by simp)).2.2
    have hinit : Settled rooted init := by simpa using h.dropLast
    by_cases hnil : init = []
    · subst hnil
      cases rooted with
      | true =>
        have hindex : lastIndexByte (ch '/' :: last) (ch '/') = some 0 :=
          lastIndexByte_append (s := []) hlast
        rw [nil_append, render, if_pos rfl, join_singleton, dir, hindex]
        rfl
      | false =>
        rw [nil_append, render, if_neg Bool.false_ne_true, if_neg (cons_ne_nil _ _),
          join_singleton, dir, lastIndexByte_eq_none hlast]
        rfl
    · have hsplit : render rooted (init ++ [last]) = render rooted init ++ ch '/' :: last := by
        have hmore : init ++ [last] ≠ [] := by simp
        unfold render
        rw [if_neg hnil, if_neg hmore, join_append_singleton hnil]
        cases rooted <;> rfl
      rw [hsplit, dir, lastIndexByte_append hlast]
      dsimp only
      rw [take_append, take_of_length_le (Nat.le_succ _), Nat.add_sub_cancel_left,
        take_succ_cons, take_zero, clean_trailing (render_ne_nil hinit),
        clean_render hinit]

/-! ## Walking from a directory -/

theorem plain_of_rooted (h : isAbs p = true) : ∀ e ∈ reduced p, Plain e := by
  obtain ⟨k, names, hreduced, hnames, hroot⟩ := settled_reduced p
  rw [hroot h] at hreduced
  rw [hreduced]
  exact hnames

/-- A relative path leads up some steps and then down again. From a directory it leads to a place
that is as far up as there are directories. -/
theorem joinTo_walk {b : Bytes} (hb : isAbs b = false) :
    ∃ k names, (∀ e ∈ names, Plain e) ∧ reduced b = replicate k dotdot ++ names ∧
      ∀ w, isAbs w = true →
        joinTo w b = render true ((reduced w).take ((reduced w).length - k) ++ names) := by
  obtain ⟨k, names, hnames, hown, hfrom⟩ := foldl_push_walk
    (fun e he => not_mem_of_mem_elements he : ∀ e ∈ elements b, ch '/' ∉ e) 0
    (forall_mem_nil Plain)
  refine ⟨k, names.reverse, fun e he => hnames e (mem_reverse.mp he), ?_, ?_⟩
  · have hreduced : reduced b = (names ++ replicate k dotdot).reverse := by
      rw [← hown, reduced, hb]
      rfl
    rw [hreduced, reverse_append, reverse_replicate]
  · intro w hw
    have hne : w ≠ [] := by
      rintro rfl
      cases hw
    have hstart : (elements w).foldl (push true) [] = (reduced w).reverse := by
      rw [reduced, hw, reverse_reverse]
    have hwalk : (elements b).foldl (push true) (reduced w).reverse =
        names ++ (reduced w).reverse.drop k :=
      hfrom _ fun e he => (plain_of_rooted hw e (mem_reverse.mp he)).ne_dotdot
    rw [joinTo, if_pos hne, clean_eq_render, isAbs_append hne, hw, reduced, isAbs_append hne, hw,
      elements_append, foldl_append, hstart, hwalk, reverse_append, drop_reverse,
      reverse_reverse]

@[simp] theorem reduced_render (h : ∀ e ∈ es, Plain e) : reduced (render true es) = es := by
  have hsettled : Settled true es := ⟨0, es, rfl, h, fun _ => rfl⟩
  rw [← steps_clean, clean_render hsettled, steps_render hsettled]

/-! ## From one place to another -/

/-- What is left of two paths after the elements they begin with in common. -/
def afterCommon : List Bytes → List Bytes → List Bytes × List Bytes
  | b :: bs, t :: ts => if b = t then afterCommon bs ts else (b :: bs, t :: ts)
  | bs, ts => (bs, ts)

/-- `filepath.Rel` of two absolute paths. -/
def relTo (base targ : Bytes) : Bytes :=
  if clean targ = clean base then dot
  else
    let left := afterCommon (steps (clean base)) (steps (clean targ))
    join (left.1.map (fun _ => dotdot) ++ left.2)

theorem afterCommon_eq (bs ts : List Bytes) :
    ∃ common, bs = common ++ (afterCommon bs ts).1 ∧ ts = common ++ (afterCommon bs ts).2 := by
  fun_induction afterCommon bs ts with
  | case1 bs b ts ih =>
    obtain ⟨common, hb, ht⟩ := ih
    exact ⟨b :: common, by rw [cons_append, ← hb], by rw [cons_append, ← ht]⟩
  | case2 | case3 => exact ⟨[], rfl, rfl⟩

theorem afterCommon_fst_eq_nil (bs ts : List Bytes) : (afterCommon bs ts).1 = [] ↔ bs <+: ts := by
  fun_induction afterCommon bs ts with
  | case1 bs b ts ih => rw [ih, prefix_cons_inj]
  | case2 b bs t ts hne => simp [hne]
  | case3 bs ts hends =>
    cases bs with
    | nil => simp
    | cons b bs =>
      cases ts with
      | nil => simp
      | cons t ts => exact absurd rfl (hends b bs t ts rfl)

end Settled

end NrePlugins.GoPath
