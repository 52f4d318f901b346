import Nre.Shadowsocks.Service

/-!
# Listeners as the service keeps them

The service changes its directory without validating it again, and while
`CreateAccount` is on its way the directory has a listener without users. What stays
true of the list of listeners is `WellFormed`: user ids are unique, and two listeners
with one id are not both in use.

Most sections only reorder the listeners, flip `enabled` flags or add a listener that
is not in use; `Quiet` says so, and what matters about secrets is kept by it.
-/

namespace NrePlugins.Shadowsocks

open List
open ListenRule

/-- A user, whether enabled or not. -/
def User.forget (user : User) : User := { user with enabled := false }

/-- A listener, whichever of its users are enabled. -/
def ListenRule.forget (listener : ListenRule) : ListenRule :=
  { listener with users := listener.users.map User.forget }

/-- A listener that is not in use: no users, no server secret. -/
def ListenRule.Bare (listener : ListenRule) : Prop :=
  listener.users = [] ∧ listener.serverSecretVersion = []

/-- A listener with another server secret. -/
def ListenRule.setServer (listener : ListenRule) (ref version : Bytes) : ListenRule :=
  { listener with serverSecretRef := ref, serverSecretVersion := version }

/-- A listener with one more user. -/
def ListenRule.addUser (listener : ListenRule) (user : User) : ListenRule :=
  { listener with users := listener.users ++ [user] }

/-- The ids of all users, in order. -/
def userIDs (listeners : List ListenRule) : List Bytes :=
  listeners.flatMap fun listener => listener.users.map User.id

/-- Two listeners are not both in use under one id. -/
def ListenRule.Apart (a b : ListenRule) : Prop := a.id = b.id → a.Bare ∨ b.Bare

instance : Std.Symm ListenRule.Apart := ⟨fun _ _ h hid => (h hid.symm).symm⟩

/-- Ids are unique, but for listeners that are not in use. -/
structure WellFormed (listeners : List ListenRule) : Prop where
  users : (userIDs listeners).Nodup
  listeners : listeners.Pairwise ListenRule.Apart

/-- The listeners after a change that leaves all secrets alone. -/
def Quiet (before after : List ListenRule) : Prop :=
  ∃ added : List ListenRule, (∀ listener ∈ added, listener.Bare) ∧
    (after.map forget).Perm (before.map forget ++ added)

variable {u : User} {l l' : ListenRule} {c : Configuration}

theorem ListenRule.bare_forget : l.forget.Bare ↔ l.Bare := by
  simp [ListenRule.Bare, forget]

theorem ListenRule.bare_congr (h : l.forget = l'.forget) : l.Bare ↔ l'.Bare := by
  rw [← bare_forget, h, bare_forget]

/-- Listeners that differ in flags only have the same users. -/
theorem ListenRule.exists_user_of_forget (h : l.forget = l'.forget) (hu : u ∈ l.users) :
    ∃ u' ∈ l'.users, u'.forget = u.forget := by
  have husers : l.users.map User.forget = l'.users.map User.forget := congrArg users h
  have hmem : u.forget ∈ l'.users.map User.forget := husers ▸ mem_map_of_mem hu
  exact mem_map.mp hmem

theorem userIDs_map_forget (ls : List ListenRule) : userIDs (ls.map forget) = userIDs ls := by
  unfold userIDs
  rw [flatMap_map]
  exact flatMap_congr fun l _ => map_map

/-! ## Updates of the first eligible element -/

section UpdateFirst

variable {α β : Type} {p : α → Bool} {f : α → α} {l : List α}

/-- If only one element is eligible, it is the one that is updated. -/
theorem updateFirst_eq_map (h : l.Pairwise fun a b => p a = true → ¬ p b = true) :
    updateFirst p f l = l.map fun a => if p a then f a else a := by
  induction l with
  | nil => rfl
  | cons a rest ih =>
    obtain ⟨hhead, hrest⟩ := pairwise_cons.mp h
    rw [updateFirst, map_cons, ← ih hrest]
    split_ifs with ha
    · -- nothing behind the first eligible element is eligible
      have hsame : updateFirst p f rest = rest := by
        rw [ih hrest]
        exact (map_congr_left fun b hb => if_neg (hhead b hb ha)).trans (map_id' rest)
      rw [hsame]
    · rfl

/-- An update that a view does not show. -/
theorem map_updateFirst {g : α → β} (h : ∀ a, g (f a) = g a) :
    (updateFirst p f l).map g = l.map g := by
  induction l with
  | nil => rfl
  | cons a rest ih =>
    rw [updateFirst]
    split_ifs
    · rw [map_cons, map_cons, h]
    · rw [map_cons, map_cons, ih]

/-- The list around the element that is updated. -/
theorem updateFirst_of_find {a : α} (h : l.find? p = some a) :
    ∃ front back, l = front ++ a :: back ∧ updateFirst p f l = front ++ f a :: back := by
  obtain ⟨ha, front, back, rfl, hfront⟩ := find?_eq_some_iff_append.mp h
  refine ⟨front, back, rfl, ?_⟩
  clear h
  induction front with
  | nil => rw [nil_append, updateFirst, if_pos ha, nil_append]
  | cons b front ih =>
    obtain ⟨hb, hfront⟩ := forall_mem_cons.mp hfront
    rw [cons_append, updateFirst, if_neg (by simpa using hb), ih hfront, cons_append]

/-- The list around the first eligible element. -/
theorem split_of_findIdx {i : Nat} (h : l.findIdx? p = some i) :
    ∃ front a back, l = front ++ a :: back ∧ front.length = i ∧ l.find? p = some a := by
  obtain ⟨hlt, hp, hbefore⟩ := findIdx?_eq_some_iff_getElem.mp h
  refine ⟨l.take i, l[i], l.drop (i + 1), by simp, by simp; omega, ?_⟩
  exact find?_eq_some_iff_getElem.mpr ⟨hp, i, hlt, rfl, fun j hj => by simpa using hbefore j hj⟩

end UpdateFirst

namespace WellFormed

variable {ls : List ListenRule} (h : WellFormed ls)

include h

/-- A user id belongs to one user of one listener. -/
theorem unique {u' : User} (hl : l ∈ ls) (hl' : l' ∈ ls) (hu : u ∈ l.users) (hu' : u' ∈ l'.users)
    (hid : u.id = u'.id) : l = l' ∧ u = u' := by
  obtain ⟨hnodup, hdisjoint⟩ := nodup_flatMap.mp h.users
  have hmem : u.id ∈ l.users.map User.id := mem_map_of_mem hu
  have hmem' : u.id ∈ l'.users.map User.id := hid ▸ mem_map_of_mem hu'
  obtain rfl : l = l' := by
    by_contra hne
    have : Std.Symm (Function.onFun List.Disjoint fun l : ListenRule => l.users.map User.id) :=
      ⟨fun _ _ hab _ hx hx' => hab hx' hx⟩
    exact hdisjoint.forall hl hl' hne hmem hmem'
  exact ⟨rfl, inj_on_of_nodup_map (hnodup l hl) hu hu' hid⟩

/-- Of two listeners with one id that are in use, there is only one. -/
theorem listener_unique (hl : l ∈ ls) (hl' : l' ∈ ls) (hid : l.id = l'.id) (hbare : ¬ l.Bare)
    (hbare' : ¬ l'.Bare) : l = l' := by
  by_contra hne
  rcases h.listeners.forall hl hl' hne hid with hb | hb
  · exact hbare hb
  · exact hbare' hb

/-- Of two listeners, only one has a user with the id. -/
theorem hasUser_pairwise (id : Bytes) :
    ls.Pairwise fun a b => a.hasUser id = true → ¬ b.hasUser id = true := by
  refine (nodup_flatMap.mp h.users).2.imp ?_
  intro a b hdisjoint ha hb
  obtain ⟨u, hu, rfl⟩ := hasUser_iff.mp ha
  obtain ⟨u', hu', hid⟩ := hasUser_iff.mp hb
  exact hdisjoint (mem_map_of_mem hu) (hid ▸ mem_map_of_mem hu')

/-- Of a listener's users, only one has the id. -/
theorem is_pairwise (id : Bytes) (hl : l ∈ ls) :
    l.users.Pairwise fun a b => a.is id = true → ¬ b.is id = true := by
  refine (pairwise_map.mp ((nodup_flatMap.mp h.users).1 l hl)).imp ?_
  intro a b hne ha hb
  simp only [User.is, decide_eq_true_eq] at ha hb
  exact hne (ha.trans hb.symm)

omit h in
/-- The update of a user, listener by listener. -/
theorem updateUser_listeners (h : WellFormed c.listeners) (id : Bytes) (f : User → User) :
    (c.updateUser id f).listeners = c.listeners.map fun l =>
      { l with users := l.users.map fun u => if u.id = id then f u else u } := by
  show updateFirst _ _ c.listeners = _
  rw [updateFirst_eq_map (h.hasUser_pairwise id)]
  refine map_congr_left ?_
  intro l hl
  split_ifs with hhas
  · rw [updateFirst_eq_map (h.is_pairwise id hl)]
    simp only [User.is, decide_eq_true_eq]
  · -- a listener without the user is left alone either way
    have hnone : ∀ u ∈ l.users, ¬ u.id = id :=
      fun u hu hid => hhas (hasUser_iff.mpr ⟨u, hu, hid⟩)
    have hsame : (l.users.map fun u => if u.id = id then f u else u) = l.users :=
      (map_congr_left fun u hu => if_neg (hnone u hu)).trans (map_id' l.users)
    rw [hsame]

omit h in
theorem updateUser (h : WellFormed c.listeners) (id : Bytes) {f : User → User}
    (hf : ∀ user, (f user).id = user.id) :
    WellFormed (c.updateUser id f).listeners := by
  have hid : ∀ u : User, (if u.id = id then f u else u).id = u.id := by
    intro u
    split_ifs
    · exact hf u
    · rfl
  rw [h.updateUser_listeners]
  constructor
  · have husers := h.users
    unfold userIDs at husers ⊢
    simpa [flatMap_map, Function.comp_def, hid] using husers
  · rw [pairwise_map]
    refine h.listeners.imp ?_
    intro a b hab
    simpa [ListenRule.Apart, ListenRule.Bare] using hab

omit h in
/-- The other listeners have other users. -/
theorem id_ne_of_mem_others {front back : List ListenRule} (h : WellFormed (front ++ l :: back))
    (hl' : l' ∈ front ++ back) {u' : User} (hu : u ∈ l.users) (hu' : u' ∈ l'.users) :
    u'.id ≠ u.id := by
  intro hid
  have hmem : u.id ∈ l.users.map User.id := mem_map_of_mem hu
  have hmem' : u.id ∈ l'.users.map User.id := hid ▸ mem_map_of_mem hu'
  have hpair := (nodup_flatMap.mp h.users).2
  rw [pairwise_append, pairwise_cons] at hpair
  obtain ⟨-, ⟨hback, -⟩, hfront⟩ := hpair
  rcases mem_append.mp hl' with hl' | hl'
  · exact hfront l' hl' l mem_cons_self hmem' hmem
  · exact hback l' hl' hmem hmem'

omit h in
/-- A listener in use is replaced by one with the same id and users. -/
theorem replace {front back : List ListenRule} (h : WellFormed (front ++ l :: back))
    (hid : l'.id = l.id) (husers : l'.users = l.users) (hbare : ¬ l.Bare) :
    WellFormed (front ++ l' :: back) := by
  constructor
  · have hids := h.users
    unfold userIDs at hids ⊢
    rw [flatMap_append, flatMap_cons] at hids ⊢
    rwa [husers]
  · have hpair := h.listeners
    rw [pairwise_append, pairwise_cons] at hpair ⊢
    obtain ⟨hfront, ⟨hback, hrest⟩, hcross⟩ := hpair
    refine ⟨hfront, ⟨?_, hrest⟩, ?_⟩
    · intro b hb hid'
      exact .inr ((hback b hb (hid ▸ hid')).resolve_left hbare)
    · intro a ha b hb
      rcases mem_cons.mp hb with rfl | hb
      · intro hid'
        exact .inl ((hcross a ha l mem_cons_self (hid ▸ hid')).resolve_right hbare)
      · exact hcross a ha b (mem_cons_of_mem _ hb)

end WellFormed

/-! ## Valid directories -/

theorem addUserIDs_eq_some {seen seen' : List Bytes} {users : List User}
    (h : addUserIDs seen users = some seen') :
    (users.map User.id).Nodup ∧ (∀ id ∈ users.map User.id, id ∉ seen) ∧
      ∀ id, id ∈ seen' ↔ id ∈ users.map User.id ∨ id ∈ seen := by
  induction users generalizing seen with
  | nil =>
    cases h
    simp
  | cons user rest ih =>
    rw [addUserIDs] at h
    split_ifs at h with hseen
    obtain ⟨hnodup, hfresh, hmem⟩ := ih h
    simp only [mem_cons, not_or] at hfresh hmem
    simp only [map_cons, nodup_cons, mem_cons, forall_eq_or_imp]
    refine ⟨⟨fun hin => (hfresh _ hin).1 rfl, hnodup⟩, ⟨hseen, fun id hid => (hfresh id hid).2⟩, ?_⟩
    intro id
    rw [hmem id]
    tauto

theorem validateListeners_ok {ids userIDs' : List Bytes} {ports : List (Bytes × Int)}
    {totalUsers : Nat} {ls : List ListenRule}
    (h : validateListeners ids ports userIDs' totalUsers ls = .ok ()) :
    (∀ l ∈ ls, l.id ∉ ids) ∧ (ls.map ListenRule.id).Nodup ∧
      (∀ id ∈ userIDs ls, id ∉ userIDs') ∧ (userIDs ls).Nodup := by
  induction ls generalizing ids userIDs' ports totalUsers with
  | nil => simp [userIDs]
  | cons l rest ih =>
    obtain ⟨_, -, h⟩ := bind_eq_ok.mp h
    obtain ⟨hfresh, h⟩ := ite_error_eq_ok.mp h
    simp only [Bool.or_eq_true, decide_eq_true_eq, not_or] at hfresh
    split at h
    · cases h
    · rename_i userIDs'' hadd
      obtain ⟨hnodup, hnew, hmem⟩ := addUserIDs_eq_some hadd
      obtain ⟨hids, hidsNodup, husers, husersNodup⟩ := ih h
      simp only [mem_cons, not_or] at hids
      simp only [hmem, not_or] at husers
      refine ⟨forall_mem_cons.mpr ⟨hfresh.1.1, fun l' hl' => (hids l' hl').2⟩,
        nodup_cons.mpr ⟨?_, hidsNodup⟩,
        forall_mem_append.mpr ⟨hnew, fun id hid => (husers id hid).2⟩,
        hnodup.append husersNodup fun id hid hid' => (husers id hid').1 hid⟩
      intro hin
      obtain ⟨l', hl', hid⟩ := mem_map.mp hin
      exact (hids l' hl').1 hid

/-- A valid directory is well formed. -/
theorem wellFormed_of_validate {K : PluginSDK} (h : c.validate K = .ok ()) :
    WellFormed c.listeners := by
  obtain ⟨-, h⟩ := ite_error_eq_ok.mp h
  obtain ⟨-, h⟩ := ite_error_eq_ok.mp h
  obtain ⟨-, h⟩ := ite_error_eq_ok.mp h
  obtain ⟨_, -, h⟩ := bind_eq_ok.mp h
  obtain ⟨-, hids, -, husers⟩ := validateListeners_ok h
  exact ⟨husers, (pairwise_map.mp hids).imp fun hne hid => absurd hid hne⟩

/-! ## Quiet changes -/

namespace Quiet

variable {ls ls' : List ListenRule}

theorem refl (ls : List ListenRule) : Quiet ls ls :=
  ⟨[], by simp, by simp⟩

theorem of_perm (h : (ls'.map forget).Perm (ls.map forget)) : Quiet ls ls' :=
  ⟨[], by simp, by simpa using h⟩

/-- A new listener that is not in use. -/
theorem append_bare (h : l.Bare) : Quiet ls (ls ++ [l]) :=
  ⟨[l.forget], forall_mem_singleton.mpr (bare_forget.mpr h), by simp⟩

theorem clone (c : Configuration) : Quiet c.listeners c.clone.listeners :=
  of_perm ((perm_insertionSort idLE c.listeners).map _)

/-- An update of flags. -/
theorem updateUser (c : Configuration) (id : Bytes) {f : User → User}
    (hf : ∀ user, (f user).forget = user.forget) :
    Quiet c.listeners (c.updateUser id f).listeners := by
  apply of_perm
  have hview : ∀ l : ListenRule,
      forget { l with users := updateFirst (User.is id) f l.users } = l.forget := by
    intro l
    unfold forget
    rw [map_updateFirst hf]
  show ((updateFirst _ _ c.listeners).map _).Perm _
  rw [map_updateFirst hview]

theorem trans {ls'' : List ListenRule} (h : Quiet ls ls') (h' : Quiet ls' ls'') :
    Quiet ls ls'' := by
  obtain ⟨added, hadded, hperm⟩ := h
  obtain ⟨added', hadded', hperm'⟩ := h'
  refine ⟨added ++ added', forall_mem_append.mpr ⟨hadded, hadded'⟩, ?_⟩
  rw [← append_assoc]
  exact hperm'.trans (hperm.append_right added')

variable (h : Quiet ls ls')

include h

theorem exists_before (hl' : l' ∈ ls') : l'.Bare ∨ ∃ l ∈ ls, l.forget = l'.forget := by
  obtain ⟨added, hadded, hperm⟩ := h
  have hmem := hperm.mem_iff.mp (mem_map_of_mem hl')
  exact (mem_append.mp hmem).symm.imp (fun hnew => bare_forget.mp (hadded _ hnew)) mem_map.mp

theorem exists_after (hl : l ∈ ls) : ∃ l' ∈ ls', l'.forget = l.forget := by
  obtain ⟨added, -, hperm⟩ := h
  exact mem_map.mp (hperm.mem_iff.mpr (mem_append_left added (mem_map_of_mem hl)))

theorem wellFormed (hwf : WellFormed ls) : WellFormed ls' := by
  obtain ⟨added, hadded, hperm⟩ := h
  constructor
  · -- the listeners that were added have no users
    have hnone : userIDs added = [] :=
      flatMap_eq_nil_iff.mpr fun l hl => by rw [(hadded l hl).1, map_nil]
    have hids : (userIDs ls').Perm (userIDs ls) := by
      have hflat := hperm.flatMap_right fun l : ListenRule => l.users.map User.id
      rw [flatMap_append] at hflat
      change (userIDs _).Perm (userIDs _ ++ userIDs _) at hflat
      rwa [userIDs_map_forget, userIDs_map_forget, hnone, append_nil] at hflat
    exact hids.nodup_iff.mpr hwf.users
  · have hforget : ∀ ls : List ListenRule,
        (ls.map forget).Pairwise ListenRule.Apart ↔ ls.Pairwise ListenRule.Apart := by
      intro ls
      rw [pairwise_map]
      simp only [ListenRule.Apart, bare_forget]
      exact Iff.rfl
    rw [← hforget, hperm.pairwise_iff (fun {a b} hab => Std.Symm.symm a b hab), pairwise_append]
    refine ⟨(hforget ls).mpr hwf.listeners, ?_, ?_⟩
    · exact pairwise_of_forall_mem_list fun a ha b _ _ => .inl (hadded a ha)
    · intro a _ b hb _
      exact .inr (hadded b hb)

end Quiet

/-! ## What the operations of the directory return -/

namespace Configuration

theorem mem_clone : l ∈ c.clone.listeners ↔ l ∈ c.listeners := by
  simp [clone]

variable {id : Bytes} {next : Configuration}

theorem userListener_eq_some (h : c.userListener id = some (l, u)) :
    l ∈ c.listeners ∧ u ∈ l.users ∧ u.id = id := by
  simp only [userListener, Option.bind_eq_bind, Option.bind_eq_some_iff] at h
  obtain ⟨l', hl', u', hu', heq⟩ := h
  cases heq
  exact ⟨mem_of_find?_eq_some hl', mem_of_find?_eq_some hu', by simpa [User.is] using find?_some hu'⟩

theorem setAccountEnabled_ok {enabled : Bool} (h : c.setAccountEnabled id enabled = .ok next) :
    next = c.clone.updateUser id fun user => { user with enabled } := by
  obtain ⟨-, h⟩ := ite_error_eq_ok.mp h
  exact (Except.ok.inj h).symm

theorem replaceUserSecret_ok {expectedVersion newRef newVersion : Bytes}
    (h : c.replaceUserSecret id expectedVersion newRef newVersion = .ok next) :
    next = c.clone.updateUser id fun user =>
      { user with secretRef := newRef, secretVersion := newVersion } := by
  unfold replaceUserSecret at h
  split at h
  · cases h
  · obtain ⟨-, h⟩ := ite_error_eq_ok.mp h
    obtain ⟨-, h⟩ := ite_error_eq_ok.mp h
    exact (Except.ok.inj h).symm

theorem ne_nil_of_refPattern {s : Bytes} (h : refPattern s = true) : s ≠ [] := by
  rintro rfl
  cases h

theorem ss2022ListenerByServerVersion_eq_some {version : Bytes}
    (h : c.ss2022ListenerByServerVersion version = some l) :
    version ≠ [] ∧ l ∈ c.listeners ∧ ss2022Method l.method = true ∧
      l.serverSecretVersion = version := by
  unfold ss2022ListenerByServerVersion at h
  split_ifs at h with hversion
  have hl := find?_some h
  simp only [Bool.and_eq_true, decide_eq_true_eq] at hl
  exact ⟨hversion, mem_of_find?_eq_some h, hl.1, hl.2⟩

theorem replaceServerPSK_ok {listenerID expectedVersion newRef newVersion : Bytes}
    (h : c.replaceServerPSK listenerID expectedVersion newRef newVersion = .ok next) :
    newVersion ≠ [] ∧ ∃ front l back, c.clone.listeners = front ++ l :: back ∧ l.id = listenerID ∧
      l.serverSecretVersion = expectedVersion ∧
      next.listeners = front ++ l.setServer newRef newVersion :: back := by
  obtain ⟨hvalid, h⟩ := ite_error_eq_ok.mp h
  simp only [Bool.or_eq_true, Bool.not_eq_true', decide_eq_true_eq, not_or, Bool.not_eq_false]
    at hvalid
  refine ⟨ne_nil_of_refPattern hvalid.2, ?_⟩
  split at h
  · cases h
  · rename_i l hlisten
    obtain ⟨hversion, h⟩ := ite_error_eq_ok.mp h
    cases h
    obtain ⟨front, back, hsplit, hupdate⟩ := updateFirst_of_find hlisten
    have hid := find?_some hlisten
    simp only [ListenRule.is, decide_eq_true_eq] at hid
    simp only [ne_eq, decide_not, Bool.or_eq_true, Bool.not_eq_true', decide_eq_false_iff_not,
      not_or, Bool.not_eq_false, not_not] at hversion
    exact ⟨front, l, back, hsplit, hid, hversion.2, hupdate⟩

/-- `ensureListenerForMethod` finds a listener with room or adds one that is not in use. -/
theorem ensureListenerForMethod_ok {ensured : Configuration} {drawn : Option Bytes}
    {method : Bytes} {index : Nat}
    (h : c.ensureListenerForMethod drawn method = .ok (ensured, index)) :
    ∃ front l back, ensured.listeners = front ++ l :: back ∧ front.length = index ∧
      l.method = method ∧ Quiet c.listeners ensured.listeners ∧
      (c.listeners.find? (accepts method) = some l ∨ l.Bare) := by
  unfold ensureListenerForMethod at h
  split at h
  · rename_i found hfound
    cases h
    unfold listenerIndexForMethod at hfound
    split_ifs at hfound
    obtain ⟨front, l, back, hl, hlen, hfind⟩ := split_of_findIdx hfound
    have haccepts := find?_some hfind
    simp only [accepts, Bool.and_eq_true, decide_eq_true_eq] at haccepts
    exact ⟨front, l, back, hl, hlen, haccepts.1, .refl _, .inl hfind⟩
  · obtain ⟨port, -, h⟩ := bind_eq_ok.mp h
    obtain ⟨-, h⟩ := ite_error_eq_ok.mp h
    obtain ⟨account, -, h⟩ := bind_eq_ok.mp h
    obtain ⟨-, h⟩ := ite_error_eq_ok.mp h
    cases h
    exact ⟨c.listeners, _, [], rfl, rfl, rfl, .append_bare ⟨rfl, rfl⟩, .inr ⟨rfl, rfl⟩⟩

theorem createAccount_ok {K : PluginSDK} {drawn : Option Bytes} {spec : AccountSpec}
    {secretRef secretVersion : Bytes} {user : User}
    (h : c.createAccount K drawn spec secretRef secretVersion = .ok (next, user)) :
    ∃ method front l back,
      spec.resolveMethod defaultSS2022Method = .ok method ∧
      user = newAccount spec.id spec.name secretRef secretVersion ∧
      Quiet c.listeners (front ++ l :: back) ∧ l.method = method ∧
      (c.clone.listeners.find? (accepts method) = some l ∨ l.Bare) ∧
      next.listeners = front ++ l.addUser user :: back ∧ WellFormed next.listeners := by
  obtain ⟨method, hmethod, h⟩ := bind_eq_ok.mp h
  obtain ⟨-, h⟩ := ite_error_eq_ok.mp h
  obtain ⟨-, h⟩ := ite_error_eq_ok.mp h
  obtain ⟨⟨ensured, index⟩, hensured, h⟩ := bind_eq_ok.mp h
  obtain ⟨_, hvalid, h⟩ := bind_eq_ok.mp h
  cases h
  obtain ⟨front, l, back, hl, rfl, hm, hquiet, hfound⟩ := ensureListenerForMethod_ok hensured
  refine ⟨method, front, l, back, hmethod, rfl, hl ▸ (Quiet.clone c).trans hquiet, hm, hfound, ?_,
    wellFormed_of_validate hvalid⟩
  show ensured.listeners.modify front.length _ = _
  simp [hl, modify_eq_take_cons_drop, ListenRule.addUser]

end Configuration

end NrePlugins.Shadowsocks
