import Nre.Base.Schedule
import Nre.Shadowsocks.PanelShape

/-!
# Which interleavings of panel requests are serial

Any number of panel requests run at once. Each one writes a whole directory that it
computed from a snapshot, and a request that the agent refuses writes its snapshot back,
so a write can undo what others have done since the snapshot.

A write *stands* until the request takes it back. `Undisturbed` is the condition on
steps: a request writes only when the directory is still its snapshot, takes back only
the newest standing write, and does not report an error while its write stands. In runs
that meet it the standing writes form a chain from the first directory to the present
one (`Chain`), and the chain is a serial order of the successful requests
(`panel_serializable`). Without it a rollback undoes a success (`panel_lost_update`).
-/

namespace NrePlugins.Shadowsocks.Panel

open List

/-! ## Runs -/

/-- The shared state, with the requests whose write stands, the newest first. -/
structure Shared where
  store : Store
  standing : List Nat

/-- A request's first write stands; its next one takes it back. -/
def stand (i : Nat) (event : Event Answer) (standing : List Nat) : List Nat :=
  match writeOf event with
  | none => standing
  | some _ => if i ∈ standing then standing.erase i else i :: standing

def respondAt (i : Nat) (s : Shared) (c : Call) (answer : Answer c) (s' : Shared) : Prop :=
  Respond s.store c answer s'.store ∧ s'.standing = stand i ⟨c, answer⟩ s.standing

abbrev PanelThread : Type := Thread Answer Request Err Unit

abbrev PanelSystem : Type := System Answer Request Err Unit Shared

variable {s : Store}

section Runs

variable (ctl : Controller)

def Step : PanelSystem → Label Answer Request → PanelSystem → Prop :=
  System.Step (Request.program ctl) respondAt

/-- No request has arrived. -/
def Initial (start : Store) (s : PanelSystem) : Prop := s = ⟨⟨start, []⟩, []⟩

/-- The condition on steps: a write replaces the snapshot it was computed from, or takes
back the newest standing write, its own; an error is returned only by a request whose
write does not stand. -/
def Undisturbed (s : PanelSystem) : Label Answer Request → Prop
  | .start _ => True
  | .act i event => ∀ t, s.threads[i]? = some t → ∀ next, writeOf event = some next →
      (writes t.events = [] ∧ firstRead t.events = some s.shared.store.directory) ∨
        (s.shared.standing.head? = some i ∧ firstRead t.events = some next)
  | .ret i => ∀ t e, s.threads[i]? = some t → t.prog = .fail e → i ∉ s.shared.standing

/-! ## Serial execution -/

/-- The request of thread `i` has returned success. -/
def Succeeded (s : PanelSystem) (i : Nat) : Prop :=
  ∃ t, s.threads[i]? = some t ∧ t.result = some (.ok ())

/-- The requests in `order`, one after the other, each with the answers of the host that
it got in the run. -/
inductive Serial (threads : List PanelThread) : Store → List Nat → Store → Prop
  | nil {s : Store} : Serial threads s [] s
  | snoc {s s' s'' : Store} {order : List Nat} {i : Nat} {t : PanelThread} :
      Serial threads s order s' → threads[i]? = some t →
      RunsLike s' (t.request.program ctl) t.events s'' → Serial threads s (order ++ [i]) s''

theorem Serial.last {threads : List PanelThread} {s'' : Store} (order : List Nat) (i : Nat)
    (h : Serial ctl threads s (order ++ [i]) s'') :
    ∃ s' t, threads[i]? = some t ∧ RunsLike s' (t.request.program ctl) t.events s'' := by
  generalize hall : order ++ [i] = all at h
  cases h with
  | nil => simp at hall
  | snoc _ ht hruns =>
    obtain ⟨-, heq⟩ := append_inj' hall rfl
    cases heq
    exact ⟨_, _, ht, hruns⟩

/-- The directory is the result of executing exactly the successful requests in some
order. -/
def Serializable (start : Store) (s : PanelSystem) : Prop :=
  ∃ order : List Nat, order.Nodup ∧ (∀ i, i ∈ order ↔ Succeeded s i) ∧
    ∃ final, Serial ctl s.threads start order final ∧ final.directory = s.shared.store.directory

/-- Every request has returned. -/
def AllReturned (s : PanelSystem) : Prop := ∀ t ∈ s.threads, t.result.isSome = true

end Runs

/-! ## Standing writes -/

/-- The standing writes lead from the directory `first` to `last`: each one was computed
from what the one before it wrote. -/
def Chain (threads : List PanelThread) (first : Configuration) : List Nat → Configuration → Prop
  | [], last => last = first
  | i :: rest, last => ∃ t current written, threads[i]? = some t ∧
      firstRead t.events = some current ∧ writes t.events = [written] ∧
      last = written.clone ∧ Chain threads first rest current

variable {threads : List PanelThread} {standing : List Nat} {first last : Configuration}

theorem Chain.clone_eq (hfirst : first.clone = first) (h : Chain threads first standing last) :
    last.clone = last := by
  cases standing with
  | nil =>
    rw [show last = first from h]
    exact hfirst
  | cons i rest =>
    obtain ⟨_, _, written, _, _, _, rfl, _⟩ := h
    exact written.clone_clone

/-- Threads that keep their first snapshot and their writes keep the chain. -/
theorem Chain.transfer {threads' : List PanelThread} (h : Chain threads first standing last)
    (hkeep : ∀ i ∈ standing, ∀ t, threads[i]? = some t → ∃ t', threads'[i]? = some t' ∧
      (∀ c, firstRead t.events = some c → firstRead t'.events = some c) ∧
      writes t'.events = writes t.events) : Chain threads' first standing last := by
  induction standing generalizing last with
  | nil => exact h
  | cons i rest ih =>
    obtain ⟨t, current, written, ht, hread, hwrites, hlast, hchain⟩ := h
    obtain ⟨t', ht', hread', hwrites'⟩ := hkeep i mem_cons_self t ht
    refine ⟨t', current, written, ht', hread' current hread, hwrites'.trans hwrites, hlast, ?_⟩
    exact ih hchain fun j hj => hkeep j (mem_cons_of_mem _ hj)

theorem Chain.exists_thread (h : Chain threads first standing last) {i : Nat} (hi : i ∈ standing) :
    ∃ t, threads[i]? = some t := by
  induction standing generalizing last with
  | nil => cases hi
  | cons j rest ih =>
    obtain ⟨t, _, _, ht, _, _, _, hchain⟩ := h
    rcases mem_cons.mp hi with rfl | hi
    · exact ⟨t, ht⟩
    · exact ih hchain hi

/-- What runs that meet the condition keep. -/
structure Inv (start : Store) (s : PanelSystem) : Prop where
  chain : Chain s.threads start.directory s.shared.standing s.shared.store.directory
  nodup : s.shared.standing.Nodup
  stands : ∀ i t, s.threads[i]? = some t →
    (i ∈ s.shared.standing ↔ ∃ written, writes t.events = [written])
  failed : ∀ i t e, s.threads[i]? = some t → t.result = some (.error e) → i ∉ s.shared.standing

theorem firstRead_snoc {events : List (Event Answer)} {c : Configuration}
    (h : firstRead events = some c) (event : Event Answer) :
    firstRead (events ++ [event]) = some c := by
  unfold firstRead at h ⊢
  rw [findSome?_append, h]
  rfl

variable {event : Event Answer} {next : Configuration} {ctl : Controller}

theorem writes_snoc_some (h : writeOf event = some next) (events : List (Event Answer)) :
    writes (events ++ [event]) = writes events ++ [next] := by
  simp [writes, h]

/-- Without a write the directory stays, with one it is what was written. -/
theorem Respond.directory_eq {s' : Store} {c : Call} {answer : Answer c}
    (h : Respond s c answer s') :
    s'.directory = ((writeOf ⟨c, answer⟩).map Configuration.clone).getD s.directory := by
  cases h with
  | directory => rfl
  | written => exact s.directory_write _
  | revoked hpublished =>
    unfold Store.directory
    rw [hpublished]
    rfl
  | host hc =>
    rw [writeOf_host hc]
    rfl

section Steps

variable {start : Store} {s : PanelSystem} {i : Nat} {t : PanelThread} {store : Store}

/-- A thread changes, its snapshot and its writes do not. -/
theorem Inv.quiet (h : Inv start s) (hi : s.threads[i]? = some t) {t' : PanelThread}
    (hread : ∀ c, firstRead t.events = some c → firstRead t'.events = some c)
    (hwrites : writes t'.events = writes t.events)
    (hresult : ∀ e, t'.result = some (.error e) → t.result = some (.error e) ∨
      i ∉ s.shared.standing)
    (hstore : store.directory = s.shared.store.directory) :
    Inv start ⟨⟨store, s.shared.standing⟩, s.threads.set i t'⟩ := by
  constructor
  · show Chain _ _ _ store.directory
    rw [hstore]
    refine h.chain.transfer ?_
    intro j _ u hu
    by_cases hij : i = j
    · subst hij
      cases hi.symm.trans hu
      exact ⟨t', getElem?_set_of_some hi t', hread, hwrites⟩
    · exact ⟨u, (getElem?_set_ne hij).trans hu, fun _ hc => hc, rfl⟩
  · exact h.nodup
  · intro j u hu
    rcases getElem?_set_cases hu with ⟨rfl, rfl⟩ | ⟨-, hu⟩
    · rw [hwrites]
      exact h.stands i t hi
    · exact h.stands j u hu
  · intro j u e hu he
    rcases getElem?_set_cases hu with ⟨rfl, rfl⟩ | ⟨-, hu⟩
    · rcases hresult e he with he | hno
      · exact h.failed i t e hi he
      · exact hno
    · exact h.failed j u e hu he

/-- The chain does not depend on a thread whose write does not stand. -/
theorem Chain.set (h : Chain threads first standing last) (hout : i ∉ standing) (t' : PanelThread) :
    Chain (threads.set i t') first standing last := by
  refine h.transfer fun j hj u hu => ⟨u, ?_, fun _ hc => hc, rfl⟩
  rwa [getElem?_set_ne]
  rintro rfl
  exact hout hj

/-- A first write, from the directory as it still is, extends the chain. -/
theorem Inv.push (h : Inv start s) (hi : s.threads[i]? = some t)
    (hread : firstRead t.events = some s.shared.store.directory) (hwrites : writes t.events = [])
    (hresult : t.result = none) (hevent : writeOf event = some next) {prog : Handler Unit}
    (hstore : store.directory = next.clone) :
    i ∉ s.shared.standing ∧ Inv start ⟨⟨store, i :: s.shared.standing⟩,
      s.threads.set i { t with prog := prog, events := t.events ++ [event] }⟩ := by
  have hfresh : i ∉ s.shared.standing := by
    intro hmem
    obtain ⟨written, hw⟩ := (h.stands i t hi).mp hmem
    simp [hwrites] at hw
  have hwrites' : writes (t.events ++ [event]) = [next] := by
    rw [writes_snoc_some hevent, hwrites]
    rfl
  refine ⟨hfresh, ⟨?_, nodup_cons.mpr ⟨hfresh, h.nodup⟩, ?_, ?_⟩⟩
  · exact ⟨_, _, next, getElem?_set_of_some hi _, firstRead_snoc hread event, hwrites', hstore,
      h.chain.set hfresh _⟩
  · intro j u hu
    rcases getElem?_set_cases hu with ⟨rfl, rfl⟩ | ⟨hij, hu⟩
    · exact ⟨fun _ => ⟨next, hwrites'⟩, fun _ => mem_cons_self⟩
    · rw [mem_cons, or_iff_right (Ne.symm hij)]
      exact h.stands j u hu
  · intro j u e hu he
    rcases getElem?_set_cases hu with ⟨rfl, rfl⟩ | ⟨hij, hu⟩
    · simp [hresult] at he
    · rw [mem_cons, or_iff_right (Ne.symm hij)]
      exact h.failed j u e hu he

/-- Taking back the newest write shortens the chain. -/
theorem Inv.pop (h : Inv start s) (hi : s.threads[i]? = some t) {rest : List Nat}
    (hstanding : s.shared.standing = i :: rest) (hevent : writeOf event = some next)
    (hread : firstRead t.events = some next) {prog : Handler Unit}
    (hstore : store.directory = next.clone) :
    Inv start ⟨⟨store, rest⟩,
      s.threads.set i { t with prog := prog, events := t.events ++ [event] }⟩ := by
  obtain ⟨hchain, hnodup, hstands, hfailed⟩ := h
  rw [hstanding] at hchain hnodup
  obtain ⟨hgone, hnodup'⟩ := nodup_cons.mp hnodup
  obtain ⟨u, current, written, hu, hread', hwrites, -, hrest⟩ := hchain
  cases hi.symm.trans hu
  cases hread.symm.trans hread'
  have hclone : next.clone = next := hrest.clone_eq (Configuration.clone_clone _)
  have hwrites' : writes (t.events ++ [event]) = [written, next] := by
    rw [writes_snoc_some hevent, hwrites]
    rfl
  refine ⟨?_, hnodup', ?_, ?_⟩
  · show Chain _ _ rest store.directory
    rw [hstore, hclone]
    exact hrest.set hgone _
  · intro j u hu
    rcases getElem?_set_cases hu with ⟨rfl, rfl⟩ | ⟨hij, hu⟩
    · refine ⟨fun hmem => absurd hmem hgone, ?_⟩
      rintro ⟨w, hw⟩
      simp [hwrites'] at hw
    · rw [← hstands j u hu, hstanding, mem_cons, or_iff_right (Ne.symm hij)]
  · intro j u e hu he
    rcases getElem?_set_cases hu with ⟨rfl, rfl⟩ | ⟨-, hu⟩
    · exact hgone
    · intro hmem
      refine hfailed j u e hu he ?_
      rw [hstanding]
      exact mem_cons_of_mem _ hmem

/-- A new thread has not written. -/
theorem Inv.arrive (h : Inv start s) (hwrites : t.events = []) :
    Inv start { s with threads := s.threads ++ [t] } := by
  have houtside : ∀ {j : Nat}, s.threads.length ≤ j → j ∉ s.shared.standing := by
    intro j hj hmem
    obtain ⟨u, hu⟩ := h.chain.exists_thread hmem
    exact absurd (List.getElem?_eq_some_iff.mp hu).1 (Nat.not_lt.mpr hj)
  refine ⟨?_, h.nodup, ?_, ?_⟩
  · exact h.chain.transfer fun j _ u hu => ⟨u, getElem?_snoc_of_some hu t, fun _ hc => hc, rfl⟩
  · intro j u hu
    rcases getElem?_snoc_cases hu with hu | ⟨hj, rfl⟩
    · exact h.stands j u hu
    · refine ⟨fun hmem => absurd hmem (houtside hj), ?_⟩
      rintro ⟨w, hw⟩
      rw [hwrites] at hw
      cases hw
  · intro j u e hu he
    rcases getElem?_snoc_cases hu with hu | ⟨hj, -⟩
    · exact h.failed j u e hu he
    · exact houtside hj

/-- A step that meets the condition keeps the invariant. -/
theorem Inv.step {a : Label Answer Request} {s' : PanelSystem} (h : Inv start s)
    (hfollows : ∀ t ∈ s.threads, t.Follows (Request.program ctl)) (hstep : Step ctl s a s')
    (hok : Undisturbed s a) : Inv start s' := by
  cases hstep with
  | start request => exact h.arrive rfl
  | @act i t c next answer shared hi hp hresp =>
    obtain ⟨hrespond, hstanding⟩ := hresp
    have hdir := hrespond.directory_eq
    have hresult := System.result_eq_none (hfollows t (mem_of_getElem? hi)) hp
    obtain ⟨store, standing⟩ := shared
    obtain rfl : standing = stand i ⟨c, answer⟩ s.shared.standing := hstanding
    cases hwrite : writeOf ⟨c, answer⟩ with
    | none =>
      rw [hwrite] at hdir
      have hstand : stand i ⟨c, answer⟩ s.shared.standing = s.shared.standing := by
        unfold stand
        rw [hwrite]
      rw [hstand]
      refine h.quiet hi ?_ ?_ ?_ hdir
      · intro c' hc
        exact firstRead_snoc hc _
      · simp [writes, hwrite]
      · intro e he
        exact .inl he
    | some written =>
      rw [hwrite] at hdir
      rcases hok t hi written hwrite with ⟨hnone, hread⟩ | ⟨hhead, hread⟩
      · obtain ⟨hfresh, hinv⟩ := h.push hi hread hnone hresult hwrite hdir
        have hstand : stand i ⟨c, answer⟩ s.shared.standing = i :: s.shared.standing := by
          unfold stand
          rw [hwrite]
          exact if_neg hfresh
        rw [hstand]
        exact hinv
      · obtain ⟨rest, hrest⟩ : ∃ rest, s.shared.standing = i :: rest := by
          cases hs : s.shared.standing with
          | nil => simp [hs] at hhead
          | cons j rest =>
            rw [hs] at hhead
            cases hhead
            exact ⟨rest, rfl⟩
        have hstand : stand i ⟨c, answer⟩ s.shared.standing = rest := by
          unfold stand
          rw [hwrite, hrest]
          simp
        rw [hstand]
        exact h.pop hi hrest hwrite hread hdir
  | @ret i t r hi hp hnone =>
    refine h.quiet hi ?_ ?_ ?_ rfl
    · intro c hc
      exact hc
    · rfl
    · intro e he
      cases he
      exact .inr (hok t e hi hp)

end Steps

variable {start : Store}

theorem follows {s : PanelSystem} (h : Reachable (Initial start) (Step ctl) s) :
    ∀ t ∈ s.threads, t.Follows (Request.program ctl) :=
  System.follows _ _ (fun _ (hs : _ = _) => by rw [hs]) h

theorem Inv.of_reachable {s : PanelSystem}
    (h : Reachable (Initial start) (Guarded (Step ctl) Undisturbed) s) : Inv start s := by
  induction h with
  | start hs =>
    obtain rfl := hs
    constructor
    · rfl
    · exact nodup_nil
    · intro i t ht
      cases ht
    · intro i t e ht
      cases ht
  | next hprev hstep ih =>
    exact ih.step (follows hprev.of_guarded) hstep.1 hstep.2

/-- A chain of requests that all succeeded is a serial execution. -/
theorem Chain.serial (h : Chain threads start.directory standing last)
    (hok : ∀ i ∈ standing, ∀ t, threads[i]? = some t →
      Path (t.request.program ctl) t.events (.ret ())) :
    ∃ final, Serial ctl threads start standing.reverse final ∧ final.directory = last := by
  induction standing generalizing last with
  | nil => exact ⟨start, .nil, h.symm⟩
  | cons i rest ih =>
    obtain ⟨t, current, written, ht, hread, hwrites, rfl, hchain⟩ := h
    obtain ⟨before, hserial, hbefore⟩ := ih hchain fun j hj => hok j (mem_cons_of_mem _ hj)
    have hpath := hok i mem_cons_self t ht
    obtain ⟨current', written', hread', hwrites', halone⟩ := (t.request.waiting ctl).alone hpath
    cases hread.symm.trans hread'
    obtain rfl : written = written' := by
      rw [hwrites] at hwrites'
      exact singleton_inj.mp hwrites'
    obtain ⟨after, hruns, hafter⟩ := halone before hbefore
    refine ⟨after, ?_, hafter⟩
    rw [reverse_cons]
    exact .snoc hserial ht hruns

/-- **No lost update, under the condition.** In a run all of whose steps are undisturbed,
once every request has returned, the directory is the result of executing exactly the
successful requests one after the other. -/
theorem panel_serializable {ctl : Controller} {start : Store} {s : PanelSystem}
    (h : Reachable (Initial start) (Guarded (Step ctl) Undisturbed) s) (hdone : AllReturned s) :
    Serializable ctl start s := by
  have hinv := Inv.of_reachable h
  have hfollows := follows h.of_guarded
  have hpath : ∀ {i : Nat} {t : PanelThread}, s.threads[i]? = some t →
      t.result = some (.ok ()) → Path (t.request.program ctl) t.events (.ret ()) :=
    fun ht hr => System.path_returned (hfollows _ (mem_of_getElem? ht)) hr
  have hsucceeded : ∀ {i : Nat} {t : PanelThread}, i ∈ s.shared.standing →
      s.threads[i]? = some t → t.result = some (.ok ()) := by
    intro i t hi ht
    obtain ⟨r, hr⟩ := Option.isSome_iff_exists.mp (hdone t (mem_of_getElem? ht))
    cases r with
    | ok _ => exact hr
    | error e => exact absurd hi (hinv.failed i t e ht hr)
  have hmem : ∀ i, i ∈ s.shared.standing.reverse ↔ Succeeded s i := by
    intro i
    rw [mem_reverse]
    constructor
    · intro hi
      obtain ⟨t, ht⟩ := hinv.chain.exists_thread hi
      exact ⟨t, ht, hsucceeded hi ht⟩
    · rintro ⟨t, ht, hr⟩
      obtain ⟨_, written, _, hwrites, _⟩ := (t.request.waiting ctl).alone (hpath ht hr)
      exact (hinv.stands i t ht).mpr ⟨written, hwrites⟩
  refine ⟨s.shared.standing.reverse, nodup_reverse.mpr hinv.nodup, hmem, ?_⟩
  exact hinv.chain.serial fun i hi t ht => hpath ht (hsucceeded hi ht)

/-! ## A sample directory -/

/-- A controller without a managed runtime and without a store. -/
def sampleController : Controller where
  sdk := ⟨fun _ _ => true, fun _ => true, fun _ => true⟩
  managed := false
  persistent := false

/-- One listener with one user. -/
def sampleDirectory (enabled : Bool) : Configuration where
  generation := []
  resourceGroupRef := []
  listeners := [{
    id := ascii "l1", agentID := ascii "a1", port := 8388, method := ascii "aes-256-gcm"
    serverSecretRef := [], serverSecretVersion := []
    users := [⟨ascii "u1", [], ascii "secret/u1", ascii "v1", enabled⟩] }]
  routing := ⟨[], [], some .direct, []⟩

def sampleStore (enabled : Bool) : Store := ⟨sampleDirectory enabled, none⟩

/-- The request that sets the flag of the sample user. -/
def setSample (enabled : Bool) : Request := .setUserEnabled (ascii "u1") [] enabled

/-- The events of a `setSample` that succeeds. -/
def sampleEvents (enabled enabled' : Bool) : List (Event Answer) :=
  [⟨.directory, sampleDirectory enabled⟩, ⟨.report (ascii "a1"), .ok true⟩,
    ⟨.write (sampleDirectory enabled'), .ok ()⟩, ⟨.report (ascii "a1"), .ok true⟩,
    ⟨.apply (ascii "a1"), .ok ()⟩]

/-- An agent that is online or not, and applies what it gets. -/
def sampleBehave (online : Bool) (i : Nat) (s : Shared) : (c : Call) → Answer c × Shared
  | .directory => (s.store.directory, s)
  | .write next => (.ok (), ⟨s.store.write next, stand i ⟨.write next, .ok ()⟩ s.standing⟩)
  | .report _ => (.ok online, s)
  | .apply _ | .revokeSecret _ | .storeListens _ => (.ok (), s)
  | .newAccountID | .newListenID | .resolveMappedPSK .. | .putSecret .. | .mintListenSecrets ..
  | .createReplacementSecret .. => (.error .denied, s)

theorem respondAt_sampleBehave (online : Bool) (i : Nat) (s : Shared) (c : Call) (_ : True) :
    respondAt i s c (sampleBehave online i s c).1 (sampleBehave online i s c).2 := by
  cases c with
  | directory => exact ⟨.directory, rfl⟩
  | write next => exact ⟨.written, rfl⟩
  | _ => exact ⟨.host rfl, rfl⟩

instance (c : Call) : DecidableEq (Answer c) := by
  cases c <;> exact inferInstanceAs (DecidableEq _)

instance : DecidableEq Shared := fun s s' =>
  decidable_of_iff (s.store.configuration = s'.store.configuration ∧
    s.store.published = s'.store.published ∧ s.standing = s'.standing)
    (by rcases s with ⟨⟨_, _⟩, _⟩; rcases s' with ⟨⟨_, _⟩, _⟩; simp [and_assoc])

instance (p : Handler Unit) (q : Prop) [Decidable q] : Decidable (∀ e, p = .fail e → q) :=
  match p with
  | .fail e => decidable_of_iff q ⟨fun h _ _ => h, fun h => h e rfl⟩
  | .ret _ | .call _ _ => .isTrue nofun

instance (s : PanelSystem) : (l : Label Answer Request) → Decidable (Undisturbed s l)
  | .start _ => .isTrue trivial
  | .act i event =>
    inferInstanceAs (Decidable (∀ t ∈ s.threads[i]?, ∀ next ∈ writeOf event, _ ∨ _))
  | .ret i => decidable_of_iff (∀ t ∈ s.threads[i]?, ∀ e, t.prog = .fail e → i ∉ s.shared.standing)
    ⟨fun h t e ht => h t ht e, fun h t ht e => h t e ht⟩

/-- The sample directory with requests that have arrived. -/
def sampleWith (requests : List Request) : PanelSystem :=
  System.withRequests (Request.program sampleController) ⟨⟨sampleStore true, []⟩, []⟩ requests

/-- Three requests at once. The second takes its snapshot when the first has written, and both go
through the agent by turns; the third has written when the agent goes offline, and takes its write
back. -/
def overlapped : PanelSystem :=
  System.runSchedule (sampleBehave false) (System.runSchedule (sampleBehave true)
    (sampleWith [setSample false, setSample true, setSample false])
    [0, 0, 0, 1, 0, 1, 0, 1, 2, 2, 0, 1, 1, 2]) [2, 1, 2, 2]

theorem overlapped_reachable : Reachable (Initial (sampleStore true))
    (Guarded (Step sampleController) Undisturbed) overlapped := by
  have hstart : Reachable (Initial (sampleStore true)) (Guarded (Step sampleController) Undisturbed)
      ⟨⟨sampleStore true, []⟩, []⟩ := .start rfl
  have hwith := System.reachable_arrivals (fun _ _ => trivial) hstart
    [setSample false, setSample true, setSample false]
  refine System.reachable_meets (fun _ _ => id)
    (fun s i c _ => respondAt_sampleBehave false i s.shared c trivial)
    (System.reachable_meets (fun _ _ => id)
      (fun s i c _ => respondAt_sampleBehave true i s.shared c trivial) hwith ?_) ?_
  · decide
  · decide

/-- The serial theorem at that run: two requests have succeeded, and the directory is what they
make of the first one. -/
theorem panel_serializable_overlapped :
    overlapped.threads.map (·.result) =
      [some (.ok ()), some (.ok ()), some (.error .agentOffline)] ∧
    Serializable sampleController (sampleStore true) overlapped :=
  ⟨by decide, panel_serializable overlapped_reachable (by unfold AllReturned; decide)⟩

/-! ## A lost update -/

/-- What a run alone leaves is what it wrote last. -/
theorem Runs.directory_eq {s' : Store} {p : Handler Unit} {events : List (Event Answer)}
    {r : Except Err Unit} (h : Runs Respond s p events s' r) :
    s'.directory = ((writes events).getLast?.map Configuration.clone).getD s.directory := by
  induction h with
  | ret | fail => rfl
  | @call s s' s'' c next answer events r hresp _ ih =>
    rw [ih, hresp.directory_eq]
    cases hwrite : writeOf ⟨c, answer⟩ with
    | none =>
      have hcons : writes (⟨c, answer⟩ :: events) = writes events := by simp [writes, hwrite]
      rw [hcons]
      rfl
    | some written =>
      have hcons : writes (⟨c, answer⟩ :: events) = written :: writes events := by
        simp [writes, hwrite]
      rw [hcons, getLast?_cons]
      cases (writes events).getLast? with
      | none | some => rfl

/-- Snapshots are not writes. -/
theorem writes_answers (events : List (Event Answer)) : writes (answers events) = writes events := by
  unfold writes answers
  rw [filterMap_filter]
  refine filterMap_congr ?_
  rintro ⟨c, answer⟩ -
  cases c with
  | directory | _ => rfl

/-- The events of the request that is refused: it read before the other one wrote, and it
writes its snapshot back. -/
def refusedEvents : List (Event Answer) :=
  [⟨.directory, sampleDirectory true⟩, ⟨.report (ascii "a1"), .ok true⟩,
    ⟨.write (sampleDirectory true), .ok ()⟩, ⟨.report (ascii "a1"), .ok false⟩,
    ⟨.write (sampleDirectory true), .ok ()⟩]

/-- One request has disabled the user and returned success, another one was refused. -/
def lostUpdate : PanelSystem :=
  ⟨⟨sampleStore true, [0]⟩,
    [⟨setSample false, sampleEvents true false, .ret (), some (.ok ())⟩,
      ⟨setSample true, refusedEvents, .fail .agentOffline, some (.error .agentOffline)⟩]⟩

theorem lostUpdate_reachable :
    Reachable (Initial (sampleStore true)) (Step sampleController) lostUpdate := by
  -- the second request takes its snapshot, the first one runs, the second one goes on
  have hstart : Reachable (Initial (sampleStore true)) (Step sampleController) _ := .start rfl
  have hreach := System.reachable_runSchedule (respondAt_sampleBehave false)
    (System.reachable_runSchedule (respondAt_sampleBehave true)
      (System.reachable_withRequests hstart [setSample false, setSample true])
      (System.mayRun_true _ [1, 0, 0, 0, 0, 0, 0, 1, 1])) (System.mayRun_true _ [1, 1, 1])
  have hdone : _ = lostUpdate := System.eq_of_returned (follows hreach)
    [(setSample false, sampleEvents true false, .ok ()),
      (setSample true, refusedEvents, .error .agentOffline)] (by decide) (by decide)
  rwa [hdone] at hreach

/-- **A rollback undoes a success.** Two requests run at once. The first disables the user
and succeeds; the second, which took its snapshot before, is refused by the agent and writes
the snapshot back. The user is enabled again, although only the first request succeeded. -/
theorem panel_lost_update :
    Reachable (Initial (sampleStore true)) (Step sampleController) lostUpdate ∧
      AllReturned lostUpdate ∧ ¬ Serializable sampleController (sampleStore true) lostUpdate := by
  refine ⟨lostUpdate_reachable, ?_, ?_⟩
  · intro t ht
    rcases mem_pair.mp ht with rfl | rfl
    · rfl
    · rfl
  · rintro ⟨order, hnodup, hmem, final, hserial, hfinal⟩
    -- only the first request succeeded, so the order is that one request
    have hzero : ∀ i, i ∈ order ↔ i ∈ [0] := by
      intro i
      rw [hmem i, mem_singleton]
      constructor
      · rintro ⟨t, ht, hr⟩
        match i, ht with
        | 0, _ => rfl
        | 1, ht =>
          cases ht
          cases hr
      · rintro rfl
        exact ⟨_, rfl, rfl⟩
    obtain rfl : order = [0] := perm_singleton.mp
      ((perm_ext_iff_of_nodup hnodup (nodup_singleton 0)).mpr hzero)
    obtain ⟨before, t, ht, events, hruns, hsame⟩ := Serial.last sampleController [] 0 hserial
    cases ht
    have hwrites : writes events = [sampleDirectory false] := by
      rw [← writes_answers, hsame]
      rfl
    have hdir : lostUpdate.shared.store.directory = (sampleDirectory false).clone := by
      rw [← hfinal, Runs.directory_eq hruns, hwrites]
      rfl
    exact absurd hdir (by decide)

end NrePlugins.Shadowsocks.Panel
