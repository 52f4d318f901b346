import Nre.Base.Rely
import Nre.DockerApp.DeployJob

/-!
# What the calls of a deployment keep

`Inv` is the invariant of the shared state, `Rely` what a thread relies on while the
others run, and `pre` what it knows when it makes a call. A thread that holds the mutex
while no goroutine is there (`State.Quiet`) is alone; a goroutine knows that its own run
is not finished, so that no other can be active.

`call_keeps`: under these, every call keeps `Inv` and what the others rely on.
-/

namespace NrePlugins.DockerApp.DeployJob

open List
open Option

variable (J : StatusJson)

/-! ## The rules of the game -/

/-- What a status file says is not the end of a run. -/
def Files.Open (f : Files) (file : Nat) : Prop :=
  deployTerminal (readStatusFile J (some (f.content file))).phase = false

/-- The status file shows a phase that is not terminal. -/
def State.Honest (s : State) : Prop := ∃ file, s.files.status = some file ∧ s.files.Open J file

def State.NoneActive (s : State) : Prop := ∀ r ∈ s.runs, ¬ r.Active

def State.NoneStarting (s : State) : Prop := ∀ r ∈ s.runs, r.stage ≠ .starting

/-- No goroutine is there. -/
def State.Quiet (s : State) : Prop := ∀ r ∈ s.runs, r.stage = .finished ∨ r.stage = .starting

/-- Thread `i` completes a run. -/
def State.Finishing (s : State) (i run : Nat) : Prop :=
  ∃ r, s.runs[run]? = some r ∧ r.stage = .waited i

/-- One run at most is not finished, and the status tells of it. -/
structure Inv (s : State) : Prop where
  single : ∀ {run run' : Nat} {r r' : Run}, s.runs[run]? = some r → s.runs[run']? = some r' →
    r.stage ≠ .finished → r'.stage ≠ .finished → run = run'
  listed : ∀ {run : Nat} {r : Run}, s.runs[run]? = some r → r.Active → r.stage = .running →
    s.current = some run
  launched : s.mutex = none → s.NoneStarting
  honest : ∀ r ∈ s.runs, r.Active → s.Honest J
  files : s.files.Sound

/-- While a thread holds the mutex, the others only complete runs. Nobody takes over the
completion of a run. -/
structure Rely (i : Nat) (s s' : State) : Prop where
  held : s.mutex = some i → s'.mutex = some i ∧ s'.current = s.current ∧
    (s.NoneStarting → s'.NoneStarting) ∧ (s.NoneActive → s'.NoneActive) ∧ (s.Quiet → s' = s)
  finishing : ∀ run, s.Finishing i run → s'.Finishing i run

/-- The files may be changed in any way: by a completion, or when nothing is running. -/
def MayWrite (i : Nat) (s : State) : Prop :=
  (∃ run, s.Finishing i run) ∨ s.mutex = some i ∧ s.NoneActive

/-- A start has launched its process, and not yet the goroutine. -/
def Starting (i : Nat) (s : State) (run : Nat) : Prop :=
  s.mutex = some i ∧ s.Quiet ∧ ∃ r, s.runs[run]? = some r ∧ r.stage = .starting

/-- What a thread knows when it makes a call. -/
def pre (i : Nat) (s : State) : Call → Prop
  | .openTemp => MayWrite i s ∨ ∃ run, Starting i s run
  | .writeTemp file _ => MayWrite i s ∨ (∃ run, Starting i s run) ∧ s.files.temp = some file
  | .renameTemp =>
    MayWrite i s ∨ (∃ run, Starting i s run) ∧ ∀ file, s.files.temp = some file →
      s.files.Open J file
  | .startProcess => s.mutex = some i ∧ (∀ r ∈ s.runs, r.stage = .finished) ∧ s.Honest J
  | .setCurrent run => Starting i s run
  | .goFinish run => Starting i s run ∧ s.current = some run
  | .setCancel _ => s.mutex = some i ∧ s.NoneStarting
  | .deleteCurrent => s.mutex = some i ∧ ∃ run, s.Finishing i run
  | .closeFinished run => s.Finishing i run
  | .unlock => s.mutex = some i ∧ s.NoneStarting
  | _ => True

/-- A run is on its way out: cancelled or exited, and its status is not written. -/
def Run.Leaving (run : Run) : Prop := run.stage ≠ .finished ∧ ¬ run.Active

instance (run : Run) : Decidable run.Leaving := inferInstanceAs (Decidable (_ ∧ _))

/-- A start that goes on to start a process finds no run on its way out, and `os.Stat`
does not fail on a status file that is there. -/
def NoneLeaving (s : State) : (c : Call) → Answer c → Prop
  | .createLog, _ => ∀ r ∈ s.runs, ¬ r.Leaving
  | .statStatus, found => found = s.files.status.isSome
  | _, _ => True

def StartsAlone (s : DeploySystem) : Label Answer Request → Prop
  | .act _ ⟨c, answer⟩ => NoneLeaving s.shared c answer
  | _ => True

variable {J} {s s' : State} {i : Nat}

theorem Rely.refl (i : Nat) (s : State) : Rely i s s :=
  ⟨fun h => ⟨h, rfl, id, id, fun _ => rfl⟩, fun _ h => h⟩

theorem Rely.trans {s'' : State} (h : Rely i s s') (h' : Rely i s' s'') : Rely i s s'' := by
  refine ⟨?_, fun run hrun => h'.finishing run (h.finishing run hrun)⟩
  intro hmutex
  obtain ⟨hmutex', hcurrent, hstarting, hactive, hquiet⟩ := h.held hmutex
  obtain ⟨hmutex'', hcurrent', hstarting', hactive', hquiet'⟩ := h'.held hmutex'
  refine ⟨hmutex'', hcurrent'.trans hcurrent, fun hn => hstarting' (hstarting hn),
    fun hn => hactive' (hactive hn), ?_⟩
  intro hq
  have hsame := hquiet hq
  rw [hquiet' (hsame ▸ hq), hsame]

/-! ## Files -/

variable {file : Nat}

namespace Files

variable {f : Files}

theorem Sound.openTemp (h : f.Sound) : f.openTemp.2.Sound := by
  unfold Files.openTemp
  split
  · exact ⟨by simpa using h.temp, by simpa using h.status⟩
  · refine ⟨?_, ?_⟩
    · rintro _ ⟨⟩
      exact ⟨by simp, fun hstatus => absurd (h.status _ hstatus) (Nat.lt_irrefl _)⟩
    · intro other hother
      have hlt := h.status other hother
      simp
      omega

theorem Sound.write (h : f.Sound) (file : Nat) (payload : Bytes) :
    (f.write file payload).Sound :=
  ⟨by simpa [Files.write] using h.temp, by simpa [Files.write] using h.status⟩

theorem Sound.rename (h : f.Sound) : f.rename.Sound :=
  ⟨nofun, fun file hfile => (h.temp file hfile).1⟩

/-- The temporary file is the one that is opened, and it is empty. -/
theorem temp_openTemp (f : Files) : f.openTemp.2.temp = some f.openTemp.1 := by
  unfold Files.openTemp
  split
  · assumption
  · rfl

theorem content_openTemp (h : f.Sound) : f.openTemp.2.content f.openTemp.1 = [] := by
  unfold Files.openTemp content
  split
  · rename_i file hfile
    simp [getD_eq_getElem?_getD, getElem?_set_self (h.temp file hfile).1]
  · simp [getD_eq_getElem?_getD]

theorem content_write_self (h : f.Sound) (hfile : f.temp = some file) (payload : Bytes)
    (hempty : f.content file = []) :
    (f.write file payload).content file = payload := by
  unfold write content at *
  rw [hempty]
  simp [getD_eq_getElem?_getD, getElem?_set_self (h.temp file hfile).1]

theorem content_write_ne {other : Nat} (hne : file ≠ other) (payload : Bytes) :
    (f.write file payload).content other = f.content other := by
  simp [write, content, getD_eq_getElem?_getD, getElem?_set_ne hne]

theorem content_openTemp_ne {other : Nat} (hne : f.openTemp.1 ≠ other) :
    f.openTemp.2.content other = f.content other := by
  unfold Files.openTemp at *
  split at hne
  · simp [content, getD_eq_getElem?_getD, getElem?_set_ne hne]
  · simp only [content, getD_eq_getElem?_getD, getElem?_append]
    split
    · rfl
    · have hout : f.inodes.length < other := by
        omega
      simp [getElem?_eq_none (Nat.le_of_lt hout), getElem?_eq_none_iff.mpr
        (show [([] : Bytes)].length ≤ other - f.inodes.length by simp; omega)]

theorem Open.congr {f' : Files} (h : f.Open J file) (hsame : f'.content file = f.content file) :
    f'.Open J file := by
  rw [Files.Open, hsame]
  exact h

@[simp] theorem status_openTemp (f : Files) : f.openTemp.2.status = f.status := by
  unfold Files.openTemp
  split <;> rfl

end Files

/-! ## What a call keeps -/

variable (J) in
/-- A call of thread `i` keeps the invariant and what the other threads rely on. -/
def Keeps (i : Nat) (s s' : State) : Prop := Inv J s' ∧ ∀ j, j ≠ i → Rely j s s'

variable {run j : Nat} {r : Run}

theorem not_quiet (hr : s.runs[run]? = some r) (h : r.stage ≠ .finished ∧ r.stage ≠ .starting) :
    ¬ s.Quiet := by
  intro hquiet
  exact (hquiet r (mem_of_getElem? hr)).elim h.1 h.2

/-- A thread that may write holds the mutex, or the others cannot rely on quiet. -/
theorem MayWrite.holds (h : MayWrite i s) : s.mutex = some i ∨ ¬ s.Quiet := by
  rcases h with ⟨run, r, hrun, hwaited⟩ | ⟨hmutex, -⟩
  · exact .inr (not_quiet hrun (by simp [hwaited]))
  · exact .inl hmutex

theorem Rely.of_other (hmutex : s.mutex = some i) (hj : j ≠ i)
    (hfinishing : ∀ run, s.Finishing j run → s'.Finishing j run) : Rely j s s' := by
  refine ⟨?_, hfinishing⟩
  intro hholds
  exact absurd (some.inj (hholds.symm.trans hmutex)) hj

section

variable (hinv : Inv J s)

include hinv

theorem Keeps.refl (i : Nat) : Keeps J i s s := ⟨hinv, fun j _ => .refl j s⟩

/-- While a run is completed, no other is active. -/
theorem Inv.noneActive (h : s.Finishing i run) : s.NoneActive := by
  rintro r hr ⟨-, hstage⟩
  obtain ⟨k, hk⟩ := mem_iff_getElem?.mp hr
  obtain ⟨r', hrun, hwaited⟩ := h
  have hne : r.stage ≠ .finished := by
    rcases hstage with hstage | hstage <;> simp [hstage]
  obtain rfl := hinv.single hk hrun hne (by simp [hwaited])
  cases hk.symm.trans hrun
  rcases hstage with hstage | hstage <;> simp [hwaited] at hstage

theorem MayWrite.noneActive (h : MayWrite i s) : s.NoneActive := by
  rcases h with ⟨run, hrun⟩ | ⟨-, hnone⟩
  · exact hinv.noneActive hrun
  · exact hnone

theorem keeps_files (hholds : s.mutex = some i ∨ ¬ s.Quiet) {f : Files}
    (hsound : f.Sound) (hhonest : ∀ r ∈ s.runs, r.Active → State.Honest J { s with files := f }) :
    Keeps J i s { s with files := f } := by
  refine ⟨⟨hinv.single, hinv.listed, hinv.launched, hhonest, hsound⟩, fun j hj =>
    ⟨fun hmutex => ⟨hmutex, rfl, id, id, fun hquiet => ?_⟩, fun _ h => h⟩⟩
  rcases hholds with hi | hnot
  · exact absurd (some.inj (hmutex.symm.trans hi)) hj
  · exact absurd hquiet hnot

theorem MayWrite.keeps (h : MayWrite i s) {f : Files} (hsound : f.Sound) :
    Keeps J i s { s with files := f } :=
  keeps_files hinv h.holds hsound fun r hr hactive => absurd hactive (h.noneActive hinv r hr)

theorem keeps_openTemp (hpre : pre J i s .openTemp) :
    Keeps J i s { s with files := s.files.openTemp.2 } := by
  rcases hpre with hmay | ⟨run, hmutex, -, -⟩
  · exact hmay.keeps hinv hinv.files.openTemp
  · refine keeps_files hinv (.inl hmutex) hinv.files.openTemp ?_
    intro r hr hactive
    obtain ⟨file, hfile, hopen⟩ := hinv.honest r hr hactive
    have hstatus : s.files.openTemp.2.status = some file := by simpa using hfile
    have hne : s.files.openTemp.1 ≠ file := by
      rintro rfl
      exact (hinv.files.openTemp.temp _ (Files.temp_openTemp _)).2 hstatus
    exact ⟨file, hstatus, hopen.congr (Files.content_openTemp_ne hne)⟩

theorem keeps_writeTemp {text : Bytes} (hpre : pre J i s (.writeTemp file text)) (payload : Bytes) :
    Keeps J i s { s with files := s.files.write file payload } := by
  rcases hpre with hmay | ⟨⟨run, hmutex, -, -⟩, htemp⟩
  · exact hmay.keeps hinv (hinv.files.write file payload)
  · refine keeps_files hinv (.inl hmutex) (hinv.files.write file payload) ?_
    intro r hr hactive
    obtain ⟨shown, hshown, hopen⟩ := hinv.honest r hr hactive
    have hne : file ≠ shown := by
      rintro rfl
      exact (hinv.files.temp _ htemp).2 hshown
    exact ⟨shown, hshown, hopen.congr (Files.content_write_ne hne payload)⟩

theorem keeps_renameTemp (hpre : pre J i s .renameTemp)
    (htemp : s.files.temp.isSome) : Keeps J i s { s with files := s.files.rename } := by
  rcases hpre with hmay | ⟨⟨run, hmutex, -, -⟩, hopen⟩
  · exact hmay.keeps hinv hinv.files.rename
  · refine keeps_files hinv (.inl hmutex) hinv.files.rename ?_
    intro r _ _
    obtain ⟨file, hfile⟩ := isSome_iff_exists.mp htemp
    exact ⟨file, hfile, hopen file hfile⟩

theorem keeps_lock (hfree : s.mutex = none) : Keeps J i s { s with mutex := some i } :=
  ⟨⟨hinv.single, hinv.listed, nofun, hinv.honest, hinv.files⟩,
    fun _ _ => ⟨by simp [hfree], fun _ h => h⟩⟩

theorem keeps_unlock (hpre : pre J i s .unlock) : Keeps J i s { s with mutex := none } := by
  obtain ⟨hmutex, hnone⟩ := hpre
  exact ⟨⟨hinv.single, hinv.listed, fun _ => hnone, hinv.honest, hinv.files⟩,
    fun _ hj => .of_other hmutex hj fun _ h => h⟩

theorem keeps_startProcess (hpre : pre J i s .startProcess) :
    Keeps J i s { s with runs := s.runs ++ [⟨false, .starting⟩] } := by
  obtain ⟨hmutex, hfinished, hhonest⟩ := hpre
  -- the only run that is not finished is the new one
  have hnew : ∀ {run : Nat} {r : Run}, (s.runs ++ [⟨false, .starting⟩])[run]? = some r →
      r.stage ≠ .finished → run = s.runs.length ∧ r.stage = .starting := by
    intro run r hrun hne
    have hlt := (List.getElem?_eq_some_iff.mp hrun).1
    rw [length_append, length_singleton] at hlt
    rcases getElem?_snoc_cases hrun with hrun | ⟨hge, rfl⟩
    · exact absurd (hfinished r (mem_of_getElem? hrun)) hne
    · exact ⟨by omega, rfl⟩
  refine ⟨⟨?_, ?_, ?_, fun _ _ _ => hhonest, hinv.files⟩, ?_⟩
  · intro run run' r r' hrun hrun' hne hne'
    rw [(hnew hrun hne).1, (hnew hrun' hne').1]
  · intro run r hrun _ hrunning
    have hstarting := (hnew hrun (by simp [hrunning])).2
    simp [hrunning] at hstarting
  · simp [hmutex]
  · intro j hj
    refine .of_other hmutex hj ?_
    rintro run ⟨r, hrun, hwaited⟩
    exact ⟨r, getElem?_snoc_of_some hrun _, hwaited⟩

theorem keeps_setCurrent (hpre : pre J i s (.setCurrent run)) :
    Keeps J i s { s with current := some run } := by
  obtain ⟨hmutex, hquiet, -⟩ := hpre
  refine ⟨⟨hinv.single, ?_, hinv.launched, hinv.honest, hinv.files⟩,
    fun _ hj => .of_other hmutex hj fun _ h => h⟩
  intro run' r hrun _ hrunning
  rcases hquiet r (mem_of_getElem? hrun) with hstage | hstage <;> simp [hrunning] at hstage

theorem keeps_deleteCurrent (hpre : pre J i s .deleteCurrent) :
    Keeps J i s { s with current := none } := by
  obtain ⟨hmutex, run, hfinishing⟩ := hpre
  exact ⟨⟨hinv.single, fun hrun hactive _ => absurd hactive
    (hinv.noneActive hfinishing _ (mem_of_getElem? hrun)), hinv.launched, hinv.honest, hinv.files⟩,
    fun _ hj => .of_other hmutex hj fun _ h => h⟩

end

/-! ## Changes of one run -/

section SetRun

variable {f : Run → Run}

theorem getElem?_setRun {k : Nat} (h : (s.setRun run f).runs[k]? = some r) :
    ∃ r₀, s.runs[k]? = some r₀ ∧ (run = k ∧ r = f r₀ ∨ run ≠ k ∧ r = r₀) := by
  change (s.runs.modify run f)[k]? = some r at h
  rw [getElem?_modify] at h
  obtain ⟨r₀, hr₀, rfl⟩ := map_eq_some_iff.mp h
  refine ⟨r₀, hr₀, ?_⟩
  by_cases hk : run = k
  · exact .inl ⟨hk, if_pos hk⟩
  · exact .inr ⟨hk, if_neg hk⟩

theorem mem_setRun (h : r ∈ (s.setRun run f).runs) :
    ∃ k r₀, s.runs[k]? = some r₀ ∧ (run = k ∧ r = f r₀ ∨ run ≠ k ∧ r = r₀) := by
  obtain ⟨k, hk⟩ := mem_iff_getElem?.mp h
  exact ⟨k, getElem?_setRun hk⟩

/-- A change of the run `run` that makes it no more alive than it was. -/
structure Ages (s : State) (run : Nat) (f : Run → Run) : Prop where
  stage : ∀ r, s.runs[run]? = some r → (f r).stage ≠ .finished → r.stage ≠ .finished
  active : ∀ r, s.runs[run]? = some r → (f r).Active → r.Active
  starting : ∀ r, s.runs[run]? = some r → (f r).stage = .starting → r.stage = .starting

/-- What follows from one run follows after the change, if the change brings no such run. -/
theorem forall_setRun {P : Run → Prop} {Q : Prop}
    (h : ∀ r, s.runs[run]? = some r → P (f r) → P r) (hall : ∀ r ∈ s.runs, P r → Q) :
    ∀ r ∈ (s.setRun run f).runs, P r → Q := by
  intro r hr hP
  obtain ⟨k, r₀, hr₀, ⟨rfl, rfl⟩ | ⟨-, rfl⟩⟩ := mem_setRun hr
  · exact hall r₀ (mem_of_getElem? hr₀) (h r₀ hr₀ hP)
  · exact hall r (mem_of_getElem? hr₀) hP

theorem Inv.setRun (hinv : Inv J s) (h : Ages s run f)
    (hlisted : ∀ r, s.runs[run]? = some r → (f r).Active → (f r).stage = .running →
      s.current = some run) : Inv J (s.setRun run f) := by
  refine ⟨?_, ?_, fun hfree => forall_setRun h.starting (hinv.launched hfree),
    forall_setRun h.active hinv.honest, hinv.files⟩
  · intro k k' r r' hk hk' hne hne'
    -- what is not finished after the change was not finished before
    have hbefore : ∀ {k : Nat} {r : Run}, (s.setRun run f).runs[k]? = some r →
        r.stage ≠ .finished → ∃ r₀, s.runs[k]? = some r₀ ∧ r₀.stage ≠ .finished := by
      intro k r hk hne
      obtain ⟨r₀, hr₀, ⟨rfl, rfl⟩ | ⟨-, rfl⟩⟩ := getElem?_setRun hk
      · exact ⟨r₀, hr₀, h.stage r₀ hr₀ hne⟩
      · exact ⟨r, hr₀, hne⟩
    obtain ⟨r₀, hr₀, hne₀⟩ := hbefore hk hne
    obtain ⟨r₀', hr₀', hne₀'⟩ := hbefore hk' hne'
    exact hinv.single hr₀ hr₀' hne₀ hne₀'
  · intro k r hk hactive hrunning
    obtain ⟨r₀, hr₀, ⟨rfl, rfl⟩ | ⟨-, rfl⟩⟩ := getElem?_setRun hk
    · exact hlisted r₀ hr₀ hactive hrunning
    · exact hinv.listed hr₀ hactive hrunning

theorem finishing_setRun {k : Nat} (h : s.Finishing j k)
    (hf : ∀ r, s.runs[run]? = some r → r.stage = .waited j → (f r).stage = .waited j) :
    (s.setRun run f).Finishing j k := by
  obtain ⟨r, hr, hwaited⟩ := h
  refine ⟨if run = k then f r else r, ?_, ?_⟩
  · show (s.runs.modify run f)[k]? = _
    rw [getElem?_modify, hr]
    rfl
  · split_ifs with hk
    · exact hf r (hk ▸ hr) hwaited
    · exact hwaited

/-- A completion goes on, whoever holds the mutex. -/
theorem Rely.setRun (h : Ages s run f) (hquiet : ¬ s.Quiet)
    (hf : ∀ r, s.runs[run]? = some r → r.stage = .waited j → (f r).stage = .waited j) :
    Rely j s (s.setRun run f) := by
  refine ⟨?_, fun k hk => finishing_setRun hk hf⟩
  intro hmutex
  exact ⟨hmutex, rfl, forall_setRun h.starting, forall_setRun h.active,
    fun hq => absurd hq hquiet⟩

end SetRun

theorem ages_setCancel (s : State) (run : Nat) : Ages s run fun r => { r with cancel := true } := by
  refine ⟨fun _ _ h => h, ?_, fun _ _ h => h⟩
  rintro r _ ⟨hcancel, -⟩
  cases hcancel

variable (hinv : Inv J s)

include hinv

theorem keeps_goFinish (hpre : pre J i s (.goFinish run)) :
    Keeps J i s (s.setRun run fun r => { r with stage := .running }) := by
  obtain ⟨⟨hmutex, hquiet, r, hr, hstarting⟩, hcurrent⟩ := hpre
  have hages : Ages s run fun r => { r with stage := .running } := by
    refine ⟨?_, ?_, nofun⟩
    · intro r' hr' _
      cases hr.symm.trans hr'
      simp [hstarting]
    · rintro r' hr' ⟨hcancel, -⟩
      cases hr.symm.trans hr'
      exact ⟨hcancel, .inl hstarting⟩
  refine ⟨hinv.setRun hages fun _ _ _ _ => hcurrent, ?_⟩
  intro j hj
  refine .of_other hmutex hj fun k hk => finishing_setRun hk ?_
  intro r' hr' hwaited
  cases hr.symm.trans hr'
  simp [hstarting] at hwaited

theorem keeps_setCancel (hpre : pre J i s (.setCancel run)) :
    Keeps J i s (s.setRun run fun r => { r with cancel := true }) := by
  refine ⟨hinv.setRun (ages_setCancel s run) ?_, ?_⟩
  · rintro r _ ⟨hcancel, -⟩ _
    cases hcancel
  · intro j hj
    exact .of_other hpre.1 hj fun k hk => finishing_setRun hk fun _ _ h => h

theorem keeps_wait (hr : s.runs[run]? = some r) (hrunning : r.stage = .running) :
    Keeps J i s (s.setRun run fun r => { r with stage := .waited i }) := by
  have hages : Ages s run fun r => { r with stage := .waited i } := by
    refine ⟨?_, ?_, nofun⟩
    · intro r' hr' _
      cases hr.symm.trans hr'
      simp [hrunning]
    · rintro r' _ ⟨-, h | h⟩ <;> cases h
  refine ⟨hinv.setRun hages nofun, fun j _ =>
    .setRun hages (not_quiet hr (by simp [hrunning])) ?_⟩
  intro r' hr' hwaited
  cases hr.symm.trans hr'
  simp [hrunning] at hwaited

theorem keeps_closeFinished (hpre : pre J i s (.closeFinished run)) :
    Keeps J i s (s.setRun run fun r => { r with stage := .finished }) := by
  obtain ⟨r, hr, hwaited⟩ := hpre
  have hages : Ages s run fun r => { r with stage := .finished } := by
    refine ⟨fun _ _ h => absurd rfl h, ?_, nofun⟩
    rintro r' _ ⟨-, h | h⟩ <;> cases h
  refine ⟨hinv.setRun hages nofun, fun j hj =>
    .setRun hages (not_quiet hr (by simp [hwaited])) ?_⟩
  intro r' hr' hwaited'
  cases hr.symm.trans hr'
  exact absurd (Stage.waited.inj (hwaited.symm.trans hwaited')).symm hj

/-- Every call keeps the invariant and what the others rely on. -/
theorem call_keeps {c : Call} {answer : Answer c} (hpre : pre J i s c)
    (hresp : respond i s c answer s') : Keeps J i s s' := by
  cases c with
  | prepareAppWorkspace | appWorkDir | tailDeployLog | createLog | stop | recordPublishedImages
  | reclaimUnusedImages =>
    obtain rfl : s' = s := hresp
    exact .refl hinv i
  | statStatus | readStatus | currentRun | cancelFlag =>
    obtain ⟨-, rfl⟩ := hresp
    exact .refl hinv i
  | lock =>
    obtain ⟨hfree, rfl⟩ := hresp
    exact keeps_lock hinv hfree
  | unlock =>
    obtain rfl := hresp
    exact keeps_unlock hinv hpre
  | openTemp =>
    cases answer with
    | error _ =>
      obtain rfl : s' = s := hresp
      exact .refl hinv i
    | ok file =>
      obtain ⟨-, rfl⟩ := hresp
      exact keeps_openTemp hinv hpre
  | writeTemp file payload =>
    cases answer with
    | error _ =>
      obtain ⟨n, rfl⟩ := hresp
      exact keeps_writeTemp hinv hpre (payload.take n)
    | ok _ =>
      obtain rfl := hresp
      exact keeps_writeTemp hinv hpre payload
  | renameTemp =>
    cases answer with
    | error _ =>
      obtain rfl : s' = s := hresp
      exact .refl hinv i
    | ok _ =>
      obtain ⟨htemp, rfl⟩ := hresp
      exact keeps_renameTemp hinv hpre htemp
  | startProcess =>
    cases answer with
    | error _ =>
      obtain rfl : s' = s := hresp
      exact .refl hinv i
    | ok run =>
      obtain ⟨-, rfl⟩ := hresp
      exact keeps_startProcess hinv hpre
  | setCurrent run =>
    obtain rfl := hresp
    exact keeps_setCurrent hinv hpre
  | goFinish run =>
    obtain rfl := hresp
    exact keeps_goFinish hinv hpre
  | setCancel run =>
    obtain rfl := hresp
    exact keeps_setCancel hinv hpre
  | deleteCurrent =>
    obtain rfl := hresp
    exact keeps_deleteCurrent hinv hpre
  | wait run =>
    obtain ⟨⟨r, hr, hrunning⟩, rfl⟩ := hresp
    exact keeps_wait hinv hr hrunning
  | closeFinished run =>
    obtain rfl := hresp
    exact keeps_closeFinished hinv hpre

end NrePlugins.DockerApp.DeployJob
