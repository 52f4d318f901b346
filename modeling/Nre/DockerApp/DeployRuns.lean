import Nre.Base.Schedule
import Nre.DockerApp.DeploySteps

/-!
# One run at a time

Any number of starts, cancels and status reads of one app, with the goroutines of its
runs, in any order.

`one_active_run`: as long as no start passes its check while a run is on its way out
(cancelled or exited, and its goroutine has not written its status yet), there is at most
one process that is running and not cancelled, and the status file shows no terminal
phase while there is one. What keeps a second start away is the status file: `Inv.honest`
says that it shows a phase that is not terminal as long as a run is active.

The condition is needed, since a goroutine writes its status after it has given the mutex
back, whatever has been started in between. `second_active_run` is the run in which it
writes `cancelled` over the status of the next run, and a third start follows.
-/

namespace NrePlugins.DockerApp.DeployJob

variable {J : StatusJson} {s s' : State} {i : Nat}

/-! ## Safe operations -/

variable (J) in
/-- The judgement of the rely and guarantee rule, for starts that meet the condition. -/
abbrev SafeOp {α : Type} (i : Nat) (post : State → α → Prop) (p : Deploy α) (s : State) : Prop :=
  System.Safe (fun i s c answer s' => respond i s c answer s' ∧ NoneLeaving s c answer) Rely
    (Inv J) (pre J) i post p s

section Calls

variable {α : Type} {post : State → α → Prop} {P : State → Prop} {status : DeployStatusFile}
  {c : Call} {f : Answer c → Deploy α} {g : Unit → Deploy α}

/-- A fact that the others keep. -/
def Stable (i : Nat) (P : State → Prop) : Prop := ∀ s s', Rely i s s' → P s → P s'

/-- A call of a thread that knows a stable fact. -/
theorem safe_ask (hstable : Stable i P) (hs : P s) (hpre : ∀ s', P s' → pre J i s' c)
    (h : ∀ s', P s' → Inv J s' → ∀ answer s'', respond i s' c answer s'' →
      NoneLeaving s' c answer → Inv J s'' → SafeOp J i post (f answer) s'') :
    SafeOp J i post (Prog.ask c >>= f) s := by
  intro s' hrely hinv
  have hs' := hstable s s' hrely hs
  exact ⟨hpre s' hs', fun answer s'' hresp => h s' hs' hinv answer s'' hresp.1 hresp.2⟩

/-- A call that leaves the state alone. -/
theorem safe_look (hstable : Stable i P) (hs : P s) (hpre : ∀ s', P s' → pre J i s' c)
    (hresp : ∀ s' answer s'', respond i s' c answer s'' → s'' = s')
    (h : ∀ answer s', P s' → SafeOp J i post (f answer) s') :
    SafeOp J i post (Prog.ask c >>= f) s := by
  refine safe_ask hstable hs hpre ?_
  intro s' hs' _ answer s'' hanswer _ _
  obtain rfl := hresp s' answer s'' hanswer
  exact h answer _ hs'

/-! ## What a thread knows -/

/-- Thread `i` is in its section, and no start is half done. -/
def Held (i : Nat) (s : State) : Prop := s.mutex = some i ∧ s.NoneStarting

/-- And nothing is running. -/
def Idle (i : Nat) (s : State) : Prop := Held i s ∧ s.NoneActive

theorem stable_held (i : Nat) : Stable i (Held i) := by
  rintro s s' hrely ⟨hmutex, hnone⟩
  obtain ⟨hmutex', -, hstarting, -, -⟩ := hrely.held hmutex
  exact ⟨hmutex', hstarting hnone⟩

theorem stable_idle (i : Nat) : Stable i (Idle i) := by
  rintro s s' hrely ⟨hheld, hnone⟩
  obtain ⟨-, -, -, hactive, -⟩ := hrely.held hheld.1
  exact ⟨stable_held i s s' hrely hheld, hactive hnone⟩

theorem stable_finishing (i run : Nat) : Stable i fun s => s.Finishing i run :=
  fun _ _ hrely h => hrely.finishing run h

theorem stable_and {Q : State → Prop} (hP : Stable i P) (hQ : Stable i Q) :
    Stable i fun s => P s ∧ Q s :=
  fun s s' hrely h => ⟨hP s s' hrely h.1, hQ s s' hrely h.2⟩

theorem safe_lock (hstable : Stable i P) (hs : P s) (hP : ∀ s, P s → P { s with mutex := some i })
    (h : ∀ s', Held i s' → P s' → SafeOp J i post (g ()) s') :
    SafeOp J i post (Prog.ask Call.lock >>= g) s := by
  refine safe_ask hstable hs (fun _ _ => trivial) ?_
  rintro s' hs' hinv _ _ ⟨hfree, rfl⟩ _ _
  exact h _ ⟨rfl, hinv.launched hfree⟩ (hP s' hs')

theorem safe_unlock (hstable : Stable i P) (hs : Held i s) (hPs : P s)
    (hP : ∀ s, P s → P { s with mutex := none }) (h : ∀ s', P s' → SafeOp J i post (g ()) s') :
    SafeOp J i post (Prog.ask Call.unlock >>= g) s := by
  refine safe_ask (stable_and (stable_held i) hstable) ⟨hs, hPs⟩ (fun _ h => h.1) ?_
  rintro s' ⟨-, hs'⟩ _ _ _ rfl _ _
  exact h _ (hP s' hs')

/-! ## Reading and writing the status -/

theorem safe_read (hstable : Stable i P) {post : State → DeployProgress → Prop} (hs : P s)
    (h : ∀ s' progress, P s' → post s' progress) :
    SafeOp J i post (readDeployProgress J) s := by
  refine safe_look hstable hs (fun _ _ => trivial) (fun _ _ _ hresp => hresp.2) ?_
  intro content s' hs'
  refine safe_look hstable hs' (fun _ _ => trivial) (fun _ _ _ hresp => hresp) ?_
  intro logs s'' hs''
  exact h s'' _ hs''

/-- A writer that may change the files in any way. -/
theorem safe_write (hstable : Stable i P) (hmay : ∀ s, P s → MayWrite i s)
    (hfiles : ∀ s f, P s → P { s with files := f }) {post : State → Except Err Unit → Prop}
    (hs : P s) (h : ∀ s' r, P s' → post s' r) :
    SafeOp J i post (writeDeployStatus status) s := by
  refine safe_ask hstable hs (fun _ hs => .inl (hmay _ hs)) ?_
  rintro s₁ hs₁ _ (err | file) s₂ hresp _ _
  · obtain rfl : s₂ = s₁ := hresp
    exact h _ _ hs₁
  obtain ⟨-, rfl⟩ := hresp
  refine safe_ask hstable (hfiles _ _ hs₁) (fun _ hs => .inl (hmay _ hs)) ?_
  rintro s₃ hs₃ _ (err | _) s₄ hresp _ _
  · obtain ⟨n, rfl⟩ := hresp
    exact h _ _ (hfiles _ _ hs₃)
  obtain rfl := hresp
  refine safe_ask (f := pure) hstable (hfiles _ _ hs₃) (fun _ hs => .inl (hmay _ hs)) ?_
  rintro s₅ hs₅ _ (err | _) s₆ hresp _ _
  · obtain rfl : s₆ = s₅ := hresp
    exact h _ _ hs₅
  · obtain ⟨-, rfl⟩ := hresp
    exact h _ _ (hfiles _ _ hs₅)

/-- Nobody else moves while a thread holds the mutex and no goroutine is there. -/
theorem safe_alone (hmutex : s.mutex = some i)
    (hquiet : s.Quiet) (hpre : pre J i s c) (h : ∀ answer s', respond i s c answer s' → Inv J s →
      Inv J s' → SafeOp J i post (f answer) s') : SafeOp J i post (Prog.ask c >>= f) s := by
  have hstable : Stable i (· = s) := by
    rintro _ s' hrely rfl
    obtain ⟨-, -, -, -, hsame⟩ := hrely.held hmutex
    exact hsame hquiet
  refine safe_ask hstable rfl ?_ ?_
  · rintro _ rfl
    exact hpre
  · rintro _ rfl hinv answer s' hresp _
    exact h answer s' hresp hinv

theorem open_of_written {f : Files} {file : Nat} (hwritten : status ∈ writtenStatuses)
    (hopen : deployTerminal status.phase = false) (hcontent : f.content file = status.marshal) :
    f.Open J file := by
  unfold Files.Open readStatusFile
  rw [hcontent, Option.bind_some, J.unmarshal_marshal status hwritten]
  exact hopen

/-- A writer that nobody disturbs. -/
theorem safe_write_alone (hwritten : status ∈ writtenStatuses)
    (hopen : deployTerminal status.phase = false) {post : State → Except Err Unit → Prop}
    (hmutex : s.mutex = some i) (hquiet : s.Quiet) (hinv : Inv J s)
    (hwriter : MayWrite i s ∨ ∃ run, Starting i s run)
    (herror : ∀ f err, post { s with files := f } (.error err))
    (hok : ∀ f file, f.status = some file → f.Open J file → post { s with files := f } (.ok ())) :
    SafeOp J i post (writeDeployStatus status) s := by
  refine safe_alone hmutex hquiet hwriter ?_
  rintro (err | file) s₁ hresp _ hinv₁
  · obtain rfl : s₁ = s := hresp
    exact herror _ err
  obtain ⟨rfl, rfl⟩ := hresp
  have htemp := Files.temp_openTemp s.files
  refine safe_alone hmutex hquiet (hwriter.imp_right fun h => ⟨h, htemp⟩) ?_
  rintro (err | _) s₂ hresp _ _
  · obtain ⟨n, rfl⟩ := hresp
    exact herror _ err
  obtain rfl := hresp
  have hwhole : (s.files.openTemp.2.write s.files.openTemp.1 status.marshal).Open J
      s.files.openTemp.1 :=
    open_of_written hwritten hopen
      (Files.content_write_self hinv₁.files htemp _ (Files.content_openTemp hinv.files))
  refine safe_alone (f := pure) hmutex hquiet (hwriter.imp_right fun h => ⟨h, ?_⟩) ?_
  · intro file hfile
    cases htemp.symm.trans hfile
    exact hwhole
  rintro (err | _) s₃ hresp _ _
  · obtain rfl := hresp
    exact herror _ err
  · obtain ⟨-, rfl⟩ := hresp
    exact hok _ _ htemp hwhole

/-! ## A start -/

/-- A status that is not there, or that is terminal, shows that nothing is running. -/
theorem safe_currentDeployLocked {post : State → Option DeployProgress → Prop} (hs : Held i s)
    (hnone : ∀ s', Idle i s' → post s' none)
    (hsome : ∀ s' progress, Held i s' → (deployTerminal progress.phase = true → Idle i s') →
      post s' (some progress)) :
    SafeOp J i post (currentDeployLocked J) s := by
  refine safe_ask (stable_held i) hs (fun _ _ => trivial) ?_
  rintro _ hs₁ hinv₁ found s₂ ⟨-, rfl⟩ (hfound : found = _) _
  subst hfound
  cases hstatus : s₂.files.status with
  | none =>
    refine hnone _ ⟨hs₁, ?_⟩
    intro r hr hactive
    obtain ⟨file, hfile, -⟩ := hinv₁.honest r hr hactive
    simp [hstatus] at hfile
  | some file =>
    refine safe_ask (stable_held i) hs₁ (fun _ _ => trivial) ?_
    rintro _ hs₃ hinv₃ content s₄ ⟨hcontent, rfl⟩ _ _
    -- a terminal phase was read from the file, where an active run would not leave it
    have hread : deployTerminal (readStatusFile J content).phase = true → s₄.NoneActive := by
      intro hterminal r hr hactive
      obtain ⟨shown, hshown, hopen⟩ := hinv₃.honest r hr hactive
      cases content with
      | none => cases hterminal
      | some text =>
        obtain ⟨file', hfile', rfl⟩ := hcontent text rfl
        cases hshown.symm.trans hfile'
        exact absurd hterminal (by simp [show deployTerminal _ = false from hopen])
    intro s₅ hrely₅ _
    refine ⟨trivial, ?_⟩
    rintro logs s₆ ⟨hresp, -⟩ _
    obtain rfl : s₆ = s₅ := hresp
    refine hsome _ _ (stable_held i _ _ hrely₅ hs₃) ?_
    intro hterminal
    rw [deployTerminal_refineDeployPhase] at hterminal
    exact stable_idle i _ _ hrely₅ ⟨hs₃, hread hterminal⟩

variable {run : Nat}

/-- Once the goroutine is launched, no start is half done. -/
theorem Starting.launch (hinv : Inv J s) (h : Starting i s run) :
    Held i (s.setRun run fun r => { r with stage := .running }) := by
  obtain ⟨hmutex, -, r, hr, hstarting⟩ := h
  refine ⟨hmutex, ?_⟩
  intro r' hr' hstarting'
  obtain ⟨k, r₀, hr₀, ⟨rfl, rfl⟩ | ⟨hne, rfl⟩⟩ := mem_setRun hr'
  · cases hstarting'
  · exact hne (hinv.single hr hr₀ (by simp [hstarting]) (by simp [hstarting']))

theorem safe_launch (hstart : Starting i s run) :
    SafeOp J i (fun s _ => Held i s) (launchRun J run) s := by
  obtain ⟨hmutex, hquiet, hrun⟩ := hstart
  refine safe_alone hmutex hquiet ⟨hmutex, hquiet, hrun⟩ ?_
  rintro _ _ rfl _ hinv₁
  have hnext : ∀ f : Files, SafeOp J i (fun s _ => Held i s)
      (do Prog.ask (Call.goFinish run); return .ok (← readDeployProgress J) :
        Deploy (Except Err DeployProgress)) { s with current := some run, files := f } := by
    intro f
    refine safe_alone hmutex hquiet ⟨⟨hmutex, hquiet, hrun⟩, rfl⟩ ?_
    rintro _ _ rfl hinv₂ _
    have hheld := Starting.launch hinv₂ ⟨hmutex, hquiet, hrun⟩
    exact System.Safe.bind (safe_read (stable_held i) hheld fun _ _ h => h)
  refine System.Safe.bind (safe_write_alone (by decide) rfl hmutex hquiet hinv₁
    (.inr ⟨run, hmutex, hquiet, hrun⟩) (fun f _ => hnext f) fun f _ _ _ => hnext f)

theorem safe_startRun (hs : Idle i s) : SafeOp J i (fun s _ => Held i s) (startRun J) s := by
  refine safe_ask (stable_idle i) hs (fun _ _ => trivial) ?_
  rintro s₁ ⟨hheld, hactive⟩ hinv₁ answer s₂ hresp halone _
  obtain rfl : s₂ = s₁ := hresp
  -- nothing is running and nothing is on its way out
  have hfinished : ∀ r ∈ s₂.runs, r.stage = .finished := by
    intro r hr
    by_contra hne
    exact halone r hr ⟨hne, hactive r hr⟩
  have hquiet : s₂.Quiet := fun r hr => .inl (hfinished r hr)
  rcases answer with err | _
  · exact hheld
  refine System.Safe.bind (safe_write_alone (by decide) rfl hheld.1 hquiet hinv₁
    (.inl (.inr ⟨hheld.1, hactive⟩)) ?_ ?_)
  · intro f err
    exact hheld
  intro f file hstatus hopen
  refine safe_alone hheld.1 hquiet ⟨hheld.1, hfinished, file, hstatus, hopen⟩ ?_
  rintro (err | run) s₃ hresp _ _
  · obtain rfl := hresp
    exact System.Safe.bind (safe_write (stable_idle i) (fun _ h => .inr ⟨h.1.1, h.2⟩)
      (fun _ _ h => h) ⟨hheld, hactive⟩ fun _ _ h => h.1)
  · obtain ⟨rfl, rfl⟩ := hresp
    refine safe_launch ⟨hheld.1, ?_, ⟨false, .starting⟩, ?_, rfl⟩
    · exact List.forall_mem_append.mpr
        ⟨fun r hr => .inl (hfinished r hr), List.forall_mem_singleton.mpr (.inr rfl)⟩
    · show (s₂.runs ++ _)[s₂.runs.length]? = _
      simp

theorem safe_startLocked (hs : Held i s) : SafeOp J i (fun s _ => Held i s) (startLocked J) s := by
  refine System.Safe.bind (safe_currentDeployLocked hs (fun s' => safe_startRun) ?_)
  intro s' progress hheld hidle
  show SafeOp J i _ (if _ then _ else _) s'
  split_ifs with hterminal
  · exact safe_startRun (hidle hterminal)
  · exact hheld

/-! ## The operations -/

theorem stable_true (i : Nat) : Stable i fun _ => True := fun _ _ _ _ => trivial

/-- The way into the section. -/
theorem safe_enter {answered : Answer c → Except Err Unit}
    (hpre : ∀ s', pre J i s' c) (hresp : ∀ s' answer s'', respond i s' c answer s'' → s'' = s')
    (h : ∀ s', Held i s' → SafeOp J i (fun _ _ => True) (g ()) s') (s : State) :
    SafeOp J i (fun _ _ => True) (Prog.ask c >>= fun answer => .ofExcept (answered answer) >>=
      fun _ => Prog.ask Call.lock >>= g) s := by
  refine safe_look (stable_true i) trivial (fun s' _ => hpre s') hresp fun _ _ _ => ?_
  refine System.Safe.bind (System.Safe.ofExcept fun _ _ => ?_)
  exact safe_lock (stable_true i) trivial (fun _ _ => trivial) fun s' hheld _ => h s' hheld

theorem safe_startComposeDeploy : ∀ s,
    SafeOp J i (fun _ _ => True) (startComposeDeploy J) s := by
  refine safe_enter (fun _ => trivial) (fun _ _ _ h => h) fun s₂ hheld => ?_
  refine System.Safe.bind ?_
  refine (safe_startLocked hheld).mono ?_
  intro s₃ result hheld₃
  refine safe_unlock (stable_true i) hheld₃ trivial (fun _ _ => trivial) ?_
  intro s₄ _
  exact System.Safe.ofExcept fun _ _ => trivial

theorem safe_forgetRun (hs : Held i s) (hfinishing : s.Finishing i run) :
    SafeOp J i (fun s _ => Held i s ∧ s.Finishing i run) (forgetRun run) s := by
  have hstable := stable_and (stable_held i) (stable_finishing i run)
  refine safe_look hstable ⟨hs, hfinishing⟩ (fun _ _ => trivial) (fun _ _ _ h => h.2) ?_
  intro cancelled s₁ hs₁
  refine safe_look hstable hs₁ (fun _ _ => trivial) (fun _ _ _ h => h.2) ?_
  intro current s₂ hs₂
  split_ifs with hrun
  · refine safe_ask hstable hs₂ (fun _ h => ⟨h.1.1, run, h.2⟩) ?_
    rintro s₃ hs₃ _ _ _ rfl _ _
    exact hs₃
  · exact hs₂

theorem safe_endStatus (hs : s.Finishing i run) (waited : Except Err Unit) :
    SafeOp J i (fun s _ => s.Finishing i run) (endStatus waited) s := by
  have hstable := stable_finishing i run
  cases waited with
  | error _ => exact hs
  | ok _ =>
    refine safe_look hstable hs (fun _ _ => trivial) (fun _ _ _ h => h) ?_
    rintro (err | _) s₁ hs₁
    · exact hs₁
    · exact safe_look hstable hs₁ (fun _ _ => trivial) (fun _ _ _ h => h) fun _ _ h => h

theorem safe_finishComposeDeploy (run : Nat) (s : State) :
    SafeOp J i (fun _ _ => True) (finishComposeDeploy run) s := by
  have hstable := stable_finishing i run
  refine safe_ask (stable_true i) trivial (fun _ _ => trivial) ?_
  rintro s₁ _ _ waited _ ⟨⟨r, hr, -⟩, rfl⟩ _ _
  have hfinishing : (s₁.setRun run fun r => { r with stage := .waited i }).Finishing i run := by
    refine ⟨{ r with stage := .waited i }, ?_, rfl⟩
    show (s₁.runs.modify run _)[run]? = _
    simp [hr]
  refine safe_lock hstable hfinishing (fun _ h => h) ?_
  intro s₂ hheld₂ hfinishing₂
  refine System.Safe.bind ?_
  refine (safe_forgetRun hheld₂ hfinishing₂).mono ?_
  rintro s₃ cancelled ⟨hheld₃, hfinishing₃⟩
  refine safe_unlock hstable hheld₃ hfinishing₃ (fun _ h => h) ?_
  intro s₄ hfinishing₄
  have hwrite : ∀ s₅ status, s₅.Finishing i run → SafeOp J i (fun _ _ => True)
      (do let _ ← writeDeployStatus status; Prog.ask (Call.closeFinished run)) s₅ := by
    intro s₅ status hfinishing₅
    refine System.Safe.bind (safe_write hstable (fun _ h => .inl ⟨run, h⟩) (fun _ _ h => h)
      hfinishing₅ ?_)
    intro s₆ _ hfinishing₆
    exact safe_ask (f := pure) hstable hfinishing₆ (fun _ h => h) fun _ _ _ _ _ _ _ _ => trivial
  cases cancelled with
  | true => exact hwrite s₄ _ hfinishing₄
  | false =>
    refine System.Safe.bind ((safe_endStatus hfinishing₄ waited).mono ?_)
    intro s₅ status hfinishing₅
    exact hwrite s₅ status hfinishing₅

theorem safe_composeDeployStatus : ∀ s,
    SafeOp J i (fun _ _ => True) (composeDeployStatus J) s := by
  refine safe_enter (fun _ => trivial) (fun _ _ _ h => h) fun s₂ hheld => ?_
  refine System.Safe.bind (safe_read (stable_held i) hheld ?_)
  intro s₃ progress hheld₃
  exact safe_unlock (stable_true i) hheld₃ trivial (fun _ _ => trivial) fun _ _ => trivial

/-- Whatever is active is the run in the map. -/
theorem Inv.current_of_active (hinv : Inv J s) (hs : Held i s) {r : Run} (hr : r ∈ s.runs)
    (hactive : r.Active) : ∃ run, s.runs[run]? = some r ∧ s.current = some run := by
  obtain ⟨run, hrun⟩ := List.mem_iff_getElem?.mp hr
  exact ⟨run, hrun, hinv.listed hrun hactive (hactive.2.resolve_left (hs.2 r hr))⟩

/-- After a cancel nothing is running that has not been cancelled. -/
theorem safe_cancelCurrent (hs : Held i s) : SafeOp J i (fun s _ => Idle i s) cancelCurrent s := by
  refine safe_ask (stable_held i) hs (fun _ _ => trivial) ?_
  rintro _ hs₁ hinv₁ (_ | run) s₂ ⟨hcurrent, rfl⟩ _ _
  · refine ⟨hs₁, ?_⟩
    intro r hr hactive
    obtain ⟨run, -, hrun⟩ := hinv₁.current_of_active hs₁ hr hactive
    simp [← hcurrent] at hrun
  · have hstable : Stable i fun s => Held i s ∧ s.current = some run := by
      rintro s s' hrely ⟨hheld, hmap⟩
      obtain ⟨-, hsame, -⟩ := hrely.held hheld.1
      exact ⟨stable_held i _ _ hrely hheld, hsame.trans hmap⟩
    refine safe_ask hstable ⟨hs₁, hcurrent.symm⟩ (fun _ _ => trivial) ?_
    rintro s₃ ⟨hs₃, hmap₃⟩ hinv₃ flag s₄ ⟨⟨r, hr, rfl⟩, rfl⟩ _ _
    cases hflag : r.cancel with
    | true =>
      refine ⟨hs₃, ?_⟩
      intro r' hr' hactive
      obtain ⟨run', hrun', hmap'⟩ := hinv₃.current_of_active hs₃ hr' hactive
      cases hmap₃.symm.trans hmap'
      cases hr.symm.trans hrun'
      exact absurd hactive.1 (by simp [hflag])
    | false =>
      refine safe_ask hstable ⟨hs₃, hmap₃⟩ (fun _ h => h.1) ?_
      rintro s₅ ⟨hs₅, hmap₅⟩ hinv₅ _ _ rfl _ _
      have hidle : Idle i (s₅.setRun run fun r => { r with cancel := true }) := by
        refine ⟨⟨hs₅.1, forall_setRun (ages_setCancel s₅ run).starting hs₅.2⟩, ?_⟩
        intro r' hr' hactive
        obtain ⟨k, r₀, hr₀, ⟨rfl, rfl⟩ | ⟨hne, rfl⟩⟩ := mem_setRun hr'
        · exact absurd hactive.1 (by simp)
        · have hlisted := hinv₅.listed hr₀ hactive
            (hactive.2.resolve_left (hs₅.2 r' (List.mem_of_getElem? hr₀)))
          exact hne (Option.some.inj (hmap₅.symm.trans hlisted))
      exact safe_look (f := pure) (stable_idle i) hidle (fun _ _ => trivial) (fun _ _ _ h => h)
        fun _ _ h => h

theorem safe_cancelComposeDeploy : ∀ s,
    SafeOp J i (fun _ _ => True) (cancelComposeDeploy J) s := by
  refine safe_enter (fun _ => trivial) (fun _ _ _ h => h) fun s₂ hheld => ?_
  refine System.Safe.bind ((safe_cancelCurrent hheld).mono ?_)
  intro s₃ _ hidle₃
  refine System.Safe.bind (safe_read (stable_idle i) hidle₃ ?_)
  intro s₄ progress hidle₄
  have hunlock : ∀ s₅ (progress : DeployProgress), Idle i s₅ → SafeOp J i (fun _ _ => True)
      (do Prog.ask Call.unlock; return progress) s₅ := by
    intro s₅ progress hidle₅
    exact safe_unlock (stable_true i) hidle₅.1 trivial (fun _ _ => trivial) fun _ _ => trivial
  split_ifs with hterminal
  · exact hunlock s₄ progress hidle₄
  · refine System.Safe.bind (System.Safe.bind (safe_write (stable_idle i)
      (fun _ h => .inr ⟨h.1.1, h.2⟩) (fun _ _ h => h) hidle₄ ?_))
    intro s₅ _ hidle₅
    exact safe_read (stable_idle i) hidle₅ hunlock

end Calls

theorem safe_program (J : StatusJson) (i : Nat) (s : State) (request : Request) :
    SafeOp J i (fun _ _ => True) (program J request) s := by
  cases request with
  | start => exact System.Safe.bind ((safe_startComposeDeploy s).mono fun _ _ _ => trivial)
  | finish run =>
    exact System.Safe.bind ((safe_finishComposeDeploy run s).mono fun _ _ _ => trivial)
  | status => exact System.Safe.bind ((safe_composeDeployStatus s).mono fun _ _ _ => trivial)
  | cancel => exact System.Safe.bind ((safe_cancelComposeDeploy s).mono fun _ _ _ => trivial)

/-! ## Runs -/

theorem Initial.inv {s : DeploySystem} (h : Initial s) : Inv J s.shared := by
  refine ⟨?_, ?_, fun _ => ?_, ?_, h.files⟩ <;> simp [State.NoneStarting, h.runs]

/-- The invariant holds in every state of a run whose starts meet the condition. -/
theorem inv_of_reachable {s : DeploySystem}
    (h : Reachable Initial (Guarded (Step J) StartsAlone) s) : Inv J s.shared := by
  rw [System.reachable_guarded_iff _ _ (fun _ s c answer => NoneLeaving s c answer)
    (fun _ _ => trivial) (fun _ _ => trivial) fun _ _ _ _ => Iff.rfl] at h
  refine (System.safe_of_reachable (fun _ _ => True) Rely.refl (fun _ _ _ _ => Rely.trans) ?_
    (fun _ _ _ _ h => h) (fun i s request _ _ => safe_program J i s request)
    (fun _ _ _ _ _ _ h => h) ?_ h.guarded_true).1
  · intro s hs
    exact ⟨hs.inv, hs.threads, fun _ => trivial⟩
  · intro s i c answer shared hinv _ hpre hresp
    exact call_keeps hinv hpre hresp.1

/-- What the status file shows. -/
def State.shownPhase (J : StatusJson) (s : State) : Option Phase :=
  s.files.status.map fun file => (readStatusFile J (some (s.files.content file))).phase

/-- As long as no start passes its check while a run is on its way out, at most one process
is running that is not cancelled, and while there is one the status file shows no terminal
phase. -/
theorem one_active_run {s : DeploySystem}
    (h : Reachable Initial (Guarded (Step J) StartsAlone) s) :
    (∀ (run run' : Nat) (r r' : Run), s.shared.runs[run]? = some r →
      s.shared.runs[run']? = some r' → r.Active → r'.Active → run = run') ∧
    ∀ r ∈ s.shared.runs, r.Active → ∀ phase, s.shared.shownPhase J = some phase →
      deployTerminal phase = false := by
  have hinv := inv_of_reachable h
  have hunfinished : ∀ {r : Run}, r.Active → r.stage ≠ .finished := by
    rintro r ⟨-, hstage | hstage⟩ <;> simp [hstage]
  constructor
  · intro run run' r r' hrun hrun' hactive hactive'
    exact hinv.single hrun hrun' (hunfinished hactive) (hunfinished hactive')
  · intro r hr hactive phase hphase
    obtain ⟨file, hfile, hopen⟩ := hinv.honest r hr hactive
    rw [State.shownPhase, hfile] at hphase
    cases hphase
    exact hopen

/-! ## Sample runs -/

/-- A node whose disk always works, and a log without a word. -/
def serve (i : Nat) (s : State) : (c : Call) → Answer c × State
  | .prepareAppWorkspace | .appWorkDir | .createLog | .recordPublishedImages => (.ok (), s)
  | .tailDeployLog => ([], s)
  | .stop _ | .reclaimUnusedImages => ((), s)
  | .lock => ((), { s with mutex := some i })
  | .unlock => ((), { s with mutex := none })
  | .statStatus => (s.files.status.isSome, s)
  | .readStatus => (s.files.status.map s.files.content, s)
  | .openTemp => (.ok s.files.openTemp.1, { s with files := s.files.openTemp.2 })
  | .writeTemp file payload => (.ok (), { s with files := s.files.write file payload })
  | .renameTemp => (.ok (), { s with files := s.files.rename })
  | .startProcess => (.ok s.runs.length, { s with runs := s.runs ++ [⟨false, .starting⟩] })
  | .setCurrent run => ((), { s with current := some run })
  | .goFinish run => ((), s.setRun run fun r => { r with stage := .running })
  | .currentRun => (s.current, s)
  | .cancelFlag run => ((s.runs[run]?.map Run.cancel).getD false, s)
  | .setCancel run => ((), s.setRun run fun r => { r with cancel := true })
  | .deleteCurrent => ((), { s with current := none })
  | .wait run => (.ok (), s.setRun run fun r => { r with stage := .waited i })
  | .closeFinished run => ((), s.setRun run fun r => { r with stage := .finished })

/-- The calls that do not have to wait. -/
def Served (s : State) : Call → Prop
  | .lock => s.mutex = none
  | .renameTemp => s.files.temp.isSome
  | .cancelFlag run => run < s.runs.length
  | .wait run => s.runs[run]?.map Run.stage = some .running
  | _ => True

instance (s : State) (c : Call) : Decidable (Served s c) := by
  cases c <;> unfold Served <;> infer_instance

theorem respond_serve (i : Nat) (s : State) (c : Call) (h : Served s c) :
    respond i s c (serve i s c).1 (serve i s c).2 := by
  cases c with
  | lock => exact ⟨h, rfl⟩
  | statStatus => exact ⟨id, rfl⟩
  | readStatus =>
    refine ⟨?_, rfl⟩
    intro text htext
    obtain ⟨file, hfile, rfl⟩ := Option.map_eq_some_iff.mp htext
    exact ⟨file, hfile, rfl⟩
  | openTemp | startProcess | currentRun => exact ⟨rfl, rfl⟩
  | renameTemp => exact ⟨h, rfl⟩
  | cancelFlag run =>
    refine ⟨⟨s.runs.get ⟨run, h⟩, by simp [show run < s.runs.length from h], ?_⟩, rfl⟩
    simp [serve, show run < s.runs.length from h]
  | wait run =>
    exact ⟨Option.map_eq_some_iff.mp h, rfl⟩
  | _ => rfl

/-- A node on which nothing has been deployed. -/
def emptyNode : State := ⟨none, ⟨[], none, none⟩, none, []⟩

theorem initial_emptyNode : Initial ⟨emptyNode, []⟩ :=
  ⟨rfl, rfl, rfl, ⟨fun _ h => (by cases h), fun _ h => (by cases h)⟩, rfl⟩

/-- The node with requests that have arrived. -/
def nodeWith (requests : List Request) : DeploySystem :=
  System.withRequests (program .written) ⟨emptyNode, []⟩ requests

/-- One request after the other, with turns enough for each. -/
def inTurn (requests : Nat) : List Nat := (List.range requests).flatMap (List.replicate 40)

/-- The steps that do not have to wait and meet the condition on starts. -/
def MayStart (s : DeploySystem) : Label Answer Request → Prop
  | .act _ ⟨c, answer⟩ => Served s.shared c ∧ NoneLeaving s.shared c answer
  | _ => True

instance (s : DeploySystem) : (l : Label Answer Request) → Decidable (MayStart s l)
  | .act _ ⟨c, answer⟩ => by
    unfold MayStart
    cases c <;> unfold NoneLeaving <;> infer_instance
  | .start _ | .ret _ => .isTrue trivial

/-- A start, a second one that finds the first in its way, a cancel, the end of the process and
another start: by the theorem the process started last is the only active one, and the status says
that it is not over. -/
theorem one_active_run_again :
    let s := System.runSchedule serve (nodeWith [.start, .start, .cancel, .finish 0, .start]) (inTurn 5)
    s.shared.runs = [⟨true, .finished⟩, ⟨false, .running⟩] ∧
    s.shared.shownPhase .written = some .pulling ∧ deployTerminal .pulling = false ∧
    ∀ run r, s.shared.runs[run]? = some r → r.Active → run = 1 := by
  intro s
  have hreach : Reachable Initial (Guarded (Step .written) StartsAlone) s := by
    refine System.reachable_meets ?_ (fun s i c h => respond_serve i s.shared c h.1)
      (System.reachable_arrivals (fun _ _ => trivial) (.start initial_emptyNode) _)
      (show System.Meets serve MayStart _ _ by decide +kernel)
    rintro s (_ | _ | _) h
    · trivial
    · exact h.2
    · trivial
  have hruns : s.shared.runs = [⟨true, .finished⟩, ⟨false, .running⟩] := by decide +kernel
  have hphase : s.shared.shownPhase .written = some .pulling := by decide +kernel
  have hlast : (⟨false, .running⟩ : Run).Active := by decide
  obtain ⟨hone, hshown⟩ := one_active_run hreach
  refine ⟨hruns, hphase, hshown ⟨false, .running⟩ (by simp [hruns]) hlast _ hphase, ?_⟩
  intro run r hrun hactive
  exact hone run 1 r _ hrun (by rw [hruns]; rfl) hactive hlast

/-- A run is cancelled, and the next one started before the process of the first has
exited. When it exits, its goroutine writes `cancelled` over the status of the second run,
which is active. A third start then finds nothing in its way. -/
theorem second_active_run :
    (∃ s : DeploySystem, Reachable Initial (Step .written) s ∧
      s.shared.runs = [⟨true, .finished⟩, ⟨false, .running⟩] ∧
      s.shared.shownPhase .written = some .cancelled) ∧
    ∃ s : DeploySystem, Reachable Initial (Step .written) s ∧
      s.shared.runs = [⟨true, .finished⟩, ⟨false, .running⟩, ⟨false, .running⟩] := by
  have hreach : ∀ requests, System.MayRun serve Served (nodeWith requests) (inTurn requests.length) →
      Reachable Initial (Step .written)
        (System.runSchedule serve (nodeWith requests) (inTurn requests.length)) :=
    fun requests hmay => System.reachable_runSchedule respond_serve
      (System.reachable_withRequests (.start initial_emptyNode) requests) hmay
  constructor
  · exact ⟨_, hreach [.start, .cancel, .start, .finish 0] (by decide +kernel), by decide +kernel⟩
  · exact ⟨_, hreach [.start, .cancel, .start, .finish 0, .start] (by decide +kernel),
      by decide +kernel⟩

end NrePlugins.DockerApp.DeployJob
