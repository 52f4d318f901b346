import Nre.Base.GoStrings
import Nre.Base.Interrupted

/-!
# Compose runs of one app

`deploy_job.go`: an apply of a Compose document starts `docker compose up` and returns;
a goroutine waits for the process and writes how it ended. What the panel sees is the
status file of the app, with the tail of the log.

The operations share a mutex, the map of active runs, and two files. Every call of this
model is one access to them:

- the mutex protects the map and the `cancel` flags, and all of a start or a cancel;
- the status is written to a temporary file that is renamed. All writers use one
  temporary name, so the files are modelled down to inodes: a writer that has opened the
  temporary file goes on writing to it after another has renamed it;
- the goroutine writes its status after it has given the mutex back.

A run is known by its place in the list of all started processes. Its `Stage` says how far
its goroutine is.
-/

namespace NrePlugins.DockerApp.DeployJob

/-! ## Phases -/

/-- The phases, and any other text that a status file holds. -/
inductive Phase where
  | preparing
  | pulling
  | starting
  | succeeded
  | failed
  | cancelled
  | other (text : Bytes)
  deriving DecidableEq

def Phase.text : Phase → Bytes
  | .preparing => ascii "preparing"
  | .pulling => ascii "pulling"
  | .starting => ascii "starting"
  | .succeeded => ascii "succeeded"
  | .failed => ascii "failed"
  | .cancelled => ascii "cancelled"
  | .other text => text

def deployPhaseMessage : Phase → Bytes
  | .pulling => utf8 "正在拉取镜像。仓库较慢时会一直停留在这一步，日志会继续刷新。"
  | .starting => utf8 "镜像已就绪，正在创建并启动容器。"
  | .succeeded => utf8 "部署完成。"
  | .failed => utf8 "部署失败。"
  | .cancelled => utf8 "已停止这次部署。节点上未完成的拉取已中止。"
  | _ => utf8 "正在准备应用工作区。"

def deployTerminal : Phase → Bool
  | .succeeded | .failed | .cancelled => true
  | _ => false

/-- The phase that one line of the log gives away. -/
def linePhase (line : Bytes) : Option Phase :=
  if ascii "Started" <:+: line ∨ ascii "Creating" <:+: line ∨ ascii "Recreated" <:+: line then
    some .starting
  else if ascii "Pulling" <:+: line ∨ ascii "Downloading" <:+: line ∨
      ascii "Extracting" <:+: line ∨ ascii "Waiting" <:+: line then
    some .pulling
  else none

/-- The last line that says something decides. -/
def refineDeployPhase (phase : Phase) (logs : Bytes) : Phase :=
  if deployTerminal phase then phase
  else
    match (logs.splitOn (ch '\n')).reverse.findSome? linePhase with
    | some found => found
    | none => if phase = .other [] then .preparing else phase

theorem linePhase_not_terminal {line : Bytes} {phase : Phase} (h : linePhase line = some phase) :
    deployTerminal phase = false := by
  revert h
  fun_cases linePhase line with
  | case1 | case2 =>
    rintro ⟨⟩
    rfl
  | _ => nofun

/-- The log never hides that a run has ended, and never pretends it. -/
theorem deployTerminal_refineDeployPhase (phase : Phase) (logs : Bytes) :
    deployTerminal (refineDeployPhase phase logs) = deployTerminal phase := by
  fun_cases refineDeployPhase phase logs with
  | case2 hphase found hfound =>
    obtain ⟨line, -, hline⟩ := List.exists_of_findSome?_eq_some hfound
    exact (linePhase_not_terminal hline).trans (eq_false_of_ne_true hphase).symm
  | case3 hphase => exact (eq_false_of_ne_true hphase).symm
  | _ => rfl

/-! ## The status file -/

structure DeployStatusFile where
  phase : Phase
  error : Bytes
  deriving DecidableEq

/-- `json.Marshal` of a status; no text that is written has anything to escape. -/
def DeployStatusFile.marshal (status : DeployStatusFile) : Bytes :=
  ascii "\x7b\"phase\":\"" ++ status.phase.text ++ ascii "\"" ++
    (if status.error = [] then [] else ascii ",\"error\":\"" ++ status.error ++ ascii "\"") ++
    ascii "\x7d"

def preparingStatus : DeployStatusFile := ⟨.preparing, []⟩

def pullingStatus : DeployStatusFile := ⟨.pulling, []⟩

/-- All statuses that the code writes. -/
def writtenStatuses : List DeployStatusFile :=
  [preparingStatus, pullingStatus, ⟨.succeeded, []⟩, ⟨.cancelled, []⟩,
    ⟨.failed, utf8 "未能启动 docker compose"⟩, ⟨.failed, utf8 "部署失败"⟩,
    ⟨.failed, utf8 "容器已启动，但记录发布镜像失败"⟩]

/-- `json.Unmarshal` into a status; `none` is an error. It reads back what is written. -/
structure StatusJson where
  unmarshal : Bytes → Option DeployStatusFile
  unmarshal_marshal : ∀ status ∈ writtenStatuses, unmarshal status.marshal = some status

/-- A decoder that knows the written statuses only. -/
def StatusJson.written : StatusJson where
  unmarshal text := writtenStatuses.find? (·.marshal == text)
  unmarshal_marshal := by decide

/-- What a status file says; one that cannot be read or decoded says `preparing`. -/
def readStatusFile (J : StatusJson) (content : Option Bytes) : DeployStatusFile :=
  (content.bind J.unmarshal).getD preparingStatus

structure DeployProgress where
  phase : Phase
  message : Bytes
  logs : Bytes
  error : Bytes

/-! ## Files and runs -/

/-- The temporary and the status file of an app, by their inodes. -/
structure Files where
  inodes : List Bytes
  temp : Option Nat
  status : Option Nat

namespace Files

def content (f : Files) (file : Nat) : Bytes := f.inodes.getD file []

/-- Open the temporary file for writing: it is emptied, or made. -/
def openTemp (f : Files) : Nat × Files :=
  match f.temp with
  | some file => (file, { f with inodes := f.inodes.set file [] })
  | none => (f.inodes.length, { f with inodes := f.inodes ++ [[]], temp := some f.inodes.length })

/-- The first bytes of a file are overwritten. -/
def write (f : Files) (file : Nat) (payload : Bytes) : Files :=
  { f with inodes := f.inodes.set file (payload ++ (f.content file).drop payload.length) }

/-- The temporary file takes the place of the status file. -/
def rename (f : Files) : Files := { f with temp := none, status := f.temp }

/-- The two names stand for two inodes. -/
structure Sound (f : Files) : Prop where
  temp : ∀ file, f.temp = some file → file < f.inodes.length ∧ f.status ≠ some file
  status : ∀ file, f.status = some file → file < f.inodes.length

end Files

/-- How far a run is: its process was started, its goroutine waits for the process, the
process has exited and thread `by` writes its status, the status is written. -/
inductive Stage where
  | starting
  | running
  | waited (thread : Nat)
  | finished
  deriving DecidableEq

structure Run where
  cancel : Bool
  stage : Stage
  deriving DecidableEq

/-- What the operations for one app share. -/
structure State where
  mutex : Option Nat
  files : Files
  /-- The entry of the app in `deployRuns`. -/
  current : Option Nat
  runs : List Run

/-- A process is running that nobody has cancelled. -/
def Run.Active (run : Run) : Prop :=
  run.cancel = false ∧ (run.stage = .starting ∨ run.stage = .running)

instance (run : Run) : Decidable run.Active := inferInstanceAs (Decidable (_ ∧ _))

def State.setRun (s : State) (run : Nat) (f : Run → Run) : State :=
  { s with runs := s.runs.modify run f }

/-! ## Calls -/

inductive Err where
  | io
  | didNotStart
  deriving DecidableEq

inductive Call where
  /-- The workspace of the app, its environment and the record of its images. -/
  | prepareAppWorkspace
  | appWorkDir
  | lock
  | unlock
  | statStatus
  | readStatus
  | tailDeployLog
  | createLog
  | openTemp
  | writeTemp (file : Nat) (payload : Bytes)
  | renameTemp
  | startProcess
  | setCurrent (run : Nat)
  | goFinish (run : Nat)
  | currentRun
  | cancelFlag (run : Nat)
  | setCancel (run : Nat)
  | stop (run : Nat)
  | deleteCurrent
  | wait (run : Nat)
  | recordPublishedImages
  | reclaimUnusedImages
  | closeFinished (run : Nat)

abbrev Answer : Call → Type
  | .prepareAppWorkspace | .appWorkDir | .createLog | .writeTemp _ _ | .renameTemp | .wait _
  | .recordPublishedImages => Except Err Unit
  | .statStatus | .cancelFlag _ => Bool
  | .readStatus => Option Bytes
  | .tailDeployLog => Bytes
  | .openTemp | .startProcess => Except Err Nat
  | .currentRun => Option Nat
  | _ => Unit

abbrev Deploy (α : Type) := Prog Answer Err α

open Prog (ask)

/-- How a call of thread `i` is answered. Calls to the disk may fail; the log has any
text; a process exits at any time after its start. -/
def respond (i : Nat) (s : State) : (c : Call) → Answer c → State → Prop
  | .prepareAppWorkspace, _, s' | .appWorkDir, _, s' | .tailDeployLog, _, s'
  | .createLog, _, s' | .stop _, _, s' | .recordPublishedImages, _, s'
  | .reclaimUnusedImages, _, s' => s' = s
  | .lock, _, s' => s.mutex = none ∧ s' = { s with mutex := some i }
  | .unlock, _, s' => s' = { s with mutex := none }
  | .statStatus, found, s' => (found = true → s.files.status.isSome) ∧ s' = s
  | .readStatus, content, s' =>
    (∀ text, content = some text → ∃ file, s.files.status = some file ∧
      text = s.files.content file) ∧ s' = s
  | .openTemp, .ok file, s' =>
    file = s.files.openTemp.1 ∧ s' = { s with files := s.files.openTemp.2 }
  | .openTemp, .error _, s' => s' = s
  | .writeTemp file payload, .ok _, s' => s' = { s with files := s.files.write file payload }
  -- a write that fails leaves the bytes it got to
  | .writeTemp file payload, .error _, s' =>
    ∃ n, s' = { s with files := s.files.write file (payload.take n) }
  | .renameTemp, .ok _, s' => s.files.temp.isSome ∧ s' = { s with files := s.files.rename }
  | .renameTemp, .error _, s' => s' = s
  | .startProcess, .ok run, s' =>
    run = s.runs.length ∧ s' = { s with runs := s.runs ++ [⟨false, .starting⟩] }
  | .startProcess, .error _, s' => s' = s
  | .setCurrent run, _, s' => s' = { s with current := some run }
  | .goFinish run, _, s' => s' = s.setRun run fun r => { r with stage := .running }
  | .currentRun, run, s' => run = s.current ∧ s' = s
  | .cancelFlag run, flag, s' => (∃ r, s.runs[run]? = some r ∧ flag = r.cancel) ∧ s' = s
  | .setCancel run, _, s' => s' = s.setRun run fun r => { r with cancel := true }
  | .deleteCurrent, _, s' => s' = { s with current := none }
  | .wait run, _, s' =>
    (∃ r, s.runs[run]? = some r ∧ r.stage = .running) ∧
      s' = s.setRun run fun r => { r with stage := .waited i }
  | .closeFinished run, _, s' => s' = s.setRun run fun r => { r with stage := .finished }

/-! ## The operations -/

section Operations

variable (J : StatusJson)

def writeDeployStatus (status : DeployStatusFile) : Deploy (Except Err Unit) := do
  match ← ask Call.openTemp with
  | .error err => return .error err
  | .ok file =>
    match ← ask (Call.writeTemp file status.marshal) with
    | .error err => return .error err
    | .ok _ => ask Call.renameTemp

def readDeployProgress : Deploy DeployProgress := do
  let content ← ask Call.readStatus
  let status := readStatusFile J content
  let logs ← ask Call.tailDeployLog
  let phase := refineDeployPhase status.phase logs
  let error := trimSpace status.error
  return { phase, message := deployPhaseMessage phase, logs,
           error := if phase = .failed ∧ error = [] then utf8 "部署失败" else error }

def currentDeployLocked : Deploy (Option DeployProgress) := do
  if ← ask Call.statStatus then
    return some (← readDeployProgress J)
  else
    return none

/-- The process of a run has been started: the run is listed, and its goroutine waits. -/
def launchRun (run : Nat) : Deploy (Except Err DeployProgress) := do
  ask (Call.setCurrent run)
  let _ ← writeDeployStatus pullingStatus
  ask (Call.goFinish run)
  return .ok (← readDeployProgress J)

/-- The rest of a start, once no run is in the way. -/
def startRun : Deploy (Except Err DeployProgress) := do
  match ← ask Call.createLog with
  | .error err => return .error err
  | .ok _ =>
  match ← writeDeployStatus preparingStatus with
  | .error err => return .error err
  | .ok _ =>
  match ← ask Call.startProcess with
  | .error err =>
    let _ ← writeDeployStatus ⟨.failed, utf8 "未能启动 docker compose"⟩
    return .error err
  | .ok run => launchRun J run

/-- What a start does under the mutex. -/
def startLocked : Deploy (Except Err DeployProgress) := do
  match ← currentDeployLocked J with
  | some progress => if deployTerminal progress.phase then startRun J else return .ok progress
  | none => startRun J

def startComposeDeploy : Deploy DeployProgress := do
  Prog.ofExcept (← ask Call.prepareAppWorkspace)
  ask Call.lock
  let result ← startLocked J
  ask Call.unlock
  Prog.ofExcept result

/-- How a run ended that was not cancelled. -/
def endStatus (waited : Except Err Unit) : Deploy DeployStatusFile := do
  match waited with
  | .error _ => return ⟨.failed, utf8 "部署失败"⟩
  | .ok _ =>
    match ← ask Call.recordPublishedImages with
    | .error _ => return ⟨.failed, utf8 "容器已启动，但记录发布镜像失败"⟩
    | .ok _ =>
      ask Call.reclaimUnusedImages
      return ⟨.succeeded, []⟩

/-- The section of a completion under the mutex: was the run cancelled? -/
def forgetRun (run : Nat) : Deploy Bool := do
  let cancelled ← ask (Call.cancelFlag run)
  if (← ask Call.currentRun) = some run then
    ask Call.deleteCurrent
  return cancelled

def finishComposeDeploy (run : Nat) : Deploy Unit := do
  let waited ← ask (Call.wait run)
  ask Call.lock
  let cancelled ← forgetRun run
  ask Call.unlock
  let status ← if cancelled then pure ⟨.cancelled, []⟩ else endStatus waited
  let _ ← writeDeployStatus status
  ask (Call.closeFinished run)

def composeDeployStatus : Deploy DeployProgress := do
  Prog.ofExcept (← ask Call.appWorkDir)
  ask Call.lock
  let progress ← readDeployProgress J
  ask Call.unlock
  return progress

/-- Cancel the active run, if there is one and it is not cancelled yet. -/
def cancelCurrent : Deploy Unit := do
  match ← ask Call.currentRun with
  | none => return ()
  | some run =>
    if ← ask (Call.cancelFlag run) then
      return ()
    else
      ask (Call.setCancel run)
      ask (Call.stop run)

def cancelComposeDeploy : Deploy DeployProgress := do
  Prog.ofExcept (← ask Call.appWorkDir)
  ask Call.lock
  cancelCurrent
  let progress ← readDeployProgress J
  let progress ←
    if deployTerminal progress.phase then pure progress
    else do
      let _ ← writeDeployStatus ⟨.cancelled, []⟩
      readDeployProgress J
  ask Call.unlock
  return progress

end Operations

inductive Request where
  | start
  | finish (run : Nat)
  | status
  | cancel

/-- The operations for one app. The goroutine of a run is a thread of its own; it cannot
pass its first call before the run has been launched, or twice. -/
def program (J : StatusJson) : Request → Deploy (Option DeployProgress)
  | .start => some <$> startComposeDeploy J
  | .finish run => (fun _ => none) <$> finishComposeDeploy run
  | .status => some <$> composeDeployStatus J
  | .cancel => some <$> cancelComposeDeploy J

abbrev DeploySystem := System Answer Request Err (Option DeployProgress) State

abbrev Step (J : StatusJson) : DeploySystem → Label Answer Request → DeploySystem → Prop :=
  System.Step (program J) respond

/-- Nothing has been deployed since the agent started; a status may be left on disk. -/
structure Initial (s : DeploySystem) : Prop where
  mutex : s.shared.mutex = none
  current : s.shared.current = none
  runs : s.shared.runs = []
  files : s.shared.files.Sound
  threads : s.threads = []

end NrePlugins.DockerApp.DeployJob
