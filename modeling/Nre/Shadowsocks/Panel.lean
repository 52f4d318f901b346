import Nre.Base.Interaction
import Nre.Shadowsocks.Configuration

/-!
# Panel requests

The management panel (app_ui.go) changes the directory by read-modify-write: a
request takes a snapshot with `directory()`, talks to the host, commits a whole new
configuration, applies it to the agent and, when the agent refuses, commits the
snapshot again. No lock is held from the snapshot to the commit, so every call is a
point where other requests can run. The handlers are therefore programs over the
calls they make; the host's answers are arbitrary.

Two facts about the host calls are left out: what `applyAgentListens` sends to the
agent, and the view that a request returns on success.
-/

namespace NrePlugins.Shadowsocks.Panel

/-- `ScopedSecretReference`. -/
structure Reference where
  id : Bytes
  version : Bytes
  deriving DecidableEq

/-- The calls of the handlers. All but `directory` and `write` go to the host. -/
inductive Call where
  | directory
  | report (agentID : Bytes)
  | newAccountID
  | newListenID
  | mintListenSecrets (method serverPSK password : Bytes)
  | resolveMappedPSK (method ref version : Bytes)
  | putSecret (ref version material : Bytes)
  | createReplacementSecret (kind method : Bytes)
  | revokeSecret (reference : Reference)
  | storeListens (listeners : List ListenRule)
  | write (next : Configuration)
  | apply (agentID : Bytes)
  deriving DecidableEq

/-- `report` answers whether the agent is online, `putSecret` the version stored,
`mintListenSecrets` the user's and the server's material. -/
abbrev Answer : Call → Type
  | .directory => Configuration
  | .report _ => Except Err Bool
  | .newAccountID | .newListenID | .resolveMappedPSK .. | .putSecret .. => Except Err Bytes
  | .mintListenSecrets .. => Except Err (Bytes × Bytes)
  | .createReplacementSecret .. => Except Err Reference
  | .revokeSecret _ | .storeListens _ | .write _ | .apply _ => Except Err Unit

def Call.host : Call → Bool
  | .directory | .write _ => false
  | _ => true

/-- What differs between deployments of the controller. -/
structure Controller where
  sdk : PluginSDK
  /-- `managedRuntime != nil`. -/
  managed : Bool
  /-- `listenState != nil`. -/
  persistent : Bool

abbrev Handler (α : Type) : Type := Prog Answer Err α

open NrePlugins.Prog (ofExcept fail attempt)

/-! ## Calls -/

def directory : Handler Configuration := .call .directory .ret

def newAccountID : Handler Bytes := .call .newAccountID ofExcept

def newListenID : Handler Bytes := .call .newListenID ofExcept

def mintListenSecrets (method serverPSK password : Bytes) : Handler (Bytes × Bytes) :=
  .call (.mintListenSecrets method serverPSK password) ofExcept

def resolveMappedPSK (method ref version : Bytes) : Handler Bytes :=
  .call (.resolveMappedPSK method ref version) ofExcept

def putSecret (ref version material : Bytes) : Handler Bytes :=
  if ref = [] ∨ version = [] then pure version else .call (.putSecret ref version material) ofExcept

def createReplacementSecret (kind method : Bytes) : Handler Reference :=
  .call (.createReplacementSecret kind method) ofExcept

def revokeSecret (reference : Reference) : Handler Unit := .call (.revokeSecret reference) ofExcept

def storeListens (listeners : List ListenRule) : Handler Unit := .call (.storeListens listeners) ofExcept

def write (next : Configuration) : Handler Unit := .call (.write next) ofExcept

/-- `requireMutableAgent`. -/
def requireMutableAgent (agentID : Bytes) : Handler Unit :=
  if !validAgentID agentID then fail .agentOffline
  else .call (.report agentID) fun
    | .error .agentOffline => fail .agentOffline
    | .error _ => fail .executionUnavailable
    | .ok online => if online then pure () else fail .agentOffline

/-- The error of `ApplyListenRouting` as `applyAgentListens` returns it. -/
def applyError : Err → Err
  | .agentOffline => .agentOffline
  | .listenBind => .listenBind
  | .executionUnavailable => .executionUnavailable
  | .typedHandlesUnavailable => .executionUnavailable
  | _ => .listenBind

/-- `applyAgentListens`. -/
def applyAgentListens (agentID : Bytes) : Handler Unit := do
  requireMutableAgent agentID
  Prog.call (.apply agentID) fun r => ofExcept (r.mapError applyError)

/-- `revokeReferences` of one reference. -/
def revokeReferences (reference : Reference) : Handler Unit := do
  let _ ← attempt (revokeSecret reference)

/-- `projectListen`, as far as it can fail. -/
def projectListen (id : Bytes) : Handler Unit :=
  .call .directory fun c => if (c.listen id).isSome then pure () else fail .denied

/-- `projectUser`, as far as it can fail. -/
def projectUser (id : Bytes) : Handler Unit :=
  .call .directory fun c =>
    if (c.userListener id).isSome then pure () else fail .denied

/-! ## Commits -/

section Handlers

variable (ctl : Controller)

/-- `commitDirectory`. -/
def commitDirectory (next : Configuration) : Handler Unit := do
  ofExcept (next.validate ctl.sdk)
  if ctl.persistent then storeListens next.listeners
  write next

/-- Commit, apply, and commit the snapshot again when the agent refuses; `cleanup` is
what a failed request still does. -/
def commitAndApply (current next : Configuration) (agentID : Bytes) (cleanup : Handler Unit) :
    Handler Unit := do
  match ← attempt (commitDirectory ctl next) with
  | .error e =>
    cleanup
    fail e
  | .ok () =>
    match ← attempt (applyAgentListens agentID) with
    | .error e =>
      let _ ← attempt (commitDirectory ctl current)
      cleanup
      fail e
    | .ok () => pure ()

/-- The agent of a request, which has to be the listener's. -/
def requestAgent (agentID : Bytes) (listener : ListenRule) : Handler Bytes :=
  if agentID = [] then pure listener.agentID
  else if agentID ≠ listener.agentID then fail .denied
  else pure agentID

/-- `finishSecretReplacement`. -/
def finishSecretReplacement (agentID : Bytes) (previous next : Configuration)
    (oldReference newReference : Reference) : Handler Unit := do
  match ← attempt (revokeSecret oldReference) with
  | .ok () => pure ()
  | .error _ =>
    match ← attempt (commitDirectory ctl previous) with
    | .error _ =>
      let _ ← attempt (commitDirectory ctl next)
      fail .executionUnavailable
    | .ok () =>
      match ← attempt (applyAgentListens agentID) with
      | .error _ =>
        let _ ← attempt (commitDirectory ctl next)
        fail .executionUnavailable
      | .ok () =>
        let _ ← attempt (revokeSecret newReference)
        fail .executionUnavailable

/-! ## Requests -/

/-- The user that a request creates. -/
def newUser (userID name : Bytes) : User where
  id := userID
  name := if trimSpace name = [] then defaultUserName userID else trimSpace name
  secretRef := accountSecretRef userID
  secretVersion := initialSecretVersion
  enabled := true

/-- The directory with the version under which the new user's secret was stored. -/
def storedVersion (next : Configuration) (user : User) (version : Bytes) :
    Except Err Configuration :=
  if version ≠ user.secretVersion then
    next.replaceUserSecret user.id user.secretVersion user.secretRef version
  else .ok next

/-- Every listener with the id, changed in place. -/
def mapListen (c : Configuration) (id : Bytes) (f : ListenRule → ListenRule) : Configuration :=
  { c with
    listeners := c.listeners.map fun listener => if listener.is id then f listener else listener }

/-- The server secret of a new listener is stored; a traditional one has none. -/
def putServerSecret (method ref version material : Bytes) : Handler Bytes :=
  if ss2022Method method then putSecret ref version material else pure version

/-- The new listener with the version under which its server secret was stored. -/
def storedServerVersion (next : Configuration) (method listenID version : Bytes) : Configuration :=
  if ss2022Method method then
    mapListen next listenID fun listener => { listener with serverSecretVersion := version }
  else next

/-- `createListen`. -/
def createListen (agentID name method : Bytes) (port : Int) (password serverPSK : Bytes) :
    Handler Unit := do
  requireMutableAgent agentID
  let method ← ofExcept
    (AccountSpec.resolveMethod ⟨[], [], [], trimSpace method⟩ defaultSS2022Method)
  let userID ← newAccountID
  let material ← mintListenSecrets method serverPSK password
  let current ← directory
  let listenID ← newListenID
  let serverRef := if ss2022Method method then serverPSKSecretRefFor listenID else []
  let serverVersion := if ss2022Method method then initialSecretVersion else []
  let created ← ofExcept (current.createListen ctl.sdk listenID agentID port method
    (newUser userID name) serverRef serverVersion)
  let userVersion ← putSecret created.2.secretRef created.2.secretVersion material.1
  let next ← ofExcept (storedVersion created.1 created.2 userVersion)
  let serverVersion ← putServerSecret method serverRef serverVersion material.2
  commitAndApply ctl current (storedServerVersion next method listenID serverVersion) agentID
    (pure ())
  projectListen listenID

/-- `appendListenUser`. -/
def appendListenUser (listenID agentID name password : Bytes) : Handler Unit := do
  let current ← directory
  match current.listen listenID with
  | none => fail .denied
  | some listener =>
    let agentID ← requestAgent (trimSpace agentID) listener
    requireMutableAgent agentID
    if !ss2022Method listener.method then fail .traditionalMultiUser else
    let userID ← newAccountID
    let serverPSK ← resolveMappedPSK listener.method listener.serverSecretRef
      listener.serverSecretVersion
    let material ← mintListenSecrets listener.method serverPSK password
    let appended ← ofExcept (current.appendListenUser ctl.sdk listenID (newUser userID name))
    let userVersion ← putSecret appended.2.secretRef appended.2.secretVersion material.1
    let next ← ofExcept (storedVersion appended.1 appended.2 userVersion)
    commitAndApply ctl current next agentID (pure ())
    projectListen listenID

/-- `setUserEnabled`. -/
def setUserEnabled (userID agentID : Bytes) (enabled : Bool) : Handler Unit := do
  let current ← directory
  match current.userListener userID with
  | none => fail .denied
  | some (listener, _) =>
    let agentID ← requestAgent agentID listener
    requireMutableAgent agentID
    let next ← ofExcept (current.setAccountEnabled userID enabled)
    commitAndApply ctl current next agentID (pure ())

/-- `deleteUser`. -/
def deleteUser (userID agentID : Bytes) : Handler Unit := do
  let current ← directory
  match current.userListener userID with
  | none => fail .denied
  | some (listener, user) =>
    let agentID ← requestAgent agentID listener
    requireMutableAgent agentID
    let next ← ofExcept (current.deleteUser userID)
    commitAndApply ctl current next agentID (pure ())
    if ctl.managed then revokeSecret ⟨user.secretRef, user.secretVersion⟩ else pure ()

/-- The loop over a deleted listener's users. -/
def revokeUsers : List User → Handler Unit
  | [] => pure ()
  | user :: rest => do
    revokeSecret ⟨user.secretRef, user.secretVersion⟩
    revokeUsers rest

/-- `deleteListen`. -/
def deleteListen (listenID agentID : Bytes) : Handler Unit := do
  let current ← directory
  match current.listen listenID with
  | none => fail .denied
  | some listener =>
    let agentID ← requestAgent agentID listener
    requireMutableAgent agentID
    let next ← ofExcept (current.deleteListen listenID)
    commitAndApply ctl current next agentID (pure ())
    if ctl.managed then
      revokeUsers listener.users
      if listener.serverSecretRef ≠ [] then
        revokeSecret ⟨listener.serverSecretRef, listener.serverSecretVersion⟩
      else pure ()
    else pure ()

/-- `rotateUserSecret`. -/
def rotateUserSecret (userID agentID : Bytes) : Handler Unit :=
  if !ctl.managed then fail .executionUnavailable else do
  let current ← directory
  match current.userListener userID with
  | none => fail .denied
  | some (listener, user) =>
    let agentID ← requestAgent agentID listener
    requireMutableAgent agentID
    let reference ← createReplacementSecret (ascii "user") listener.method
    match current.replaceUserSecret user.id user.secretVersion reference.id reference.version with
    | .error e =>
      revokeReferences reference
      fail e
    | .ok next =>
      commitAndApply ctl current next agentID (revokeReferences reference)
      finishSecretReplacement ctl agentID current next
        ⟨user.secretRef, user.secretVersion⟩ reference
      projectUser userID

/-- `rotateServerSecret`. -/
def rotateServerSecret (listenID agentID : Bytes) : Handler Unit :=
  if !ctl.managed then fail .executionUnavailable else do
  let current ← directory
  match current.listen listenID with
  | none => fail .denied
  | some listener =>
    if !ss2022Method listener.method ∨ listener.serverSecretRef = [] then fail .denied else
    let agentID ← requestAgent agentID listener
    requireMutableAgent agentID
    let reference ← createReplacementSecret (ascii "server") listener.method
    let next := mapListen current.clone listenID fun listener =>
      { listener with
        serverSecretRef := reference.id, serverSecretVersion := reference.version }
    commitAndApply ctl current next agentID (revokeReferences reference)
    finishSecretReplacement ctl agentID current next
      ⟨listener.serverSecretRef, listener.serverSecretVersion⟩ reference
    projectListen listenID

inductive Request where
  | createListen (agentID name method : Bytes) (port : Int) (password serverPSK : Bytes)
  | appendListenUser (listenID agentID name password : Bytes)
  | setUserEnabled (userID agentID : Bytes) (enabled : Bool)
  | deleteUser (userID agentID : Bytes)
  | deleteListen (listenID agentID : Bytes)
  | rotateUserSecret (userID agentID : Bytes)
  | rotateServerSecret (listenID agentID : Bytes)
  deriving DecidableEq

def Request.program : Request → Handler Unit
  | .createListen agentID name method port password serverPSK =>
    Panel.createListen ctl agentID name method port password serverPSK
  | .appendListenUser listenID agentID name password =>
    Panel.appendListenUser ctl listenID agentID name password
  | .setUserEnabled userID agentID enabled => Panel.setUserEnabled ctl userID agentID enabled
  | .deleteUser userID agentID => Panel.deleteUser ctl userID agentID
  | .deleteListen listenID agentID => Panel.deleteListen ctl listenID agentID
  | .rotateUserSecret userID agentID => Panel.rotateUserSecret ctl userID agentID
  | .rotateServerSecret listenID agentID => Panel.rotateServerSecret ctl listenID agentID

end Handlers

end NrePlugins.Shadowsocks.Panel
