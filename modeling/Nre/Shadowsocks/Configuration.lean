import Nre.Shadowsocks.Engine
import Nre.Shadowsocks.Routing

/-!
# The Shadowsocks directory

`Configuration` (model.go) is the directory of one instance: its listeners, each
with its users, and the routing rules. Every operation of the source that changes
it works on a `clone`, which also sorts the listeners by id, and returns the changed
copy; nothing is shared between copies, so the operations are plain functions here.

What the SDK decides about routing entries is the parameter `PluginSDK`. Random
identifiers are arguments of the operations that draw them.
-/

namespace NrePlugins.Shadowsocks

open List

/-! ## Data -/

structure User where
  id : Bytes
  name : Bytes
  secretRef : Bytes
  secretVersion : Bytes
  enabled : Bool
  deriving DecidableEq

structure ListenRule where
  id : Bytes
  agentID : Bytes
  port : Int
  method : Bytes
  serverSecretRef : Bytes
  serverSecretVersion : Bytes
  users : List User
  deriving DecidableEq

structure Configuration where
  generation : Bytes
  resourceGroupRef : Bytes
  listeners : List ListenRule
  routing : RoutingConfiguration
  deriving DecidableEq

/-- `AccountSpec`. -/
structure AccountSpec where
  id : Bytes
  name : Bytes
  family : Bytes
  method : Bytes

def maxListeners : Nat := 256
def maxUsers : Nat := 256
def maxUpstreams : Nat := 16
def maxRouteRules : Nat := 64
def maxUserNameBytes : Nat := 128
def maxAgentIDBytes : Nat := 128
def minAutoListenPort : Nat := 8388
def defaultLegacyMethod : Bytes := ascii "aes-256-gcm"
def defaultSS2022Method : Bytes := ascii "2022-blake3-aes-128-gcm"
def accountFamilyLegacy : Bytes := ascii "ss"
def accountFamily2022 : Bytes := ascii "ss2022"
def accountIDStart : Bytes := ascii "acct-"
def initialSecretVersion : Bytes := ascii "v1"

/-- `DefaultUserName`: the part behind `acct-`. -/
def defaultUserName (id : Bytes) : Bytes :=
  if accountIDStart.isPrefixOf id && accountIDStart.length < id.length then
    ascii "user-" ++ id.drop accountIDStart.length
  else id

def accountSecretRef (id : Bytes) : Bytes := ascii "secret/" ++ id

def serverPSKSecretRef : Bytes := ascii "secret/server-psk"

def serverPSKSecretRefFor (listenID : Bytes) : Bytes :=
  if listenID = [] then serverPSKSecretRef else ascii "secret/server/" ++ listenID

/-- `SupportedMethod`. -/
def supportedMethod (method : Bytes) : Option Method :=
  if method = ascii "aes-128-gcm" then some .aes128Gcm
  else if method = ascii "aes-256-gcm" then some .aes256Gcm
  else if method = ascii "2022-blake3-aes-128-gcm" then some .blake3Aes128Gcm
  else if method = ascii "2022-blake3-aes-256-gcm" then some .blake3Aes256Gcm
  else none

def ss2022Method (method : Bytes) : Bool := (ascii "2022-").isPrefixOf method

def accountFamilyOf (method : Bytes) : Bytes :=
  if ss2022Method method then accountFamily2022 else accountFamilyLegacy

/-- `AccountSpec.resolveMethod`. -/
def AccountSpec.resolveMethod (spec : AccountSpec) (defaultMethod : Bytes) : Except Err Bytes :=
  if spec.method ≠ [] then
    if (supportedMethod spec.method).isNone then .error .invalid
    else if spec.family ≠ [] ∧ accountFamilyOf spec.method ≠ spec.family then .error .invalid
    else .ok spec.method
  else if spec.family = [] then
    let method := if defaultMethod = [] then defaultSS2022Method else defaultMethod
    if (supportedMethod method).isNone then .error .invalid else .ok method
  else if spec.family = accountFamilyLegacy then .ok defaultLegacyMethod
  else if spec.family = accountFamily2022 then .ok defaultSS2022Method
  else .error .invalid

/-! ## Validation -/

/-- The checks of the SDK that `Configuration.validate` relies on. -/
structure PluginSDK where
  /-- `ManagedNetworkEndpoint.Validate`. -/
  endpointValid : Bytes → Nat → Bool
  /-- `ValidatePolicyIdentity`. -/
  identityValid : Bytes → Bool
  /-- `DatasetClassification.Validate`. -/
  classificationValid : Classification → Bool

/-- Lower-case letters and digits. -/
def refFirst (b : UInt8) : Bool := within (ch 'a') (ch 'z') b || isDigit b

def refByte (b : UInt8) : Bool :=
  refFirst b || b == ch '.' || b == ch '_' || b == ch ':' || b == ch '/' || b == ch '-'

/-- `refPattern`: a letter or digit, then up to 127 more characters. -/
def refPattern : Bytes → Bool
  | [] => false
  | b :: rest => refFirst b && decide (rest.length ≤ 127) && rest.all refByte

/-- `strings.ContainsAny` for ASCII characters. -/
def containsAny (s : Bytes) (chars : List UInt8) : Bool := s.any (chars.contains ·)

/-- `validAgentID`. -/
def validAgentID (value : Bytes) : Bool :=
  value ≠ [] && decide (value.length ≤ maxAgentIDBytes) && value == trimSpace value &&
    !containsAny value [ch '\r', ch '\n', 0, ch '\t', ch ' ']

def User.validate (user : User) : Except Err Unit :=
  if !refPattern user.id || !refPattern user.secretRef || !refPattern user.secretVersion then
    .error .invalid
  else if containsAny user.name [ch '\r', ch '\n', 0] || maxUserNameBytes < user.name.length then
    .error .invalid
  else .ok ()

/-- The user loop of `ListenRule.Validate`. -/
def validateUsers (seen : List Bytes) : List User → Except Err Unit
  | [] => .ok ()
  | user :: rest => do
    user.validate
    if user.id ∈ seen then .error .invalid else validateUsers (user.id :: seen) rest

def ListenRule.validate (listener : ListenRule) : Except Err Unit :=
  if !refPattern listener.id || !validAgentID listener.agentID || listener.port < 1 ||
      65535 < listener.port || (supportedMethod listener.method).isNone then .error .invalid
  else if (listener.serverSecretRef ≠ [] || listener.serverSecretVersion ≠ []) &&
      (!ss2022Method listener.method || !refPattern listener.serverSecretRef ||
        !refPattern listener.serverSecretVersion) then .error .invalid
  else if !ss2022Method listener.method && 1 < listener.users.length then .error .invalid
  else if maxUsers < listener.users.length then .error .invalid
  else validateUsers [] listener.users

/-- `validateRouteAction`; an action outside the three does not exist here. -/
def validateRouteAction (upstreams : List Bytes) (action : RouteAction) (upstreamID : Bytes) :
    Except Err Unit :=
  match action with
  | .direct | .reject => if upstreamID ≠ [] then .error .invalid else .ok ()
  | .upstream => if upstreamID ∈ upstreams then .ok () else .error .routeUpstreamUnavailable

/-- The upstream loop of `RoutingConfiguration.Validate`: the ids met. -/
def validateUpstreams (K : PluginSDK) (seen : List Bytes) : List Upstream → Except Err (List Bytes)
  | [] => .ok seen
  | upstream :: rest =>
    if !refPattern upstream.id || !K.endpointValid upstream.host upstream.port ||
        (supportedMethod upstream.method).isNone || !refPattern upstream.secretRef ||
        !refPattern upstream.secretVersion || (!upstream.tcp && !upstream.udp) ||
        upstream.id ∈ seen then .error .invalid
    else validateUpstreams K (upstream.id :: seen) rest

/-- The rule loop of `RoutingConfiguration.Validate`. -/
def validateRouteRules (K : PluginSDK) (upstreams seen : List Bytes) :
    List RouteRule → Except Err Unit
  | [] => .ok ()
  | rule :: rest =>
    if !refPattern rule.id || rule.id ∈ seen || !K.identityValid rule.sourceID ||
        !K.classificationValid rule.classification then .error .invalid
    else do
      validateRouteAction upstreams rule.action rule.upstreamID
      validateRouteRules K upstreams (rule.id :: seen) rest

def RoutingConfiguration.validate (K : PluginSDK) (routing : RoutingConfiguration) :
    Except Err Unit :=
  if maxUpstreams < routing.upstreams.length || maxRouteRules < routing.rules.length then
    .error .invalid
  else do
    let upstreams ← validateUpstreams K [] routing.upstreams
    validateRouteRules K upstreams [] routing.rules
    validateRouteAction upstreams routing.effectiveDefault routing.defaultUpstreamID

/-- The ids of one listener's users added to those met before, unless one repeats. -/
def addUserIDs (seen : List Bytes) : List User → Option (List Bytes)
  | [] => some seen
  | user :: rest => if user.id ∈ seen then none else addUserIDs (user.id :: seen) rest

/-- The listener loop of `Configuration.Validate`: ids, ports and users met. -/
def validateListeners (ids : List Bytes) (ports : List (Bytes × Int)) (userIDs : List Bytes)
    (totalUsers : Nat) : List ListenRule → Except Err Unit
  | [] => .ok ()
  | listener :: rest => do
    listener.validate
    if listener.id ∈ ids || (listener.agentID, listener.port) ∈ ports ||
        maxUsers < totalUsers + listener.users.length then .error .invalid
    else match addUserIDs userIDs listener.users with
      | none => .error .invalid
      | some userIDs' =>
        validateListeners (listener.id :: ids) ((listener.agentID, listener.port) :: ports) userIDs'
          (totalUsers + listener.users.length) rest

def Configuration.validate (K : PluginSDK) (c : Configuration) : Except Err Unit :=
  if c.generation ≠ [] && !refPattern c.generation then .error .invalid
  else if c.resourceGroupRef ≠ [] && !refPattern c.resourceGroupRef then .error .invalid
  else if maxListeners < c.listeners.length then .error .invalid
  else do
    c.routing.validate K
    validateListeners [] [] [] 0 c.listeners

/-! ## Copies and lookups -/

/-- Go's order of strings. -/
def idLE (a b : ListenRule) : Prop := a.id.map UInt8.toNat ≤ b.id.map UInt8.toNat

instance : DecidableRel idLE := fun a b =>
  inferInstanceAs (Decidable (a.id.map UInt8.toNat ≤ b.id.map UInt8.toNat))

instance : Std.Total idLE := ⟨fun a b => le_total (a.id.map UInt8.toNat) (b.id.map UInt8.toNat)⟩

instance : IsTrans ListenRule idLE := ⟨fun _ _ _ hab hbc => le_trans hab hbc⟩

/-- `cloneRouting`: a missing default action is spelled out. -/
def cloneRouting (routing : RoutingConfiguration) : RoutingConfiguration :=
  { routing with defaultAction := some routing.effectiveDefault }

/-- `clone`: the listeners in the order of their ids. (`sort.Slice` leaves the order of
equal ids open; a valid directory has none.) -/
def Configuration.clone (c : Configuration) : Configuration :=
  { c with listeners := c.listeners.insertionSort idLE, routing := cloneRouting c.routing }

/-- The first element that satisfies `p`, changed in place. -/
def updateFirst {α : Type} (p : α → Bool) (f : α → α) : List α → List α
  | [] => []
  | a :: rest => if p a then f a :: rest else a :: updateFirst p f rest

def User.is (id : Bytes) (user : User) : Bool := user.id = id

def ListenRule.is (id : Bytes) (listener : ListenRule) : Bool := listener.id = id

def ListenRule.hasUser (id : Bytes) (listener : ListenRule) : Bool :=
  listener.users.any (User.is id)

open ListenRule

namespace Configuration

variable (c : Configuration)

/-- `Configuration.Listen`. -/
def listen (id : Bytes) : Option ListenRule := c.listeners.find? (ListenRule.is id)

/-- `Configuration.userListener`: the first listener with the user, and the user. -/
def userListener (id : Bytes) : Option (ListenRule × User) := do
  let listener ← c.listeners.find? (hasUser id)
  let user ← listener.users.find? (User.is id)
  return (listener, user)

/-- The user that `lookupUser` finds, changed in place. -/
def updateUser (id : Bytes) (f : User → User) : Configuration :=
  { c with
    listeners := updateFirst (hasUser id)
      (fun listener => { listener with users := updateFirst (User.is id) f listener.users })
      c.listeners }

def allUsers : List User := c.listeners.flatMap users

/-- `usedPorts(agentID)[port]`: the last listener of the agent on the port. -/
def portOwner (agentID : Bytes) (port : Int) : Option Bytes :=
  ((c.listeners.filter fun listener =>
    listener.agentID = agentID && listener.port = port).getLast?).map ListenRule.id

/-- `NextListenPort`. -/
def nextListenPort (agentID : Bytes) : Except Err Int :=
  match (List.range' minAutoListenPort (65536 - minAutoListenPort)).find?
      (fun port : Nat => (c.portOwner agentID port).isNone) with
  | some port => .ok port
  | none => .error .invalid

/-- The port of a new listener: the next free one unless the request names one. -/
def choosePort (agentID : Bytes) (specPort : Int) : Except Err Int :=
  if specPort = 0 then c.nextListenPort agentID else .ok specPort

/-- `PortConflict`. -/
def portConflict (agentID : Bytes) (port : Int) (exceptListenID : Bytes) : Bool :=
  if port < 1 || 65535 < port || !validAgentID agentID then false
  else match c.portOwner agentID port with
    | some owner => owner ≠ exceptListenID
    | none => false

end Configuration

/-! ## What copies and updates keep -/

open Shadowsocks.Configuration

/-- A copy of a copy is the copy. -/
theorem Configuration.clone_clone (c : Configuration) : c.clone.clone = c.clone := by
  have hsorted : (c.listeners.insertionSort idLE).Pairwise idLE :=
    pairwise_insertionSort idLE c.listeners
  unfold clone
  simp only [hsorted.insertionSort_eq]
  rfl

/-- The directory has a listener with the id. -/
def Configuration.HasListen (c : Configuration) (id : Bytes) : Prop :=
  ∃ listener ∈ c.listeners, listener.id = id

/-- The directory has a user with the id. -/
def Configuration.HasUser (c : Configuration) (id : Bytes) : Prop :=
  ∃ listener ∈ c.listeners, ∃ user ∈ listener.users, user.id = id

variable {id : Bytes} {c : Configuration}

theorem ListenRule.hasUser_iff {listener : ListenRule} :
    listener.hasUser id = true ↔ ∃ user ∈ listener.users, user.id = id := by
  simp [hasUser, User.is]

theorem Configuration.listen_isSome_iff : (c.listen id).isSome ↔ c.HasListen id := by
  simp [listen, Configuration.HasListen, ListenRule.is]

theorem Configuration.userListener_isSome_iff : (c.userListener id).isSome ↔ c.HasUser id := by
  constructor
  · intro h
    obtain ⟨⟨listener, user⟩, hfound⟩ := Option.isSome_iff_exists.mp h
    simp only [userListener, Option.bind_eq_bind, Option.bind_eq_some_iff] at hfound
    obtain ⟨found, hfind, -⟩ := hfound
    exact ⟨found, mem_of_find?_eq_some hfind, hasUser_iff.mp (find?_some hfind)⟩
  · rintro ⟨listener, hmem, user, huser, rfl⟩
    have hhas : listener.hasUser user.id = true := hasUser_iff.mpr ⟨user, huser, rfl⟩
    obtain ⟨found, hfind⟩ := Option.isSome_iff_exists.mp (find?_isSome.mpr ⟨listener, hmem, hhas⟩)
    obtain ⟨user', hmem', hid⟩ := hasUser_iff.mp (find?_some hfind)
    have hfound : (found.users.find? (User.is user.id)).isSome :=
      find?_isSome.mpr ⟨user', hmem', by simpa [User.is] using hid⟩
    obtain ⟨found', hfind'⟩ := Option.isSome_iff_exists.mp hfound
    simp [userListener, hfind, hfind']

theorem Configuration.hasListen_clone : c.clone.HasListen id ↔ c.HasListen id := by
  simp [Configuration.HasListen, clone]

theorem Configuration.hasUser_clone : c.clone.HasUser id ↔ c.HasUser id := by
  simp [Configuration.HasUser, clone]

/-- An update in place that keeps a property of elements keeps its having an element
with it. -/
theorem exists_mem_updateFirst {α : Type} {p : α → Bool} {f : α → α} {P : α → Prop}
    (hf : ∀ a, P a → P (f a)) {l : List α} (h : ∃ a ∈ l, P a) : ∃ a ∈ updateFirst p f l, P a := by
  fun_induction updateFirst p f l with
  | case1 => exact h
  | case2 b rest _ =>
    rw [exists_mem_cons_iff] at h ⊢
    exact h.imp_left (hf b)
  | case3 b rest _ ih =>
    rw [exists_mem_cons_iff] at h ⊢
    exact h.imp_right ih

theorem Configuration.HasListen.updateUser (h : c.HasListen id) (userID : Bytes) (f : User → User) :
    (c.updateUser userID f).HasListen id := by
  refine exists_mem_updateFirst ?_ h
  exact fun _ hid => hid

theorem Configuration.HasUser.updateUser (h : c.HasUser id) (userID : Bytes) {f : User → User}
    (hf : ∀ user, (f user).id = user.id) :
    (c.updateUser userID f).HasUser id := by
  refine exists_mem_updateFirst ?_ h
  exact fun _ => exists_mem_updateFirst fun user hid => (hf user).trans hid

/-! ## Operations -/

/-- The defaults that `CreateListen` and `AppendListenUser` fill in. -/
def User.withDefaults (user : User) : User :=
  { user with
    name := if user.name = [] then defaultUserName user.id else user.name
    secretRef := if user.secretRef = [] then accountSecretRef user.id else user.secretRef
    secretVersion := if user.secretVersion = [] then initialSecretVersion else user.secretVersion
    enabled := true }

namespace Configuration

variable (K : PluginSDK) (c : Configuration)

/-- The listener that `CreateListen` adds. -/
def newListener (listenID agentID : Bytes) (port : Int) (method : Bytes) (user : User)
    (serverRef serverVersion : Bytes) : Except Err ListenRule :=
  if ss2022Method method then
    .ok { id := listenID, agentID, port, method, users := [user]
          serverSecretRef := if serverRef = [] then serverPSKSecretRefFor listenID else serverRef
          serverSecretVersion :=
            if serverVersion = [] then initialSecretVersion else serverVersion }
  else if serverRef ≠ [] ∨ serverVersion ≠ [] then .error .invalid
  else .ok { id := listenID, agentID, port, method, users := [user]
             serverSecretRef := [], serverSecretVersion := [] }

/-- The end of `CreateListen`: the listener is appended and the whole validated. -/
def addListener (listener : ListenRule) : Except Err Configuration :=
  let next := { c with listeners := c.listeners ++ [listener] }
  match next.validate K with
  | .error e =>
    if next.portConflict listener.agentID listener.port listener.id then .error .portConflict
    else .error e
  | .ok () => .ok next

/-- `CreateListen`, with the drawn listener id and a user that has its id; returns the
new directory and the user. -/
def createListen (listenID agentID : Bytes) (specPort : Int) (method : Bytes) (user : User)
    (serverRef serverVersion : Bytes) : Except Err (Configuration × User) :=
  if !validAgentID agentID then .error .agentOffline
  else do
    let method ← AccountSpec.resolveMethod ⟨[], [], [], method⟩ defaultSS2022Method
    let port ← c.clone.choosePort agentID specPort
    if port < 1 ∨ 65535 < port then .error .invalid
    else if c.clone.portConflict agentID port [] then .error .portConflict
    else if (c.clone.listen listenID).isSome then .error .invalid
    else do
      user.withDefaults.validate
      if (c.clone.userListener user.id).isSome then .error .invalid
      else do
        let listener ← newListener listenID agentID port method user.withDefaults serverRef
          serverVersion
        let next ← c.clone.addListener K listener
        return (next, user.withDefaults)

/-- The end of `AppendListenUser`. -/
def addListenUser (listenID : Bytes) (user : User) : Except Err Configuration := do
  let next := { c with
    listeners := updateFirst (ListenRule.is listenID)
      (fun listener => { listener with users := listener.users ++ [user] }) c.listeners }
  next.validate K
  return next

/-- `AppendListenUser`. -/
def appendListenUser (listenID : Bytes) (user : User) : Except Err (Configuration × User) :=
  match c.clone.listen listenID with
  | none => .error .denied
  | some listener =>
    if !ss2022Method listener.method then .error .traditionalMultiUser
    else do
      user.withDefaults.validate
      if (c.clone.userListener user.id).isSome then .error .invalid
      else if maxUsers ≤ c.clone.allUsers.length then .error .invalid
      else do
        let next ← c.clone.addListenUser K listenID user.withDefaults
        return (next, user.withDefaults)

/-- `DeleteUser`. -/
def deleteUser (id : Bytes) : Except Err Configuration :=
  if (c.clone.userListener id).isNone then .error .denied
  else .ok { c.clone with
    listeners := updateFirst (hasUser id)
      (fun listener => { listener with users := listener.users.eraseP (User.is id) })
      c.clone.listeners }

/-- `DeleteListen`. -/
def deleteListen (id : Bytes) : Except Err Configuration :=
  if (c.clone.listen id).isNone then .error .denied
  else .ok { c.clone with listeners := c.clone.listeners.eraseP (ListenRule.is id) }

/-- `SetAccountEnabled`. -/
def setAccountEnabled (id : Bytes) (enabled : Bool) : Except Err Configuration :=
  if (c.clone.userListener id).isNone then .error .denied
  else .ok (c.clone.updateUser id fun user => { user with enabled })

/-- `ReplaceUserSecret`. -/
def replaceUserSecret (id expectedVersion newRef newVersion : Bytes) : Except Err Configuration :=
  match c.clone.userListener id with
  | none => .error .denied
  | some (_, current) =>
    if expectedVersion = [] ∨ current.secretVersion ≠ expectedVersion then .error .denied
    else if !refPattern newRef || !refPattern newVersion then .error .invalid
    else .ok (c.clone.updateUser id fun user =>
      { user with secretRef := newRef, secretVersion := newVersion })

/-- `ss2022ListenerByServerVersion`. -/
def ss2022ListenerByServerVersion (version : Bytes) : Option ListenRule :=
  if version = [] then none
  else c.listeners.find? fun listener =>
    ss2022Method listener.method && listener.serverSecretVersion = version

/-- `ReplaceServerPSK`. -/
def replaceServerPSK (listenerID expectedVersion newRef newVersion : Bytes) :
    Except Err Configuration :=
  if listenerID = [] || expectedVersion = [] || !refPattern newRef || !refPattern newVersion then
    .error .invalid
  else match c.clone.listen listenerID with
    | none => .error .denied
    | some listener =>
      if !ss2022Method listener.method || listener.serverSecretVersion ≠ expectedVersion then
        .error .denied
      else .ok { c.clone with
        listeners := updateFirst (ListenRule.is listenerID)
          (fun listener =>
            { listener with serverSecretRef := newRef, serverSecretVersion := newVersion })
          c.clone.listeners }

end Configuration

/-! ## Accounts -/

/-- `NewAccountID` from the random text it draws, if it can draw one. -/
def newAccountID : Option Bytes → Except Err Bytes
  | none => .error .host
  | some drawn =>
    if refPattern (accountIDStart ++ drawn) then .ok (accountIDStart ++ drawn) else .error .invalid

/-- Has the listener room for a user with the method? -/
def ListenRule.accepts (method : Bytes) (listener : ListenRule) : Bool :=
  listener.method = method &&
    decide (listener.users.length < if ss2022Method method then maxUsers else 1)

namespace Configuration

variable (K : PluginSDK) (c : Configuration)

/-- `listenerIndexForMethod`. -/
def listenerIndexForMethod (method : Bytes) : Option Nat :=
  if (supportedMethod method).isNone then none
  else c.listeners.findIdx? (accepts method)

/-- The agent of a listener that `ensureListenerForMethod` adds. -/
def firstAgentID : Bytes :=
  match c.listeners with
  | [] => ascii "agent-1"
  | listener :: _ => listener.agentID

/-- `ensureListenerForMethod`: the directory with a listener for the method, and where
it stands. -/
def ensureListenerForMethod (drawn : Option Bytes) (method : Bytes) :
    Except Err (Configuration × Nat) :=
  match c.listenerIndexForMethod method with
  | some index => .ok (c, index)
  | none => do
    let port ← c.nextListenPort c.firstAgentID
    if !validAgentID c.firstAgentID then .error .invalid
    else do
      let account ← newAccountID drawn
      let id := ascii "listen-" ++ account.drop accountIDStart.length
      if !refPattern id then .error .invalid
      else .ok ({ c with
        listeners := c.listeners ++ [⟨id, c.firstAgentID, port, method, [], [], []⟩] },
        c.listeners.length)

/-- The user that `CreateAccount` adds. -/
def newAccount (id name secretRef secretVersion : Bytes) : User where
  id := id
  name := if name = [] then id else name
  secretRef := if secretRef = [] then accountSecretRef id else secretRef
  secretVersion := if secretVersion = [] then initialSecretVersion else secretVersion
  enabled := true

/-- `CreateAccount` of a request that names its account. -/
def createAccount (drawn : Option Bytes) (spec : AccountSpec) (secretRef secretVersion : Bytes) :
    Except Err (Configuration × User) := do
  let method ← spec.resolveMethod defaultSS2022Method
  let user := newAccount spec.id spec.name secretRef secretVersion
  if !refPattern user.id || !refPattern user.secretRef || !refPattern user.secretVersion ||
      maxUsers ≤ c.clone.allUsers.length then .error .invalid
  else if (c.clone.userListener user.id).isSome then .error .invalid
  else do
    let (ensured, index) ← c.clone.ensureListenerForMethod drawn method
    let next := { ensured with
      listeners := ensured.listeners.modify index fun listener =>
        { listener with users := listener.users ++ [user] } }
    next.validate K
    return (next, user)

end Configuration

end NrePlugins.Shadowsocks
