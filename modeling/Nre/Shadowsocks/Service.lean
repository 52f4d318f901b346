import Nre.Base.Interaction
import Nre.Shadowsocks.Secrets

/-!
# The running service

`Service` (service.go) keeps the directory and one engine for each user. Its
operations are sequences of sections under `mu`, some of them also under
`engineGate`, with calls to the host in between. A section is one call here: a
function from the state to the answer and the state after it. Sections under the
gate wait until it is free; only `installRotatedServerPSK` keeps it from one section
to the next, so `gate` names the thread between the two.

The secrets that an operation hands out are returned; that the service remembers
them until they are revealed (`secrets`, `rememberIssuedSecret`) is left out, and so
is `hostOpen`, since a call to the host may fail at any time.
-/

namespace NrePlugins.Shadowsocks

/-- The listener has a server secret. -/
def ListenRule.HasServerSecret (listener : ListenRule) : Prop :=
  listener.serverSecretRef ≠ [] ∧ listener.serverSecretVersion ≠ []

instance (listener : ListenRule) : Decidable listener.HasServerSecret :=
  inferInstanceAs (Decidable (_ ∧ _))

namespace Service

open NrePlugins.Prog (ofExcept fail)

/-! ## State -/

/-- `SecretOnce`. -/
structure SecretOnce where
  secretRef : Bytes
  secretVersion : Bytes
  material : Bytes

abbrev Engines : Type := Bytes → Option ProtocolEngine

/-- What the sections of all operations share. -/
structure State where
  configuration : Configuration
  engines : Engines
  live : Bool
  /-- The thread that holds `engineGate` between two of its sections. -/
  gate : Option Nat

/-- A listener and one of its users, as a section read them. -/
abbrev Found : Type := ListenRule × User

/-- The calls of the operations: to the host, then the sections of each operation. A
section carries the variables of its operation that are in scope. -/
inductive Call where
  | context
  | resolve (ref version : Bytes)
  | vault (id ref version generation scope : Bytes)
  | newAccountID
  | audit (action userID : Bytes)
  | rotateRead (userID : Bytes)
  | disableStale (userID : Bytes) (current : User)
  | rotateInstall (userID : Bytes) (read : Found) (secret : SecretOnce) (material serverPSK : Bytes)
  | serverRead (expectedVersion : Bytes)
  | serverCollect (listenerID expectedVersion : Bytes) (secret : SecretOnce) (serverPSK : Bytes)
  | serverInstall (listenerID expectedVersion : Bytes) (secret : SecretOnce)
      (replacements : List (Bytes × ProtocolEngine))
  | enableRead (userID : Bytes) (enabled : Bool)
  | enableInstall (userID : Bytes) (read : Found) (engine : ProtocolEngine)
  | createRead
  | createEnsure (method : Bytes)
  | createInstall (spec : AccountSpec) (secret : SecretOnce) (engine : ProtocolEngine)
      (serverRef serverVersion : Bytes)
  | disable

/-- The reads of `rotate`, `rotateServerPSK` and `createAccount` also return the
generation, the one of `createEnsure` the listener's server secret. -/
abbrev Answer : Call → Type
  | .context | .audit .. => Except Err Unit
  | .resolve .. | .newAccountID => Except Err Bytes
  | .vault .. | .rotateInstall .. => Except Err SecretOnce
  | .rotateRead _ => Bytes × Option Found
  | .serverRead _ => Except Err (Bytes × ListenRule)
  | .serverCollect .. => Except Err (List (Bytes × ProtocolEngine))
  | .serverInstall .. | .enableInstall .. => Except Err Unit
  | .enableRead .. => Except Err (Option Found)
  | .createRead => Except Err Bytes
  | .createEnsure _ => Except Err (Bytes × Bytes)
  | .createInstall .. => Except Err User
  | .disableStale .. | .disable => Unit

/-! ## Sections -/

section Sections

variable (C : Crypto) (K : PluginSDK) (s : State)

/-- A user is disabled and loses the engine. -/
def State.disableUser (userID : Bytes) : State :=
  { s with
    configuration := s.configuration.updateUser userID fun user => { user with enabled := false }
    engines := Function.update s.engines userID none }

/-- `disableStale` of `Rotate`. -/
def disableStale (userID : Bytes) (current : User) : State :=
  match s.configuration.userListener userID with
  | none => s
  | some (_, user) =>
    if user.secretRef = current.secretRef ∧ user.secretVersion = current.secretVersion then
      s.disableUser userID
    else s

/-- The secret that `Rotate` hands out: for an engine with an identity key the client
password (`ss2022ClientPasswordFromEngine`). -/
def rotatedSecret (secret : SecretOnce) (engine : ProtocolEngine) : SecretOnce :=
  match engine.keysSnapshot with
  | .error _ => secret
  | .ok (user, identity) =>
    if ss2022Method engine.method.name && !engine.dead && identity.length == engine.keyLen then
      { secret with material := Base64.encode identity ++ ch ':' :: Base64.encode user }
    else secret

/-- The last section of `Rotate`. -/
def rotateInstall (userID : Bytes) (current : User) (secret : SecretOnce)
    (material serverPSK : Bytes) : Except Err SecretOnce × State :=
  if !s.live then (.error .revoked, s)
  else match s.configuration.userListener userID with
    | none => (.error .revoked, s)
    | some (latest, user) =>
      if user.secretRef ≠ current.secretRef ∨ user.secretVersion ≠ current.secretVersion then
        (.error .revoked, s)
      else match engineFromMaterial C latest.method material serverPSK with
        | .error _ => (.error .denied, s.disableUser userID)
        | .ok replacement =>
          match s.configuration.replaceUserSecret userID current.secretVersion secret.secretRef
              secret.secretVersion with
          | .error e => (.error e, s)
          | .ok next =>
            (.ok (rotatedSecret secret replacement),
              { s with configuration := next
                       engines := Function.update s.engines userID (some replacement) })

/-- The first section of `RotateServerPSK`. -/
def serverRead (expectedVersion : Bytes) : Except Err (Bytes × ListenRule) :=
  if !s.live then .error .revoked
  else match s.configuration.ss2022ListenerByServerVersion expectedVersion with
    | none => .error .denied
    | some listener => .ok (s.configuration.generation, listener)

/-- `ss2022Account`: a user whose engine gets a new server key. -/
structure SS2022Account where
  id : Bytes
  method : Bytes
  userPSK : Bytes

/-- The accounts loop of `installRotatedServerPSK`. -/
def collectAccounts (engines : Engines) : List User → Except Err (List SS2022Account)
  | [] => .ok []
  | user :: rest =>
    match engines user.id with
    | none => collectAccounts engines rest
    | some engine =>
      if !ss2022Method engine.method.name then collectAccounts engines rest
      else match engine.keysSnapshot with
        | .error _ => .error .denied
        | .ok (key, _) => do
          let accounts ← collectAccounts engines rest
          .ok (⟨user.id, engine.method.name, Base64.encode key⟩ :: accounts)

/-- The replacements loop of `installRotatedServerPSK`. -/
def buildReplacements (mapped : Bytes) :
    List SS2022Account → Except Err (List (Bytes × ProtocolEngine))
  | [] => .ok []
  | account :: rest => do
    let engine ← newSS2022IdentityEngine account.method mapped account.userPSK
    let replacements ← buildReplacements mapped rest
    .ok ((account.id, engine) :: replacements)

/-- `installRotatedServerPSK` up to its second section. -/
def serverCollect (listenerID expectedVersion serverPSK : Bytes) :
    Except Err (List (Bytes × ProtocolEngine)) :=
  if !s.live then .error .revoked
  else match s.configuration.ss2022ListenerByServerVersion expectedVersion with
    | none => .error .denied
    | some listener =>
      if listener.id ≠ listenerID then .error .denied
      else do
        let mapped ← mapSS2022PSK C listener.method serverPSK
        let accounts ← collectAccounts s.engines listener.users
        buildReplacements mapped accounts

/-- The second section of `installRotatedServerPSK`; it ends with the gate free. -/
def serverInstall (listenerID expectedVersion : Bytes) (secret : SecretOnce)
    (replacements : List (Bytes × ProtocolEngine)) : Except Err Unit × State :=
  if !s.live then (.error .revoked, { s with gate := none })
  else match s.configuration.replaceServerPSK listenerID expectedVersion secret.secretRef
      secret.secretVersion with
    | .error e => (.error e, { s with gate := none })
    | .ok next =>
      (.ok (), { s with configuration := next
                        engines := fun id => (replacements.lookup id).or (s.engines id)
                        gate := none })

/-- The first section of `SetAccountEnabled`: unless an engine is missing, it does all. -/
def enableRead (userID : Bytes) (enabled : Bool) : Except Err (Option Found) × State :=
  if !s.live then (.error .revoked, s)
  else match s.configuration.userListener userID with
    | none => (.error .denied, s)
    | some found =>
      if enabled && (s.engines userID).isNone then (.ok (some found), s)
      else match s.configuration.setAccountEnabled userID enabled with
        | .error e => (.error e, s)
        | .ok next => (.ok none, { s with configuration := next })

/-- The last section of `SetAccountEnabled`. -/
def enableInstall (userID : Bytes) (engine : ProtocolEngine) : Except Err Unit × State :=
  if !s.live then (.error .revoked, s)
  else match s.configuration.setAccountEnabled userID true with
    | .error e => (.error e, s)
    | .ok next =>
      (.ok (), { s with
        configuration := next
        engines := if (s.engines userID).isNone then
            Function.update s.engines userID (some engine)
          else s.engines })

/-- The second section of `CreateAccount`, with the text that a new listener's id is
drawn from. -/
def createEnsure (drawn : Option Bytes) (method : Bytes) : Except Err (Bytes × Bytes) × State :=
  match s.configuration.ensureListenerForMethod drawn method with
  | .error e => (.error e, s)
  | .ok (ensured, index) =>
    let listenerID := (ensured.listeners[index]?.map ListenRule.id).getD []
    let serverSecret := match ensured.clone.listen listenerID with
      | none => ([], [])
      | some listener => (listener.serverSecretRef, listener.serverSecretVersion)
    (.ok serverSecret, { s with configuration := ensured.clone })

/-- The listener of a new user gets the server secret unless it has one. -/
def setServerSecret (next : Configuration) (userID serverRef serverVersion : Bytes) :
    Configuration :=
  if serverRef = [] then next
  else { next with
    listeners := updateFirst (ListenRule.hasUser userID)
      (fun listener =>
        if listener.serverSecretVersion = [] then
          { listener with serverSecretRef := serverRef, serverSecretVersion := serverVersion }
        else listener)
      next.listeners }

/-- `installCreatedAccount`. -/
def createInstall (drawn : Option Bytes) (spec : AccountSpec) (secret : SecretOnce)
    (engine : ProtocolEngine) (serverRef serverVersion : Bytes) : Except Err User × State :=
  if !s.live then (.error .revoked, s)
  else match s.configuration.createAccount K drawn spec secret.secretRef secret.secretVersion with
    | .error e => (.error e, s)
    | .ok (next, user) =>
      (.ok user, { s with configuration := setServerSecret next user.id serverRef serverVersion
                          engines := Function.update s.engines user.id (some engine) })

/-- The locked part of `Disable`. -/
def disable : State := { s with live := false, engines := fun _ => none }

/-- How the state and the host answer a call of thread `i`. The material behind a
reference and a version never changes, but resolving it may fail. -/
def respond (resolve : Bytes → Bytes → Bytes) (i : Nat) (s : State) :
    (c : Call) → Answer c → State → Prop
  | .resolve ref version, answer, s' =>
    (answer = .ok (resolve ref version) ∨ answer = .error .typedHandlesUnavailable) ∧ s' = s
  | .context, _, s' | .audit .., _, s' | .vault .., _, s' => s' = s
  | .newAccountID, answer, s' => (∃ drawn, answer = newAccountID drawn) ∧ s' = s
  | .rotateRead userID, answer, s' =>
    answer = (s.configuration.generation, s.configuration.userListener userID) ∧ s' = s
  | .disableStale userID current, _, s' => s.gate = none ∧ s' = disableStale s userID current
  | .rotateInstall userID read secret material serverPSK, answer, s' =>
    s.gate = none ∧ (answer, s') = rotateInstall C s userID read.2 secret material serverPSK
  | .serverRead expectedVersion, answer, s' => answer = serverRead s expectedVersion ∧ s' = s
  | .serverCollect listenerID expectedVersion _ serverPSK, answer, s' =>
    s.gate = none ∧ answer = serverCollect C s listenerID expectedVersion serverPSK ∧
      s' = { s with gate := if answer.isOk then some i else none }
  | .serverInstall listenerID expectedVersion secret replacements, answer, s' =>
    s.gate = some i ∧ (answer, s') = serverInstall s listenerID expectedVersion secret replacements
  | .enableRead userID enabled, answer, s' => (answer, s') = enableRead s userID enabled
  | .enableInstall userID _ engine, answer, s' =>
    s.gate = none ∧ (answer, s') = enableInstall s userID engine
  | .createRead, answer, s' =>
    answer = (if s.live then .ok s.configuration.generation else .error .revoked) ∧ s' = s
  | .createEnsure method, answer, s' => ∃ drawn, (answer, s') = createEnsure s drawn method
  | .createInstall spec secret engine serverRef serverVersion, answer, s' =>
    s.gate = none ∧ ∃ drawn,
      (answer, s') = createInstall K s drawn spec secret engine serverRef serverVersion
  | .disable, _, s' => s.gate = none ∧ s' = disable s

end Sections

/-! ## Operations -/

/-- What the operations return. -/
inductive Reply where
  | issued (secret : SecretOnce)
  | account (user : User) (secret : SecretOnce)
  | done

abbrev Handler (α : Type) : Type := Prog Answer Err α

def serverPSKID : Bytes := ascii "server-psk"

def context : Handler Unit := .call .context ofExcept

/-- `audit`. -/
def audit (action userID : Bytes) : Handler Unit :=
  .call (.audit action userID) fun
    | .error _ => fail .denied
    | .ok () => pure ()

/-- `resolveSecret`. -/
def resolveSecret (ref version : Bytes) : Handler Bytes :=
  .call (.resolve ref version) fun
    | .error _ => fail .typedHandlesUnavailable
    | .ok material => pure material

/-- `rotateVault`. -/
def rotateVault (id ref version generation scope : Bytes) : Handler SecretOnce :=
  .call (.vault id ref version generation scope) fun
    | .error _ => fail .denied
    | .ok secret =>
      if !refPattern secret.secretRef || !refPattern secret.secretVersion then fail .invalid
      else pure secret

/-- Resolve the server secret of a 2022 listener that has one; the outcome is looked at
by the caller. -/
def serverMaterial (listener : ListenRule) : Handler (Except Err Bytes) :=
  if ss2022Method listener.method = true ∧ listener.HasServerSecret then
    .call (.resolve listener.serverSecretRef listener.serverSecretVersion) .ret
  else .ret (.ok [])

section Operations

variable (C : Crypto)

/-- `Rotate` gives up: the user whose secret was rotated away is disabled. -/
def giveUp (userID : Bytes) (current : User) : Handler Reply :=
  .call (.disableStale userID current) fun _ => fail .denied

/-- `Rotate`. -/
def rotate (userID expectedVersion : Bytes) : Handler Reply :=
  .call (.rotateRead userID) fun
    | (_, none) => fail .denied
    | (generation, some (listener, current)) =>
      if expectedVersion = [] ∨ current.secretVersion ≠ expectedVersion then fail .denied
      else do
        let secret ← rotateVault userID current.secretRef current.secretVersion generation
          (ascii "user")
        .call (.resolve secret.secretRef secret.secretVersion) fun
          | .error _ => giveUp userID current
          | .ok material => do
            match ← serverMaterial listener with
            | .error _ => giveUp userID current
            | .ok serverPSK =>
              .call (.rotateInstall userID (listener, current) secret material serverPSK) fun
                | .error e => fail e
                | .ok issued => pure (.issued issued)

/-- `RotateServerPSK`. -/
def rotateServerPSK (expectedVersion : Bytes) : Handler Reply := do
  context
  .call (.serverRead expectedVersion) fun
    | .error e => fail e
    | .ok (generation, listener) => do
      let secret ← rotateVault serverPSKID listener.serverSecretRef listener.serverSecretVersion
        generation (ascii "server-psk")
      let material ← resolveSecret secret.secretRef secret.secretVersion
      let mapped ← ofExcept (mapSS2022PSK C listener.method material)
      .call (.serverCollect listener.id expectedVersion secret mapped) fun
        | .error e => fail e
        | .ok replacements =>
          .call (.serverInstall listener.id expectedVersion secret replacements) fun
            | .error e => fail e
            | .ok () => do
              audit (ascii "rotate-server-psk") []
              pure (.issued { secret with material := mapped })

/-- `SetAccountEnabled`. -/
def setAccountEnabled (userID : Bytes) (enabled : Bool) : Handler Reply := do
  context
  .call (.enableRead userID enabled) fun
    | .error e => fail e
    | .ok none => do
      audit (if enabled then ascii "enable-account" else ascii "disable-account") userID
      pure .done
    | .ok (some (listener, user)) => do
      match ← serverMaterial listener with
      | .error _ => fail .typedHandlesUnavailable
      | .ok serverPSK => do
        let material ← resolveSecret user.secretRef user.secretVersion
        let engine ← ofExcept (engineFromMaterial C listener.method material serverPSK)
        .call (.enableInstall userID (listener, user) engine) fun
          | .error e => fail e
          | .ok () => do
            audit (ascii "enable-account") userID
            pure .done

/-- The server secret of a new account: the listener's, or a minted one. -/
def accountServerSecret (method generation : Bytes) (read : Bytes × Bytes) :
    Handler (Bytes × Bytes × Bytes) :=
  if !ss2022Method method then pure (read.1, read.2, [])
  else if read.1 ≠ [] ∧ read.2 ≠ [] then do
    let material ← resolveSecret read.1 read.2
    pure (read.1, read.2, material)
  else do
    let minted ← rotateVault serverPSKID serverPSKSecretRef initialSecretVersion generation
      (ascii "server-psk")
    let material ← resolveSecret minted.secretRef minted.secretVersion
    pure (minted.secretRef, minted.secretVersion, material)

/-- The password that a new client is shown. -/
def clientPassword (method material serverPSK : Bytes) : Except Err Bytes :=
  if !ss2022Method method then .ok material
  else match splitSS2022ClientPassword material with
    | some (server, user) => ss2022ClientPassword C method server user
    | none => ss2022ClientPassword C method serverPSK material

/-- The id of a new account. -/
def accountID (spec : AccountSpec) : Handler Bytes :=
  if spec.id = [] then
    .call .newAccountID fun
      | .error _ => fail .denied
      | .ok id => pure id
  else pure spec.id

/-- `CreateAccount`. -/
def createAccount (spec : AccountSpec) : Handler Reply := do
  context
  .call .createRead fun
    | .error e => fail e
    | .ok generation => do
      let method ← ofExcept (spec.resolveMethod defaultSS2022Method)
      let id ← accountID spec
      .call (.createEnsure method) fun
        | .error e => fail e
        | .ok read => do
          let (serverRef, serverVersion, serverPSK) ← accountServerSecret method generation read
          let secret ← rotateVault id (accountSecretRef id) initialSecretVersion generation
            (ascii "user")
          let material ← resolveSecret secret.secretRef secret.secretVersion
          let engine ← ofExcept (engineFromMaterial C method material serverPSK)
          let client ← ofExcept (clientPassword C method material serverPSK)
          .call (.createInstall { spec with id } { secret with material := client } engine
              serverRef serverVersion) fun
            | .error e => fail e
            | .ok user => do
              audit (ascii "create-account") user.id
              pure (.account user { secret with material := client })

inductive Request where
  | rotate (userID expectedVersion : Bytes)
  | rotateServerPSK (expectedVersion : Bytes)
  | setAccountEnabled (userID : Bytes) (enabled : Bool)
  | createAccount (spec : AccountSpec)
  | disable

def Request.program : Request → Handler Reply
  | .rotate userID expectedVersion => Service.rotate userID expectedVersion
  | .rotateServerPSK expectedVersion => Service.rotateServerPSK C expectedVersion
  | .setAccountEnabled userID enabled => Service.setAccountEnabled C userID enabled
  | .createAccount spec => Service.createAccount C spec
  | .disable => .call .disable fun _ => pure .done

end Operations

/-! ## Start -/

section Start

variable (C : Crypto) (K : PluginSDK) (resolve : Bytes → Bytes → Bytes)

/-- One turn of the user loop of `Initialize`. -/
def startUser (method serverPSK : Bytes) (engines : Engines) (user : User) : Except Err Engines :=
  if !user.enabled then .ok engines
  else do
    let engine ← engineFromMaterial C method (resolve user.secretRef user.secretVersion) serverPSK
    .ok (Function.update engines user.id (some engine))

/-- One turn of the listener loop of `Initialize`. -/
def startListener (engines : Engines) (listener : ListenRule) : Except Err Engines :=
  listener.users.foldlM
    (startUser C resolve listener.method
      (if listener.HasServerSecret then
        resolve listener.serverSecretRef listener.serverSecretVersion else []))
    engines

/-- `NewService` and `Initialize`, when every secret resolves. -/
def newService (c : Configuration) : Except Err State := do
  c.validate K
  let engines ← c.clone.listeners.foldlM (startListener C resolve) fun _ => none
  .ok { configuration := c.clone, engines, live := true, gate := none }

end Start

end Service

end NrePlugins.Shadowsocks
