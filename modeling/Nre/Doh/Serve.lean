import Nre.Base.Interrupted
import Nre.Doh.Cache
import Nre.Doh.Domains
import Nre.Doh.Request

/-!
# Serving one request

`service.go`: `Service.serve` as a program. It is admitted, takes a slot, reads the clock,
looks into the cache, and asks one upstream after the other; an acceptable answer is stored
with a second reading of the clock.

A call is one access to what requests share, or one question to the host. The questions go
through `boundedHostCall`: the answer says whether the request went on without waiting for
the end of the call. How calls are answered depends on what is being proved, and so does
what a host call consists of.
-/

namespace NrePlugins.Doh

/-- What the service asks its host. -/
inductive Host where
  | clockNow
  | cacheGet (key : Bytes) (now : UInt64)
  | resolve (endpoint message : Bytes)
  | cachePut (key : Bytes) (entry : CacheEntry)
  deriving DecidableEq

abbrev Host.Value : Host → Type
  | .clockNow => UInt64
  | .cacheGet _ _ => Option CacheEntry
  | .resolve _ _ => Bytes
  | .cachePut _ _ => Unit

inductive Health where
  | healthy
  | timeout
  | failed
  | invalidResponse
  deriving DecidableEq

inductive Call where
  | parentErr
  | beginRequest
  | releaseRequest
  | acquireSlot
  /-- The deferred `cancel` of the request's context. -/
  | cancel
  /-- `slot.returned()`. -/
  | returnSlot
  | ctxErr
  | isLive
  /-- The section of `now` under `clockMu`. -/
  | checkNow (now : UInt64)
  | updateStatus (id : Bytes) (result : Health) (failed : Bool)
  | host (h : Host)

/-- A host call is answered by its value or an error, and whether the request has gone on
without it. -/
abbrev Answer : Call → Type
  | .parentErr | .ctxErr => Option Err
  | .beginRequest => Except Err Unit
  | .acquireSlot | .isLive | .checkNow _ => Bool
  | .host h => Except Err h.Value × Bool
  | _ => Unit

abbrev Serve (α : Type) := Prog Answer Err α

open Prog (ask)

/-! ## Pieces -/

def safeRuntimeError (err fallback : Err) : Err :=
  match err with
  | .canceled | .deadlineExceeded | .revoked => err
  | _ => fallback

/-- Fail if the context of the request is done. -/
def ensureContext : Serve Unit := do
  match ← ask Call.ctxErr with
  | some err => .fail err
  | none => return ()

def ensureLive : Serve Unit := do
  ensureContext
  if ← ask Call.isLive then return () else .fail .revoked

def now : Serve UInt64 := do
  match (← ask (Call.host .clockNow)).1 with
  | .error err => .fail (safeRuntimeError err .clockUnavailable)
  | .ok now => if ← ask (Call.checkNow now) then return now else .fail .clockUnavailable

/-- `time.Second`. -/
def second : UInt64 := 1000000000

/-- `uint64(ttl) * uint64(time.Second)`. -/
def lifetime (ttl : Nat) : UInt64 := UInt64.ofNat ttl * second

def okResponse (body : Bytes) (cacheHit : Bool) : HTTPResponse :=
  { status := ascii "200", contentType := dnsMediaType, body, cacheHit }

section Configured

variable (cfg : Configuration) (lib : HTTPLib) (L : RuneLower)

/-- An answer lives no longer than this. -/
def cappedTTL (ttl : Nat) : Nat := if ttl > cfg.maxTTLSeconds then cfg.maxTTLSeconds else ttl

/-- The body for an entry that was found, or `none` if the entry cannot be trusted. -/
def hitBody (query : ParsedQuery) (entry : CacheEntry) (now : UInt64) : Option Bytes :=
  let candidate := responseWithID entry.response query.id
  match validateDNSResponse query candidate with
  | .error _ => none
  | .ok (metadata, _) =>
    if !metadata.cacheable ∨ metadata.ttl < cfg.minTTLSeconds then none
    else
      let maxLifetime := lifetime (cappedTTL cfg metadata.ttl)
      let maxExpiry := entry.storedAt + maxLifetime
      if maxLifetime = 0 ∨ maxExpiry < entry.storedAt ∨ entry.storedAt > now ∨
          entry.expiresAt ≤ now ∨ entry.expiresAt ≤ entry.storedAt ∨
          entry.expiresAt > maxExpiry then none
      else
        let secondsLeft := ((entry.expiresAt - now) / second).toNat % 2 ^ 32
        match clampDNSResponseTTLs candidate secondsLeft with
        | .error _ => none
        | .ok body => some body

def serveHit (query : ParsedQuery) (entry : CacheEntry) (now : UInt64) : Serve HTTPResponse := do
  match hitBody cfg query entry now with
  | none => .fail .cacheUnavailable
  | some body =>
    ensureLive
    return okResponse body true

/-- Is an answer to be stored? -/
def storable (metadata : ResponseMetadata) : Bool :=
  metadata.cacheable && metadata.ttl ≥ cfg.minTTLSeconds && cfg.maxTTLSeconds > 0

def storeAnswer (key normalized : Bytes) (metadata : ResponseMetadata) : Serve Unit := do
  match ← now.attempt with
  | .error _ => .fail .clockUnavailable
  | .ok cacheNow =>
    ensureLive
    let expires := cacheNow + lifetime (cappedTTL cfg metadata.ttl)
    if expires < cacheNow then .fail .clockUnavailable
    else
      match (← ask (Call.host (.cachePut key ⟨normalized, cacheNow, expires⟩))).1 with
      | .error err => .fail (safeRuntimeError err .cacheUnavailable)
      | .ok _ => ensureLive

/-- An acceptable answer has come from an upstream. -/
def serveAnswer (query : ParsedQuery) (key : Bytes) (upstream : Upstream)
    (metadata : ResponseMetadata) (normalized : Bytes) : Serve HTTPResponse := do
  ensureLive
  ask (Call.updateStatus upstream.id .healthy false)
  if storable cfg metadata then
    storeAnswer cfg key normalized metadata
  return okResponse (responseWithID normalized query.id) false

def tryUpstreams (query : ParsedQuery) (outbound key : Bytes) :
    List Upstream → Serve HTTPResponse
  | [] => .fail .noHealthyUpstream
  | upstream :: rest => do
    if !upstream.enabled then tryUpstreams query outbound key rest
    else
      let (result, timedOut) ← ask (Call.host (.resolve upstream.endpoint outbound))
      if timedOut then
        ask (Call.updateStatus upstream.id .timeout true)
        ensureContext
        tryUpstreams query outbound key rest
      else
        match result with
        | .error _ =>
          ask (Call.updateStatus upstream.id .failed true)
          tryUpstreams query outbound key rest
        | .ok wire =>
          match validateDNSResponse query wire with
          | .error _ =>
            ask (Call.updateStatus upstream.id .invalidResponse true)
            tryUpstreams query outbound key rest
          | .ok (metadata, normalized) =>
            serveAnswer cfg query key upstream metadata normalized

/-! ## The request -/

/-- What a request does with its slot. -/
def serveSlot (query : ParsedQuery) (outbound ecsSource : Bytes) : Serve HTTPResponse := do
  ensureContext
  ensureLive
  let now ← now
  ensureLive
  let key := cacheKey lib query ecsSource
  match (← ask (Call.host (.cacheGet key now))).1 with
  | .error err => .fail (safeRuntimeError err .cacheUnavailable)
  | .ok found =>
    ensureLive
    match found with
    | some entry => serveHit cfg query entry now
    | none =>
      tryUpstreams cfg query outbound key (cfg.upstreamsForName L (questionName query.question))

/-- What a request does once it is counted. -/
def serveCounted (request : HTTPRequest) : Serve HTTPResponse := do
  let query ← Prog.ofExcept (parseHTTPRequest lib request)
  let (outbound, ecsSource) := applyOutboundECS query (parseForwardedFor request.forwarded)
  if ← ask Call.acquireSlot then
    let result ← (serveSlot cfg lib L query outbound ecsSource).attempt
    ask Call.cancel
    ask Call.returnSlot
    Prog.ofExcept result
  else .fail .concurrencyExhausted

def serve (request : HTTPRequest) : Serve HTTPResponse := do
  match ← ask Call.parentErr with
  | some err => .fail err
  | none =>
    Prog.ofExcept (← ask Call.beginRequest)
    let result ← (serveCounted cfg lib L request).attempt
    ask Call.releaseRequest
    Prog.ofExcept result

end Configured

end NrePlugins.Doh
