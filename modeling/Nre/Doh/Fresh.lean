import Nre.Doh.AnyId
import Nre.Doh.Serve

/-!
# Answers belong to the question, and do not outlive their TTL

Requests that are served one after the other, with any upstreams and any clock that does
not go back. A request that has gone on without waiting for a `Put` leaves it behind; it
may land at any later time, and entries may be evicted or expire in between.

`answers_fresh`: every answer with status 200 has the id and the question of its request.
It is the answer of the first upstream that gave an acceptable one, byte for byte; or an
earlier request for the same query obtained it, its TTL has not run out, and its TTLs say
no more than the whole seconds that are left.

The proof keeps one fact about the cache: each entry is `Sourced`, that is, some request
obtained it from an upstream and read the clock after that.
-/

namespace NrePlugins.Doh

open List

abbrev Log := List (Event Answer)

/-! ## The surroundings -/

structure World where
  cache : MemoryCache
  /-- What requests have put that went on without waiting for it. -/
  detached : List (Bytes × CacheEntry)
  lastNow : Option UInt64
  /-- The last reading of the clock. -/
  reading : UInt64

/-- What may have become of the cache since: entries are gone, puts have landed. -/
def World.Meanwhile (w : World) (c : MemoryCache) : Prop :=
  ∀ x ∈ c.entries, x ∈ w.cache.entries ∨ (x.1, x.2.entry) ∈ w.detached

/-- How a request is answered that is alone. Upstreams answer anything; every host call may
fail. -/
def World.respond (w : World) : (c : Call) → Answer c → World → Prop
  | .host .clockNow, (.ok t, _), w' => w.reading ≤ t ∧ w' = { w with reading := t }
  | .checkNow t, accepted, w' =>
    if w.lastNow.all (· ≤ t) then accepted = true ∧ w' = { w with lastNow := some t }
    else accepted = false ∧ w' = w
  | .host (.cacheGet key now), (.ok found, _), w' =>
    ∃ c, w.Meanwhile c ∧ found = (c.get key now).1 ∧ w' = { w with cache := (c.get key now).2 }
  | .host (.cachePut key entry), (result, _), w' =>
    (∃ c, w.Meanwhile c ∧ result = (c.put key entry).1 ∧
      w' = { w with cache := (c.put key entry).2 }) ∨
    result ≠ .ok () ∧ w' = { w with detached := (key, entry) :: w.detached }
  | _, _, w' => w' = w

/-- A request, what it has asked, and its result. -/
structure Visit where
  request : HTTPRequest
  events : Log
  result : Except Err HTTPResponse

variable (cfg : Configuration) (lib : HTTPLib) (L : RuneLower)

/-- Requests that are served one after the other. -/
inductive Session (w : World) : List Visit → World → Prop
  | start : Session w [] w
  | visit {w' w'' : World} {visits : List Visit} {request : HTTPRequest} {events : Log}
      {r : Except Err HTTPResponse} :
      Session w visits w' → Runs World.respond w' (serve cfg lib L request) events w'' r →
      Session w (visits ++ [⟨request, events, r⟩]) w''

/-- Nothing has been asked yet. -/
def World.New (w : World) : Prop := w.cache.entries = [] ∧ w.detached = []

/-! ## What is to be shown -/

/-- One question to an upstream. -/
structure Attempt where
  endpoint : Bytes
  message : Bytes
  answer : Except Err Bytes × Bool

def attemptOf : Event Answer → Option Attempt
  | ⟨.host (.resolve endpoint message), answer⟩ => some ⟨endpoint, message, answer⟩
  | _ => none

def attempts (log : Log) : List Attempt := log.filterMap attemptOf

/-- The answer arrived in time, and is one to the query. -/
def Acceptable (query : ParsedQuery) (answer : Except Err Bytes × Bool) : Prop :=
  ∃ wire metadata normalized, answer = (.ok wire, false) ∧
    validateDNSResponse query wire = .ok (metadata, normalized)

/-- An upstream was asked, and did not give an acceptable answer. -/
def Refused (query : ParsedQuery) (outbound : Bytes) (u : Upstream) (a : Attempt) : Prop :=
  a.endpoint = u.endpoint ∧ a.message = outbound ∧ ¬ Acceptable query a.answer

/-- The body is the answer of the first upstream of the name that gave an acceptable one. -/
def FromUpstream (query : ParsedQuery) (outbound : Bytes) (log : Log) (resp : HTTPResponse) :
    Prop :=
  resp.cacheHit = false ∧ Acceptable query (.ok resp.body, false) ∧
    ∃ tried u rest refused,
      cfg.upstreamsForName L (questionName query.question) = tried ++ u :: rest ∧
      attempts log = refused ++ [⟨u.endpoint, outbound, (.ok resp.body, false)⟩] ∧
      List.Forall₂ (Refused query outbound) tried refused

/-- The log of a request for `query`: an upstream answers `wire`, and the clock is then read
as `s`. -/
def ObtainedAt (log : Log) (outbound wire : Bytes) (s : UInt64) : Prop :=
  ∃ before after endpoint late,
    log = before ++ ⟨.host (.resolve endpoint outbound), (.ok wire, false)⟩ :: after ∧
    ⟨.host .clockNow, (.ok s, late)⟩ ∈ after

/-- A request asks `query`, with the message and the client subnet for its upstreams. -/
def Asks (request : HTTPRequest) (query : ParsedQuery) (outbound ecsSource : Bytes) : Prop :=
  parseHTTPRequest lib request = .ok query ∧
    applyOutboundECS query (parseForwardedFor request.forwarded) = (outbound, ecsSource)

/-- Nanoseconds for which an answer may be used. -/
def usable (ttl : Nat) : Nat := min ttl cfg.maxTTLSeconds * 10 ^ 9

/-- The body is an answer that an earlier request obtained for the same query (up to id and
case) and the same client subnet, at a time `s`. Its TTL has not run out, and the TTLs in the
body are limited to the whole seconds left; nothing else but the id has changed. -/
def FromCache (earlier : List Visit) (query : ParsedQuery) (ecsSource : Bytes) (log : Log)
    (resp : HTTPResponse) : Prop :=
  resp.cacheHit = true ∧ ∃ v ∈ earlier, ∃ query' outbound' wire metadata s now late,
    Asks lib v.request query' outbound' ecsSource ∧ query'.normalized = query.normalized ∧
    ObtainedAt v.events outbound' wire s ∧ Accepted query' wire metadata ∧
    ⟨.host .clockNow, (.ok now, late)⟩ ∈ log ∧
    now.toNat < s.toNat + usable cfg metadata.ttl ∧
    ∃ records, recordsOf (putUint16 wire 0 query.id) = .ok records ∧
      Lowers ((s.toNat + usable cfg metadata.ttl - now.toNat) / 10 ^ 9)
        (limitedIn (putUint16 wire 0 query.id) records) (putUint16 wire 0 query.id) resp.body

/-- An answer with status 200. -/
structure Answered (earlier : List Visit) (request : HTTPRequest) (log : Log)
    (resp : HTTPResponse) : Prop where
  status : resp.status = ascii "200"
  source : ∃ query outbound ecsSource, Asks lib request query outbound ecsSource ∧
    uint16At resp.body 0 = uint16At query.wire 0 ∧ uint16At resp.body 2 &&& 0x8000 ≠ 0 ∧
    canonicalQuestion resp.body = canonicalQuestion query.wire ∧
    (FromUpstream cfg L query outbound log resp ∨
      FromCache cfg lib earlier query ecsSource log resp)

/-! ## Where entries are from -/

/-- A request has obtained an answer that is fit to be stored as this entry. -/
def Obtained (request : HTTPRequest) (log : Log) (key : Bytes) (entry : CacheEntry) : Prop :=
  ∃ query outbound ecsSource wire metadata, Asks lib request query outbound ecsSource ∧
    key = cacheKey lib query ecsSource ∧ ObtainedAt log outbound wire entry.storedAt ∧
    validateDNSResponse query wire = .ok (metadata, entry.response) ∧
    entry.expiresAt.toNat = entry.storedAt.toNat + usable cfg metadata.ttl

/-- An earlier request has obtained the entry. -/
def ObtainedEarlier (earlier : List Visit) (key : Bytes) (entry : CacheEntry) : Prop :=
  ∃ v ∈ earlier, Obtained cfg lib v.request v.events key entry

/-- An earlier request, or this one, has obtained the entry. -/
def SourcedEntry (earlier : List Visit) (request : HTTPRequest) (log : Log) (key : Bytes)
    (entry : CacheEntry) : Prop :=
  ObtainedEarlier cfg lib earlier key entry ∨ Obtained cfg lib request log key entry

/-- All entries, and all that may still land. -/
structure Sourced (P : Bytes → CacheEntry → Prop) (w : World) : Prop where
  cache : ∀ x ∈ w.cache.entries, P x.1 x.2.entry
  detached : ∀ x ∈ w.detached, P x.1 x.2

variable {cfg lib L}

variable {P : Bytes → CacheEntry → Prop} {w : World} {log log' : Log} {wire : Bytes}

theorem Sourced.mono {Q : Bytes → CacheEntry → Prop} (h : Sourced P w)
    (himp : ∀ key entry, P key entry → Q key entry) : Sourced Q w :=
  ⟨fun x hx => himp _ _ (h.cache x hx), fun x hx => himp _ _ (h.detached x hx)⟩

theorem Sourced.meanwhile (h : Sourced P w) {c : MemoryCache} (hc : w.Meanwhile c) :
    ∀ x ∈ c.entries, P x.1 x.2.entry := by
  intro x hx
  rcases hc x hx with hx | hx
  · exact h.cache x hx
  · exact h.detached _ hx

theorem ObtainedAt.mono {outbound : Bytes} {s : UInt64} (h : ObtainedAt log outbound wire s)
    (hlog : log <+: log') :
    ObtainedAt log' outbound wire s := by
  obtain ⟨before, after, endpoint, late, rfl, hclock⟩ := h
  obtain ⟨more, rfl⟩ := hlog
  exact ⟨before, after ++ more, endpoint, late, by simp, mem_append_left _ hclock⟩

variable {entry : CacheEntry}

theorem Obtained.mono {request : HTTPRequest} {key : Bytes}
    (h : Obtained cfg lib request log key entry) (hlog : log <+: log') :
    Obtained cfg lib request log' key entry := by
  obtain ⟨query, outbound, ecsSource, wire, metadata, hasks, hkey, hat, hvalid, hexpires⟩ := h
  exact ⟨query, outbound, ecsSource, wire, metadata, hasks, hkey, hat.mono hlog, hvalid, hexpires⟩

/-! ## Calls that touch neither the cache nor the upstreams -/

/-- The state and the log of a request that has gone on. -/
structure Later (s s' : World × Log) : Prop where
  cache : s'.1.cache = s.1.cache
  detached : s'.1.detached = s.1.detached
  log : s.2 <+: s'.2
  attempts : attempts s'.2 = attempts s.2

theorem Later.refl (s : World × Log) : Later s s := ⟨rfl, rfl, prefix_rfl, rfl⟩

variable {s s' : World × Log}

theorem Later.trans {s'' : World × Log} (h : Later s s') (h' : Later s' s'') : Later s s'' :=
  ⟨h'.cache.trans h.cache, h'.detached.trans h.detached, h.log.trans h'.log,
    h'.attempts.trans h.attempts⟩

theorem Later.sourced (h : Later s s') (hs : Sourced P s.1) : Sourced P s'.1 :=
  ⟨h.cache ▸ hs.cache, h.detached ▸ hs.detached⟩

/-- Not the cache, and not an upstream. -/
def Plain : Call → Prop
  | .host (.cacheGet _ _) | .host (.cachePut _ _) | .host (.resolve _ _) => False
  | _ => True

theorem later_of_plain {c : Call} {answer : Answer c} (h : recorded World.respond s c answer s')
    (hc : Plain c) : Later s s' := by
  obtain ⟨hresp, hlog⟩ := h
  have hattempts : attempts s'.2 = attempts s.2 := by
    have hnone : attemptOf ⟨c, answer⟩ = none := by
      cases c with
      | host hst => cases hst <;> first | rfl | exact absurd hc id
      | _ => rfl
    rw [hlog, attempts, filterMap_append, filterMap_cons_none hnone]
    simp [attempts]
  refine ⟨?_, ?_, hlog ▸ prefix_append _ _, hattempts⟩ <;>
  · cases c with
    | host hst =>
      cases hst with
      | clockNow =>
        obtain ⟨result, late⟩ := answer
        cases result with
        | ok t => rw [hresp.2]
        | error e => rw [show s'.1 = s.1 from hresp]
      | _ => exact absurd hc id
    | checkNow t =>
      simp only [World.respond] at hresp
      split at hresp <;> rw [hresp.2]
    | _ => rw [show s'.1 = s.1 from hresp]

/-- The judgement about one request: what holds of the state, the log and the result. -/
abbrev Judge {α : Type} (post : World × Log → Except Err α → Prop) (p : Serve α)
    (s : World × Log) : Prop :=
  Always (recorded World.respond) (fun _ => True) post p s

variable {α β : Type} {p : Serve α} {mid : World × Log → Except Err α → Prop}
  {last : World × Log → Except Err β → Prop}

theorem judge_plain (h : Only Plain p) (s : World × Log) : Judge (fun s' _ => Later s s') p s := by
  suffices ∀ s', Later s s' → Judge (fun s' _ => Later s s') p s' from this s (.refl s)
  induction p with
  | ret | fail => exact fun s' hs' => ⟨trivial, hs'⟩
  | call c next ih =>
    intro s' hs'
    obtain ⟨hc, hnext⟩ := h
    refine ⟨trivial, fun answer s'' hresp => ?_⟩
    exact ih answer (hnext answer () trivial) s'' (hs'.trans (later_of_plain hresp hc))

theorem judge_bind {f : α → Serve β}
    (hp : Judge mid p s) (hok : ∀ s' a, mid s' (.ok a) → Judge last (f a) s')
    (herror : ∀ s' e, mid s' (.error e) → last s' (.error e)) : Judge last (p >>= f) s := by
  refine Always.bind (Always.mono ?_ hp)
  rintro s' (e | a) - hmid
  · exact herror s' e hmid
  · exact hok s' a hmid

/-- A part of the program whose failure is looked at. -/
theorem judge_attempt {f : Except Err α → Serve β}
    (hp : Judge mid p s) (hnext : ∀ s' r, mid s' r → Judge last (f r) s') :
    Judge last (p.attempt >>= f) s :=
  hp.attemptThen fun s' r _ => hnext s' r

/-- A part of the program that only makes plain calls. -/
theorem judge_then (hplain : Only Plain p) {f : α → Serve β}
    (hok : ∀ s' a, Later s s' → Judge last (f a) s')
    (herror : ∀ s' e, Later s s' → last s' (.error e)) : Judge last (p >>= f) s :=
  judge_bind (judge_plain hplain s) hok herror

theorem plain_ensureContext : Only Plain ensureContext := by
  refine ⟨trivial, ?_⟩
  rintro (_ | err) _ _ <;> trivial

theorem plain_ensureLive : Only Plain ensureLive := by
  refine Only.bind plain_ensureContext fun _ => ⟨trivial, ?_⟩
  rintro (_ | _) _ _ <;> trivial

/-- A reading that is returned is in the log. -/
theorem judge_now (s : World × Log) :
    Judge (fun s' r => Later s s' ∧ ∀ t, r = .ok t → ∃ late added, s'.2 = s.2 ++ added ∧
      ⟨.host .clockNow, (.ok t, late)⟩ ∈ added) now s := by
  refine Always.ask trivial ?_
  rintro ⟨result, late⟩ s₁ hresp
  have hlater := later_of_plain hresp trivial
  cases result with
  | error err => exact ⟨trivial, hlater, nofun⟩
  | ok t =>
    refine Always.ask trivial ?_
    intro accepted s₂ hresp₂
    have hlater₂ := hlater.trans (later_of_plain hresp₂ trivial)
    cases accepted with
    | false => exact ⟨trivial, hlater₂, nofun⟩
    | true =>
      refine ⟨trivial, hlater₂, ?_⟩
      intro t' ht'
      cases ht'
      refine ⟨late, [⟨.host .clockNow, (.ok t, late)⟩, ⟨.checkNow t, true⟩], ?_, mem_cons_self⟩
      rw [hresp₂.2, hresp.2]
      simp

/-! ## Answers from the cache -/

variable {now : UInt64} {body : Bytes} {ttl : Nat}

theorem hitBody_spec {query : ParsedQuery} (h : hitBody cfg query entry now = some body) :
    ∃ metadata normalized,
      validateDNSResponse query (responseWithID entry.response query.id) =
        .ok (metadata, normalized) ∧
      entry.storedAt ≤ now ∧ now < entry.expiresAt ∧
      clampDNSResponseTTLs (responseWithID entry.response query.id)
        (((entry.expiresAt - now) / second).toNat % 2 ^ 32) = .ok body := by
  revert h
  fun_cases hitBody cfg query entry now with
  | case5 _ metadata normalized hvalid _ _ _ hexpiry _ clamped hclamp =>
    rintro ⟨⟩
    simp only [not_or] at hexpiry
    obtain ⟨-, -, hstored, hexpires, -, -⟩ := hexpiry
    exact ⟨metadata, normalized, hvalid, UInt64.not_lt.mp hstored, UInt64.not_le.mp hexpires,
      hclamp⟩
  | _ => nofun

/-- The whole seconds left, as the code computes them. -/
theorem secondsLeft_eq (httl : ttl < 2 ^ 32) (hstored : entry.storedAt ≤ now)
    (hfresh : now < entry.expiresAt)
    (hexpires : entry.expiresAt.toNat = entry.storedAt.toNat + usable cfg ttl) :
    ((entry.expiresAt - now) / second).toNat % 2 ^ 32 =
      (entry.storedAt.toNat + usable cfg ttl - now.toNat) / 10 ^ 9 := by
  have hstored' := UInt64.le_iff_toNat_le.mp hstored
  have hsecond : second.toNat = 10 ^ 9 := by decide
  rw [UInt64.toNat_div, UInt64.toNat_sub_of_le _ _ (UInt64.le_of_lt hfresh), hsecond, hexpires]
  refine Nat.mod_eq_of_lt ?_
  have husable : usable cfg ttl ≤ ttl * 10 ^ 9 :=
    Nat.mul_le_mul_right _ (Nat.min_le_left _ _)
  omega

variable {metadata : ResponseMetadata}

/-- What is left of an accepted answer after its TTLs have been lowered. -/
theorem body_of_lowers {query : ParsedQuery} {candidate : Bytes} {limit : Nat}
    (hlimit : limit < 2 ^ 32) (haccepted : Accepted query candidate metadata)
    (h : clampDNSResponseTTLs candidate limit = .ok body) :
    uint16At body 0 = query.id ∧ uint16At body 2 &&& 0x8000 ≠ 0 ∧
      canonicalQuestion body = some query.question ∧
      ∃ records, recordsOf candidate = .ok records ∧
        Lowers limit (limitedIn candidate records) candidate body := by
  obtain ⟨records, hrecords, -⟩ := haccepted.records
  obtain ⟨⟨questionEnd, name⟩, hquestion, -⟩ := bind_eq_ok.mp hrecords
  obtain ⟨hlowers, hbehind⟩ := clampDNSResponseTTLs_ok hlimit hquestion hrecords h
  have hsame := hlowers.before hbehind
  refine ⟨?_, ?_, ?_, records, hrecords, hlowers⟩
  · rw [← uint16At_congr fun i hi => hsame i (by omega)]
    exact haccepted.id
  · rw [← uint16At_congr fun i hi => hsame i (by omega)]
    exact haccepted.isResponse
  · rw [canonicalQuestion_congr (Nat.le_of_eq hlowers.length.symm) hquestion
      (fun i _ hi => by rw [hsame i (by omega)]) (fun i _ hi => (hsame i hi).symm)]
    exact haccepted.question

/-! ## One request -/

section Request

variable {earlier : List Visit} {request : HTTPRequest} {query : ParsedQuery}
  {outbound ecsSource : Bytes} {normalized : Bytes}

/-- What has to hold when a request is done, whatever its result. -/
def Done (cfg : Configuration) (lib : HTTPLib) (L : RuneLower) (earlier : List Visit)
    (request : HTTPRequest) (s : World × Log) (r : Except Err HTTPResponse) : Prop :=
  Sourced (SourcedEntry cfg lib earlier request s.2) s.1 ∧
    ∀ resp, r = .ok resp → Answered cfg lib L earlier request s.2 resp

theorem SourcedEntry.mono {key : Bytes} (h : SourcedEntry cfg lib earlier request log key entry)
    (hlog : log <+: log') :
    SourcedEntry cfg lib earlier request log' key entry :=
  h.imp_right fun hhere => hhere.mono hlog

/-- Every entry was obtained earlier or by the request itself. -/
abbrev Held (cfg : Configuration) (lib : HTTPLib) (earlier : List Visit) (request : HTTPRequest)
    (s : World × Log) : Prop :=
  Sourced (SourcedEntry cfg lib earlier request s.2) s.1

theorem Held.later (h : Held cfg lib earlier request s) (hlater : Later s s') :
    Held cfg lib earlier request s' :=
  hlater.sourced (h.mono fun _ _ hentry => hentry.mono hlater.log)

theorem Answered.later {resp : HTTPResponse} (h : Answered cfg lib L earlier request s.2 resp)
    (hlater : Later s s') :
    Answered cfg lib L earlier request s'.2 resp := by
  obtain ⟨hstatus, query, outbound, ecsSource, hasks, hid, hflag, hquestion, hsource⟩ := h
  refine ⟨hstatus, query, outbound, ecsSource, hasks, hid, hflag, hquestion, hsource.imp ?_ ?_⟩
  · rintro ⟨hhit, hacceptable, tried, u, rest, refused, hups, hattempts, hrefused⟩
    exact ⟨hhit, hacceptable, tried, u, rest, refused, hups, hlater.attempts.trans hattempts,
      hrefused⟩
  · rintro ⟨hhit, v, hv, query', outbound', wire, metadata, t, now, late, hasks', hsame, hat,
      haccepted, hclock, hrest⟩
    exact ⟨hhit, v, hv, query', outbound', wire, metadata, t, now, late, hasks', hsame, hat,
      haccepted, hlater.log.subset hclock, hrest⟩

theorem Done.later {r : Except Err HTTPResponse} (h : Done cfg lib L earlier request s r)
    (hlater : Later s s') :
    Done cfg lib L earlier request s' r :=
  ⟨Held.later h.1 hlater, fun resp hr => (h.2 resp hr).later hlater⟩

/-- A request that fails has only to leave the entries as they should be. -/
theorem done_error (h : Held cfg lib earlier request s) (e : Err) :
    Done cfg lib L earlier request s (.error e) :=
  ⟨h, nofun⟩

theorem done_ok {resp : HTTPResponse} (h : Held cfg lib earlier request s)
    (hresp : Answered cfg lib L earlier request s.2 resp) :
    Done cfg lib L earlier request s (.ok resp) :=
  ⟨h, fun _ hr => Except.ok.inj hr ▸ hresp⟩

theorem Done.of_later (hs : Held cfg lib earlier request s) (hlater : Later s s') (e : Err) :
    Done cfg lib L earlier request s' (.error e) :=
  (done_error hs e).later hlater

theorem responseWithID_valid (h : validateDNSResponse query wire = .ok (metadata, normalized))
    (id : Nat) : responseWithID normalized id = putUint16 wire 0 id := by
  obtain ⟨-, rfl⟩ := validateDNSResponse_ok h
  exact responseWithID_normalized id

/-- The body of an answer from an upstream is that answer. -/
theorem responseWithID_accepted (h : validateDNSResponse query wire = .ok (metadata, normalized)) :
    responseWithID normalized query.id = wire := by
  obtain ⟨haccepted, -⟩ := validateDNSResponse_ok h
  have hlong := haccepted.long
  rw [responseWithID_valid h, ← haccepted.id]
  exact putUint16_self (by omega)

theorem lifetime_eq (httl : ttl < 2 ^ 32) :
    (lifetime (cappedTTL cfg ttl)).toNat = usable cfg ttl := by
  have hcapped : cappedTTL cfg ttl = min ttl cfg.maxTTLSeconds := by
    unfold cappedTTL
    split <;> omega
  rw [lifetime, UInt64.toNat_mul, UInt64.toNat_ofNat', hcapped, usable,
    show second.toNat = 10 ^ 9 by decide, Nat.mod_eq_of_lt (show min ttl cfg.maxTTLSeconds <
      2 ^ 64 by omega)]
  exact Nat.mod_eq_of_lt (by omega)

/-- The time at which an answer expires, when it is not beyond the clock. -/
theorem expires_eq {cacheNow : UInt64} (httl : ttl < 2 ^ 32)
    (h : ¬ cacheNow + lifetime (cappedTTL cfg ttl) < cacheNow) :
    (cacheNow + lifetime (cappedTTL cfg ttl)).toNat = cacheNow.toNat + usable cfg ttl := by
  have hlifetime : (lifetime (cappedTTL cfg ttl)).toNat = usable cfg ttl := lifetime_eq httl
  have hno := UInt64.not_lt.mp h
  rw [UInt64.le_iff_toNat_le, UInt64.toNat_add] at hno
  rw [UInt64.toNat_add]
  have husable : usable cfg ttl < 2 ^ 64 := by
    rw [← hlifetime]
    exact UInt64.toNat_lt _
  omega

section Asked

variable (hasks : Asks lib request query outbound ecsSource)

include hasks

theorem answered_of_hit (htell : ∀ v ∈ earlier, DigestsTell lib v.request request) {late : Bool}
    (hentry : ObtainedEarlier cfg lib earlier (cacheKey lib query ecsSource) entry)
    (hclock : ⟨.host .clockNow, (.ok now, late)⟩ ∈ s.2)
    (hbody : hitBody cfg query entry now = some body) :
    Answered cfg lib L earlier request s.2 (okResponse body true) := by
  obtain ⟨v, hv, query', outbound', ecsSource', wire, metadata', hasks', hkey, hat, hvalid',
    hexpires⟩ := hentry
  obtain ⟨hdigest, rfl⟩ := cacheKey_inj hkey
  have hsame := htell v hv query' query hasks'.1 hasks.1 hdigest.symm
  obtain ⟨haccepted', -⟩ := validateDNSResponse_ok hvalid'
  obtain ⟨metadata, normalized, hvalid, hstored, hfresh, hclamp⟩ := hitBody_spec hbody
  rw [responseWithID_valid hvalid' query.id] at hvalid hclamp
  obtain ⟨haccepted, -⟩ := validateDNSResponse_ok hvalid
  obtain ⟨hid, hflag, hquestion, records, hrecords, hlowers⟩ :=
    body_of_lowers (Nat.mod_lt _ (by decide)) haccepted hclamp
  rw [secondsLeft_eq haccepted'.ttl_lt hstored hfresh hexpires] at hlowers
  obtain ⟨-, hid₀, hquestion₀, -⟩ := parseHTTPRequest_ok hasks.1
  refine ⟨rfl, query, outbound, ecsSource, hasks, hid.trans hid₀, hflag,
    hquestion.trans hquestion₀.symm, .inr ⟨rfl, v, hv, query', outbound', wire, metadata',
      entry.storedAt, now, late, hasks', hsame, hat, haccepted', hclock, ?_, records, hrecords,
      hlowers⟩⟩
  rw [← hexpires]
  exact UInt64.lt_iff_toNat_lt.mp hfresh

theorem answered_of_upstream {rest : List Upstream}
    (hvalid : validateDNSResponse query wire = .ok (metadata, normalized))
    (hups : cfg.upstreamsForName L (questionName query.question) = tried ++ u :: rest)
    (hattempts : attempts s.2 = refused ++ [⟨u.endpoint, outbound, (.ok wire, false)⟩])
    (hrefused : List.Forall₂ (Refused query outbound) tried refused) :
    Answered cfg lib L earlier request s.2
      (okResponse (responseWithID normalized query.id) false) := by
  obtain ⟨haccepted, -⟩ := validateDNSResponse_ok hvalid
  obtain ⟨-, hid₀, hquestion₀, -⟩ := parseHTTPRequest_ok hasks.1
  rw [responseWithID_accepted hvalid]
  exact ⟨rfl, query, outbound, ecsSource, hasks, haccepted.id.trans hid₀, haccepted.isResponse,
    haccepted.question.trans hquestion₀.symm, .inl ⟨rfl, ⟨wire, metadata, normalized, rfl, hvalid⟩,
      tried, u, rest, refused, hups, hattempts, hrefused⟩⟩

/-- Storing an answer keeps the entries sourced. -/
theorem judge_storeAnswer {before after : Log} {endpoint : Bytes}
    (hvalid : validateDNSResponse query wire = .ok (metadata, normalized))
    (hlog : s.2 = before ++ ⟨.host (.resolve endpoint outbound), (.ok wire, false)⟩ :: after)
    (hs : Held cfg lib earlier request s) :
    Judge (fun s' _ => Held cfg lib earlier request s' ∧ attempts s'.2 = attempts s.2)
      (storeAnswer cfg (cacheKey lib query ecsSource) normalized metadata) s := by
  -- what holds as long as nothing has been stored
  have hkept : ∀ {s'}, Later s s' →
      Held cfg lib earlier request s' ∧ attempts s'.2 = attempts s.2 :=
    fun hlater => ⟨Held.later hs hlater, hlater.attempts⟩
  refine judge_attempt (judge_now s) ?_
  rintro s₁ (e | cacheNow) ⟨hlater₁, hclock⟩
  · exact ⟨trivial, hkept hlater₁⟩
  obtain ⟨late, added, hadded, hclock⟩ := hclock cacheNow rfl
  refine judge_then plain_ensureLive ?_ (fun s' e hlater => hkept (hlater₁.trans hlater))
  intro s₂ _ hlater₂
  simp only
  split
  · exact ⟨trivial, hkept (hlater₁.trans hlater₂)⟩
  rename_i hexpires
  refine Always.ask trivial ?_
  rintro ⟨result, late'⟩ s₃ ⟨hresp, hlog₃⟩
  obtain ⟨hs₂, hattempts₂⟩ := hkept (hlater₁.trans hlater₂)
  have hobtained : Obtained cfg lib request s₂.2 (cacheKey lib query ecsSource)
      ⟨normalized, cacheNow, cacheNow + lifetime (cappedTTL cfg metadata.ttl)⟩ := by
    obtain ⟨haccepted, -⟩ := validateDNSResponse_ok hvalid
    refine ⟨query, outbound, ecsSource, wire, metadata, hasks, rfl, ?_, hvalid,
      expires_eq haccepted.ttl_lt hexpires⟩
    have hat : ObtainedAt s₁.2 outbound wire cacheNow := by
      refine ⟨before, after ++ added, endpoint, late, ?_, mem_append_right _ hclock⟩
      rw [hadded, hlog]
      simp
    exact hat.mono hlater₂.log
  have hprefix₃ : s₂.2 <+: s₃.2 := hlog₃ ▸ prefix_append _ _
  have hattempts₃ : attempts s₃.2 = attempts s₂.2 := by
    rw [hlog₃, attempts, attempts]
    simp [attemptOf]
  have hs₃ : Held cfg lib earlier request s₃ := by
    have hmono := hs₂.mono fun _ _ h => h.mono hprefix₃
    have hnew := hobtained.mono hprefix₃
    rcases hresp with ⟨c, hc, -, hs₃⟩ | ⟨-, hs₃⟩
    · rw [Held, hs₃]
      refine ⟨fun x hx => ?_, hmono.detached⟩
      rcases MemoryCache.mem_put hx with hx | ⟨hkey, hentry⟩
      · exact hmono.meanwhile hc x hx
      · rw [hkey, hentry]
        exact .inr hnew
    · rw [Held, hs₃]
      exact ⟨hmono.cache, forall_mem_cons.mpr ⟨.inr hnew, hmono.detached⟩⟩
  have hdone : ∀ {s'}, Later s₃ s' →
      Held cfg lib earlier request s' ∧ attempts s'.2 = attempts s.2 := fun hlater =>
    ⟨Held.later hs₃ hlater, hlater.attempts.trans (hattempts₃.trans hattempts₂)⟩
  cases result with
  | error err => exact ⟨trivial, hdone (.refl s₃)⟩
  | ok _ => exact Always.mono (fun _ _ _ hlater => hdone hlater) (judge_plain plain_ensureLive s₃)

theorem judge_serveHit (htell : ∀ v ∈ earlier, DigestsTell lib v.request request) {late : Bool}
    (hs : Held cfg lib earlier request s)
    (hentry : ObtainedEarlier cfg lib earlier (cacheKey lib query ecsSource) entry)
    (hclock : ⟨.host .clockNow, (.ok now, late)⟩ ∈ s.2) :
    Judge (Done cfg lib L earlier request) (serveHit cfg query entry now) s := by
  unfold serveHit
  cases hbody : hitBody cfg query entry now with
  | none => exact ⟨trivial, done_error hs _⟩
  | some body =>
    refine judge_then plain_ensureLive ?_ (fun s' e hlater => Done.of_later hs hlater e)
    intro s₁ _ hlater
    exact ⟨trivial, (done_ok hs (answered_of_hit hasks htell hentry hclock hbody)).later hlater⟩

theorem judge_serveAnswer {rest : List Upstream} {before : Log}
    (hs : Held cfg lib earlier request s)
    (hvalid : validateDNSResponse query wire = .ok (metadata, normalized))
    (hups : cfg.upstreamsForName L (questionName query.question) = tried ++ u :: rest)
    (hlog : s.2 = before ++ [⟨.host (.resolve u.endpoint outbound), (.ok wire, false)⟩])
    (hbefore : attempts before = refused)
    (hrefused : List.Forall₂ (Refused query outbound) tried refused) :
    Judge (Done cfg lib L earlier request)
      (serveAnswer cfg query (cacheKey lib query ecsSource) u metadata normalized) s := by
  have hattempts : attempts s.2 = refused ++ [⟨u.endpoint, outbound, (.ok wire, false)⟩] := by
    rw [hlog, attempts, filterMap_append, ← hbefore]
    rfl
  refine judge_then plain_ensureLive ?_ (fun s' e hlater => Done.of_later hs hlater e)
  intro s₁ _ hlater₁
  refine Always.ask trivial ?_
  intro _ s₂ hresp
  have hlater₂ := hlater₁.trans (later_of_plain hresp trivial)
  have hs₂ := Held.later hs hlater₂
  have hattempts₂ := hlater₂.attempts.trans hattempts
  split
  · obtain ⟨added, hadded⟩ := hlater₂.log
    have hlog₂ : s₂.2 = before ++
        ⟨.host (.resolve u.endpoint outbound), (.ok wire, false)⟩ :: added := by
      rw [← hadded, hlog]
      simp
    refine judge_bind (judge_storeAnswer hasks hvalid hlog₂ hs₂) ?_ ?_
    · rintro s₃ _ ⟨hs₃, hattempts₃⟩
      exact ⟨trivial, done_ok hs₃
        (answered_of_upstream hasks hvalid hups (hattempts₃.trans hattempts₂) hrefused)⟩
    · exact fun s₃ e h => done_error h.1 e
  · exact ⟨trivial, done_ok hs₂ (answered_of_upstream hasks hvalid hups hattempts₂ hrefused)⟩

theorem judge_tryUpstreams (ups tried : List Upstream)
    (hups : cfg.upstreamsForName L (questionName query.question) = tried ++ ups)
    (hs : Held cfg lib earlier request s)
    (hrefused : List.Forall₂ (Refused query outbound) tried (attempts s.2)) :
    Judge (Done cfg lib L earlier request)
      (tryUpstreams cfg query outbound (cacheKey lib query ecsSource) ups) s := by
  induction ups generalizing tried s with
  | nil => exact ⟨trivial, done_error hs _⟩
  | cons u rest ih =>
    have henabled : u.enabled = true := by
      have hu : u ∈ cfg.upstreamsForName L (questionName query.question) := by
        rw [hups]
        simp
      exact Configuration.enabled_of_mem_upstreamsForName hu
    unfold tryUpstreams
    rw [henabled]
    refine Always.ask trivial ?_
    rintro ⟨result, timedOut⟩ s₁ ⟨hresp, hlog⟩
    have hworld : s₁.1 = s.1 := hresp
    have hs₁ : Held cfg lib earlier request s₁ := by
      rw [Held, hworld, hlog]
      exact hs.mono fun _ _ h => h.mono (prefix_append _ _)
    have hattempts : attempts s₁.2 =
        attempts s.2 ++ [⟨u.endpoint, outbound, (result, timedOut)⟩] := by
      rw [hlog, attempts, filterMap_append]
      rfl
    -- after a refusal the rest of the upstreams are asked, with plain calls in between
    have hnext : ¬ Acceptable query (result, timedOut) → ∀ s₂, Later s₁ s₂ →
        Judge (Done cfg lib L earlier request)
          (tryUpstreams cfg query outbound (cacheKey lib query ecsSource) rest) s₂ := by
      intro hanswer s₂ hlater
      refine ih (tried ++ [u]) (by simpa using hups) (Held.later hs₁ hlater) ?_
      rw [hlater.attempts, hattempts]
      exact rel_append hrefused (.cons ⟨rfl, rfl, hanswer⟩ .nil)
    have hstatus : ∀ {health : Health} {a : Unit} {s₂},
        recorded World.respond s₁ (.updateStatus u.id health true) a s₂ → Later s₁ s₂ :=
      fun h => later_of_plain h trivial
    cases timedOut with
    | true =>
      have hlate : ¬ Acceptable query (result, true) := by rintro ⟨_, _, _, ⟨⟩, -⟩
      refine Always.ask trivial fun _ s₂ hresp₂ => ?_
      refine judge_then plain_ensureContext ?_ ?_
      · intro s₃ _ hlater
        exact hnext hlate s₃ ((hstatus hresp₂).trans hlater)
      · intro s₃ e hlater
        exact Done.of_later hs₁ ((hstatus hresp₂).trans hlater) e
    | false =>
      cases result with
      | error err =>
        have herror : ¬ Acceptable query (.error err, false) := by rintro ⟨_, _, _, ⟨⟩, -⟩
        exact Always.ask trivial fun _ s₂ hresp₂ => hnext herror s₂ (hstatus hresp₂)
      | ok wire =>
        simp only [Bool.false_eq_true, if_false]
        split
        · rename_i err hinvalid
          have hrejected : ¬ Acceptable query (.ok wire, false) := by
            rintro ⟨_, _, _, ⟨⟩, hvalid⟩
            cases hinvalid.symm.trans hvalid
          exact Always.ask trivial fun _ s₂ hresp₂ => hnext hrejected s₂ (hstatus hresp₂)
        · rename_i metadata normalized hvalid
          exact judge_serveAnswer hasks hs₁ hvalid hups hlog rfl hrefused

/-- A request with a slot. What it finds in the cache is from earlier requests. -/
theorem judge_serveSlot (htell : ∀ v ∈ earlier, DigestsTell lib v.request request)
    (hs : Sourced (ObtainedEarlier cfg lib earlier) s.1)
    (hnone : attempts s.2 = []) :
    Judge (Done cfg lib L earlier request) (serveSlot cfg lib L query outbound ecsSource) s := by
  have hfail : ∀ {s'} (e : Err), Later s s' → Done cfg lib L earlier request s' (.error e) :=
    fun e hlater => Done.of_later (hs.mono fun _ _ h => .inl h) hlater e
  refine judge_then plain_ensureContext ?_ fun s' e hlater => hfail e hlater
  intro s₁ _ hlater₁
  refine judge_then plain_ensureLive ?_ fun s' e hlater => hfail e (hlater₁.trans hlater)
  intro s₂ _ hlater₂
  refine judge_bind (judge_now s₂) ?_ fun s' e h => hfail e (hlater₁.trans (hlater₂.trans h.1))
  rintro s₃ now ⟨hlater₃, hnow⟩
  obtain ⟨late, added, hadded, hclock⟩ := hnow now rfl
  refine judge_then plain_ensureLive ?_
    fun s' e hlater => hfail e (hlater₁.trans (hlater₂.trans (hlater₃.trans hlater)))
  intro s₄ _ hlater₄
  have hlater := hlater₁.trans (hlater₂.trans (hlater₃.trans hlater₄))
  have hs₄ := hlater.sourced hs
  have hclock₄ : ⟨.host .clockNow, (.ok now, late)⟩ ∈ s₄.2 := by
    refine hlater₄.log.subset ?_
    rw [hadded]
    exact mem_append_right _ hclock
  refine Always.ask trivial ?_
  rintro ⟨result, late'⟩ s₅ ⟨hresp, hlog⟩
  have hattempts₅ : attempts s₅.2 = [] := by
    rw [hlog, attempts, filterMap_append]
    exact (append_nil _).trans (hlater.attempts.trans hnone)
  cases result with
  | error err =>
    refine ⟨trivial, done_error ?_ _⟩
    rw [Held, show s₅.1 = s₄.1 from hresp]
    exact hs₄.mono fun _ _ h => .inl h
  | ok found =>
    obtain ⟨c, hc, hfound, hworld⟩ := hresp
    have hs₅ : Held cfg lib earlier request s₅ := by
      rw [Held, hworld]
      refine ⟨fun x hx => .inl ?_, fun x hx => .inl (hs₄.detached x hx)⟩
      exact hs₄.meanwhile hc x (MemoryCache.mem_get hx)
    refine judge_then plain_ensureLive ?_ fun s' e hlater => Done.of_later hs₅ hlater e
    intro s₆ _ hlater₆
    have hs₆ := Held.later hs₅ hlater₆
    cases found with
    | none =>
      refine judge_tryUpstreams hasks _ [] rfl hs₆ ?_
      rw [hlater₆.attempts, hattempts₅]
      exact .nil
    | some entry =>
      obtain ⟨⟨record, hrecord, rfl⟩, -⟩ := MemoryCache.get_some hfound.symm
      have hlog : s₄.2 <+: s₆.2 := (hlog ▸ prefix_append _ _ : s₄.2 <+: s₅.2).trans hlater₆.log
      exact judge_serveHit hasks htell hs₆ (hs₄.meanwhile hc _ hrecord) (hlog.subset hclock₄)

end Asked

/-! ## Runs -/

section

variable (htell : ∀ v ∈ earlier, DigestsTell lib v.request request)
  (hs : Sourced (ObtainedEarlier cfg lib earlier) s.1) (hnone : attempts s.2 = [])

include htell hs hnone

theorem judge_serveCounted :
    Judge (Done cfg lib L earlier request) (serveCounted cfg lib L request) s := by
  unfold serveCounted
  cases hparse : parseHTTPRequest lib request with
  | error e => exact ⟨trivial, done_error (hs.mono fun _ _ h => .inl h) e⟩
  | ok query =>
    have hasks : Asks lib request query
        (applyOutboundECS query (parseForwardedFor request.forwarded)).1
        (applyOutboundECS query (parseForwardedFor request.forwarded)).2 := ⟨hparse, rfl⟩
    refine Always.ask trivial ?_
    intro acquired s₁ hresp
    have hlater := later_of_plain hresp trivial
    cases acquired with
    | false => exact ⟨trivial, Done.of_later (hs.mono fun _ _ h => .inl h) hlater _⟩
    | true =>
      refine judge_attempt
        (judge_serveSlot hasks htell (hlater.sourced hs) (hlater.attempts.trans hnone)) ?_
      intro s₂ result hdone
      refine Always.ask trivial fun _ s₃ hcancel => Always.ask trivial fun _ s₄ hreturn => ?_
      have hend := (later_of_plain hcancel trivial).trans (later_of_plain hreturn trivial)
      cases result with
      | error | ok => exact ⟨trivial, hdone.later hend⟩

theorem judge_serve : Judge (Done cfg lib L earlier request) (serve cfg lib L request) s := by
  have hfail : ∀ {s'} (e : Err), Later s s' → Done cfg lib L earlier request s' (.error e) :=
    fun e hlater => Done.of_later (hs.mono fun _ _ h => .inl h) hlater e
  refine Always.ask trivial ?_
  intro parent s₁ hparent
  have hlater₁ := later_of_plain hparent trivial
  cases parent with
  | some err => exact ⟨trivial, hfail err hlater₁⟩
  | none =>
    refine Always.ask trivial ?_
    intro begun s₂ hbegin
    have hlater₂ := hlater₁.trans (later_of_plain hbegin trivial)
    cases begun with
    | error err => exact ⟨trivial, hfail err hlater₂⟩
    | ok _ =>
      refine judge_attempt
        (judge_serveCounted htell (hlater₂.sourced hs) (hlater₂.attempts.trans hnone)) ?_
      intro s₃ result hdone
      refine Always.ask trivial fun _ s₄ hrelease => ?_
      have hend := later_of_plain hrelease trivial
      cases result with
      | error | ok => exact ⟨trivial, hdone.later hend⟩

end

end Request

/-- What a session leaves behind are entries that its requests have obtained. -/
theorem Session.sourced {w' : World} {visits : List Visit} (h : Session cfg lib L w visits w')
    (hnew : w.New) (htell : ∀ v ∈ visits, ∀ v' ∈ visits, DigestsTell lib v.request v'.request) :
    Sourced (ObtainedEarlier cfg lib visits) w' ∧
      ∀ earlier v later, visits = earlier ++ v :: later → ∀ resp, v.result = .ok resp →
        Answered cfg lib L earlier v.request v.events resp := by
  induction h with
  | start =>
    exact ⟨⟨by simp [hnew.1], by simp [hnew.2]⟩, by simp⟩
  | @visit w₁ w₂ visits request events r _ hrun ih =>
    have hlast : ⟨request, events, r⟩ ∈ visits ++ [⟨request, events, r⟩] := by simp
    obtain ⟨hs, hanswers⟩ := ih fun v hv v' hv' =>
      htell v (mem_append_left _ hv) v' (mem_append_left _ hv')
    have hrun' : Runs (recorded World.respond) (w₁, []) (serve cfg lib L request) events
        (w₂, events) r := hrun.record []
    obtain ⟨-, hsourced, hanswer⟩ : True ∧ Done cfg lib L visits request (w₂, events) r :=
      (judge_serve (fun v hv => htell v (mem_append_left _ hv) _ hlast) hs rfl).runs hrun'
    refine ⟨hsourced.mono ?_, ?_⟩
    · rintro key entry (⟨v, hv, hobtained⟩ | hobtained)
      · exact ⟨v, mem_append_left _ hv, hobtained⟩
      · exact ⟨_, hlast, hobtained⟩
    · intro earlier v later hsplit
      -- the visit is the last one, or one of those before
      rcases eq_nil_or_concat later with rfl | ⟨later, last, rfl⟩
      · obtain ⟨rfl, hlast⟩ := append_inj' hsplit rfl
        obtain rfl := head_eq_of_cons_eq hlast
        exact hanswer
      · rw [concat_eq_append, ← cons_append, ← append_assoc] at hsplit
        exact hanswers earlier v later (append_inj' hsplit rfl).1

/-- Every answer is one to its request: from the first upstream that gave an acceptable one, or
an earlier one whose TTL has not run out. The digests of the requests have to tell them apart. -/
theorem answers_fresh {w w' : World} {visits earlier later : List Visit} {v : Visit}
    {resp : HTTPResponse} (hnew : w.New) (h : Session cfg lib L w visits w')
    (htell : ∀ v ∈ visits, ∀ v' ∈ visits, DigestsTell lib v.request v'.request)
    (hvisit : visits = earlier ++ v :: later) (hresp : v.result = .ok resp) :
    Answered cfg lib L earlier v.request v.events resp :=
  (h.sourced hnew htell).2 earlier v later hvisit resp hresp

/-! ## Two requests -/

namespace Sample

def config : Configuration :=
  applyConfigurationDefaults ⟨0, 0, 0, 0, 0, 0, 0, []⟩

/-- A question for the address of a name of one letter. -/
def message (id : UInt8) (letter : Char) : Bytes :=
  [0, id, 1, 0, 0, 1, 0, 0, 0, 0, 0, 0] ++ [1, ch letter, 0, 0, 1, 0, 1]

/-- The answer to it, good for a minute. -/
def answer (id : UInt8) (letter : Char) : Bytes :=
  [0, id, 0x81, 0x80, 0, 1, 0, 1, 0, 0, 0, 0] ++ [1, ch letter, 0, 0, 1, 0, 1] ++
    [0xc0, 12, 0, 1, 0, 1, 0, 0, 0, 60, 0, 4, 192, 0, 2, 1]

def post (id : UInt8) (letter : Char) : HTTPRequest :=
  { method := ascii "POST", query := [], contentType := dnsMediaType, accept := [],
    forwarded := [], body := message id letter }

def start : World := ⟨.new config.cacheEntries config.cacheBytes, [], none, 5000000000⟩

/-- The clock stands still, nothing fails, and the upstreams know one answer. -/
def behave (w : World) : (c : Call) → Answer c × World
  | .parentErr => (none, w)
  | .beginRequest => (.ok (), w)
  | .releaseRequest => ((), w)
  | .acquireSlot => (true, w)
  | .cancel => ((), w)
  | .returnSlot => ((), w)
  | .ctxErr => (none, w)
  | .isLive => (true, w)
  | .checkNow t =>
    if w.lastNow.all (· ≤ t) then (true, { w with lastNow := some t }) else (false, w)
  | .updateStatus _ _ _ => ((), w)
  | .host .clockNow => ((.ok w.reading, false), w)
  | .host (.cacheGet key now) =>
    ((.ok (w.cache.get key now).1, false), { w with cache := (w.cache.get key now).2 })
  | .host (.resolve _ _) => ((.ok (answer 1 'a'), false), w)
  | .host (.cachePut key entry) =>
    (((w.cache.put key entry).1, false), { w with cache := (w.cache.put key entry).2 })

theorem respond_behave (w : World) (c : Call) : w.respond c (behave w c).1 (behave w c).2 := by
  have hnow : w.Meanwhile w.cache := fun x hx => .inl hx
  cases c with
  | host h =>
    cases h with
    | clockNow => exact ⟨UInt64.le_refl _, rfl⟩
    | cacheGet key now => exact ⟨w.cache, hnow, rfl, rfl⟩
    | resolve endpoint message => exact rfl
    | cachePut key entry => exact .inl ⟨w.cache, hnow, rfl, rfl⟩
  | checkNow t =>
    simp only [behave, World.respond]
    split <;> exact ⟨rfl, rfl⟩
  | _ => exact rfl

def served (request : HTTPRequest) (w : World) : Except Err HTTPResponse × World :=
  (serve config .plain .asciiOnly request).runWith behave w

/-- The second of two requests for one name is answered from the cache. -/
theorem second_served : ∃ resp, (served (post 2 'A') (served (post 1 'a') start).2).1 = .ok resp ∧
    resp.cacheHit = true ∧ resp.body = answer 2 'a' := by
  decide

end Sample

open Sample

/-- A question in other letters is answered from the cache. -/
theorem answers_fresh_second : ∃ v v' resp w', Session config .plain .asciiOnly start
    [v, v'] w' ∧ v'.result = .ok resp ∧ resp.body = answer 2 'a' ∧
    Answered config .plain .asciiOnly [v] v'.request v'.events resp := by
  have hrun := Runs.runWith respond_behave
    (serve config .plain .asciiOnly (post 1 'a')) start
  have hrun' := Runs.runWith respond_behave
    (serve config .plain .asciiOnly (post 2 'A'))
    (served (post 1 'a') start).2
  obtain ⟨resp, hresult, -, hbody⟩ := second_served
  have hsession := Session.visit (.visit .start hrun) hrun'
  exact ⟨_, _, resp, _, hsession, hresult, hbody,
    answers_fresh ⟨rfl, rfl⟩ hsession (fun _ _ _ _ _ _ _ _ h => h)
      (show _ = [_] ++ _ :: [] from rfl) hresult⟩

end NrePlugins.Doh
