import Nre.Base.Contract
import Nre.Base.Schedule
import Nre.Doh.Fresh

/-!
# Requests that overlap

Any number of valid requests at the same time, on one cache and one clock. The clock does
not go back, the upstreams give valid answers, there are slots, no deadline is reached, and
the service is not closed.

Requests may still fail because of each other. A request that has read the clock, but has
not yet recorded the reading, fails when another one records a later reading first; one that
looks into the cache with an old reading fails when it finds a newer entry
(`failed_by_another`). `requests_answered`: in every run in which neither happens, and in
which answers fit into the cache and can be aged, every request is answered.

The proof gives every call a contract. What is put into the cache is `Sound`; what is found
there is sound and not newer than the reading.
-/

namespace NrePlugins.Doh.Overlap

open List
open MemoryCache

variable (cfg : Configuration) (lib : HTTPLib) (L : RuneLower) (asked : HTTPRequest → Prop)

/-! ## The system -/

structure State where
  cache : MemoryCache
  lastNow : Option UInt64
  /-- The last reading of the clock. -/
  reading : UInt64

/-- An answer to a message: to its question, and with its id. -/
def ValidAnswer (message wire : Bytes) : Prop :=
  ∃ query metadata normalized, uint16At message 0 = query.id ∧
    canonicalQuestion message = some query.question ∧
    validateDNSResponse query wire = .ok (metadata, normalized)

def respond (_ : Nat) (s : State) : (c : Call) → Answer c → State → Prop
  | .parentErr, answer, s' => answer = none ∧ s' = s
  | .beginRequest, answer, s' => answer = .ok () ∧ s' = s
  | .ctxErr, answer, s' => answer = none ∧ s' = s
  | .acquireSlot, answer, s' => answer = true ∧ s' = s
  | .isLive, answer, s' => answer = true ∧ s' = s
  | .checkNow t, answer, s' =>
    if s.lastNow.all (· ≤ t) then answer = true ∧ s' = { s with lastNow := some t }
    else answer = false ∧ s' = s
  | .host .clockNow, answer, s' =>
    ∃ t, s.reading ≤ t ∧ answer = (.ok t, false) ∧ s' = { s with reading := t }
  | .host (.cacheGet key now), answer, s' =>
    answer = (.ok (s.cache.get key now).1, false) ∧ s' = { s with cache := (s.cache.get key now).2 }
  | .host (.resolve _ message), answer, s' =>
    ∃ wire, ValidAnswer message wire ∧ answer = (.ok wire, false) ∧ s' = s
  | .host (.cachePut key entry), answer, s' =>
    answer = ((s.cache.put key entry).1, false) ∧ s' = { s with cache := (s.cache.put key entry).2 }
  | _, _, s' => s' = s

/-- The requests are all from a given set. -/
def program (request : { request // asked request }) : Serve HTTPResponse :=
  serve cfg lib L request.1

abbrev ServeSystem := System Answer { request // asked request } Err HTTPResponse State

def Initial (s : ServeSystem asked) : Prop :=
  s.shared.cache = .new cfg.cacheEntries cfg.cacheBytes ∧ s.shared.lastNow = none ∧ s.threads = []

abbrev Step :
    ServeSystem asked → Label Answer { request // asked request } → ServeSystem asked → Prop :=
  System.Step (program cfg lib L asked) respond

/-- Requests that can be read and have an upstream, and whose digests tell them apart. -/
structure Servable : Prop where
  valid : ∀ request, asked request → ∃ query, parseHTTPRequest lib request = .ok query ∧
    cfg.upstreamsForName L (questionName query.question) ≠ []
  digests : ∀ request request', asked request → asked request' → DigestsTell lib request request'

/-! ## The condition -/

/-- The TTLs of an entry can be lowered to the seconds that are left. -/
def CanAge (entry : CacheEntry) (now : UInt64) : Prop :=
  (clampDNSResponseTTLs entry.response
    (((entry.expiresAt - now) / second).toNat % 2 ^ 32)).isOk = true

/-- A reading is recorded before any later one, and is far from the end of the clock; an entry
that is found is not newer than the reading, and can be aged; an entry that is put fits. -/
def InTime (s : State) : Call → Prop
  | .checkNow t => s.lastNow.all (· ≤ t) = true ∧ t.toNat + cfg.maxTTLSeconds * 10 ^ 9 < 2 ^ 64
  | .host (.cacheGet key now) =>
    ∀ entry ∈ (s.cache.get key now).1, entry.storedAt ≤ now ∧ CanAge entry now
  | .host (.cachePut key entry) =>
    ((key.length + entry.response.length : Nat) : Int) ≤ cfg.cacheBytes
  | _ => True

def Orderly (s : ServeSystem asked) : Label Answer { request // asked request } → Prop
  | .act _ event => InTime cfg s.shared event.1
  | _ => True

/-! ## Contracts -/

/-- An entry that holds an answer to a request under the key of the request. -/
def Sound (key : Bytes) (entry : CacheEntry) : Prop :=
  ∃ request query outbound ecsSource wire metadata, asked request ∧
    Asks lib request query outbound ecsSource ∧ key = cacheKey lib query ecsSource ∧
    validateDNSResponse query wire = .ok (metadata, entry.response) ∧
    storable cfg metadata = true ∧
    entry.expiresAt.toNat = entry.storedAt.toNat + usable cfg metadata.ttl

/-- What a request sees to when it makes a call. -/
def Pre : Call → Prop
  | .host (.cachePut key entry) => Sound cfg lib asked key entry
  | _ => True

/-- What it may count on. -/
def Fit : (c : Call) → Answer c → Prop
  | .parentErr, answer => answer = none
  | .beginRequest, answer => answer = .ok ()
  | .ctxErr, answer => answer = none
  | .acquireSlot, answer => answer = true
  | .isLive, answer => answer = true
  | .checkNow t, answer => answer = true ∧ t.toNat + cfg.maxTTLSeconds * 10 ^ 9 < 2 ^ 64
  | .host .clockNow, answer => ∃ t, answer = (.ok t, false)
  | .host (.cacheGet key now), answer => ∃ found, answer = (.ok found, false) ∧
    ∀ entry ∈ found, Sound cfg lib asked key entry ∧ entry.storedAt ≤ now ∧
      now < entry.expiresAt ∧ CanAge entry now
  | .host (.resolve _ message), answer => ∃ wire, ValidAnswer message wire ∧
    answer = (.ok wire, false)
  | .host (.cachePut _ _), answer => answer = (.ok (), false)
  | _, _ => True

variable {cfg lib L asked}

abbrev Contracts {α : Type} (cfg : Configuration) (lib : HTTPLib) (asked : HTTPRequest → Prop)
    (post : Except Err α → Prop) (p : Serve α) : Prop :=
  Meets (Pre cfg lib asked) (Fit cfg lib asked) post p

/-- An answer with status 200. -/
def Served (r : Except Err HTTPResponse) : Prop := ∃ resp, r = .ok resp ∧ resp.status = ascii "200"

/-! ## One request -/

theorem meets_ensureContext :
    Contracts cfg lib asked (fun r => ∃ a, r = .ok a ∧ True) ensureContext := by
  refine ⟨trivial, ?_⟩
  rintro _ rfl
  exact ⟨(), rfl, trivial⟩

theorem meets_ensureLive : Contracts cfg lib asked (fun r => ∃ a, r = .ok a ∧ True) ensureLive := by
  refine meets_ensureContext.bind_ok fun _ _ => ⟨trivial, ?_⟩
  rintro _ rfl
  exact ⟨(), rfl, trivial⟩

theorem meets_now : Contracts cfg lib asked
    (fun r => ∃ t, r = .ok t ∧ t.toNat + cfg.maxTTLSeconds * 10 ^ 9 < 2 ^ 64) now := by
  refine ⟨trivial, ?_⟩
  rintro _ ⟨t, rfl⟩
  refine ⟨trivial, ?_⟩
  rintro _ ⟨rfl, hfar⟩
  exact ⟨t, rfl, hfar⟩

/-- The entry expires when the answer says. -/
theorem expiry_eq {entry : CacheEntry} {ttl : Nat} (httl : ttl < 2 ^ 32)
    (hexpires : entry.expiresAt.toNat = entry.storedAt.toNat + usable cfg ttl) :
    entry.storedAt + lifetime (cappedTTL cfg ttl) = entry.expiresAt := by
  apply UInt64.toNat_inj.mp
  rw [UInt64.toNat_add, lifetime_eq httl, ← hexpires]
  exact Nat.mod_eq_of_lt entry.expiresAt.toNat_lt

variable {metadata : ResponseMetadata} {request : HTTPRequest} {query : ParsedQuery}
  {outbound ecsSource : Bytes}

/-- A sound entry of the same key answers the query. -/
theorem hitBody_of_sound (hservable : Servable cfg lib L asked) (hasked : asked request)
    (hasks : Asks lib request query outbound ecsSource) {entry : CacheEntry} {now : UInt64}
    (hsound : Sound cfg lib asked (cacheKey lib query ecsSource) entry)
    (hstored : entry.storedAt ≤ now) (hfresh : now < entry.expiresAt) (hage : CanAge entry now) :
    ∃ body, hitBody cfg query entry now = some body := by
  obtain ⟨request', query', outbound', ecsSource', wire, metadata, hasked', hasks', hkey, hvalid',
    hstorable, hexpires⟩ := hsound
  simp only [storable, Bool.and_eq_true, decide_eq_true_eq] at hstorable
  obtain ⟨⟨hcacheable, hmin⟩, hmax⟩ := hstorable
  obtain ⟨haccepted, hnormalized⟩ := validateDNSResponse_ok hvalid'
  have hlong := haccepted.long
  -- the entry was stored for the same question
  have hread := parseHTTPRequest_ok hasks.1
  have hsame := hservable.digests request request' hasked hasked' query query' hasks.1 hasks'.1
    (cacheKey_inj hkey).1
  have hquestion := hread.question_eq (parseHTTPRequest_ok hasks'.1) hsame
  have hcandidate := responseWithID_valid hvalid' query.id
  have hid : uint16At (putUint16 wire 0 query.id) 0 = query.id :=
    uint16At_putUint16 (by omega) (hread.id ▸ uint16At_lt _ _)
  have hvalid :=
    validateDNSResponse_body (agree_putUint16 (by omega) query.id) hquestion hid hvalid'
  -- and can be aged with the id of this one
  obtain ⟨body, hbody⟩ : ∃ body, clampDNSResponseTTLs (responseWithID entry.response query.id)
      (((entry.expiresAt - now) / second).toNat % 2 ^ 32) = .ok body := by
    have hlength : 2 ≤ entry.response.length := by
      rw [hnormalized, length_putAt (by simp; omega)]
      omega
    unfold responseWithID
    rw [if_neg (by omega)]
    unfold CanAge at hage
    cases hclamp : clampDNSResponseTTLs entry.response
        (((entry.expiresAt - now) / second).toNat % 2 ^ 32) with
    | error e =>
      rw [hclamp] at hage
      cases hage
    | ok body => exact clampDNSResponseTTLs_body (agree_putUint16 hlength query.id) hclamp
  refine ⟨body, ?_⟩
  have hexpiry := expiry_eq haccepted.ttl_lt hexpires
  have hpositive : 0 < usable cfg metadata.ttl := by
    rw [haccepted.cacheable, decide_eq_true_iff] at hcacheable
    unfold usable
    omega
  have hlifetime : lifetime (cappedTTL cfg metadata.ttl) ≠ 0 := by
    intro hzero
    have hnat : (lifetime (cappedTTL cfg metadata.ttl)).toNat = usable cfg metadata.ttl :=
      lifetime_eq haccepted.ttl_lt
    rw [hzero, UInt64.toNat_zero] at hnat
    omega
  have hbefore : entry.storedAt < entry.expiresAt := UInt64.lt_iff_toNat_lt.mpr (by omega)
  unfold hitBody
  simp only [hcandidate, hvalid] at hbody ⊢
  rw [if_neg (by simp [hcacheable]; omega), hexpiry, if_neg, hbody]
  simp only [not_or]
  exact ⟨hlifetime, UInt64.not_lt.mpr (UInt64.le_of_lt hbefore), UInt64.not_lt.mpr hstored,
    UInt64.not_le.mpr hfresh, UInt64.not_le.mpr hbefore, UInt64.not_lt.mpr (UInt64.le_refl _)⟩

theorem meets_serveHit {entry : CacheEntry} {now : UInt64}
    (h : ∃ body, hitBody cfg query entry now = some body) :
    Contracts cfg lib asked Served (serveHit cfg query entry now) := by
  obtain ⟨body, hbody⟩ := h
  unfold serveHit
  rw [hbody]
  exact meets_ensureLive.bind_ok fun _ _ => ⟨_, rfl, rfl⟩

section

variable (hasked : asked request) (hasks : Asks lib request query outbound ecsSource)

include hasked hasks

theorem meets_storeAnswer {wire normalized : Bytes}
    (hvalid : validateDNSResponse query wire = .ok (metadata, normalized))
    (hstorable : storable cfg metadata = true) :
    Contracts cfg lib asked (fun r => ∃ a, r = .ok a ∧ True)
      (storeAnswer cfg (cacheKey lib query ecsSource) normalized metadata) := by
  obtain ⟨haccepted, -⟩ := validateDNSResponse_ok hvalid
  refine meets_now.attempt_bind ?_
  rintro _ ⟨cacheNow, rfl, hfar⟩
  refine meets_ensureLive.bind_ok fun _ _ => ?_
  have hlifetime : (lifetime (cappedTTL cfg metadata.ttl)).toNat = usable cfg metadata.ttl :=
    lifetime_eq haccepted.ttl_lt
  have husable : usable cfg metadata.ttl ≤ cfg.maxTTLSeconds * 10 ^ 9 :=
    Nat.mul_le_mul_right _ (Nat.min_le_right _ _)
  have hfits : ¬ cacheNow + lifetime (cappedTTL cfg metadata.ttl) < cacheNow := by
    rw [UInt64.not_lt, UInt64.le_iff_toNat_le, UInt64.toNat_add]
    omega
  rw [if_neg hfits]
  refine Meets.ask ?_ ?_
  · exact ⟨request, query, outbound, ecsSource, wire, metadata, hasked, hasks, rfl, hvalid,
      hstorable, expires_eq haccepted.ttl_lt hfits⟩
  · rintro _ rfl
    exact meets_ensureLive

theorem meets_serveAnswer {wire normalized : Bytes}
    (hvalid : validateDNSResponse query wire = .ok (metadata, normalized)) (u : Upstream) :
    Contracts cfg lib asked Served
      (serveAnswer cfg query (cacheKey lib query ecsSource) u metadata normalized) := by
  refine meets_ensureLive.bind_ok fun _ _ => Meets.ask trivial fun _ _ => ?_
  split
  · rename_i hstorable
    exact (meets_storeAnswer hasked hasks hvalid hstorable).bind_ok fun _ _ => ⟨_, rfl, rfl⟩
  · exact ⟨_, rfl, rfl⟩

/-- The first upstream that is asked answers. -/
theorem meets_tryUpstreams {u : Upstream} {rest : List Upstream} (henabled : u.enabled = true) :
    Contracts cfg lib asked Served
      (tryUpstreams cfg query outbound (cacheKey lib query ecsSource) (u :: rest)) := by
  unfold tryUpstreams
  rw [henabled]
  refine Meets.ask trivial ?_
  rintro _ ⟨wire, ⟨query', metadata, normalized, hid, hquestion, hvalid⟩, rfl⟩
  -- what is valid for the message is valid for the query
  obtain ⟨hid', hquestion'⟩ :=
    (parseHTTPRequest_ok hasks.1).outbound (parseForwardedFor request.forwarded)
  rw [hasks.2] at hid' hquestion'
  obtain ⟨haccepted, -⟩ := validateDNSResponse_ok hvalid
  have hvalid' : validateDNSResponse query wire = .ok (metadata, putAt wire 0 [0, 0]) := by
    refine validateDNSResponse_body ⟨rfl, rfl⟩ ?_ ?_ hvalid
    · exact Option.some.inj (hquestion'.symm.trans hquestion)
    · exact haccepted.id.trans (hid.symm.trans hid')
  simp only [Bool.false_eq_true, if_false]
  rw [hvalid']
  exact meets_serveAnswer hasked hasks hvalid' u

end

section

variable (hservable : Servable cfg lib L asked) (hasked : asked request)

include hservable hasked

theorem meets_serveSlot (hasks : Asks lib request query outbound ecsSource) :
    Contracts cfg lib asked Served (serveSlot cfg lib L query outbound ecsSource) := by
  refine meets_ensureContext.bind_ok fun _ _ => meets_ensureLive.bind_ok fun _ _ =>
    meets_now.bind_ok fun now _ => meets_ensureLive.bind_ok fun _ _ => Meets.ask trivial ?_
  rintro _ ⟨found, rfl, hfound⟩
  refine meets_ensureLive.bind_ok fun _ _ => ?_
  cases found with
  | some entry =>
    obtain ⟨hsound, hstored, hfresh, hage⟩ := hfound entry rfl
    exact meets_serveHit (hitBody_of_sound hservable hasked hasks hsound hstored hfresh hage)
  | none =>
    obtain ⟨query', hquery', hsome⟩ := hservable.valid request hasked
    obtain rfl : query = query' := Except.ok.inj (hasks.1.symm.trans hquery')
    cases hups : cfg.upstreamsForName L (questionName query.question) with
    | nil => exact absurd hups hsome
    | cons u rest =>
      refine meets_tryUpstreams hasked hasks (Configuration.enabled_of_mem_upstreamsForName
        (hups ▸ mem_cons_self : u ∈ cfg.upstreamsForName L (questionName query.question)))

theorem meets_serveCounted : Contracts cfg lib asked Served (serveCounted cfg lib L request) := by
  obtain ⟨query, hquery, -⟩ := hservable.valid request hasked
  unfold serveCounted
  rw [hquery]
  refine Meets.ask trivial ?_
  rintro _ rfl
  refine (meets_serveSlot hservable hasked ⟨hquery, rfl⟩).attempt_bind fun r hr => ?_
  exact Meets.ask trivial fun _ _ => Meets.ask trivial fun _ _ => .ofExcept hr

theorem meets_serve : Contracts cfg lib asked Served (serve cfg lib L request) := by
  refine Meets.ask trivial ?_
  rintro _ rfl
  refine Meets.ask trivial ?_
  rintro _ rfl
  refine (meets_serveCounted hservable hasked).attempt_bind fun r hr => ?_
  exact Meets.ask trivial fun _ _ => .ofExcept hr

end

/-! ## All requests -/

variable (cfg lib asked) in
/-- The invariant: the cache is in order, and its entries are sound. -/
structure Inv (s : State) : Prop where
  accounted : s.cache.Accounted
  maxEntries : s.cache.maxEntries = cfg.cacheEntries
  maxBytes : s.cache.maxBytes = cfg.cacheBytes
  sound : ∀ x ∈ s.cache.entries, Sound cfg lib asked x.1 x.2.entry

theorem Inv.keeps {s s' : State} (h : Inv cfg lib asked s)
    (hkeeps : MemoryCache.Keeps s.cache s'.cache)
    (hsound : ∀ x ∈ s'.cache.entries, Sound cfg lib asked x.1 x.2.entry) : Inv cfg lib asked s' :=
  ⟨hkeeps.accounted, hkeeps.maxEntries.trans h.maxEntries, hkeeps.maxBytes.trans h.maxBytes, hsound⟩

/-- Every call is answered as its contract says, if it is made in time. -/
theorem fit_of_respond (hentries : 1 ≤ cfg.cacheEntries) {i : Nat} {s s' : State} {c : Call}
    {answer : Answer c} (hinv : Inv cfg lib asked s) (hpre : Pre cfg lib asked c)
    (hresp : respond i s c answer s') (hgood : InTime cfg s c) :
    Inv cfg lib asked s' ∧ Fit cfg lib asked c answer := by
  cases c with
  | checkNow t =>
    obtain ⟨hlater, hfar⟩ := hgood
    simp only [respond, if_pos hlater] at hresp
    obtain ⟨rfl, rfl⟩ := hresp
    exact ⟨⟨hinv.accounted, hinv.maxEntries, hinv.maxBytes, hinv.sound⟩, rfl, hfar⟩
  | host call =>
    cases call with
    | clockNow =>
      obtain ⟨t, -, rfl, rfl⟩ := hresp
      exact ⟨⟨hinv.accounted, hinv.maxEntries, hinv.maxBytes, hinv.sound⟩, t, rfl⟩
    | cacheGet key now =>
      obtain ⟨rfl, rfl⟩ := hresp
      refine ⟨hinv.keeps (keeps_get hinv.accounted key now)
        (fun x hx => hinv.sound x (mem_get hx)), _, rfl, ?_⟩
      intro entry hentry
      obtain ⟨hstored, hage⟩ := hgood entry hentry
      obtain ⟨⟨record, hrecord, rfl⟩, hfresh⟩ := get_some hentry
      exact ⟨hinv.sound _ hrecord, hstored, hfresh, hage⟩
    | resolve endpoint message =>
      obtain ⟨wire, hvalid, rfl, rfl⟩ := hresp
      exact ⟨hinv, wire, hvalid, rfl⟩
    | cachePut key entry =>
      obtain ⟨rfl, rfl⟩ := hresp
      obtain ⟨hkeeps, hput⟩ := put_spec hinv.accounted key entry
      refine ⟨hinv.keeps hkeeps ?_, ?_⟩
      · intro x hx
        rcases mem_put hx with hx | ⟨hkey, hentry⟩
        · exact hinv.sound x hx
        · rw [hkey, hentry]
          exact hpre
      · obtain ⟨_, query, _, ecsSource, _, _, _, _, rfl, -⟩ := hpre
        show (_, false) = (_, false)
        rw [hput (cacheKey_ne_nil query ecsSource) (hinv.maxEntries ▸ hentries)
          (hinv.maxBytes ▸ hgood)]
  | releaseRequest | cancel | returnSlot | updateStatus _ _ _ =>
    obtain rfl := hresp
    exact ⟨hinv, trivial⟩
  | parentErr | beginRequest | acquireSlot | ctxErr | isLive =>
    obtain ⟨rfl, rfl⟩ := hresp
    exact ⟨hinv, rfl⟩

theorem cacheEntries_pos (h : cfg.validate = .ok ()) : 1 ≤ cfg.cacheEntries := by
  unfold Configuration.validate at h
  split at h
  · cases h
  · omega

/-- As long as the requests are in time, every request that returns has been answered. -/
theorem requests_answered (hcfg : cfg.validate = .ok ()) (hservable : Servable cfg lib L asked)
    {s : ServeSystem asked}
    (h : Reachable (Initial cfg asked) (Guarded (Step cfg lib L asked) (Orderly cfg asked)) s)
    {t : Thread Answer { request // asked request } Err HTTPResponse} (ht : t ∈ s.threads)
    {r : Except Err HTTPResponse} (hr : t.result = some r) :
    ∃ resp, r = .ok resp ∧ resp.status = ascii "200" := by
  have hinit : ∀ s, Initial cfg asked s → Inv cfg lib asked s.shared ∧ s.threads = [] := by
    rintro s ⟨hcache, -, hthreads⟩
    refine ⟨⟨?_, ?_, ?_, ?_⟩, hthreads⟩ <;> rw [hcache]
    · exact accounted_new cfg.cacheEntries cfg.cacheBytes
    · rfl
    · rfl
    · nofun
  have hreach := (System.reachable_guarded_iff _ _ (fun _ s c _ => InTime cfg s c)
    (fun _ _ => trivial) (fun _ _ => trivial) fun _ _ _ _ => Iff.rfl).mp h
  obtain ⟨-, hthreads⟩ := System.meets_of_reachable _ hinit
    (fun request => meets_serve hservable request.2)
    (fun _ _ _ _ _ hinv hpre hresp =>
      fit_of_respond (cacheEntries_pos hcfg) hinv hpre hresp.1 hresp.2) hreach
  exact (hthreads t ht).2 r hr

/-! ## Two requests -/

namespace Two

open Sample (message answer post config)

/-- Two requests for one name. -/
def both (request : HTTPRequest) : Prop := request = post 1 'a' ∨ request = post 2 'A'

def one : { request // both request } := ⟨post 1 'a', .inl rfl⟩

def other : { request // both request } := ⟨post 2 'A', .inr rfl⟩

theorem servable : Servable config .plain .asciiOnly both := by
  refine ⟨?_, fun _ _ _ _ _ _ _ _ h => h⟩
  rintro _ (rfl | rfl) <;> decide

/-- Every reading of the clock is a second later. -/
def behave (_ : Nat) (s : State) : (c : Call) → Answer c × State
  | .parentErr => (none, s)
  | .beginRequest => (.ok (), s)
  | .releaseRequest => ((), s)
  | .acquireSlot => (true, s)
  | .cancel => ((), s)
  | .returnSlot => ((), s)
  | .ctxErr => (none, s)
  | .isLive => (true, s)
  | .checkNow t =>
    if s.lastNow.all (· ≤ t) then (true, { s with lastNow := some t }) else (false, s)
  | .updateStatus _ _ _ => ((), s)
  | .host .clockNow => ((.ok (s.reading + second), false), { s with reading := s.reading + second })
  | .host (.cacheGet key now) =>
    ((.ok (s.cache.get key now).1, false), { s with cache := (s.cache.get key now).2 })
  | .host (.resolve _ asked) =>
    ((.ok (if asked = message 1 'a' then answer 1 'a' else answer 2 'A'), false), s)
  | .host (.cachePut key entry) =>
    (((s.cache.put key entry).1, false), { s with cache := (s.cache.put key entry).2 })

/-- The calls that are answered so. -/
def Known (s : State) : Call → Prop
  | .host .clockNow => s.reading ≤ s.reading + second
  | .host (.resolve _ asked) => asked = message 1 'a' ∨ asked = message 2 'A'
  | _ => True

instance (s : State) (c : Call) : Decidable (Known s c) := by
  cases c with
  | host h => cases h <;> unfold Known <;> infer_instance
  | _ => exact .isTrue trivial

theorem validAnswer {asked wire : Bytes}
    (h : ∃ query, parseDNSQuery asked = .ok query ∧
      ∃ result, validateDNSResponse query wire = .ok result ∧ True) : ValidAnswer asked wire := by
  obtain ⟨query, hparse, result, hvalid, -⟩ := h
  have hread := parseDNSQuery_ok hparse
  exact ⟨query, result.1, result.2, hread.id.symm, hread.question, hvalid⟩

/-- Both questions, and the answers to them. -/
theorem validAnswers : ValidAnswer (message 1 'a') (answer 1 'a') ∧
    ValidAnswer (message 2 'A') (answer 2 'A') :=
  ⟨validAnswer (by decide), validAnswer (by decide)⟩

theorem respond_behave (i : Nat) (s : State) (c : Call) (h : Known s c) :
    respond i s c (behave i s c).1 (behave i s c).2 := by
  cases c with
  | host call =>
    cases call with
    | clockNow => exact ⟨_, h, rfl, rfl⟩
    | resolve endpoint asked =>
      refine ⟨_, ?_, rfl, rfl⟩
      rcases h with rfl | rfl
      · exact validAnswers.1
      · exact validAnswers.2
    | cacheGet | cachePut => exact ⟨rfl, rfl⟩
  | checkNow t =>
    simp only [behave, respond]
    split
    · exact ⟨rfl, rfl⟩
    · exact ⟨rfl, rfl⟩
  | releaseRequest | cancel | returnSlot | updateStatus _ _ _ => exact rfl
  | parentErr | beginRequest | acquireSlot | ctxErr | isLive => exact ⟨rfl, rfl⟩

def empty : ServeSystem both := ⟨⟨.new config.cacheEntries config.cacheBytes, none, 0⟩, []⟩

def start : ServeSystem both :=
  System.withRequests (program config .plain .asciiOnly both) empty [one, other]

theorem reachable_schedule {schedule : List Nat}
    (h : System.MayRun behave Known start schedule) :
    Reachable (Initial config both) (Step config .plain .asciiOnly both)
      (System.runSchedule behave start schedule) :=
  System.reachable_runSchedule respond_behave
    (System.reachable_withRequests (.start ⟨rfl, rfl, rfl⟩) _) h

/-- The first request reads the clock; the second one reads it and records its reading; the
first one goes on. -/
def readTooEarly : List Nat := replicate 7 0 ++ replicate 8 1 ++ replicate 5 0

/-- The first request reads the clock and records its reading; the second one is served; the
first one goes on. -/
def lookTooLate : List Nat := replicate 8 0 ++ replicate 40 1 ++ replicate 9 0

/-- The requests take turns. -/
def taking : List Nat := (replicate 40 [0, 1]).flatten

instance (entry : CacheEntry) (now : UInt64) : Decidable (CanAge entry now) :=
  inferInstanceAs (Decidable (_ = true))

instance (s : State) (c : Call) : Decidable (InTime config s c) := by
  cases c with
  | checkNow t => exact inferInstanceAs (Decidable (_ ∧ _))
  | host h =>
    cases h with
    | cacheGet key now =>
      exact inferInstanceAs (Decidable (∀ entry ∈ (s.cache.get key now).1, _ ∧ _))
    | cachePut key entry => exact inferInstanceAs (Decidable (_ ≤ _))
    | _ => exact .isTrue trivial
  | _ => exact .isTrue trivial

theorem reachable_inTime {schedule : List Nat}
    (h : System.MayRun behave (fun s c => Known s c ∧ InTime config s c) start schedule) :
    Reachable (Initial config both)
      (Guarded (Step config .plain .asciiOnly both) (Orderly config both))
      (System.runSchedule behave start schedule) := by
  refine (System.reachable_guarded_iff _ _ (fun _ s c _ => InTime config s c)
    (fun _ _ => trivial) (fun _ _ => trivial) fun _ _ _ _ => Iff.rfl).mpr ?_
  exact System.reachable_runSchedule (fun i s c h => ⟨respond_behave i s c h.1, h.2⟩)
    (System.reachable_withRequests (.start ⟨rfl, rfl, rfl⟩) _) h

/-- The three runs. -/
theorem runs :
    (System.MayRun behave (fun s c => Known s c ∧ InTime config s c) start taking ∧
      (System.runSchedule behave start taking).threads.length = 2 ∧
      ∀ t ∈ (System.runSchedule behave start taking).threads, t.result ≠ none) ∧
    (System.MayRun behave Known start readTooEarly ∧
      ∃ t ∈ (System.runSchedule behave start readTooEarly).threads,
        t.result = some (.error .clockUnavailable)) ∧
    System.MayRun behave Known start lookTooLate ∧
      ∃ t ∈ (System.runSchedule behave start lookTooLate).threads,
        t.result = some (.error .cacheUnavailable) := by
  decide

end Two

/-- Requests that take turns have both returned, and both have been answered. -/
theorem requests_answered_both :
    ∃ s, Reachable (Initial Sample.config Two.both)
        (Guarded (Step Sample.config .plain .asciiOnly Two.both)
          (Orderly Sample.config Two.both)) s ∧
      s.threads.length = 2 ∧ ∀ t ∈ s.threads, ∃ resp,
        t.result = some (.ok resp) ∧ resp.status = ascii "200" := by
  obtain ⟨⟨hmay, hlength, hreturned⟩, -, -⟩ := Two.runs
  refine ⟨_, Two.reachable_inTime hmay, hlength, fun t ht => ?_⟩
  obtain ⟨r, hresult⟩ := Option.ne_none_iff_exists'.mp (hreturned t ht)
  obtain ⟨resp, rfl, hstatus⟩ := requests_answered (by decide) Two.servable
    (Two.reachable_inTime hmay) ht hresult
  exact ⟨resp, hresult, hstatus⟩

/-- A request that reads the clock before another one records a later reading, and one that
looks into the cache after another one has stored a later answer. -/
theorem failed_by_another :
    Sample.config.validate = .ok () ∧ Servable Sample.config .plain .asciiOnly Two.both ∧
    (∃ s, Reachable (Initial Sample.config Two.both)
        (Step Sample.config .plain .asciiOnly Two.both) s ∧
      ∃ t ∈ s.threads, t.result = some (.error .clockUnavailable)) ∧
    ∃ s, Reachable (Initial Sample.config Two.both)
        (Step Sample.config .plain .asciiOnly Two.both) s ∧
      ∃ t ∈ s.threads, t.result = some (.error .cacheUnavailable) := by
  obtain ⟨-, ⟨hearly, hclock⟩, hlate, hcache⟩ := Two.runs
  exact ⟨by decide, Two.servable, ⟨_, Two.reachable_schedule hearly, hclock⟩,
    ⟨_, Two.reachable_schedule hlate, hcache⟩⟩

end NrePlugins.Doh.Overlap
