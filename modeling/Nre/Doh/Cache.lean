import Nre.Doh.Wire

/-!
# The TTL cache

`cache.go`: a map with a bound on the number of entries and on their bytes. A new entry
replaces the one under its key and then evicts the oldest entries until it fits.

- `mem_put`, `mem_get`: an entry in the cache is one that was put under its key;
- `put_spec`: an entry that fits into an empty cache fits, whatever is there. It needs
  `Accounted`, which every operation keeps: `bytes` is the sum of the sizes.
-/

namespace NrePlugins.Doh

open List

/-- Times are nanoseconds of a monotonic clock. -/
structure CacheEntry where
  response : Bytes
  storedAt : UInt64
  expiresAt : UInt64
  deriving DecidableEq

structure MemoryCacheRecord where
  entry : CacheEntry
  size : Nat
  order : Nat

/-- The map is a list without two records for one key. -/
structure MemoryCache where
  entries : List (Bytes × MemoryCacheRecord)
  maxEntries : Int
  maxBytes : Int
  bytes : Int
  order : Nat

open MemoryCache

namespace MemoryCache

def new (maxEntries maxBytes : Int) : MemoryCache := ⟨[], maxEntries, maxBytes, 0, 0⟩

variable (c : MemoryCache)

def lookup (key : Bytes) : Option MemoryCacheRecord :=
  (c.entries.find? (·.1 == key)).map (·.2)

/-- `delete`, with the bytes that become free. -/
def remove (key : Bytes) : MemoryCache :=
  match c.lookup key with
  | none => c
  | some record =>
    { c with entries := c.entries.filter (·.1 != key), bytes := c.bytes - record.size }

def get (key : Bytes) (now : UInt64) : Option CacheEntry × MemoryCache :=
  match c.lookup key with
  | none => (none, c)
  | some record =>
    if now ≥ record.entry.expiresAt then (none, c.remove key) else (some record.entry, c)

/-- The loop over the map that looks for the least order, then the least key. -/
def oldestOf : List (Bytes × MemoryCacheRecord) → Bytes → Nat → Bytes
  | [], oldestKey, _ => oldestKey
  | (key, record) :: rest, oldestKey, oldest =>
    if oldestKey = [] ∨ record.order < oldest ∨ record.order = oldest ∧ key < oldestKey then
      oldestOf rest key record.order
    else oldestOf rest oldestKey oldest

/-- Evict until a record of the given size fits; `turns` is at least the number of entries. -/
def makeRoom (size : Nat) : Nat → MemoryCache → Except Err Unit × MemoryCache
  | 0, c => (.error .cacheUnavailable, c)
  | turns + 1, c =>
    if c.entries.length ≥ c.maxEntries ∨ c.bytes + size > c.maxBytes then
      let oldestKey := oldestOf c.entries [] 0
      if oldestKey = [] then (.error .cacheUnavailable, c)
      else makeRoom size turns (c.remove oldestKey)
    else (.ok (), c)

def put (key : Bytes) (entry : CacheEntry) : Except Err Unit × MemoryCache :=
  if key.length = 0 ∨ entry.response.length > c.maxBytes then (.error .cacheUnavailable, c)
  else
    let c := c.remove key
    let record := ⟨entry, key.length + entry.response.length, c.order + 1⟩
    match makeRoom record.size (c.entries.length + 1) c with
    | (.error err, c) => (.error err, { c with order := record.order })
    | (.ok _, c) =>
      (.ok (), { c with entries := c.entries ++ [(key, record)], bytes := c.bytes + record.size,
                        order := record.order })

def reset : MemoryCache := { c with entries := [], bytes := 0 }

/-! ## Where entries are from -/

variable {c : MemoryCache} {key : Bytes} {x : Bytes × MemoryCacheRecord}

theorem lookup_some {record : MemoryCacheRecord} (h : c.lookup key = some record) :
    (key, record) ∈ c.entries := by
  obtain ⟨⟨key', record'⟩, hfind, rfl⟩ := Option.map_eq_some_iff.mp h
  have hkey : key' = key := by simpa using find?_some hfind
  exact hkey ▸ mem_of_find?_eq_some hfind

/-- Whether or not it is there. -/
theorem entries_remove (c : MemoryCache) (key : Bytes) :
    (c.remove key).entries = c.entries.filter (·.1 != key) := by
  fun_cases remove c key with
  | case1 hnone =>
    have hfind := find?_eq_none.mp (Option.map_eq_none_iff.mp hnone)
    exact (filter_eq_self.mpr fun x hx => by simpa using hfind x hx).symm
  | case2 => rfl

theorem mem_remove (h : x ∈ (c.remove key).entries) : x ∈ c.entries :=
  mem_of_mem_filter (entries_remove c key ▸ h)

theorem mem_get {now : UInt64} (h : x ∈ (c.get key now).2.entries) : x ∈ c.entries := by
  revert h
  fun_cases get c key now with
  | case2 => exact mem_remove
  | _ => exact id

theorem get_some {now : UInt64} {entry : CacheEntry} (h : (c.get key now).1 = some entry) :
    (∃ record, (key, record) ∈ c.entries ∧ record.entry = entry) ∧ now < entry.expiresAt := by
  revert h
  fun_cases get c key now with
  | case3 record hrecord hfresh =>
    rintro ⟨⟩
    exact ⟨⟨record, lookup_some hrecord, rfl⟩, UInt64.not_le.mp hfresh⟩
  | _ => nofun

theorem mem_makeRoom {size turns : Nat} {result : Except Err Unit} {left : MemoryCache}
    (h : makeRoom size turns c = (result, left)) (hx : x ∈ left.entries) : x ∈ c.entries := by
  fun_induction makeRoom size turns c with
  | case3 turns c _ _ _ ih => exact mem_remove (ih h)
  | _ =>
    cases h
    exact hx

/-- What is in the cache after a `Put` was there before, or has been put. -/
theorem mem_put {entry : CacheEntry} (h : x ∈ (c.put key entry).2.entries) :
    x ∈ c.entries ∨ x.1 = key ∧ x.2.entry = entry := by
  revert h
  fun_cases put c key entry with
  | case1 => exact .inl
  | case2 _ _ _ _ _ hroom => exact fun h => .inl (mem_remove (mem_makeRoom hroom h))
  | case3 _ _ _ _ _ hroom =>
    intro h
    rcases mem_append.mp h with hold | hnew
    · exact .inl (mem_remove (mem_makeRoom hroom hold))
    · obtain rfl := mem_singleton.mp hnew
      exact .inr ⟨rfl, rfl⟩

/-! ## What fits -/

/-- The keys are told apart, and the bytes are counted. -/
structure Accounted (c : MemoryCache) : Prop where
  nodup : (c.entries.map (·.1)).Nodup
  named : ∀ x ∈ c.entries, x.1 ≠ []
  bytes : c.bytes = ((c.entries.map fun x => x.2.size).sum : Nat)

theorem accounted_new (maxEntries maxBytes : Int) : (new maxEntries maxBytes).Accounted :=
  ⟨nodup_nil, fun _ hx => absurd hx not_mem_nil, rfl⟩

/-- Without the record of a key, its size is gone from the sum. -/
theorem sum_filter_key {entries : List (Bytes × MemoryCacheRecord)} {record : MemoryCacheRecord}
    (hnodup : (entries.map (·.1)).Nodup) (hmem : (key, record) ∈ entries) :
    ((entries.filter (·.1 != key)).map fun x => x.2.size).sum + record.size =
      (entries.map fun x => x.2.size).sum := by
  induction entries with
  | nil => cases hmem
  | cons x rest ih =>
    rw [map_cons, nodup_cons] at hnodup
    rcases mem_cons.mp hmem with rfl | hrest
    · have hsame : rest.filter (·.1 != key) = rest := by
        rw [filter_eq_self]
        intro y hy
        have hne : y.1 ≠ key := fun heq => hnodup.1 (mem_map.mpr ⟨y, hy, heq⟩)
        simpa using hne
      rw [filter_cons_of_neg (by simp), hsame, map_cons, sum_cons, Nat.add_comm]
    · have hne : x.1 ≠ key := fun heq => hnodup.1 (mem_map.mpr ⟨_, hrest, heq.symm⟩)
      rw [filter_cons_of_pos (by simpa using hne), map_cons, sum_cons, map_cons, sum_cons]
      have hsum := ih hnodup.2 hrest
      omega

theorem Accounted.remove (h : c.Accounted) (key : Bytes) : (c.remove key).Accounted := by
  refine ⟨?_, fun x hx => h.named x (mem_remove hx), ?_⟩
  · rw [entries_remove]
    exact h.nodup.sublist (filter_sublist.map _)
  · fun_cases MemoryCache.remove c key with
    | case1 => exact h.bytes
    | case2 record hrecord =>
      have hsum := sum_filter_key h.nodup (lookup_some hrecord)
      have hbytes := h.bytes
      simp only
      omega

theorem not_mem_remove (c : MemoryCache) (key : Bytes) :
    key ∉ (c.remove key).entries.map (·.1) := by
  rw [entries_remove]
  simp

theorem length_remove_lt (h : key ∈ c.entries.map (·.1)) :
    (c.remove key).entries.length < c.entries.length := by
  obtain ⟨x, hx, hkey⟩ := mem_map.mp h
  rw [entries_remove]
  exact length_filter_lt_length_iff_exists.mpr ⟨x, hx, by simp [hkey]⟩

/-- The search finds a key of the map, once there is one. -/
theorem oldestOf_mem (entries : List (Bytes × MemoryCacheRecord)) (oldestKey : Bytes)
    (oldest : Nat) (hnamed : ∀ x ∈ entries, x.1 ≠ []) :
    oldestOf entries oldestKey oldest ∈ entries.map (·.1) ∨
      oldestOf entries oldestKey oldest = oldestKey ∧ (oldestKey = [] → entries = []) := by
  fun_induction oldestOf entries oldestKey oldest with
  | case1 => exact .inr ⟨rfl, fun _ => rfl⟩
  | case2 key record rest _ _ _ ih =>
    rcases ih (forall_mem_cons.mp hnamed).2 with hmem | ⟨heq, -⟩
    · exact .inl (mem_cons_of_mem _ hmem)
    · exact .inl (mem_map.mpr ⟨(key, record), mem_cons_self, heq.symm⟩)
  | case3 key record rest _ _ hkeep ih =>
    rcases ih (forall_mem_cons.mp hnamed).2 with hmem | ⟨heq, -⟩
    · exact .inl (mem_cons_of_mem _ hmem)
    · exact .inr ⟨heq, fun hnil => absurd (.inl hnil) hkeep⟩

/-- An operation keeps the account and the bounds. -/
structure Keeps (c c' : MemoryCache) : Prop where
  accounted : c'.Accounted
  maxEntries : c'.maxEntries = c.maxEntries
  maxBytes : c'.maxBytes = c.maxBytes

theorem Keeps.trans {c' c'' : MemoryCache} (h : Keeps c c') (h' : Keeps c' c'') : Keeps c c'' :=
  ⟨h'.accounted, h'.maxEntries.trans h.maxEntries, h'.maxBytes.trans h.maxBytes⟩

theorem keeps_remove (h : c.Accounted) (key : Bytes) : Keeps c (c.remove key) := by
  refine ⟨h.remove key, ?_, ?_⟩
  · fun_cases remove c key <;> rfl
  · fun_cases remove c key <;> rfl

/-- Eviction makes room for what fits into an empty cache. -/
theorem makeRoom_spec {size turns : Nat} {result : Except Err Unit} {left : MemoryCache}
    (h : c.Accounted) (hmade : makeRoom size turns c = (result, left)) :
    Keeps c left ∧ (1 ≤ c.maxEntries → size ≤ c.maxBytes → c.entries.length < turns →
      result = .ok ()) := by
  fun_induction makeRoom size turns c with
  | case1 =>
    cases hmade
    exact ⟨⟨h, rfl, rfl⟩, fun _ _ hlt => absurd hlt (Nat.not_lt_zero _)⟩
  | case2 turns c hfull oldestKey hnone =>
    obtain ⟨rfl, rfl⟩ := Prod.mk.inj hmade
    refine ⟨⟨h, rfl, rfl⟩, ?_⟩
    intro hentries hbytes _
    -- nothing is left, and the new record alone fits
    have hempty : c.entries = [] := by
      rcases oldestOf_mem c.entries [] 0 h.named with hmem | ⟨-, hempty⟩
      · obtain ⟨x, hx, hkey⟩ := mem_map.mp hmem
        exact absurd (hkey.trans hnone) (h.named x hx)
      · exact hempty rfl
    have hzero := h.bytes
    rw [hempty] at hzero hfull
    simp only [map_nil, sum_nil, Nat.cast_zero, length_nil] at hzero hfull
    omega
  | case3 turns c _ oldestKey hsome ih =>
    have hmem : oldestKey ∈ c.entries.map (·.1) := by
      rcases oldestOf_mem c.entries [] 0 h.named with hmem | ⟨heq, -⟩
      · exact hmem
      · exact absurd heq hsome
    have hremoved := keeps_remove h oldestKey
    obtain ⟨hkeeps, hok⟩ := ih hremoved.accounted hmade
    refine ⟨hremoved.trans hkeeps, ?_⟩
    intro hentries hbytes hlt
    have hshorter := length_remove_lt hmem
    exact hok (hremoved.maxEntries ▸ hentries) (hremoved.maxBytes ▸ hbytes) (by omega)
  | case4 =>
    cases hmade
    exact ⟨⟨h, rfl, rfl⟩, fun _ _ _ => rfl⟩

theorem keeps_get (h : c.Accounted) (key : Bytes) (now : UInt64) : Keeps c (c.get key now).2 := by
  fun_cases get c key now with
  | case2 => exact keeps_remove h key
  | _ => exact ⟨h, rfl, rfl⟩

/-- A record that fits into an empty cache is stored. -/
theorem put_spec (h : c.Accounted) (key : Bytes) (entry : CacheEntry) :
    Keeps c (c.put key entry).2 ∧
      (key ≠ [] → 1 ≤ c.maxEntries →
        ((key.length + entry.response.length : Nat) : Int) ≤ c.maxBytes →
        (c.put key entry).1 = .ok ()) := by
  have hremoved := keeps_remove h key
  fun_cases put c key entry with
  | case1 =>
    refine ⟨⟨h, rfl, rfl⟩, ?_⟩
    intro hkey _ hbytes
    have hlength : key.length ≠ 0 := by simpa using hkey
    omega
  | case2 _ _ _ _ left hmade =>
    obtain ⟨hkeeps, hok⟩ := makeRoom_spec hremoved.accounted hmade
    obtain ⟨hnodup, hnamed, hbytes⟩ := hkeeps.accounted
    refine ⟨(hremoved.trans hkeeps).trans ⟨⟨hnodup, hnamed, hbytes⟩, rfl, rfl⟩, ?_⟩
    intro _ hentries hbytes
    have himpossible := hok (hremoved.maxEntries ▸ hentries) (hremoved.maxBytes ▸ hbytes)
      (Nat.lt_succ_self _)
    cases himpossible
  | case3 haccepted _ _ _ left hmade =>
    obtain ⟨hkeeps, -⟩ := makeRoom_spec hremoved.accounted hmade
    refine ⟨(hremoved.trans hkeeps).trans ⟨⟨?_, ?_, ?_⟩, rfl, rfl⟩, fun _ _ _ => rfl⟩
    · simp only [map_append, map_cons, map_nil]
      refine nodup_append.mpr ⟨hkeeps.accounted.nodup, pairwise_singleton _ key, ?_⟩
      rintro a ha b hb rfl
      obtain ⟨x, hx, rfl⟩ := mem_map.mp ha
      rw [mem_singleton] at hb
      exact not_mem_remove c key (mem_map.mpr ⟨x, mem_makeRoom hmade hx, hb⟩)
    · refine forall_mem_append.mpr ⟨hkeeps.accounted.named, forall_mem_singleton.mpr ?_⟩
      exact fun hnil => haccepted (.inl (congrArg List.length hnil))
    · have hbytes := hkeeps.accounted.bytes
      simp only [map_append, map_cons, map_nil, sum_append, sum_cons, sum_nil, Nat.cast_add]
      omega

end MemoryCache

end NrePlugins.Doh
