import Nre.Base.NetIP

/-!
# Hosts and ports of Go's `net` package

The plugins carry a destination as the one text `host:port`. This file has the
functions of `net` that build such a text and take it apart, on the byte level:

- `splitHostPort`, `joinHostPort`: `net.SplitHostPort` and `net.JoinHostPort`
  (the error texts are dropped, no caller reads them);
- `parseIP`, `to4`, `ipString`: `net.ParseIP`, `IP.To4` and `IP.String`, on the
  4 or 16 octets of a `net.IP`.

The two facts that matter to a caller are that splitting inverts joining for
every host without brackets (`splitHostPort_joinHostPort`), and that the
host of a split has no bracket (`splitHostPort_host`).
-/

namespace NrePlugins

open List

/-! ## `host:port` -/

/-- The host part of `net.JoinHostPort`: bracketed when it has a colon. -/
def bracketHost (host : Bytes) : Bytes :=
  if ch ':' ∈ host then ch '[' :: host ++ [ch ']'] else host

/-- `net.JoinHostPort`. -/
def joinHostPort (host port : Bytes) : Bytes := bracketHost host ++ ch ':' :: port

/-- `net.SplitHostPort`, without the texts of its errors. -/
def splitHostPort (hostport : Bytes) : Option (Bytes × Bytes) :=
  match lastIndexByte hostport (ch ':') with
  | none => none
  | some i =>
    if hostport.head? = some (ch '[') then
      match indexByte hostport (ch ']') with
      | none => none
      | some fin =>
        -- the first `]` has to stand just before the last `:`
        if fin + 1 ≠ i then none
        else if ch '[' ∈ hostport.drop 1 then none
        else if ch ']' ∈ hostport.drop (fin + 1) then none
        else some ((hostport.take fin).drop 1, hostport.drop (i + 1))
    else if ch ':' ∈ hostport.take i then none
    else if ch '[' ∈ hostport then none
    else if ch ']' ∈ hostport then none
    else some (hostport.take i, hostport.drop (i + 1))

/-- A text that neither opens nor closes a bracket. -/
def NoBracket (s : Bytes) : Prop := ch '[' ∉ s ∧ ch ']' ∉ s

instance (s : Bytes) : Decidable (NoBracket s) := inferInstanceAs (Decidable (_ ∧ _))

/-- Is the byte a bracket? -/
def isBracket (b : UInt8) : Bool := b = ch '[' || b = ch ']'

/-- `strings.Trim(host, "[]")`. -/
def trimBrackets (host : Bytes) : Bytes :=
  ((host.dropWhile isBracket).reverse.dropWhile isBracket).reverse

theorem dropWhile_isBracket {s : Bytes} (h : ∀ b ∈ s, isBracket b = false) :
    s.dropWhile isBracket = s := by
  cases s with
  | nil => rfl
  | cons b s => rw [dropWhile_cons_of_neg (by simp [h b (by simp)])]

variable {host : Bytes} {port : Bytes}

theorem trimBrackets_of_noBracket (h : NoBracket host) : trimBrackets host = host := by
  have hall : ∀ b ∈ host, isBracket b = false := by
    intro b hb
    have ho : b ≠ ch '[' := by rintro rfl; exact h.1 hb
    have hc : b ≠ ch ']' := by rintro rfl; exact h.2 hb
    simp [isBracket, ho, hc]
  rw [trimBrackets, dropWhile_isBracket hall,
    dropWhile_isBracket fun b hb => hall b (mem_reverse.mp hb), reverse_reverse]

/-- Splitting a bracketed host from its port. -/
theorem splitHostPort_bracketed (hhost : NoBracket host) (hport : NoBracket port)
    (hcolon : ch ':' ∉ port) :
    splitHostPort (ch '[' :: host ++ [ch ']'] ++ ch ':' :: port) = some (host, port) := by
  have hob : ch '[' ≠ ch ':' := by decide
  have hcb : ch ']' ≠ ch ':' := by decide
  have hoc : ch '[' ≠ ch ']' := by decide
  have hlast := lastIndexByte_append (s := ch '[' :: host ++ [ch ']']) hcolon
  have hfirst : indexByte (ch '[' :: host ++ ch ']' :: ch ':' :: port) (ch ']') =
      some (host.length + 1) := indexByte_append (by simp [hhost.2, hoc.symm])
  rw [splitHostPort, hlast]
  simp only [append_assoc, cons_append, nil_append, head?_cons, if_true,
    length_cons, length_append, length_nil, Nat.zero_add,
    drop_succ_cons, drop_zero] at hfirst ⊢
  have h1 : ch '[' ∉ host ++ ch ']' :: ch ':' :: port := by
    simp [hhost.1, hport.1, hoc, hob]
  have h2 : ch ']' ∉ (host ++ ch ']' :: ch ':' :: port).drop (host.length + 1) := by
    simp [hport.2, hcb]
  have h3 : (ch '[' :: (host ++ ch ']' :: ch ':' :: port)).take (host.length + 1) =
      ch '[' :: host := by simp
  have h4 : (host ++ ch ']' :: ch ':' :: port).drop (host.length + 1 + 1) = port := by
    rw [Nat.add_assoc, drop_length_add_append]
    rfl
  rw [hfirst]
  simp only [ne_eq, not_true_eq_false, if_false, h1, h2, h3, h4, drop_succ_cons, drop_zero]

/-- Splitting a host without a colon from its port. -/
theorem splitHostPort_plain (hhost : NoBracket host) (hport : NoBracket port) (hc : ch ':' ∉ host)
    (hcolon : ch ':' ∉ port) :
    splitHostPort (host ++ ch ':' :: port) = some (host, port) := by
  have hob : ch '[' ≠ ch ':' := by decide
  have hcb : ch ']' ≠ ch ':' := by decide
  have h1 : ch '[' ∉ host ++ ch ':' :: port := by simp [hhost.1, hport.1, hob]
  have h2 : ch ']' ∉ host ++ ch ':' :: port := by simp [hhost.2, hport.2, hcb]
  have hhead : (host ++ ch ':' :: port).head? ≠ some (ch '[') := by
    intro h
    exact h1 (mem_of_head? h)
  rw [splitHostPort, lastIndexByte_append hcolon]
  simp only [if_neg hhead, if_neg h1, if_neg h2, take_left, if_neg hc]
  rw [drop_length_add_append]
  rfl

/-- Splitting inverts joining when neither part has a bracket and the port has
no colon. -/
theorem splitHostPort_joinHostPort (hhost : NoBracket host) (hport : NoBracket port)
    (hcolon : ch ':' ∉ port) :
    splitHostPort (joinHostPort host port) = some (host, port) := by
  rw [joinHostPort, bracketHost]
  split_ifs with hc
  · exact splitHostPort_bracketed hhost hport hcolon
  · exact splitHostPort_plain hhost hport hc hcolon

/-- The host a split returns has no bracket. -/
theorem splitHostPort_host {hostport : Bytes} (h : splitHostPort hostport = some (host, port)) :
    NoBracket host := by
  revert h
  fun_cases splitHostPort hostport with
  | case6 _ _ _ fin hfin _ hopen =>
    rintro ⟨⟩
    refine ⟨fun hm => hopen ?_, fun hm => ?_⟩
    · rw [drop_take] at hm
      exact mem_of_mem_take hm
    · exact indexByte_some hfin (mem_of_mem_drop hm)
  | case10 _ _ _ _ hopen hclose =>
    rintro ⟨⟩
    exact ⟨fun hm => hopen (mem_of_mem_take hm), fun hm => hclose (mem_of_mem_take hm)⟩
  | _ => nofun

theorem bracketHost_inj {a b : Bytes} (h : bracketHost a = bracketHost b) : a = b := by
  have hmem : ∀ s : Bytes, ch ':' ∈ bracketHost s ↔ ch ':' ∈ s := by
    intro s
    rw [bracketHost]
    split_ifs with hs
    · simp [hs]
    · rfl
  have hiff : ch ':' ∈ a ↔ ch ':' ∈ b := by rw [← hmem a, h, hmem b]
  rw [bracketHost, bracketHost] at h
  by_cases ha : ch ':' ∈ a
  · rw [if_pos ha, if_pos (hiff.mp ha)] at h
    exact cons_inj_right _ |>.mp (append_cancel_right h)
  · rwa [if_neg ha, if_neg fun hb => ha (hiff.mpr hb)] at h

/-- A joined text determines its host and its port, whatever the host is. -/
theorem joinHostPort_inj {host' port' : Bytes} (hp : ch ':' ∉ port) (hp' : ch ':' ∉ port')
    (h : joinHostPort host port = joinHostPort host' port') :
    host = host' ∧ port = port' := by
  rw [joinHostPort, joinHostPort] at h
  have hlen : (bracketHost host).length = (bracketHost host').length := by
    have hi := lastIndexByte_append (s := bracketHost host) hp
    rw [h, lastIndexByte_append hp'] at hi
    exact (Option.some.inj hi).symm
  obtain ⟨hhost, hport⟩ := append_inj h hlen
  exact ⟨bracketHost_inj hhost, (List.cons.inj hport).2⟩

/-! ## IP addresses of package `net` -/

/-- `net.ParseIP`: the 16 octets of an address text; a zone is refused. -/
def parseIP (s : Bytes) : Option Bytes :=
  match parseAddr s with
  | some (.v4 a b c d) => some (mappedPrefix ++ [a, b, c, d])
  | some (.v6 o []) => some o.1
  | _ => none

/-- `IP.To4`: the four octets of an IPv4 or IPv4-mapped address. -/
def to4 (ip : Bytes) : Option Bytes :=
  if ip.length = 4 then some ip
  else if ip.length = 16 ∧ isMapped ip then some (ip.drop 12)
  else none

/-- `IP.String` of a 4 or 16 octet address. -/
def ipString (ip : Bytes) : Bytes :=
  match to4 ip with
  | some [a, b, c, d] => text4 a b c d
  | _ => text6 ip

variable {ip : Bytes}

theorem length_of_parseIP {s : Bytes} (h : parseIP s = some ip) : ip.length = 16 := by
  rw [parseIP] at h
  split at h
  · cases h
    rfl
  · rename_i o _
    cases h
    exact o.2
  · cases h

/-- A mapped address prints as its IPv4 address. -/
theorem ipString_mapped (a b c d : UInt8) :
    ipString (mappedPrefix ++ [a, b, c, d]) = text4 a b c d := rfl

/-- Sixteen octets are a mapped IPv4 address or print in the IPv6 form. -/
theorem ipString_cases (h : ip.length = 16) :
    (∃ a b c d, ip = mappedPrefix ++ [a, b, c, d]) ∨ to4 ip = none ∧ ipString ip = text6 ip := by
  by_cases hm : isMapped ip = true
  · refine .inl ?_
    have htake : ip.take 12 = mappedPrefix := by simpa [isMapped] using hm
    have hdrop : (ip.drop 12).length = 4 := by rw [length_drop, h]
    obtain ⟨a, b, c, d, hd⟩ : ∃ a b c d, ip.drop 12 = [a, b, c, d] := by
      match hc : ip.drop 12, hdrop with
      | [a, b, c, d], _ => exact ⟨a, b, c, d, rfl⟩
    exact ⟨a, b, c, d, by rw [← htake, ← hd, take_append_drop]⟩
  · have h4 : to4 ip = none := by
      rw [to4, if_neg (by omega), if_neg fun hh => hm hh.2]
    exact .inr ⟨h4, by rw [ipString, h4]⟩

theorem parseIP_text4 (a b c d : UInt8) :
    parseIP (text4 a b c d) = some (mappedPrefix ++ [a, b, c, d]) := by
  rw [parseIP, parseAddr_text4]

/-- `ParseIP` reads back the text of every 16 octet address. -/
theorem parseIP_ipString (h : ip.length = 16) : parseIP (ipString ip) = some ip := by
  rcases ipString_cases h with ⟨a, b, c, d, rfl⟩ | ⟨-, htext⟩
  · rw [ipString_mapped, parseIP_text4]
  · rw [htext, parseIP, parseAddr_text6 ⟨ip, h⟩]

theorem mem_text4 {a b c d x : UInt8} (h : x ∈ text4 a b c d) : isDigit x = true ∨ x = ch '.' := by
  simp only [text4, mem_append, mem_cons] at h
  rcases h with ((h | h | h) | h | h) | h | h
  all_goals first
    | exact .inl (isDigit_of_mem_decimalOctet h)
    | exact .inr h

/-- The text of an address has no bracket. -/
theorem noBracket_ipString (h : ip.length = 4 ∨ ip.length = 16) : NoBracket (ipString ip) := by
  have h4 : ∀ a b c d, NoBracket (text4 a b c d) := fun a b c d =>
    ⟨fun hm => absurd (mem_text4 hm) (by decide), fun hm => absurd (mem_text4 hm) (by decide)⟩
  rcases h with h | h
  · match ip, h with
    | [a, b, c, d], _ => exact h4 a b c d
  · rcases ipString_cases h with ⟨a, b, c, d, rfl⟩ | ⟨-, htext⟩
    · exact h4 a b c d
    · have hbytes := (text6_spec ⟨ip, h⟩).1
      rw [htext]
      exact ⟨fun hm => absurd (hbytes _ hm) (by decide), fun hm => absurd (hbytes _ hm) (by decide)⟩

end NrePlugins
