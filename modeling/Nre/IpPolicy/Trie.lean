import Nre.Base.Walk
import Nre.IpPolicy.Config

/-!
# The prefix trie

Model of `PolicySet` of `trie.rs`: a binary trie whose nodes lie in one array of a fixed
size, two of them the roots of the families. An insertion that fails on its way leaves
the nodes it has allocated behind; they bear no mark.

The invariant (`Marked`) names every node by its family and the bits that lead to it. A
mark is the trace of an inserted prefix of that name, and every inserted prefix is found
at the end of its bits.

- `IpAddress.Built`, `Cidr.Built`: what every value has that `trie.rs` can build;
- `Marked.insert`: what one call of `insert` keeps;
- `contains_insertAll`: the answers after any calls.
-/

namespace NrePlugins.IpPolicy

open Option

/-! ## Addresses and prefixes as they are built -/

/-- The fields of an `IpAddress` are private: its bits are those of one of the families. -/
def IpAddress.Built (a : IpAddress) : Prop := a.bits = 32 ∨ a.bits = 128

/-- The fields of a `Cidr` are private too: a prefix is no longer than its address. -/
def Cidr.Built (c : Cidr) : Prop := c.network.Built ∧ c.prefixBits ≤ c.network.bits

abbrev Address := {a : IpAddress // a.Built}

abbrev Prefix := {c : Cidr // c.Built}

/-- The bits of an address, the most significant first. -/
def IpAddress.path (a : IpAddress) : List Nat := (List.range a.bits).map a.bit

/-- The bits that a prefix fixes. -/
def Cidr.path (c : Cidr) : List Nat := (List.range c.prefixBits).map c.network.bit

theorem IpAddress.bit_lt (a : IpAddress) (index : Nat) : a.bit index < 2 :=
  Nat.mod_lt _ (by decide)

variable {a : IpAddress}

/-- Two addresses are of one family if they have as many bits. -/
theorem bits_eq_iff {b : IpAddress} (ha : a.Built) (hb : b.Built) :
    a.bits = b.bits ↔ a.isIpv4 = b.isIpv4 := by
  unfold IpAddress.isIpv4
  rcases ha with ha | ha <;> rcases hb with hb | hb <;> simp [ha, hb]

/-- A prefix contains an address of its family whose bits begin with those it fixes. -/
theorem Cidr.contains_iff_path {c : Cidr} (hc : c.Built) :
    c.contains a = true ↔ c.network.bits = a.bits ∧ c.path <+: a.path := by
  unfold Cidr.contains
  rw [Bool.and_eq_true, beq_iff_eq, List.all_eq_true]
  refine and_congr_right fun hbits => ?_
  have hlong : c.prefixBits ≤ a.bits := hbits ▸ hc.2
  have htake : a.path.take c.prefixBits = (List.range c.prefixBits).map a.bit := by
    rw [IpAddress.path, ← List.map_take, List.take_range, Nat.min_eq_left hlong]
  rw [List.prefix_iff_eq_take, Cidr.path, List.length_map, List.length_range, htake,
    List.map_inj_left]
  simp only [beq_iff_eq]

/-- `Cidr::contains`, bit by bit. -/
theorem Cidr.contains_iff {c : Cidr} :
    c.contains a = true ↔
      c.network.bits = a.bits ∧ ∀ index < c.prefixBits, c.network.bit index = a.bit index := by
  simp only [Cidr.contains, Bool.and_eq_true, beq_iff_eq, List.all_eq_true, List.mem_range]

/-! ## The trie -/

/-- `NONE`. -/
def noNode : Nat := 65535

structure Node where
  child : Vector Nat 2
  allow : Bool
  deny : Bool

def Node.empty : Node := ⟨#v[noNode, noNode], false, false⟩

/-- The mark of an effect. -/
def Node.mark (node : Node) : RuleEffect → Bool
  | .allow => node.allow
  | .deny => node.deny

def Node.setMark (node : Node) : RuleEffect → Node
  | .allow => { node with allow := true }
  | .deny => { node with deny := true }

/-- A trie for each family, in one array. -/
structure PolicySet (maxNodes : Nat) where
  nodes : Vector Node maxNodes
  used : Nat

open PolicySet

namespace PolicySet

variable {maxNodes : Nat} (s : PolicySet maxNodes)

def new (maxNodes : Nat) : PolicySet maxNodes :=
  ⟨Vector.replicate maxNodes .empty, if 2 ≤ maxNodes then 2 else 0⟩

/-- The entry of the child array, `NONE` included; nothing outside of the arrays. -/
def childAt (index branch : Nat) : Option Nat := do
  let node ← s.nodes[index]?
  node.child[branch]?

def nodeMatches (index : Nat) (effect : RuleEffect) : Bool :=
  (s.nodes[index]?).any (·.mark effect)

/-- Replaces a node of the array. -/
def update (index : Nat) (f : Node → Node) : PolicySet maxNodes :=
  match s.nodes[index]? with
  | some node => { s with nodes := s.nodes.setIfInBounds index (f node) }
  | none => s

def allocate : Except ConfigError Nat × PolicySet maxNodes :=
  if maxNodes ≤ s.used ∨ noNode ≤ s.used then (.error .capacityExceeded, s)
  else (.ok s.used, { s.update s.used fun _ => .empty with used := s.used + 1 })

/-- The loop of `insert` over the bits of the prefix. What was allocated before a failure
stays allocated. -/
def insertLoop (network : IpAddress) :
    List Nat → Nat → PolicySet maxNodes → Except ConfigError Nat × PolicySet maxNodes
  | [], current, s => (.ok current, s)
  | index :: rest, current, s =>
    match s.childAt current (network.bit index) with
    | none => (.error .capacityExceeded, s)
    | some next =>
      if next = noNode then
        match s.allocate with
        | (.error err, s) => (.error err, s)
        | (.ok allocated, s) =>
          insertLoop network rest allocated (s.update current fun node =>
            { node with child := node.child.setIfInBounds (network.bit index) allocated })
      else insertLoop network rest next s

/-- The node that the walk of an address begins at. -/
def root (a : IpAddress) : Nat := if a.isIpv4 then 0 else 1

def insert (c : Cidr) (effect : RuleEffect) : Except ConfigError Unit × PolicySet maxNodes :=
  if maxNodes < 2 ∨ s.used < 2 then (.error .capacityExceeded, s)
  else
    match insertLoop c.network (List.range c.prefixBits) (root c.network) s with
    | (.error err, s) => (.error err, s)
    | (.ok current, s) =>
      match s.nodes[current]? with
      | none => (.error .capacityExceeded, s)
      | some node =>
        if node.mark effect then (.error .duplicatePrefix, s)
        else (.ok (), s.update current fun node => node.setMark effect)

/-- The loop of `contains` over the bits of the address. -/
def containsLoop (address : IpAddress) (effect : RuleEffect) : List Nat → Nat → Bool
  | [], _ => false
  | index :: rest, current =>
    let next := (s.childAt current (address.bit index)).getD noNode
    if next = noNode then false
    else if s.nodeMatches next effect then true
    else containsLoop address effect rest next

def contains (address : IpAddress) (effect : RuleEffect) : Bool :=
  if s.used < 2 then false
  else if s.nodeMatches (root address) effect then true
  else s.containsLoop address effect (List.range address.bits) (root address)

/-- One call of `insert`, with the calls that have succeeded so far. -/
def insertNext (state : PolicySet maxNodes × List (Prefix × RuleEffect))
    (call : Prefix × RuleEffect) : PolicySet maxNodes × List (Prefix × RuleEffect) :=
  match state.1.insert call.1.1 call.2 with
  | (.ok (), s) => (s, state.2 ++ [call])
  | (.error _, s) => (s, state.2)

/-- Any calls of `insert` on a new trie, one after the other. -/
def insertAll (maxNodes : Nat) (calls : List (Prefix × RuleEffect)) :
    PolicySet maxNodes × List (Prefix × RuleEffect) :=
  calls.foldl insertNext (new maxNodes, [])

/-! ## What a write changes -/

/-- The edges of the trie. -/
def next (index branch : Nat) : Option Nat :=
  (s.childAt index branch).filter (· != noNode)

variable {s : PolicySet maxNodes} {i b : Nat} {effect : RuleEffect} {s' : PolicySet maxNodes}
  {inserted : List (Prefix × RuleEffect)}

theorem next_eq_some {j : Nat} : s.next i b = some j ↔ s.childAt i b = some j ∧ j ≠ noNode := by
  simp [next, filter_eq_some_iff]

theorem nodes_update (i j : Nat) (f : Node → Node) :
    (s.update i f).nodes[j]? = if i = j then (s.nodes[j]?).map f else s.nodes[j]? := by
  fun_cases update s i f with
  | case1 node hi =>
    rw [Vector.getElem?_setIfInBounds, if_pos (Vector.getElem?_eq_some_iff.mp hi).1]
    split_ifs with hij
    · rw [← hij, hi]
      rfl
    · rfl
  | case2 hi =>
    split_ifs with hij
    · rw [← hij, hi]
      rfl
    · rfl

@[simp] theorem used_update (i : Nat) (f : Node → Node) :
    (s.update i f).used = s.used := by
  fun_cases update s i f <;> rfl

/-- A write that keeps the marks of its node keeps all marks. -/
theorem nodeMatches_update {f : Node → Node}
    (hf : ∀ node, (f node).mark effect = node.mark effect) (i j : Nat) :
    (s.update i f).nodeMatches j effect = s.nodeMatches j effect := by
  unfold nodeMatches
  rw [nodes_update]
  split_ifs
  · rw [any_map]
    exact congrArg (Option.any · _) (funext hf)
  · rfl

/-- A write that keeps the children of its node keeps all edges. -/
theorem next_update {f : Node → Node} (hf : ∀ node, (f node).child = node.child) (i j b : Nat) :
    (s.update i f).next j b = s.next j b := by
  have hchild : (s.update i f).childAt j b = s.childAt j b := by
    unfold childAt
    rw [nodes_update]
    split_ifs
    · cases s.nodes[j]? with
      | none => rfl
      | some node => exact congrArg (·[b]?) (hf node)
    · rfl
  rw [next, next, hchild]

/-! ## The invariant -/

/-- The trie as a set of named nodes: the nodes in use are closed under edges, an edge
extends the name of its node, and the rest of the array has never been written. -/
structure Shape (s : PolicySet maxNodes) (name : Nat → Bool × List Nat) : Prop where
  ready : 2 ≤ s.used
  fits : s.used ≤ maxNodes
  root4 : name 0 = (true, [])
  root6 : name 1 = (false, [])
  edge : ∀ i b j, i < s.used → s.next i b = some j →
    j < s.used ∧ name j = ((name i).1, (name i).2 ++ [b])
  fresh : ∀ i node, s.used ≤ i → s.nodes[i]? = some node → node = .empty

/-- Nodes are added, with edges to them; names, edges and marks stay. -/
structure Grown (s s' : PolicySet maxNodes) (name name' : Nat → Bool × List Nat) : Prop where
  used_le : s.used ≤ s'.used
  names : ∀ i < s.used, name' i = name i
  edges : ∀ i b j, s.next i b = some j → s'.next i b = some j
  marks : ∀ i effect, s'.nodeMatches i effect = s.nodeMatches i effect

theorem Grown.refl (s : PolicySet maxNodes) (name : Nat → Bool × List Nat) : Grown s s name name :=
  ⟨le_rfl, fun _ _ => rfl, fun _ _ _ h => h, fun _ _ => rfl⟩

theorem Grown.trans {s₁ s₂ s₃ : PolicySet maxNodes} {name₁ name₂ name₃ : Nat → Bool × List Nat}
    (h₁ : Grown s₁ s₂ name₁ name₂) (h₂ : Grown s₂ s₃ name₂ name₃) :
    Grown s₁ s₃ name₁ name₃ where
  used_le := h₁.used_le.trans h₂.used_le
  names i hi := (h₂.names i (hi.trans_le h₁.used_le)).trans (h₁.names i hi)
  edges i b j h := h₂.edges i b j (h₁.edges i b j h)
  marks i effect := (h₂.marks i effect).trans (h₁.marks i effect)

variable {name : Nat → Bool × List Nat}

/-- Both entries of a node that is in use can be read. -/
theorem Shape.childAt_isSome (hs : Shape s name) (hi : i < s.used) (hb : b < 2) :
    ∃ j, s.childAt i b = some j := by
  have hlt : i < maxNodes := hi.trans_le hs.fits
  refine ⟨(s.nodes[i]).child[b], ?_⟩
  simp [childAt, hlt, hb]

/-- A node that was never written has no children. -/
theorem next_of_empty (h : ∀ node, s.nodes[i]? = some node → node = .empty) : s.next i b = none := by
  cases hnode : s.nodes[i]? with
  | none => simp [next, childAt, hnode]
  | some node =>
    obtain rfl := h node hnode
    rw [next, childAt, hnode]
    show Option.filter _ (Node.empty.child[b]?) = none
    rcases b with _ | _ | b <;> simp [Node.empty, noNode]

/-- And no mark. -/
theorem nodeMatches_of_empty (h : ∀ node, s.nodes[i]? = some node → node = .empty) :
    s.nodeMatches i effect = false := by
  unfold nodeMatches
  cases hnode : s.nodes[i]? with
  | none => rfl
  | some node =>
    obtain rfl := h node hnode
    cases effect <;> rfl

/-- Allocation takes the next node, which is empty already. -/
theorem Shape.allocate (hs : Shape s name) :
    s.allocate = (.error .capacityExceeded, s) ∨
      (s.used < maxNodes ∧ s.used < noNode ∧
        s.allocate = (.ok s.used, { s with used := s.used + 1 })) := by
  unfold PolicySet.allocate
  split_ifs with hfull
  · exact .inl rfl
  · rw [not_or, Nat.not_le, Nat.not_le] at hfull
    refine .inr ⟨hfull.1, hfull.2, ?_⟩
    have hempty : s.nodes[s.used] = .empty :=
      hs.fresh _ _ le_rfl (Vector.getElem?_eq_getElem hfull.1)
    have hsame : s.update s.used (fun _ => .empty) = s := by
      unfold update
      rw [Vector.getElem?_eq_getElem hfull.1]
      show { s with nodes := s.nodes.setIfInBounds s.used .empty } = s
      congr 1
      ext j hj
      rw [Vector.getElem_setIfInBounds]
      split_ifs with hij
      · subst hij
        exact hempty.symm
      · rfl
    rw [hsame]

/-- The trie with one more node, below `current`. -/
def link (s : PolicySet maxNodes) (current branch : Nat) : PolicySet maxNodes :=
  { s with used := s.used + 1 }.update current fun node =>
    { node with child := node.child.setIfInBounds branch s.used }

variable {current : Nat}

theorem next_link {branch : Nat} (hcurrent : current < maxNodes) (hbranch : branch < 2)
    (hused : s.used ≠ noNode) (i b : Nat) :
    (s.link current branch).next i b =
      if current = i ∧ branch = b then some s.used else s.next i b := by
  unfold link next childAt
  rw [nodes_update]
  by_cases hi : current = i
  · subst hi
    rw [if_pos rfl, Vector.getElem?_eq_getElem hcurrent]
    show Option.filter _ ((s.nodes[current].child.setIfInBounds branch s.used)[b]?) = _
    rw [Vector.getElem?_setIfInBounds]
    by_cases hb : branch = b
    · subst hb
      rw [if_pos rfl, if_pos hbranch]
      simp [filter_some, hused]
    · rw [if_neg hb, if_neg (fun h => hb h.2)]
      rfl
  · rw [if_neg hi, if_neg (fun h => hi h.1)]

/-- The new node is named by its parent's name and its branch. -/
theorem Shape.link (hs : Shape s name) {branch : Nat} (hcurrent : current < s.used)
    (hbranch : branch < 2) (hroom : s.used < maxNodes) (hused : s.used < noNode)
    (hnone : s.next current branch = none) :
    ∃ name', Shape (s.link current branch) name' ∧ Grown s (s.link current branch) name name' ∧
      (s.link current branch).used = s.used + 1 ∧
      (s.link current branch).next current branch = some s.used := by
  have hready := hs.ready
  have hedges := next_link (hcurrent.trans hroom) hbranch hused.ne
  have hcount : (s.link current branch).used = s.used + 1 := used_update _ _
  refine ⟨Function.update name s.used ((name current).1, (name current).2 ++ [branch]),
    ?_, ?_, hcount, ?_⟩
  · have hold : ∀ i, i < s.used →
        Function.update name s.used ((name current).1, (name current).2 ++ [branch]) i = name i :=
      fun i hi => Function.update_of_ne hi.ne _ _
    constructor
    · omega
    · omega
    · exact (hold 0 (by omega)).trans hs.root4
    · exact (hold 1 (by omega)).trans hs.root6
    · intro i b j hi hij
      rw [hedges] at hij
      rw [hcount] at hi ⊢
      split_ifs at hij with hnew
      · cases hij
        obtain ⟨rfl, rfl⟩ := hnew
        rw [Function.update_self, hold _ hcurrent]
        exact ⟨Nat.lt_succ_self _, rfl⟩
      · -- the new node itself has no children yet
        have hlt : i < s.used := by
          rcases Nat.lt_succ_iff_lt_or_eq.mp hi with hlt | rfl
          · exact hlt
          · exact absurd hij (by rw [next_of_empty fun node => hs.fresh _ node le_rfl]; exact nofun)
        obtain ⟨hj, hname⟩ := hs.edge i b j hlt hij
        rw [hold j hj, hold i hlt]
        exact ⟨hj.trans (Nat.lt_succ_self _), hname⟩
    · intro i node hi hnode
      unfold PolicySet.link at hnode
      rw [nodes_update, if_neg (by omega)] at hnode
      exact hs.fresh i node (by omega) hnode
  · constructor
    · omega
    · exact fun i hi => Function.update_of_ne hi.ne _ _
    · intro i b j hij
      rwa [hedges, if_neg]
      rintro ⟨rfl, rfl⟩
      cases hnone.symm.trans hij
    · exact fun i effect => nodeMatches_update (fun node => by cases effect <;> rfl) _ _
  · rw [hedges, if_pos ⟨rfl, rfl⟩]

/-- The loop of `insert`: it ends at the node named by the bits it has walked. -/
theorem Shape.insertLoop (network : IpAddress) {indices : List Nat} (hs : Shape s name)
    (hcurrent : current < s.used) {r : Except ConfigError Nat}
    (h : insertLoop network indices current s = (r, s')) :
    ∃ name', Shape s' name' ∧ Grown s s' name name' ∧ ∀ last, r = .ok last →
      last < s'.used ∧ walk s'.next current (indices.map network.bit) = some last := by
  induction indices generalizing current s name with
  | nil =>
    obtain ⟨rfl, rfl⟩ := Prod.mk.inj h
    refine ⟨name, hs, .refl s name, ?_⟩
    rintro last ⟨⟩
    exact ⟨hcurrent, rfl⟩
  | cons index rest ih =>
    obtain ⟨child, hchild⟩ := hs.childAt_isSome hcurrent (network.bit_lt index)
    rw [insertLoop, hchild] at h
    dsimp only at h
    split_ifs at h with hnone
    · rcases hs.allocate with hfull | ⟨hroom, hused, halloc⟩
      · rw [hfull] at h
        obtain ⟨rfl, rfl⟩ := Prod.mk.inj h
        exact ⟨name, hs, .refl s name, fun last hlast => nomatch hlast⟩
      · rw [halloc] at h
        have hnext : s.next current (network.bit index) = none := by
          rw [next, hchild, hnone]
          rfl
        obtain ⟨name₁, hs₁, hgrown₁, hcount, hedge⟩ :=
          hs.link hcurrent (network.bit_lt index) hroom hused hnext
        obtain ⟨name₂, hs₂, hgrown₂, hlast⟩ := ih hs₁ (by omega) h
        refine ⟨name₂, hs₂, hgrown₁.trans hgrown₂, fun last hr => ?_⟩
        obtain ⟨hlt, hwalk⟩ := hlast last hr
        exact ⟨hlt, (walk_cons (hgrown₂.edges _ _ _ hedge) _).trans hwalk⟩
    · have hnext : s.next current (network.bit index) = some child :=
        next_eq_some.mpr ⟨hchild, hnone⟩
      obtain ⟨name', hs', hgrown, hlast⟩ := ih hs (hs.edge _ _ _ hcurrent hnext).1 h
      refine ⟨name', hs', hgrown, fun last hr => ?_⟩
      obtain ⟨hlt, hwalk⟩ := hlast last hr
      exact ⟨hlt, (walk_cons (hgrown.edges _ _ _ hnext) _).trans hwalk⟩

/-- The name of the node of a prefix. -/
def nameOf (c : Cidr) : Bool × List Nat := (c.network.isIpv4, c.path)

/-- The marks are those of the inserted prefixes. -/
structure Marked (s : PolicySet maxNodes) (name : Nat → Bool × List Nat)
    (inserted : List (Prefix × RuleEffect)) : Prop where
  shape : Shape s name
  sound : ∀ i effect, i < s.used → s.nodeMatches i effect = true →
    ∃ c, (c, effect) ∈ inserted ∧ name i = nameOf c.1
  complete : ∀ c effect, (c, effect) ∈ inserted →
    ∃ i, walk s.next (root c.1.network) c.1.path = some i ∧ s.nodeMatches i effect = true

theorem Shape.root (hs : Shape s name) (a : IpAddress) :
    root a < s.used ∧ name (root a) = (a.isIpv4, []) := by
  have hready := hs.ready
  unfold PolicySet.root
  cases a.isIpv4 with
  | true => exact ⟨by rw [if_pos rfl]; omega, hs.root4⟩
  | false => exact ⟨by rw [if_neg nofun]; omega, hs.root6⟩

/-- A walk from a root ends at the node of the bits walked. -/
theorem Shape.name_of_walk (hs : Shape s name) {path : List Nat}
    (h : walk s.next (PolicySet.root a) path = some i) :
    i < s.used ∧ name i = (a.isIpv4, path) := by
  obtain ⟨hlt, hname⟩ := hs.root a
  have hend := NrePlugins.name_of_walk name hs.edge hlt h
  rwa [hname, List.nil_append] at hend

/-- Growing keeps the marks' meaning. -/
theorem Marked.grown {name' : Nat → Bool × List Nat} (hm : Marked s name inserted)
    (hs' : Shape s' name') (hgrown : Grown s s' name name') : Marked s' name' inserted where
  shape := hs'
  sound i effect _ hmark := by
    rw [hgrown.marks] at hmark
    have hlt : i < s.used := by
      by_contra hge
      rw [nodeMatches_of_empty fun node => hm.shape.fresh i node (Nat.le_of_not_lt hge)] at hmark
      exact nomatch hmark
    rw [hgrown.names i hlt]
    exact hm.sound i effect hlt hmark
  complete c effect hc := by
    obtain ⟨i, hwalk, hmark⟩ := hm.complete c effect hc
    exact ⟨i, walk_mono hgrown.edges hwalk, (hgrown.marks i effect).trans hmark⟩

theorem mark_setMark (node : Node) (effect other : RuleEffect) :
    (node.setMark effect).mark other = (node.mark other || decide (effect = other)) := by
  cases effect <;> cases other <;> simp [Node.setMark, Node.mark]

variable {node : Node}

/-- Marking a node adds one mark and keeps the others. -/
theorem nodeMatches_setMark (hnode : s.nodes[i]? = some node) (j : Nat) (other : RuleEffect) :
    (s.update i fun node => node.setMark effect).nodeMatches j other =
      (s.nodeMatches j other || decide (i = j ∧ effect = other)) := by
  unfold nodeMatches
  rw [nodes_update]
  by_cases hij : i = j
  · subst hij
    rw [hnode]
    simp [mark_setMark]
  · simp [hij]

/-- The node of a prefix is marked: the prefix is inserted. -/
theorem Marked.mark (hm : Marked s name inserted) {c : Prefix}
    (hwalk : walk s.next (PolicySet.root c.1.network) c.1.path = some i)
    (hnode : s.nodes[i]? = some node) :
    Marked (s.update i fun node => node.setMark effect) name (inserted ++ [(c, effect)]) := by
  have hwalks : (s.update i fun node => node.setMark effect).next = s.next :=
    funext fun j => funext (next_update (fun node => by cases effect <;> rfl) i j)
  obtain ⟨hlt, hname⟩ := hm.shape.name_of_walk hwalk
  refine ⟨⟨?_, ?_, hm.shape.root4, hm.shape.root6, ?_, ?_⟩, ?_, ?_⟩
  · exact (used_update ..).symm ▸ hm.shape.ready
  · exact (used_update ..).symm ▸ hm.shape.fits
  · rw [used_update, hwalks]
    exact hm.shape.edge
  · intro j other hj hother
    rw [used_update] at hj
    rw [nodes_update, if_neg (by omega)] at hother
    exact hm.shape.fresh j other hj hother
  · intro j other hj hmark
    rw [used_update] at hj
    rw [nodeMatches_setMark hnode, Bool.or_eq_true, decide_eq_true_iff] at hmark
    rcases hmark with hmark | ⟨rfl, rfl⟩
    · exact (hm.sound j other hj hmark).imp fun _ => And.imp_left (List.mem_append_left _)
    · exact ⟨c, List.mem_append_right _ (List.mem_singleton.mpr rfl), hname⟩
  · intro d other hd
    rw [hwalks]
    rcases List.mem_append.mp hd with hd | hd
    · obtain ⟨j, hj, hmark⟩ := hm.complete d other hd
      exact ⟨j, hj, by simp [nodeMatches_setMark hnode, hmark]⟩
    · cases List.mem_singleton.mp hd
      exact ⟨i, hwalk, by simp [nodeMatches_setMark hnode]⟩

/-- One call: a success inserts its prefix, a failure nothing. -/
theorem Marked.insert (hm : Marked s name inserted) {c : Prefix} {r : Except ConfigError Unit}
    (h : s.insert c.1 effect = (r, s')) :
    ∃ name', Marked s' name' (if r.isOk then inserted ++ [(c, effect)] else inserted) := by
  unfold PolicySet.insert at h
  have hready : ¬ (maxNodes < 2 ∨ s.used < 2) := by
    have := hm.shape.ready
    have := hm.shape.fits
    omega
  rw [if_neg hready] at h
  rcases hloop : insertLoop c.1.network (List.range c.1.prefixBits)
    (root c.1.network) s with ⟨walked, s₁⟩
  obtain ⟨name₁, hs₁, hgrown, hlast⟩ :=
    hm.shape.insertLoop c.1.network (hm.shape.root c.1.network).1 hloop
  have hm₁ : Marked s₁ name₁ inserted := hm.grown hs₁ hgrown
  rw [hloop] at h
  cases walked with
  | error err =>
    cases h
    exact ⟨name₁, hm₁⟩
  | ok last =>
    obtain ⟨hlt, hwalk⟩ := hlast last rfl
    obtain ⟨node, hnode⟩ : ∃ node, s₁.nodes[last]? = some node :=
      ⟨_, Vector.getElem?_eq_getElem (hlt.trans_le hs₁.fits)⟩
    simp only [hnode] at h
    split_ifs at h <;> cases h
    · exact ⟨name₁, hm₁⟩
    · exact ⟨name₁, hm₁.mark hwalk hnode⟩

/-! ## The answers -/

theorem containsLoop_iff (address : IpAddress) (indices : List Nat) (current : Nat) :
    (s.nodeMatches current effect || s.containsLoop address effect indices current) = true ↔
      ∃ path i, path <+: indices.map address.bit ∧ walk s.next current path = some i ∧
        s.nodeMatches i effect = true := by
  rw [Bool.or_eq_true]
  induction indices generalizing current with
  | nil =>
    simp only [containsLoop, Bool.false_eq_true, or_false, List.map_nil, List.prefix_nil]
    constructor
    · exact fun h => ⟨[], current, rfl, rfl, h⟩
    · rintro ⟨path, i, rfl, hwalk, hmark⟩
      cases hwalk
      exact hmark
  | cons index rest ih =>
    -- a walk is empty, or begins with the edge that the loop takes
    have hsplit : (∃ path i, path <+: (index :: rest).map address.bit ∧
        walk s.next current path = some i ∧ s.nodeMatches i effect = true) ↔
        s.nodeMatches current effect = true ∨ ∃ child, s.next current (address.bit index) = some child ∧
          ∃ path i, path <+: rest.map address.bit ∧ walk s.next child path = some i ∧
            s.nodeMatches i effect = true := by
      constructor
      · rintro ⟨path, i, hpath, hwalk, hmark⟩
        rcases List.prefix_cons_iff.mp hpath with rfl | ⟨tail, rfl, htail⟩
        · cases hwalk
          exact .inl hmark
        · obtain ⟨child, hchild, hwalk⟩ := bind_eq_some_iff.mp hwalk
          exact .inr ⟨child, hchild, tail, i, htail, hwalk, hmark⟩
      · rintro (hmark | ⟨child, hchild, tail, i, htail, hwalk, hmark⟩)
        · exact ⟨[], current, List.nil_prefix, rfl, hmark⟩
        · exact ⟨_, i, List.cons_prefix_cons.mpr ⟨rfl, htail⟩,
            (walk_cons hchild tail).trans hwalk, hmark⟩
    rw [hsplit]
    refine or_congr_right ?_
    rw [containsLoop]
    cases hchild : s.childAt current (address.bit index) with
    | none => simp [next, hchild]
    | some child =>
      by_cases hnone : child = noNode
      · simp [next, hchild, hnone, filter_some]
      · simp only [next_eq_some.mpr ⟨hchild, hnone⟩, getD_some, if_neg hnone, some.injEq,
          exists_eq_left']
        rw [← ih child]
        cases s.nodeMatches child effect <;> simp

/-- Where the marks are those of the inserted prefixes, so are the answers. -/
theorem Marked.contains (hm : Marked s name inserted) (a : Address) (effect : RuleEffect) :
    s.contains a.1 effect = true ↔ ∃ c, (c, effect) ∈ inserted ∧ c.1.contains a.1 = true := by
  have hcontains : s.contains a.1 effect = (s.nodeMatches (root a.1) effect ||
      s.containsLoop a.1 effect (List.range a.1.bits) (root a.1)) := by
    unfold PolicySet.contains
    rw [if_neg (Nat.not_lt.mpr hm.shape.ready)]
    cases s.nodeMatches (root a.1) effect <;> rfl
  rw [hcontains, containsLoop_iff]
  constructor
  · rintro ⟨path, i, hpath, hwalk, hmark⟩
    obtain ⟨hlt, hname⟩ := hm.shape.name_of_walk hwalk
    obtain ⟨c, hc, hnamed⟩ := hm.sound i effect hlt hmark
    obtain ⟨hfamily, rfl⟩ := Prod.mk.inj (hname.symm.trans hnamed)
    exact ⟨c, hc, (Cidr.contains_iff_path c.2).mpr
      ⟨(bits_eq_iff c.2.1 a.2).mpr hfamily.symm, hpath⟩⟩
  · rintro ⟨c, hc, hin⟩
    obtain ⟨hbits, hpath⟩ := (Cidr.contains_iff_path c.2).mp hin
    obtain ⟨i, hwalk, hmark⟩ := hm.complete c effect hc
    have hroot : root c.1.network = root a.1 := by
      unfold root
      rw [(bits_eq_iff c.2.1 a.2).mp hbits]
    exact ⟨c.1.path, i, hpath, hroot ▸ hwalk, hmark⟩

/-! ## Any calls -/

theorem empty_of_new (h : (new maxNodes).nodes[i]? = some node) : node = .empty := by
  obtain ⟨hlt, hnode⟩ := Vector.getElem?_eq_some_iff.mp h
  rw [← hnode]
  exact Vector.getElem_replicate hlt

/-- The state of a trie after some calls. One with fewer than two nodes takes nothing. -/
def Tracks (s : PolicySet maxNodes) (inserted : List (Prefix × RuleEffect)) : Prop :=
  (s.used < 2 ∧ inserted = []) ∨ ∃ name, Marked s name inserted

theorem tracks_new (maxNodes : Nat) : Tracks (new maxNodes) [] := by
  by_cases hroom : 2 ≤ maxNodes
  · refine .inr ⟨fun i => (i == 0, []), ⟨?_, ?_, rfl, rfl, ?_, ?_⟩, ?_, nofun⟩
    · exact (if_pos hroom).ge
    · exact (if_pos hroom).trans_le hroom
    · intro i b j _ hij
      simp [next_of_empty fun node => empty_of_new] at hij
    · exact fun i node _ hnode => empty_of_new hnode
    · intro i effect _ hmark
      simp [nodeMatches_of_empty fun node => empty_of_new] at hmark
  · exact .inl ⟨by simp [new, hroom], rfl⟩

theorem Tracks.insertNext (h : Tracks s inserted) (call : Prefix × RuleEffect) :
    Tracks (insertNext (s, inserted) call).1 (insertNext (s, inserted) call).2 := by
  obtain ⟨c, effect⟩ := call
  rcases h with ⟨hfew, hnone⟩ | ⟨name, hm⟩
  · have hrefused : s.insert c.1 effect = (.error .capacityExceeded, s) :=
      if_pos (.inr hfew)
    rw [PolicySet.insertNext, hrefused]
    exact .inl ⟨hfew, hnone⟩
  · rcases hcall : s.insert c.1 effect with ⟨r, s'⟩
    obtain ⟨name', hm'⟩ := hm.insert hcall
    rw [PolicySet.insertNext, hcall]
    cases r with
    | ok | error => exact .inr ⟨name', hm'⟩

theorem tracks_insertAll (maxNodes : Nat) (calls : List (Prefix × RuleEffect)) :
    Tracks (insertAll maxNodes calls).1 (insertAll maxNodes calls).2 :=
  List.foldlRecOn (motive := fun state => Tracks state.1 state.2) calls insertNext
    (tracks_new maxNodes) fun _ h call _ => h.insertNext call

theorem Tracks.contains (h : Tracks s inserted) (a : Address) (effect : RuleEffect) :
    s.contains a.1 effect = true ↔ ∃ c, (c, effect) ∈ inserted ∧ c.1.contains a.1 = true := by
  rcases h with ⟨hfew, rfl⟩ | ⟨name, hm⟩
  · simp [contains, hfew]
  · exact hm.contains a effect

/-- The trie is the set of the prefixes whose insertion succeeded: it answers as they do,
and a call that fails changes no answer. -/
theorem contains_insertAll (maxNodes : Nat) (calls : List (Prefix × RuleEffect)) (a : Address)
    (effect : RuleEffect) :
    ((insertAll maxNodes calls).1.contains a.1 effect = true ↔
      ∃ c, (c, effect) ∈ (insertAll maxNodes calls).2 ∧ c.1.network.bits = a.1.bits ∧
        ∀ index < c.1.prefixBits, c.1.network.bit index = a.1.bit index) ∧
    ∀ (c : Prefix) (other : RuleEffect) (err : ConfigError),
      ((insertAll maxNodes calls).1.insert c.1 other).1 = .error err →
      ((insertAll maxNodes calls).1.insert c.1 other).2.contains a.1 effect =
        (insertAll maxNodes calls).1.contains a.1 effect := by
  have htracks := tracks_insertAll maxNodes calls
  constructor
  · simp only [htracks.contains a effect, Cidr.contains_iff]
  · intro c other err hfailed
    have hafter := htracks.insertNext (c, other)
    rcases hcall : (insertAll maxNodes calls).1.insert c.1 other with ⟨r, s'⟩
    rw [hcall] at hfailed
    obtain rfl : r = .error err := hfailed
    rw [insertNext, hcall] at hafter
    rw [Bool.eq_iff_iff, htracks.contains a effect]
    exact hafter.contains a effect

end PolicySet

end NrePlugins.IpPolicy
