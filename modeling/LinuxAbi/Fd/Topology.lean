import LinuxAbi.Fd.GraphWalk
import LinuxAbi.Lib.Tally

/-!
# The epoll topology stays a shallow forest of watchers

The guards of `add_interest` bound the longest path through the new edge, so
`path_insert` bounds every path of the new graph; the other calls only take edges
away or touch nodes that no edge mentions.
-/

namespace LinuxAbi.Fd

open List
open Lib (run getElem?_set_cases)
open Lib.Digraph (Path insertEdge path_insert acyclic_of_bounded)

namespace EpollGraph

/-! ## The invariant and its steps -/

/-- What holds of the topology between calls. -/
structure Topology (g : EpollGraph) : Prop where
  bounded : ∀ a n, Path g.Watches a n → n ≤ g.limits.maxNesting
  parents : ∀ child, {parent | g.Watches parent (some child)}.encard
    ≤ (g.limits.maxParentsPerNode : ℕ∞)
  endpoints : ∀ parent child, g.Watches parent child →
    g.Live parent ∧ ∀ c, child = some c → g.Live c
  distinct : ∀ (i j : Nat) (n m : GraphNode), g.nodes[i]? = some (some n) →
    g.nodes[j]? = some (some m) → n.epoll = m.epoll → i = j

/-- Everything one call can do to a graph. -/
inductive Move (g : EpollGraph) : EpollGraph → Prop
  | refuse : Move g g
  | register (epoll : EpollId) (hslot : g.nodes[slot]? = some none)
      (hnew : ∀ (i : Nat) (n : GraphNode), g.nodes[i]? = some (some n) → n.epoll ≠ epoll) :
      Move g { g with
        nodes := g.nodes.set slot (some ⟨epoll, g.nextGeneration⟩)
        nextGeneration := g.nextGeneration + 1 }
  | unregister (hlive : g.Live node)
      (hfree : ∀ e ∈ g.liveEdges, e.parent ≠ node ∧ e.child ≠ some node) :
      Move g { g with nodes := g.nodes.set node.slot none }
  | link (hslot : g.edges[slot]? = some none) (hparent : g.Live parent)
      (hchild : ∀ c, child = some c → g.Live c ∧
        (g.Watches parent (some c) ∨ g.distinctParentCount c < g.limits.maxParentsPerNode))
      (hdepth : g.combinedDepth parent child = .ok combined)
      (hle : combined ≤ g.limits.maxNesting) :
      Move g { g with
        edges := g.edges.set slot (some ⟨g.nextGeneration, parent, child⟩)
        nextGeneration := g.nextGeneration + 1 }
  | unlink (slot : Nat) : Move g { g with edges := g.edges.set slot none }

variable {g : EpollGraph} {t : GraphNodeToken} {slot : Nat}

/-- A token is live as long as its slot holds its generation. -/
theorem live_iff :
    g.Live t ↔ t.graph = g.id ∧ g.nodes[t.slot]? = some (some ⟨t.epoll, t.generation⟩) := by
  unfold Live validateNode
  constructor
  · intro h
    split at h
    · cases h
    next hid =>
    refine ⟨not_not.mp hid, ?_⟩
    split at h
    · next node hnode =>
      split at h
      · next heq =>
        rw [hnode, ← heq.1, ← heq.2]
      · cases h
    · cases h
  · rintro ⟨hid, hnode⟩
    rw [if_neg (not_not.mpr hid), hnode]
    exact if_pos ⟨rfl, rfl⟩

/-- A token that passes the check is live. -/
theorem live_of_validateNode (h : g.validateNode t = .ok slot) : g.Live t := by
  have hslot : slot = t.slot := by
    unfold validateNode at h
    split at h
    · cases h
    split at h
    · split at h
      · exact (Except.ok.inj h).symm
      · cases h
    · cases h
  rw [hslot] at h
  exact h

/-- Generations run out, or one is used. -/
theorem allocateGeneration_cases (g : EpollGraph) :
    g.allocateGeneration = (.error .generationExhausted, g) ∨
      g.allocateGeneration
        = (.ok g.nextGeneration, { g with nextGeneration := g.nextGeneration + 1 }) := by
  unfold allocateGeneration
  split
  · exact .inr rfl
  · exact .inl rfl

theorem getElem?_of_findIdx? {α : Type} {l : List (Option α)}
    (h : l.findIdx? Option.isNone = some slot) : l[slot]? = some none := by
  obtain ⟨hlt, hnone, -⟩ := findIdx?_eq_some_iff_getElem.mp h
  rw [getElem?_eq_getElem hlt, Option.isNone_iff_eq_none.mp hnone]

/-- A new node takes a free slot. -/
theorem register_move (g : EpollGraph) (epoll : EpollId) : Move g (g.register epoll).2 := by
  unfold register
  split
  · exact .refuse
  next hdup =>
  split
  · exact .refuse
  next slot hfind =>
  rcases g.allocateGeneration_cases with h | h
  · rw [h]
    exact .refuse
  rw [h]
  refine .register epoll (getElem?_of_findIdx? hfind) ?_
  rintro i n hn rfl
  exact hdup (any_eq_true.mpr ⟨some n, mem_of_getElem? hn, by simp⟩)

/-- A node goes when no edge names it. -/
theorem unregister_move (g : EpollGraph) (node : GraphNodeToken) :
    Move g (g.unregister node).2 := by
  unfold unregister
  split
  · exact .refuse
  next hval =>
  split
  · exact .refuse
  next hbusy =>
  refine .unregister (live_of_validateNode hval) ?_
  intro e he
  have hnot : ¬ (e.parent = node ∨ e.child = some node) := by
    intro h
    exact hbusy (any_eq_true.mpr ⟨some e, mem_liveEdges.mp he, by simpa using h⟩)
  exact not_or.mp hnot

/-- What the checks on an epoll child establish. -/
theorem validateChild_ok (h : g.validateChild parent child = .ok ()) :
    g.Live child ∧ (g.Watches parent (some child) ∨
      g.distinctParentCount child < g.limits.maxParentsPerNode) := by
  unfold validateChild at h
  split at h
  · cases h
  next hval =>
  refine ⟨live_of_validateNode hval, ?_⟩
  split at h
  · cases h
  dsimp only at h
  split at h
  · cases h
  next hlimit =>
  by_cases halready : g.liveEdges.any
      (fun edge => edge.child = some child ∧ edge.parent = parent) = true
  · left
    obtain ⟨e, he, hmatch⟩ := any_eq_true.mp halready
    have hmatch' : e.child = some child ∧ e.parent = parent := by simpa using hmatch
    exact ⟨e, he, hmatch'.2, hmatch'.1⟩
  · right
    by_contra hge
    exact hlimit ⟨halready, Nat.not_lt.mp hge⟩

/-- An edge is stored when the depth through it is allowed. -/
theorem addInterest_move (g : EpollGraph) (parent : GraphNodeToken)
    (child : Option GraphNodeToken) : Move g (g.addInterest parent child).2 := by
  unfold addInterest
  split
  · exact .refuse
  next hpar =>
  dsimp only
  split
  · exact .refuse
  next hchild =>
  split
  · exact .refuse
  next slot hfind =>
  split
  · exact .refuse
  next combined hdepth =>
  split
  · exact .refuse
  next hle =>
  rcases g.allocateGeneration_cases with h | h
  · rw [h]
    exact .refuse
  rw [h]
  refine .link (getElem?_of_findIdx? hfind) (live_of_validateNode hpar) ?_ hdepth
    (Nat.not_lt.mp hle)
  rintro c rfl
  exact validateChild_ok hchild

theorem removeInterest_move (g : EpollGraph) (token : GraphEdgeToken) :
    Move g (g.removeInterest token).2 := by
  unfold removeInterest
  split
  · exact .refuse
  split
  · split
    · exact .refuse
    · exact .unlink token.slot
  · exact .refuse

/-- Every call is a move. -/
theorem call_move (g : EpollGraph) (c : GraphCall) : Move g (g.call c).2 := by
  cases c with
  | register epoll => exact register_move g epoll
  | unregister node => exact unregister_move g node
  | addInterest parent child => exact addInterest_move g parent child
  | removeInterest token => exact removeInterest_move g token

/-! ## Every step keeps the topology -/

/-- A step on edges alone keeps every token live. -/
theorem live_of_nodes_eq {g' : EpollGraph} (hid : g'.id = g.id) (hnodes : g'.nodes = g.nodes)
    (h : g.Live t) : g'.Live t := by
  rw [live_iff] at h ⊢
  rw [hid, hnodes]
  exact h

/-- A step on one node slot keeps a token live when its slot is another one. -/
theorem live_set (h : g.Live t) (hne : t.slot ≠ slot) :
    Live { g with nodes := g.nodes.set slot node, nextGeneration := gen } t := by
  rw [live_iff] at h ⊢
  refine ⟨h.1, ?_⟩
  show (g.nodes.set slot node)[t.slot]? = _
  rw [getElem?_set_ne (Ne.symm hne)]
  exact h.2

/-- Two live tokens of one slot are the same token. -/
theorem live_inj (ht : g.Live t) (hu : g.Live u) (hslot : t.slot = u.slot) : t = u := by
  rw [live_iff] at ht hu
  cases t
  cases u
  simp_all

/-- Only the stored edge is new. -/
theorem watches_link
    (h : Watches { g with edges := g.edges.set slot (some e), nextGeneration := gen } a x) :
    insertEdge g.Watches e.parent e.child a x := by
  obtain ⟨e', hmem, hpar, hchild⟩ := h
  rcases mem_or_eq_of_mem_set (mem_liveEdges.mp hmem) with hold | hnew
  · exact .inl ⟨e', mem_liveEdges.mpr hold, hpar, hchild⟩
  · obtain rfl := Option.some.inj hnew
    exact .inr ⟨hpar.symm, hchild.symm⟩

/-- An edge that is removed adds none. -/
theorem watches_unlink
    (h : Watches { g with edges := g.edges.set slot none } a x) : g.Watches a x := by
  obtain ⟨e, hmem, hends⟩ := h
  rcases mem_or_eq_of_mem_set (mem_liveEdges.mp hmem) with hold | hnew
  · exact ⟨e, mem_liveEdges.mpr hold, hends⟩
  · cases hnew

theorem Topology.register (h : g.Topology) (hslot : g.nodes[slot]? = some none)
    (hnew : ∀ (i : Nat) (n : GraphNode), g.nodes[i]? = some (some n) → n.epoll ≠ epoll) :
    Topology { g with
      nodes := g.nodes.set slot (some ⟨epoll, g.nextGeneration⟩)
      nextGeneration := g.nextGeneration + 1 } where
  bounded := h.bounded
  parents := h.parents
  endpoints := by
    intro parent child hw
    -- the slot was vacant, so no live token names it
    have hne : ∀ t, g.Live t → t.slot ≠ slot := by
      intro t ht heq
      have hnode := (live_iff.mp ht).2
      rw [heq, hslot] at hnode
      cases hnode
    obtain ⟨hpar, hchild⟩ := h.endpoints parent child hw
    refine ⟨live_set hpar (hne parent hpar), ?_⟩
    intro c hc
    exact live_set (hchild c hc) (hne c (hchild c hc))
  distinct := by
    intro i j n m hi hj heq
    -- a node of the new table is the new one or sits where it was
    rcases getElem?_set_cases hi with ⟨rfl, hn⟩ | ⟨-, hi⟩
    · cases hn
      rcases getElem?_set_cases hj with ⟨rfl, -⟩ | ⟨-, hj⟩
      · rfl
      · exact absurd heq.symm (hnew j m hj)
    · rcases getElem?_set_cases hj with ⟨-, hm⟩ | ⟨-, hj⟩
      · cases hm
        exact absurd heq (hnew i n hi)
      · exact h.distinct i j n m hi hj heq

theorem Topology.unregister (h : g.Topology) (hlive : g.Live node)
    (hfree : ∀ e ∈ g.liveEdges, e.parent ≠ node ∧ e.child ≠ some node) :
    Topology { g with nodes := g.nodes.set node.slot none } where
  bounded := h.bounded
  parents := h.parents
  endpoints := by
    intro parent child hw
    have hends := h.endpoints parent child hw
    obtain ⟨e, hmem, rfl, rfl⟩ := hw
    have hfree := hfree e hmem
    refine ⟨live_set hends.1 ?_, ?_⟩
    · intro heq
      exact hfree.1 (live_inj hends.1 hlive heq)
    · intro c hc
      refine live_set (hends.2 c hc) ?_
      intro heq
      exact hfree.2 (hc.trans (congrArg some (live_inj (hends.2 c hc) hlive heq)))
  distinct := by
    intro i j n m hi hj heq
    rcases getElem?_set_cases hi with ⟨-, hn⟩ | ⟨-, hi⟩
    · cases hn
    rcases getElem?_set_cases hj with ⟨-, hm⟩ | ⟨-, hj⟩
    · cases hm
    · exact h.distinct i j n m hi hj heq

/-- That depth bounds every path through the new edge. -/
theorem Topology.link (h : g.Topology) {combined : Nat} {parent : GraphNodeToken}
    {child : Option GraphNodeToken} (hpar : g.Live parent)
    (hchild : ∀ c, child = some c → g.Live c ∧
      (g.Watches parent (some c) ∨ g.distinctParentCount c < g.limits.maxParentsPerNode))
    (hdepth : g.combinedDepth parent child = .ok combined) (hle : combined ≤ g.limits.maxNesting) :
    Topology { g with
      edges := g.edges.set slot (some ⟨g.nextGeneration, parent, child⟩)
      nextGeneration := g.nextGeneration + 1 } where
  bounded := by
    intro a n hpath
    obtain ⟨hcycle, hcombined⟩ := combinedDepth_ok hdepth
    rcases path_insert hcycle (hpath.mono fun _ _ => watches_link) with
      hold | ⟨i, j, hwalk, hj, rfl⟩
    · exact h.bounded a n hold
    · exact Nat.le_trans (hcombined a i hwalk j hj) hle
  parents := by
    intro c
    by_cases hc : child = some c ∧ ¬ g.Watches parent (some c)
    · -- a new parent: the guard left room for one more
      obtain ⟨rfl, hnot⟩ := hc
      have hroom := (hchild c rfl).2.resolve_left hnot
      have hsub : {a | Watches { g with
            edges := g.edges.set slot (some ⟨g.nextGeneration, parent, some c⟩)
            nextGeneration := g.nextGeneration + 1 } a (some c)}
          ⊆ insert parent {a | g.Watches a (some c)} := by
        intro a ha
        rcases watches_link ha with hold | ⟨rfl, -⟩
        · exact .inr hold
        · exact .inl rfl
      calc _ ≤ (insert parent {a | g.Watches a (some c)}).encard := Set.encard_le_encard hsub
        _ ≤ {a | g.Watches a (some c)}.encard + 1 := Set.encard_insert_le ..
        _ = ((g.distinctParentCount c + 1 : Nat) : ℕ∞) := by rw [encard_parents]; rfl
        _ ≤ (g.limits.maxParentsPerNode : ℕ∞) := by exact_mod_cast hroom
    · -- the parents of every other node are as before
      refine (Set.encard_le_encard ?_).trans (h.parents c)
      intro a ha
      rcases watches_link ha with hold | ⟨rfl, heq⟩
      · exact hold
      · by_contra hnot
        exact hc ⟨heq.symm, hnot⟩
  endpoints := by
    intro a x hw
    have hends : g.Live a ∧ ∀ c, x = some c → g.Live c := by
      rcases watches_link hw with hold | ⟨rfl, rfl⟩
      · exact h.endpoints a x hold
      · exact ⟨hpar, fun c hc => (hchild c hc).1⟩
    refine ⟨live_of_nodes_eq (g := g) rfl rfl hends.1, ?_⟩
    intro c hc
    exact live_of_nodes_eq (g := g) rfl rfl (hends.2 c hc)
  distinct := h.distinct

theorem Topology.unlink (h : g.Topology) (slot : Nat) :
    Topology { g with edges := g.edges.set slot none } where
  bounded := by
    intro a n hpath
    exact h.bounded a n (hpath.mono fun _ _ => watches_unlink)
  parents := by
    intro child
    exact (Set.encard_le_encard fun _ ha => watches_unlink ha).trans (h.parents child)
  endpoints := by
    intro a x hw
    have hends := h.endpoints a x (watches_unlink hw)
    refine ⟨live_of_nodes_eq (g := g) rfl rfl hends.1, ?_⟩
    intro c hc
    exact live_of_nodes_eq (g := g) rfl rfl (hends.2 c hc)
  distinct := h.distinct

/-- What a move keeps. -/
theorem Move.topology (hm : Move g g') (h : g.Topology) : g'.Topology ∧ g'.limits = g.limits := by
  cases hm with
  | refuse => exact ⟨h, rfl⟩
  | register epoll hslot hnew => exact ⟨h.register hslot hnew, rfl⟩
  | unregister hlive hfree => exact ⟨h.unregister hlive hfree, rfl⟩
  | link _ hpar hchild hdepth hle => exact ⟨h.link hpar hchild hdepth hle, rfl⟩
  | unlink slot => exact ⟨h.unlink slot, rfl⟩

/-- A new graph is empty. -/
theorem tryNew_topology {nodesReserved edgesReserved : Bool} {gid : EpollGraphId}
    {limits : EpollGraphLimits} (h : tryNew nodesReserved edgesReserved gid limits = .ok g) :
    g.Topology ∧ g.limits = limits := by
  unfold tryNew at h
  split at h
  · cases h
  split at h
  · cases h
  obtain rfl := Except.ok.inj h
  have hnone : ∀ a x, ¬ Watches ⟨gid, limits, replicate limits.nodeCapacity none,
      replicate limits.edgeCapacity none, 1⟩ a x := by
    intro a x hw
    obtain ⟨e, hmem, -⟩ := hw
    cases eq_of_mem_replicate (mem_liveEdges.mp hmem)
  refine ⟨⟨?_, ?_, ?_, ?_⟩, rfl⟩
  · intro a n hpath
    cases hpath with
    | nil => exact Nat.zero_le _
    | leaf he | cons he => exact absurd he (hnone _ _)
  · intro child
    have hemp := Set.eq_empty_of_forall_notMem fun a => hnone a (some child)
    exact le_of_eq_of_le (congrArg Set.encard hemp) (by simp)
  · intro a x hw
    exact absurd hw (hnone a x)
  · intro i j n m hi
    cases eq_of_mem_replicate (mem_of_getElem? hi)

/-- In every graph reached by any calls with any tokens: no cycle of watchers, no
path longer than the nesting limit, no node with more distinct parents than
allowed, only registered endpoints, and no epoll instance registered twice. -/
theorem run_topology {nodesReserved edgesReserved : Bool} {gid : EpollGraphId}
    {limits : EpollGraphLimits} {g₀ : EpollGraph}
    (hnew : tryNew nodesReserved edgesReserved gid limits = .ok g₀) (calls : List GraphCall) :
    let g := run EpollGraph.call g₀ calls
    (∀ t, ¬ Relation.TransGen (fun parent child => g.Watches parent (some child)) t t) ∧
      (∀ t n, Path g.Watches t n → n ≤ limits.maxNesting) ∧
      (∀ child, {parent | g.Watches parent (some child)}.encard
        ≤ (limits.maxParentsPerNode : ℕ∞)) ∧
      (∀ parent child, g.Watches parent child →
        g.Live parent ∧ ∀ c, child = some c → g.Live c) ∧
      (∀ (i j : Nat) (n m : GraphNode), g.nodes[i]? = some (some n) →
        g.nodes[j]? = some (some m) → n.epoll = m.epoll → i = j) := by
  have hrun : (run EpollGraph.call g₀ calls).Topology ∧
      (run EpollGraph.call g₀ calls).limits = limits := by
    refine Lib.run_preserves (I := fun g : EpollGraph => g.Topology ∧ g.limits = limits) ?_
      (tryNew_topology hnew) calls
    intro g c hg
    obtain ⟨htop, hlimits⟩ := (call_move g c).topology hg.1
    exact ⟨htop, hlimits.trans hg.2⟩
  obtain ⟨htop, hlimits⟩ := hrun
  intro g
  refine ⟨acyclic_of_bounded htop.bounded, ?_, ?_, htop.endpoints, htop.distinct⟩
  · intro t n hpath
    rw [← hlimits]
    exact htop.bounded t n hpath
  · intro child
    rw [← hlimits]
    exact htop.parents child

/-- Two epoll instances, the first watching the second, which watches a leaf; the
attempt to close the cycle is refused. -/
def nestedCalls : List GraphCall :=
  let outer : GraphNodeToken := { graph := ⟨.one⟩, slot := 0, generation := 1, epoll := ⟨.one⟩ }
  let inner : GraphNodeToken :=
    { graph := ⟨.one⟩, slot := 1, generation := 2, epoll := ⟨⟨2, by decide, by decide⟩⟩ }
  [.register outer.epoll, .register inner.epoll, .addInterest outer (some inner),
    .addInterest inner none, .addInterest inner (some outer)]

theorem run_topology_nested : ∃ g₀, tryNew true true ⟨.one⟩ ⟨2, 4, 1, 2, 64⟩ = .ok g₀ ∧
    (run EpollGraph.call g₀ nestedCalls).liveEdges.length = 2 ∧
    ∀ t n, Path (run EpollGraph.call g₀ nestedCalls).Watches t n → n ≤ 2 := by
  have hnew : tryNew true true ⟨.one⟩ ⟨2, 4, 1, 2, 64⟩ = .ok _ := rfl
  exact ⟨_, hnew, by decide, (run_topology hnew nestedCalls).2.1⟩

end EpollGraph

end LinuxAbi.Fd
