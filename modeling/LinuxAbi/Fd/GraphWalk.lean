import LinuxAbi.Fd.Graph
import LinuxAbi.Lib.Digraph
import Mathlib.Data.Set.Card

/-!
# What the walks of the epoll graph say

The graph is an edge relation with leaf edges (`Watches`), and the three walks of
`add_interest` are sound for it: a negative `reaches` excludes every walk, the
two depths bound every walk into the parent and every path out of the child.
Whether the walks succeed is a matter of the work budget and says nothing about
safety.
-/

namespace LinuxAbi.Fd

open List
open Lib.Digraph (Walk Path)

namespace EpollGraph

/-- The edge relation: `parent` watches the epoll instance `child`, or a leaf. -/
def Watches (g : EpollGraph) (parent : GraphNodeToken) (child : Option GraphNodeToken) : Prop :=
  ∃ e ∈ g.liveEdges, e.parent = parent ∧ e.child = child

/-- The token names a registered node. -/
def Live (g : EpollGraph) (token : GraphNodeToken) : Prop :=
  g.validateNode token = .ok token.slot

/-! ## The walks are sound -/

theorem reachesLoop_false : ∀ {edges : List GraphEdge} {budget budget' : Nat},
      reachesLoop visit current edges budget = .ok (false, budget') →
      ∀ e ∈ edges, e.parent = current → ∀ child, e.child = some child →
        ∃ b b', visit child b = .ok (false, b') := by
  intro edges
  induction edges with
  | nil =>
    intro _ _ _ e he
    exact absurd he not_mem_nil
  | cons edge rest ih =>
    intro budget budget' h e he hpar child hchild
    unfold reachesLoop at h
    split at h
    · cases h
    next b _ =>
    -- the edge under the loop is either `e` or not; the rest is the same call
    rcases mem_cons.mp he with rfl | hrest
    · rw [if_pos hpar, hchild] at h
      dsimp only at h
      split at h
      · cases h
      · cases h
      · next b' hvisit => exact ⟨b, b', hvisit⟩
    · split at h
      · split at h
        · exact ih h e hrest hpar child hchild
        · split at h
          · cases h
          · cases h
          · exact ih h e hrest hpar child hchild
      · exact ih h e hrest hpar child hchild

variable {g : EpollGraph}

/-- A negative answer means that no walk leads to the target. -/
theorem reaches_false :
    ∀ {room : Nat} {current : GraphNodeToken} {budget budget' : Nat},
      g.reaches target room current budget = .ok (false, budget') →
      ∀ n, ¬ Walk g.Watches current n target := by
  intro room
  induction room with
  | zero =>
    intro current budget budget' h
    unfold reaches at h
    split at h
    · cases h
    split at h
    · cases h
    · cases h
  | succ room ih =>
    intro current budget budget' h n hwalk
    unfold reaches at h
    split at h
    · cases h
    split at h
    · cases h
    next hne =>
    rcases hwalk.head_cases with heq | ⟨c, m, ⟨e, he, hpar, hchild⟩, hw⟩
    · exact hne heq
    · obtain ⟨b, b', hvisit⟩ := reachesLoop_false h e he hpar c hchild
      exact ih hvisit m hw

theorem depthLoop_bound : ∀ {edges : List GraphEdge} {maximum budget depth budget' : Nat},
      depthLoop visit hop edges maximum budget = .ok (depth, budget') →
      maximum ≤ depth ∧ ∀ e ∈ edges,
        (hop e = some none → 1 ≤ depth) ∧
        ∀ node, hop e = some (some node) →
          ∃ far b b', visit node b = .ok (far, b') ∧ far + 1 ≤ depth := by
  intro edges
  induction edges with
  | nil =>
    intro maximum budget depth budget' h
    cases h
    exact ⟨Nat.le_refl _, fun e he => absurd he not_mem_nil⟩
  | cons edge rest ih =>
    intro maximum budget depth budget' h
    unfold depthLoop at h
    split at h
    · cases h
    next b _ =>
    split at h
    · next hskip =>
      obtain ⟨hle, hrest⟩ := ih h
      refine ⟨hle, fun e he => ?_⟩
      rcases mem_cons.mp he with rfl | he
      · rw [hskip]
        simp
      · exact hrest e he
    · next step hstep =>
      dsimp only at h
      split at h
      · cases h
      next far b' hfar =>
      split at h
      · obtain ⟨hle, hrest⟩ := ih h
        have hmax : far + 1 ≤ depth := Nat.le_trans (Nat.le_max_right _ _) hle
        refine ⟨Nat.le_trans (Nat.le_max_left _ _) hle, fun e he => ?_⟩
        rcases mem_cons.mp he with rfl | he
        · rw [hstep]
          refine ⟨fun _ => by omega, ?_⟩
          rintro node ⟨⟩
          exact ⟨far, b, b', hfar, hmax⟩
        · exact hrest e he
      · cases h

/-- The loop result a successful depth walk rests on. -/
theorem maxDepth_ok (h : g.maxDepth hop room current budget = .ok (depth, budget')) :
    ∃ room', room = room' + 1 ∧ ∃ b,
      depthLoop (g.maxDepth hop room') (hop current) g.liveEdges 0 b = .ok (depth, budget') := by
  cases room with
  | zero =>
    unfold maxDepth at h
    split at h
    · cases h
    · cases h
  | succ room =>
    unfold maxDepth at h
    split at h
    · cases h
    · next b _ => exact ⟨room, rfl, b, h⟩

/-- The descendant depth bounds every path out of a node. -/
theorem maxDescendantDepth_bound :
    ∀ {room : Nat} {current : GraphNodeToken} {budget depth budget' : Nat},
      g.maxDescendantDepth room current budget = .ok (depth, budget') →
      ∀ n, Path g.Watches current n → n ≤ depth := by
  intro room
  induction room with
  | zero =>
    intro current budget depth budget' h
    obtain ⟨room', hroom, -⟩ := maxDepth_ok h
    cases hroom
  | succ room ih =>
    intro current budget depth budget' h n hpath
    obtain ⟨room', hroom, b, hloop⟩ := maxDepth_ok h
    cases hroom
    obtain ⟨-, hedges⟩ := depthLoop_bound hloop
    cases hpath with
    | nil => exact Nat.zero_le _
    | leaf he =>
      obtain ⟨e, hmem, hpar, hchild⟩ := he
      exact (hedges e hmem).1 (by rw [if_neg (not_not.mpr hpar), hchild])
    | @cons _ c m he hp =>
      obtain ⟨e, hmem, hpar, hchild⟩ := he
      obtain ⟨far, b₁, b₂, hvisit, hle⟩ :=
        (hedges e hmem).2 c (by rw [if_neg (not_not.mpr hpar), hchild])
      have hfar := ih hvisit m hp
      omega

/-- The parent depth bounds every walk into a node. -/
theorem maxParentDepth_bound :
    ∀ {room : Nat} {current : GraphNodeToken} {budget depth budget' : Nat},
      g.maxParentDepth room current budget = .ok (depth, budget') →
      ∀ a n, Walk g.Watches a n current → n ≤ depth := by
  intro room
  induction room with
  | zero =>
    intro current budget depth budget' h
    obtain ⟨room', hroom, -⟩ := maxDepth_ok h
    cases hroom
  | succ room ih =>
    intro current budget depth budget' h a n hwalk
    obtain ⟨room', hroom, b, hloop⟩ := maxDepth_ok h
    cases hroom
    obtain ⟨-, hedges⟩ := depthLoop_bound hloop
    cases hwalk with
    | nil => exact Nat.zero_le _
    | @snoc parent _ m hw he =>
      obtain ⟨e, hmem, hpar, hchild⟩ := he
      obtain ⟨far, b₁, b₂, hvisit, hle⟩ :=
        (hedges e hmem).2 parent (by rw [if_neg (not_not.mpr hchild), hpar])
      have hfar := ih hvisit a m hw
      omega

/-- The combined depth bounds every path through the new edge, and the new edge
closes no cycle. -/
theorem combinedDepth_ok (h : g.combinedDepth parent child = .ok combined) :
    (∀ c, child = some c → ∀ n, ¬ Walk g.Watches c n parent) ∧
      ∀ a i, Walk g.Watches a i parent → ∀ j,
        (j = 0 ∨ ∃ c, child = some c ∧ Path g.Watches c j) → i + 1 + j ≤ combined := by
  unfold combinedDepth at h
  dsimp only at h
  split at h
  · cases h
  · cases h
  next budget hchecked =>
  split at h
  · cases h
  next parentDepth budget' hpar =>
  split at h
  · cases h
  next childDepth _ hbelow =>
  split at h
  · cases h
    refine ⟨?_, ?_⟩
    · rintro c rfl
      exact reaches_false hchecked
    · intro a i hwalk j hj
      have hi := maxParentDepth_bound hpar a i hwalk
      rcases hj with rfl | ⟨c, rfl, hpath⟩
      · omega
      · have hj := maxDescendantDepth_bound hbelow j hpath
        omega
  · cases h

/-! ## Distinct parents -/

/-- The parents of `child` along a list of edge slots, repetitions included. -/
def parentsIn (child : GraphNodeToken) (edges : List (Option GraphEdge)) : List GraphNodeToken :=
  edges.filterMap fun edge => edge.bind fun e => if e.child = some child then some e.parent else none

theorem mem_parentsIn {child parent : GraphNodeToken} {edges : List (Option GraphEdge)} :
    parent ∈ parentsIn child edges ↔
      ∃ e, some e ∈ edges ∧ e.child = some child ∧ e.parent = parent := by
  unfold parentsIn
  rw [mem_filterMap]
  constructor
  · rintro ⟨edge, hmem, h⟩
    cases edge with
    | none => cases h
    | some e =>
      by_cases hchild : e.child = some child
      · refine ⟨e, hmem, hchild, ?_⟩
        simpa [hchild] using h
      · simp [hchild] at h
  · rintro ⟨e, hmem, hchild, hpar⟩
    exact ⟨some e, hmem, by simp [hchild, hpar]⟩

/-- The counting loop counts the parents that did not occur earlier. -/
theorem parentCountLoop_eq (child : GraphNodeToken) :
    ∀ (rest earlier : List (Option GraphEdge)) (count : Nat),
      count = (parentsIn child earlier).toFinset.card →
      parentCountLoop child earlier rest count
        = (parentsIn child (earlier ++ rest)).toFinset.card := by
  intro rest
  induction rest with
  | nil =>
    intro earlier count hcount
    rw [append_nil]
    exact hcount
  | cons edge rest ih =>
    intro earlier count hcount
    have hsplit : earlier ++ edge :: rest = (earlier ++ [edge]) ++ rest := by simp
    have happ : parentsIn child (earlier ++ [edge])
        = parentsIn child earlier ++ parentsIn child [edge] := filterMap_append ..
    rw [hsplit]
    cases edge with
    | none =>
      refine ih _ _ ?_
      rw [happ, hcount]
      simp [parentsIn]
    | some e =>
      unfold parentCountLoop
      split
      · next hother =>
        refine ih _ _ ?_
        rw [happ, hcount]
        simp [parentsIn, hother]
      · next hchild =>
        have hchild' : e.child = some child := not_not.mp hchild
        have hone : parentsIn child [some e] = [e.parent] := by simp [parentsIn, hchild']
        have hseen : (earlier.any fun e' => e'.any fun e' => e'.child = some child ∧
            e'.parent = e.parent) = true ↔ e.parent ∈ parentsIn child earlier := by
          rw [mem_parentsIn, any_eq_true]
          constructor
          · rintro ⟨edge', hmem, h⟩
            cases edge' with
            | none => cases h
            | some e' => exact ⟨e', hmem, by simpa using h⟩
          · rintro ⟨e', hmem, h⟩
            exact ⟨some e', hmem, by simpa using h⟩
        split
        · next hany =>
          refine ih _ _ ?_
          rw [happ, hone, hcount, toFinset_append]
          have hin : e.parent ∈ (parentsIn child earlier).toFinset :=
            mem_toFinset.mpr (hseen.mp hany)
          rw [Finset.union_eq_left.mpr (by simpa using hin)]
        · next hany =>
          refine ih _ _ ?_
          have hnot : e.parent ∉ (parentsIn child earlier).toFinset :=
            fun hin => hany (hseen.mpr (mem_toFinset.mp hin))
          rw [happ, hone, hcount, toFinset_append, Finset.union_comm]
          exact (Finset.card_insert_of_notMem hnot).symm

theorem mem_liveEdges : e ∈ g.liveEdges ↔ some e ∈ g.edges := by
  unfold liveEdges
  simp

/-- The code's count is the number of distinct parents. -/
theorem encard_parents (g : EpollGraph) (child : GraphNodeToken) :
    {parent | g.Watches parent (some child)}.encard = g.distinctParentCount child := by
  have hset : {parent | g.Watches parent (some child)}
      = ((parentsIn child g.edges).toFinset : Set GraphNodeToken) := by
    ext parent
    simp only [Set.mem_ofPred_eq, Finset.mem_coe, mem_toFinset, mem_parentsIn, Watches,
      mem_liveEdges]
    constructor
    · rintro ⟨e, hmem, hpar, hchild⟩
      exact ⟨e, hmem, hchild, hpar⟩
    · rintro ⟨e, hmem, hchild, hpar⟩
      exact ⟨e, hmem, hpar, hchild⟩
  unfold distinctParentCount
  rw [hset, Set.encard_coe_eq_coe_finsetCard,
    parentCountLoop_eq child g.edges [] 0 (by simp [parentsIn]), nil_append]

end EpollGraph

end LinuxAbi.Fd
