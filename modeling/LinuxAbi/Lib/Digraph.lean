import Mathlib.Logic.Relation

/-!
# Directed graphs with leaf edges

A node may have edges to other nodes and edges that lead out of the graph. An
edge relation `E a (some b)` is an edge between nodes, `E a none` a leaf edge. A
*walk* goes from node to node; a *path* starts at a node and may end with a leaf
edge, which counts towards its length.

Adding one edge can only create paths through that edge. If the new edge closes
no cycle, such a path uses it once: it is a walk up to the edge's tail, the edge,
and an old path from the edge's head (`path_insert`). That is what an insertion
check has to measure. A bound on all paths excludes cycles (`acyclic_of_bounded`).
-/

namespace LinuxAbi.Lib.Digraph

universe u

variable {α : Type u}

/-- `Walk E a n b`: `n` edges lead from `a` to `b`. -/
inductive Walk (E : α → Option α → Prop) : α → Nat → α → Prop
  | nil (a : α) : Walk E a 0 a
  | snoc {a b c : α} {n : Nat} (hw : Walk E a n b) (he : E b (some c)) : Walk E a (n + 1) c

/-- `Path E a n`: a path of `n` edges starts at `a`, its last edge possibly a leaf edge. -/
inductive Path (E : α → Option α → Prop) : α → Nat → Prop
  | nil (a : α) : Path E a 0
  | leaf {a : α} (he : E a none) : Path E a 1
  | cons {a b : α} {n : Nat} (he : E a (some b)) (hp : Path E b n) : Path E a (n + 1)

/-- The relation with one more edge. -/
def insertEdge (E : α → Option α → Prop) (parent : α) (child : Option α) : α → Option α → Prop :=
  fun a x => E a x ∨ (a = parent ∧ x = child)

variable {E F : α → Option α → Prop}

variable {a b : α} {n : Nat}

theorem Walk.cons {c : α} (he : E a (some b)) (hw : Walk E b n c) : Walk E a (n + 1) c := by
  induction hw with
  | nil => exact .snoc (.nil a) he
  | snoc _ he' ih => exact .snoc ih he'

/-- A walk is empty or starts with an edge. -/
theorem Walk.head_cases (h : Walk E a n b) : a = b ∨ ∃ c m, E a (some c) ∧ Walk E c m b := by
  induction h with
  | nil => exact .inl rfl
  | @snoc b c n _ he ih =>
    right
    rcases ih with rfl | ⟨d, m, hd, hw⟩
    · exact ⟨c, 0, he, .nil c⟩
    · exact ⟨d, m + 1, hd, .snoc hw he⟩

theorem Walk.trans {c : α} {m : Nat} (h : Walk E a n b) (h' : Walk E b m c) :
    Walk E a (n + m) c := by
  induction h' with
  | nil => exact h
  | snoc _ he ih => exact .snoc ih he

/-- The nodes of a walk form a path. -/
theorem Walk.path (h : Walk E a n b) : ∀ {m : Nat}, Path E b m →
    Path E a (n + m) := by
  induction h with
  | nil =>
    intro m hp
    rw [Nat.zero_add]
    exact hp
  | snoc _ he ih =>
    intro m hp
    have hnext := ih (.cons he hp)
    rwa [Nat.add_assoc, Nat.add_comm 1 m]

theorem Path.mono (hsub : ∀ a x, E a x → F a x) (h : Path E a n) : Path F a n := by
  induction h with
  | nil a => exact .nil a
  | leaf he => exact .leaf (hsub _ _ he)
  | cons he _ ih => exact .cons (hsub _ _ he) ih

/-- A path after an insertion is an old path, or an old walk to the new edge, the
edge, and an old path after it. -/
theorem path_insert {parent : α} {child : Option α}
    (hno : ∀ c, child = some c → ∀ n, ¬ Walk E c n parent)
    (h : Path (insertEdge E parent child) a n) :
    Path E a n ∨ ∃ i j, Walk E a i parent ∧
      (j = 0 ∨ ∃ c, child = some c ∧ Path E c j) ∧ n = i + 1 + j := by
  induction h with
  | nil a => exact .inl (.nil a)
  | @leaf a he =>
    rcases he with he | ⟨rfl, hchild⟩
    · exact .inl (.leaf he)
    · exact .inr ⟨0, 0, .nil a, .inl rfl, rfl⟩
  | @cons a b n he _ ih =>
    rcases he with he | ⟨rfl, hchild⟩
    · rcases ih with hp | ⟨i, j, hw, hj, rfl⟩
      · exact .inl (.cons he hp)
      · exact .inr ⟨i + 1, j, hw.cons he, hj, by omega⟩
    · -- the new edge comes first; coming back to it would close a cycle
      rcases ih with hp | ⟨i, j, hw, -, -⟩
      · exact .inr ⟨0, n, .nil a, .inr ⟨b, hchild.symm, hp⟩, by omega⟩
      · exact absurd hw (hno b hchild.symm i)

theorem exists_walk_of_transGen (h : Relation.TransGen (fun x y => E x (some y)) a b) :
    ∃ n, Walk E a (n + 1) b := by
  induction h with
  | single he => exact ⟨0, .snoc (.nil a) he⟩
  | tail _ he ih =>
    obtain ⟨n, hw⟩ := ih
    exact ⟨n + 1, .snoc hw he⟩

/-- Going round a cycle makes paths of any length. -/
theorem acyclic_of_bounded {k : Nat} (hbound : ∀ a n, Path E a n → n ≤ k) (a : α) :
    ¬ Relation.TransGen (fun x y => E x (some y)) a a := by
  intro hcycle
  obtain ⟨n, hw⟩ := exists_walk_of_transGen hcycle
  have hround : ∀ m, ∃ len, m ≤ len ∧ Walk E a len a := by
    intro m
    induction m with
    | zero => exact ⟨0, Nat.le_refl 0, .nil a⟩
    | succ m ih =>
      obtain ⟨len, hle, hlen⟩ := ih
      exact ⟨len + (n + 1), by omega, hlen.trans hw⟩
  obtain ⟨len, hle, hlen⟩ := hround (k + 1)
  have hk := hbound a (len + 0) (hlen.path (.nil a))
  omega

end LinuxAbi.Lib.Digraph
