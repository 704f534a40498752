import LinuxAbi.Lib.Meter
import LinuxAbi.Lib.Run
import LinuxAbi.Lib.Tally
import LinuxAbi.Seccomp.Filters

/-!
# What filter chains cost

`FilterChain::try_append_with_executor`, the drop of `FilterNode`, and `FilterBudget` of
`crates/seccomp/src/budget.rs`, at the grain at which threads interleave: a round of the
reservation loop, the allocation of a node, the release of a reference, the drop of a node.

Mirroring notes:
- A reference is the chain behind it, held by a chain or by the cursor of a drop; an `Arc`
  gives up its node with the last one. A node value outside of an `Arc` is `loose`: an append
  has not allocated it yet, or a drop has taken it out.
- An address is in use by one live node at a time and may come back later. The one that a
  node will get is an argument of the append.
- `size_of::<FilterNode>()` depends on the target and is a field; an instruction has 8 bytes.
-/

namespace LinuxAbi.Seccomp

open Function
open List
open Lib (Meter tally)

namespace FilterChain

/-- The address of the leaf. -/
def leafId (chain : FilterChain) : Option Nat := chain.head?.map (·.id)

/-- The charge of the leaf, if it is to this budget. -/
def chargeTo (nodeBytes budget : Nat) : FilterChain → Nat
  | [] => 0
  | leaf :: _ => if leaf.budget = budget then leaf.program.len * 8 + nodeBytes else 0

/-- What the fields of a chain say about its filters. -/
structure Priced (chain : FilterChain) : Prop where
  pathCost_eq : chain.pathCost =
    tally (·.program.pathCharge) chain + filterPathPenalty * (chain.length - 1)
  pathCost_le : chain.pathCost ≤ maxInsnsPerPath
  filterCount_eq : chain.filterCount = chain.length
  one_budget : ∃ budget, ∀ node ∈ chain, node.budget = budget

end FilterChain

open FilterChain

/-- The arguments of an append. -/
structure AppendRequest where
  address : Nat
  program : VerifiedProgram
  metadata : FilterMetadata
  budget : Nat
  executor : Option (SeccompData → BitVec 32)

structure FilterHeap where
  nodeBytes : Nat
  budgets : Nat → Meter
  refs : List FilterChain
  /-- the allocated nodes, each with those it links to -/
  live : List FilterChain
  loose : List FilterChain

inductive HeapReply
  | unknown
  | done
  | retry (observed : Nat)
  | error (error : FilterInstallError)

inductive HeapCall
  | empty
  | clone (chain : Nat)
  /-- the checks of an append and one round of `try_reserve` -/
  | reserve (chain : Nat) (request : AppendRequest) (current : Nat) (spurious : Bool)
  /-- `Arc::try_new` -/
  | allocate (node : Nat) (allocated : Bool)
  | drop (chain : Nat)
  /-- the drop of a node value: its reference is left to the cursor, its charge refunded -/
  | dropNode (node : Nat)

namespace FilterHeap

/-- All nodes; each has a charge and a reference to the one before it. -/
def nodes (x : FilterHeap) : List FilterChain := x.live ++ x.loose

def references (x : FilterHeap) : List FilterChain := x.refs ++ x.nodes.map tail

def reserve (x : FilterHeap) (chain : FilterChain) (r : AppendRequest) (current : Nat)
    (spurious : Bool) : HeapReply × FilterHeap :=
  match chain.tryAppend r.address r.program r.metadata r.budget r.executor true true with
  | .error error => (.error error, x)
  | .ok node =>
    if 2 ^ 64 ≤ r.program.len * 8 + x.nodeBytes then (.error .budgetExceeded, x)
    else
      match (x.budgets r.budget).attempt current (r.program.len * 8 + x.nodeBytes) spurious with
      | (.refused, _) => (.error .budgetExceeded, x)
      | (.lost observed, _) => (.retry observed, x)
      | (.charged, meter) =>
        (.done, { x with
          budgets := update x.budgets r.budget meter
          loose := x.loose ++ [node] })

/-- The release of one reference to a node: the last one takes the node out. -/
def release (x : FilterHeap) (i : Nat) (node : FilterNode) (previous : FilterChain) : FilterHeap :=
  let kept := { x with refs := x.refs.eraseIdx i }
  if kept.references.any (·.leafId == some node.id) then kept
  else
    { kept with
      live := x.live.eraseP (·.leafId == some node.id)
      loose := x.loose ++ [node :: previous] }

/-- The drop of a `FilterCharge`. -/
def refunded (x : FilterHeap) (node : FilterNode) : Nat → Meter :=
  update x.budgets node.budget
    ((x.budgets node.budget).refund (node.program.len * 8 + x.nodeBytes))

def call (x : FilterHeap) : HeapCall → HeapReply × FilterHeap
  | .empty => (.done, { x with refs := x.refs ++ [[]] })
  | .clone i =>
    match x.refs[i]? with
    | none => (.unknown, x)
    | some chain => (.done, { x with refs := x.refs ++ [chain] })
  | .reserve i request current spurious =>
    match x.refs[i]? with
    | none => (.unknown, x)
    | some chain => x.reserve chain request current spurious
  | .allocate i allocated =>
    match x.loose[i]? with
    | none => (.unknown, x)
    | some node =>
      if ¬ allocated then (.error .noMemory, x)
      else if x.live.any (·.leafId == node.leafId) then (.unknown, x)
      else
        (.done, { x with
          loose := x.loose.eraseIdx i
          live := node :: x.live
          refs := x.refs ++ [node] })
  | .drop i =>
    match x.refs[i]? with
    | none => (.unknown, x)
    | some [] => (.done, { x with refs := x.refs.eraseIdx i })
    | some (node :: previous) => (.done, x.release i node previous)
  | .dropNode i =>
    match x.loose[i]? with
    | some (node :: previous) =>
      (.done, { x with
        budgets := x.refunded node
        loose := x.loose.eraseIdx i
        refs := x.refs ++ [previous] })
    | _ => (.unknown, x)

/-- Budgets with their limits, and no filters. -/
def new (nodeBytes : Nat) (limitBytes : Nat → BitVec 64) : FilterHeap where
  nodeBytes := nodeBytes
  budgets budget := ⟨(limitBytes budget).toNat, 0⟩
  refs := []
  live := []
  loose := []

/-! ## Pricing -/

theorem priced_nil : Priced [] where
  pathCost_eq := rfl
  pathCost_le := Nat.zero_le _
  filterCount_eq := rfl
  one_budget := ⟨0, nofun⟩

/-- An append prices the new filter, and links its node to the chain. -/
theorem tryAppend_priced {chain node : FilterChain} {id budget : Nat} {program : VerifiedProgram}
    {metadata : FilterMetadata} {executor : Option (SeccompData → BitVec 32)}
    {reserved allocated : Bool} (hchain : chain.Priced)
    (h : chain.tryAppend id program metadata budget executor reserved allocated = .ok node) :
    node.Priced ∧ ∃ leaf, node = leaf :: chain ∧ leaf.budget = budget ∧ leaf.program = program := by
  unfold tryAppend at h
  split at h
  · cases h
  next pathCost hcost =>
  split_ifs at h with hlong hcount hbudget
  cases h
  refine ⟨⟨?_, ?_, ?_, budget, ?_⟩, _, rfl, rfl, rfl⟩
  · show pathCost = _
    have htotal := hchain.pathCost_eq
    cases chain with
    | nil =>
      obtain rfl := Option.some.inj hcost
      simp [tally]
    | cons leaf previous =>
      unfold appendedCost at hcost
      simp only [isEmpty_cons, Bool.false_eq_true, if_false, Option.ite_none_right_eq_some,
        Option.some.injEq] at hcost
      rw [← hcost.2, htotal]
      simp only [Lib.tally_cons, length_cons, Nat.add_sub_cancel, Nat.mul_add_one]
      omega
  · exact Nat.not_lt.mp hlong
  · show chain.filterCount + 1 = _
    rw [hchain.filterCount_eq]
    rfl
  · -- the leaf's budget is the one of all, and the append has compared it
    obtain ⟨old, hold⟩ := hchain.one_budget
    intro n hn
    rcases mem_cons.mp hn with rfl | hn
    · rfl
    cases chain with
    | nil => cases hn
    | cons leaf previous =>
      have hleaf : leaf.budget = budget := by simpa using hbudget
      rw [hold n hn, ← hold leaf mem_cons_self, hleaf]

/-! ## Accounts -/

/-- An address names one live node, the live nodes are those referred to, and every budget has
been charged for the nodes there are. -/
structure Sound (x : FilterHeap) : Prop where
  addresses : (x.live.map leafId).Nodup
  linked : ∀ c, c ∈ x.live ↔ c ≠ [] ∧ c ∈ x.references
  priced : ∀ c ∈ x.nodes, c ≠ [] ∧ c.Priced
  accounts : ∀ b, (x.budgets b).Holds (tally (chargeTo x.nodeBytes b) x.nodes)

variable {x y : FilterHeap} {i : Nat} {c : FilterChain} {node : FilterNode} {previous : FilterChain}

theorem mem_references : c ∈ x.references ↔ c ∈ x.refs ∨ ∃ d ∈ x.nodes, d.tail = c := by
  simp [references]

theorem mem_references_concat (d : FilterChain) :
    d ∈ { x with refs := x.refs ++ [c] }.references ↔ d = c ∨ d ∈ x.references := by
  simp [mem_references, nodes, or_assoc, or_left_comm]

theorem mem_references_erase (hi : x.refs[i]? = some c) (d : FilterChain) :
    d ∈ x.references ↔ d = c ∨ d ∈ { x with refs := x.refs.eraseIdx i }.references := by
  rw [mem_references, mem_references, (Lib.perm_eraseIdx hi).mem_iff, mem_cons, or_assoc]
  rfl

section

variable (h : x.Sound)
include h

theorem Sound.ref_priced (hc : c ∈ x.refs) : c.Priced := by
  by_cases hne : c = []
  · rw [hne]
    exact priced_nil
  · have hlive := (h.linked c).mpr ⟨hne, mem_references.mpr (.inl hc)⟩
    exact (h.priced c (mem_append_left _ hlive)).2

/-- The address of a live node names it. -/
theorem Sound.eq_of_leafId (hd : d ∈ x.live) (hc : c ∈ x.live)
    (hid : c.leafId = d.leafId) : c = d :=
  inj_on_of_nodup_map h.addresses hc hd hid

theorem Sound.live_perm (hmem : node :: previous ∈ x.live) :
    x.live.Perm ((node :: previous) :: x.live.eraseP (·.leafId == some node.id)) := by
  obtain ⟨c, left, right, -, hc, heq, herase⟩ :=
    exists_of_eraseP (p := fun c : FilterChain => c.leafId == some node.id) hmem
      (beq_self_eq_true (some node.id))
  have hlive : c ∈ x.live := by rw [heq]; simp
  obtain rfl := h.eq_of_leafId hmem hlive (beq_iff_eq.mp hc)
  rw [herase]
  nth_rewrite 1 [heq]
  exact perm_middle

/-- Nodes change places: what they cost stays. -/
theorem Sound.rearrange (hnodes : y.nodes.Perm x.nodes) (hbudgets : y.budgets = x.budgets)
    (hbytes : y.nodeBytes = x.nodeBytes) (haddresses : (y.live.map leafId).Nodup)
    (hlink : ∀ c, c ∈ y.live ↔ c ≠ [] ∧ c ∈ { x with refs := y.refs }.references) : y.Sound := by
  refine ⟨haddresses, ?_, fun c hc => h.priced c (hnodes.mem_iff.mp hc), ?_⟩
  · intro c
    rw [hlink, mem_references, mem_references]
    simp only [hnodes.mem_iff]
    rfl
  · intro b
    have htally : tally (chargeTo x.nodeBytes b) y.nodes = tally (chargeTo x.nodeBytes b) x.nodes :=
      (hnodes.map _).sum_eq
    rw [hbudgets, hbytes, htally]
    exact h.accounts b

/-- References to a chain that come and go while another is there. -/
theorem Sound.setRefs {refs : List FilterChain}
    (hsame : ∀ c, c ≠ [] → (c ∈ { x with refs }.references ↔ c ∈ x.references)) :
    { x with refs }.Sound := by
  refine h.rearrange (Perm.refl _) rfl rfl h.addresses ?_
  intro c
  exact (h.linked c).trans (and_congr_right fun hne => (hsame c hne).symm)

theorem Sound.share (hc : c ≠ [] → c ∈ x.references) : { x with refs := x.refs ++ [c] }.Sound := by
  refine h.setRefs ?_
  intro d hne
  rw [mem_references_concat]
  refine or_iff_right_of_imp ?_
  rintro rfl
  exact hc hne

/-- A node more or less: it is charged, and refers to what is referred to. -/
theorem Sound.recharge (hlive : y.live = x.live) (hsame : ∀ c, c ∈ y.references ↔ c ∈ x.references)
    (hpriced : ∀ c ∈ y.nodes, c ≠ [] ∧ c.Priced)
    (haccounts : ∀ b, (y.budgets b).Holds (tally (chargeTo y.nodeBytes b) y.nodes)) : y.Sound := by
  refine ⟨hlive ▸ h.addresses, ?_, hpriced, haccounts⟩
  intro c
  rw [hlive, hsame]
  exact h.linked c

/-- A round of an append makes a node and charges for it, or it does nothing. -/
theorem Sound.reserve_cases (hc : c ∈ x.refs) (r : AppendRequest) (current : Nat) (spurious : Bool) :
    (∃ reply, x.reserve c r current spurious = (reply, x) ∧ reply ≠ .done) ∨
      ∃ leaf, leaf.budget = r.budget ∧ leaf.program = r.program ∧ Priced (leaf :: c) ∧
        (x.budgets r.budget).used + (r.program.len * 8 + x.nodeBytes) ≤ (x.budgets r.budget).limit ∧
        x.reserve c r current spurious = (.done, { x with
          budgets := update x.budgets r.budget { x.budgets r.budget with
            used := (x.budgets r.budget).used + (r.program.len * 8 + x.nodeBytes) }
          loose := x.loose ++ [leaf :: c] }) := by
  unfold FilterHeap.reserve
  split
  · exact .inl ⟨_, rfl, nofun⟩
  next node happ =>
  split_ifs with hover
  · exact .inl ⟨_, rfl, nofun⟩
  split
  · exact .inl ⟨_, rfl, nofun⟩
  · exact .inl ⟨_, rfl, nofun⟩
  next meter hattempt =>
  obtain ⟨hpriced, leaf, rfl, hbudget, hprogram⟩ := tryAppend_priced (h.ref_priced hc) happ
  obtain ⟨-, rfl, hle⟩ | ⟨hno, -⟩ := Meter.attempt_cases hattempt
  · exact .inr ⟨leaf, hbudget, hprogram, hpriced, hle, rfl⟩
  · exact absurd rfl hno

theorem Sound.reserve (hc : c ∈ x.refs) (r : AppendRequest) (current : Nat) (spurious : Bool) :
    (x.reserve c r current spurious).2.Sound := by
  obtain ⟨reply, heq, -⟩ | ⟨leaf, hbudget, hprogram, hnode, hle, heq⟩ :=
    h.reserve_cases hc r current spurious
  · rw [heq]
    exact h
  rw [heq]
  refine h.recharge rfl ?_ ?_ ?_
  · -- the new node refers to the chain it was appended to
    intro d
    simp only [mem_references, nodes, mem_append, mem_singleton, or_and_right, exists_or,
      exists_eq_left, tail_cons, ← or_assoc]
    refine or_iff_left_of_imp ?_
    rintro rfl
    exact .inl (.inl hc)
  · intro d hd
    simp only [nodes, ← append_assoc, mem_append, mem_singleton] at hd
    rcases hd with hd | rfl
    · exact h.priced d (mem_append.mpr hd)
    · exact ⟨nofun, hnode⟩
  · intro b
    have hold := h.accounts b
    have htally : tally (chargeTo x.nodeBytes b) (x.live ++ (x.loose ++ [leaf :: c])) =
        (if r.budget = b then r.program.len * 8 + x.nodeBytes else 0) +
          tally (chargeTo x.nodeBytes b) x.nodes := by
      simp only [nodes, Lib.tally_append, Lib.tally_cons, Lib.tally_nil, chargeTo, hbudget, hprogram]
      omega
    show (update x.budgets r.budget _ b).Holds (tally _ (x.live ++ (x.loose ++ [leaf :: c])))
    rw [htally]
    by_cases hb : r.budget = b
    · subst hb
      rw [if_pos rfl, update_self]
      exact hold.charge hle
    · rw [if_neg hb, Nat.zero_add, update_of_ne (Ne.symm hb)]
      exact hold

theorem Sound.allocate (hi : x.loose[i]? = some c)
    (hfree : x.live.any (·.leafId == c.leafId) = false) :
    { x with loose := x.loose.eraseIdx i, live := c :: x.live, refs := x.refs ++ [c] }.Sound := by
  have hnodes : (c :: x.live ++ x.loose.eraseIdx i).Perm x.nodes :=
    perm_middle.symm.trans ((Lib.perm_eraseIdx hi).symm.append_left _)
  have hne : c ≠ [] := (h.priced c (mem_append_right _ (mem_of_getElem? hi))).1
  refine h.rearrange hnodes rfl rfl ?_ ?_
  · refine nodup_cons.mpr ⟨?_, h.addresses⟩
    intro hused
    obtain ⟨d, hd, heq⟩ := mem_map.mp hused
    exact any_eq_false.mp hfree d hd (beq_iff_eq.mpr heq)
  · intro d
    rw [mem_references_concat, mem_cons, h.linked d]
    by_cases hd : d = c
    · simp [hd, hne]
    · simp [hd]

theorem Sound.release (hi : x.refs[i]? = some (node :: previous)) :
    (x.release i node previous).Sound := by
  have hmem := mem_references_erase hi
  have hlive : node :: previous ∈ x.live := (h.linked _).mpr ⟨nofun, (hmem _).mpr (.inl rfl)⟩
  unfold FilterHeap.release
  dsimp only
  split_ifs with hshared
  · -- a reference to the same address is one to the same node
    obtain ⟨d, hd, hid⟩ := any_eq_true.mp hshared
    have hid : d.leafId = some node.id := beq_iff_eq.mp hid
    have hne : d ≠ [] := by
      rintro rfl
      cases hid
    have hd' : d ∈ x.live := (h.linked d).mpr ⟨hne, (hmem d).mpr (.inr hd)⟩
    obtain rfl := h.eq_of_leafId hlive hd' hid
    refine h.setRefs ?_
    intro c hne
    rw [hmem c]
    exact (or_iff_right_of_imp fun hc => hc ▸ hd).symm
  · have hperm := h.live_perm hlive
    have hnodes : (x.live.eraseP (·.leafId == some node.id) ++ (x.loose ++ [node :: previous])).Perm
        x.nodes := by
      refine Perm.trans ?_ (hperm.symm.append_right _)
      rw [← append_assoc]
      exact perm_append_singleton _ _
    have haddresses := (hperm.map leafId).nodup_iff.mp h.addresses
    rw [map_cons, nodup_cons] at haddresses
    refine h.rearrange hnodes rfl rfl haddresses.2 ?_
    intro d
    have hold := h.linked d
    rw [hperm.mem_iff, mem_cons, hmem d] at hold
    -- the freed node is neither among the others nor referred to
    by_cases heq : d = node :: previous
    · subst heq
      refine iff_of_false (fun hd => haddresses.1 (mem_map_of_mem hd)) ?_
      rintro ⟨-, hd⟩
      exact hshared (any_eq_true.mpr ⟨_, hd, beq_self_eq_true (some node.id)⟩)
    · rwa [or_iff_right heq, or_iff_right heq] at hold

theorem Sound.dropNode (hi : x.loose[i]? = some (node :: previous)) :
    { x with
      budgets := x.refunded node
      loose := x.loose.eraseIdx i
      refs := x.refs ++ [previous] }.Sound := by
  have hnodes : x.nodes.Perm ((node :: previous) :: (x.live ++ x.loose.eraseIdx i)) :=
    ((Lib.perm_eraseIdx hi).append_left _).trans perm_middle
  refine h.recharge rfl ?_ ?_ ?_
  · intro d
    rw [mem_references, mem_references]
    simp only [hnodes.mem_iff, mem_cons, or_and_right, exists_or, exists_eq_left,
      tail_cons, mem_append, not_mem_nil, or_false, or_assoc, eq_comm (a := d)]
    simp only [nodes, mem_append, or_and_right, exists_or]
  · intro d hd
    exact h.priced d (hnodes.mem_iff.mpr (mem_cons_of_mem _ hd))
  · intro b
    have hold := h.accounts b
    have htally : tally (chargeTo x.nodeBytes b) x.nodes =
        (if node.budget = b then node.program.len * 8 + x.nodeBytes else 0) +
          tally (chargeTo x.nodeBytes b) (x.live ++ x.loose.eraseIdx i) :=
      (hnodes.map _).sum_eq.trans (Lib.tally_cons _ _)
    rw [htally] at hold
    show (update x.budgets _ _ b).Holds (tally _ (x.live ++ x.loose.eraseIdx i))
    by_cases hb : node.budget = b
    · subst hb
      rw [if_pos rfl] at hold
      rw [update_self]
      exact hold.refund
    · rw [if_neg hb, Nat.zero_add] at hold
      rw [update_of_ne (Ne.symm hb)]
      exact hold

theorem Sound.call (op : HeapCall) : (x.call op).2.Sound := by
  cases op <;> simp only [FilterHeap.call]
  case empty => exact h.share fun hne => absurd rfl hne
  all_goals split
  · exact h
  · -- a clone
    next hc => exact h.share fun _ => mem_references.mpr (.inl (mem_of_getElem? hc))
  · exact h
  · next hc => exact h.reserve (mem_of_getElem? hc) ..
  · exact h
  · next hc =>
    split_ifs with hall hused
    · exact h
    · exact h.allocate hc (Bool.eq_false_iff.mpr hused)
    · exact h
  · exact h
  · -- an empty chain is dropped
    next hi =>
    refine h.setRefs fun c hne => ?_
    rw [mem_references_erase hi, or_iff_right hne]
  · next hi => exact h.release hi
  · next hi => exact h.dropNode hi
  · exact h

end

/-! ## Runs -/

/-- The path limit bounds the length of a chain. -/
theorem FilterChain.Priced.length_le (h : c.Priced) : c.length ≤ 8193 := by
  have hcost := h.pathCost_eq ▸ h.pathCost_le
  simp only [filterPathPenalty, maxInsnsPerPath] at hcost
  omega

/-- A live node is behind a reference that no live node holds: following the references to a
node leads to longer and longer chains. -/
theorem Sound.reached (h : x.Sound) : ∀ (n : Nat) {c : FilterChain}, c ∈ x.live →
    8193 < c.length + n → ∃ r ∈ x.refs ++ x.loose.map tail, c <:+ r
  | 0, c, hc, hn => by
    have hle := FilterChain.Priced.length_le (h.priced c (mem_append_left _ hc)).2
    omega
  | n + 1, c, hc, hn => by
    rcases mem_references.mp ((h.linked c).mp hc).2 with href | ⟨d, hd, rfl⟩
    · exact ⟨c, mem_append_left _ href, suffix_rfl⟩
    rcases mem_append.mp hd with hd' | hd'
    · have hlen : d.length = d.tail.length + 1 := by
        have hpos := length_pos_iff.mpr (h.priced d hd).1
        rw [length_tail]
        omega
      obtain ⟨r, hr, hsuffix⟩ := h.reached n hd' (by omega)
      exact ⟨r, hr, (tail_suffix d).trans hsuffix⟩
    · exact ⟨d.tail, mem_append_right _ (mem_map_of_mem hd'), suffix_rfl⟩

/-- Going back from a reference stays among the live nodes. -/
theorem Sound.live_of_suffix (h : x.Sound) : ∀ {r : FilterChain}, r ∈ x.references → c <:+ r →
    c ≠ [] → c ∈ x.live
  | [], _, hsuffix, hne => absurd (suffix_nil.mp hsuffix) hne
  | node :: previous, hr, hsuffix, hne => by
    have hlive := (h.linked (node :: previous)).mpr ⟨nofun, hr⟩
    rcases suffix_cons_iff.mp hsuffix with rfl | hsuffix
    · exact hlive
    have htail : previous ∈ x.references :=
      mem_references.mpr (.inr ⟨_, mem_append_left _ hlive, rfl⟩)
    exact h.live_of_suffix htail hsuffix hne

theorem call_error : (x.call op).1 = .error e → (x.call op).2 = x := by
  cases op <;> simp only [FilterHeap.call, FilterHeap.reserve]
  all_goals repeat' split
  all_goals first | (intro; rfl) | exact nofun

theorem eraseIdx_concat (l : List FilterChain) (c : FilterChain) :
    (l ++ [c]).eraseIdx l.length = l := by
  rw [eraseIdx_append_of_length_le (Nat.le_refl _), Nat.sub_self, eraseIdx_zero,
    tail_cons, append_nil]

/-- An append that gets its charge and no memory. -/
theorem Sound.append_undone (h : x.Sound)
    (hdone : (x.call (.reserve i r current spurious)).1 = .done) :
    Lib.run FilterHeap.call x [.reserve i r current spurious, .allocate x.loose.length false,
      .dropNode x.loose.length, .drop x.refs.length] = x := by
  cases hi : x.refs[i]? with
  | none => simp [FilterHeap.call, hi] at hdone
  | some c =>
  have hc := mem_of_getElem? hi
  obtain ⟨reply, heq, hno⟩ | ⟨leaf, hbudget, hprogram, -, hle, heq⟩ :=
    h.reserve_cases hc r current spurious
  · simp only [FilterHeap.call, hi, heq] at hdone
    exact absurd hdone hno
  have hback := (h.accounts r.budget).refund_charge hle
  simp only [Lib.run, FilterHeap.call, hi, heq, getElem?_concat_length, refunded, hbudget,
    hprogram, update_self, update_idem, hback, update_eq_self,
    eraseIdx_concat, Bool.false_eq_true, not_false_eq_true, if_true]
  cases c with
  | nil => rfl
  | cons node previous =>
    -- the chain that was appended to is still held
    have hshared : x.references.any (·.leafId == some node.id) = true :=
      any_eq_true.mpr ⟨_, mem_references.mpr (.inl hc), beq_self_eq_true (some node.id)⟩
    simp only [FilterHeap.release, eraseIdx_concat]
    exact if_pos hshared

/-- Along every run, whatever is shared and in whatever order it is dropped: chains are priced
as their filters are, the live nodes are those behind a reference, each budget has been charged
for the nodes there are, and a failed append leaves everything as it was. -/
theorem run_charges (nodeBytes : Nat) (limitBytes : Nat → BitVec 64) (calls : List HeapCall) :
    let x := Lib.run call (new nodeBytes limitBytes) calls
    (∀ c ∈ x.refs, c.Priced) ∧ (x.live.map leafId).Nodup ∧
    (∀ c, c ∈ x.live ↔ c ≠ [] ∧ ∃ r ∈ x.refs ++ x.loose.map tail, c <:+ r) ∧
    (∀ b, (x.budgets b).used = tally (chargeTo x.nodeBytes b) (x.live ++ x.loose) ∧
      (x.budgets b).used ≤ (x.budgets b).limit) ∧
    (∀ op e, (x.call op).1 = .error e → (x.call op).2 = x) ∧
    ∀ i r current spurious, (x.call (.reserve i r current spurious)).1 = .done →
      Lib.run call x [.reserve i r current spurious, .allocate x.loose.length false,
        .dropNode x.loose.length, .drop x.refs.length] = x := by
  intro x
  have hnew : (new nodeBytes limitBytes).Sound := by
    refine ⟨nodup_nil, fun c => ⟨nofun, fun hc => nomatch hc.2⟩, nofun, fun b => ⟨rfl, Nat.zero_le _, ?_⟩⟩
    exact (limitBytes b).isLt
  have h : x.Sound := Lib.run_preserves (I := Sound) (fun _ op h => h.call op) hnew calls
  refine ⟨fun c hc => h.ref_priced hc, h.addresses, ?_, ?_, fun _ _ => call_error,
    fun _ _ _ _ => h.append_undone⟩
  · intro c
    constructor
    · intro hc
      exact ⟨(h.priced c (mem_append_left _ hc)).1, h.reached 8194 hc (by omega)⟩
    · rintro ⟨hne, r, hr, hsuffix⟩
      refine h.live_of_suffix ?_ hsuffix hne
      rcases mem_append.mp hr with hr | hr
      · exact mem_references.mpr (.inl hr)
      · obtain ⟨d, hd, rfl⟩ := mem_map.mp hr
        exact mem_references.mpr (.inr ⟨d, mem_append_right _ hd, rfl⟩)
  · intro b
    have haccounts := h.accounts b
    exact ⟨haccounts.used_eq, haccounts.used_eq ▸ haccounts.le_limit⟩

end FilterHeap
end LinuxAbi.Seccomp
