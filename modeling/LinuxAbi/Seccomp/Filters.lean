import Mathlib.Data.BitVec

/-!
# Seccomp actions, filter chains and task states

`crates/seccomp/src/action.rs`, `chain.rs` and `state.rs`.

A chain is a list of filters, newest first: the source's nodes are immutable and linked by
`Arc`, so a node and what it links to never change. `Arc::ptr_eq` compares the identities
that nodes get when they are allocated.

Mirroring notes:
- The verifier and the executor of a program are external; a program is its evaluation, an
  arbitrary function of the syscall data, with its length and its path charge. A native
  executor reads a byte image of the same data, so it is such a function too.
- Of the byte budget an append sees the identity here: whether it had room, and whether the
  node could be allocated, are arguments.
-/

namespace LinuxAbi.Seccomp

open List

/-! ## Actions -/

inductive ActionClass
  | killProcess
  | killThread
  | trap (data : BitVec 16)
  | errno (errno : BitVec 16)
  | userNotification (data : BitVec 16)
  | trace (data : BitVec 16)
  | log
  | allow
  | unknown (raw : BitVec 32)
deriving DecidableEq

structure Action where
  raw : BitVec 32
deriving DecidableEq

namespace Action

/-- `SECCOMP_RET_ACTION_FULL`. -/
def actionFull : BitVec 32 := 0xffff0000#32

/-- `SECCOMP_RET_ALLOW`. -/
def allow : Action := ⟨0x7fff0000#32⟩

def actionBits (a : Action) : BitVec 32 := a.raw &&& actionFull

/-- `Action::precedence`: the action field as a signed number; smaller is more restrictive. -/
def precedence (a : Action) : Int := a.actionBits.toInt

def data (a : Action) : BitVec 16 := (a.raw &&& 0xffff#32).setWidth 16

/-- `MAX_ERRNO`. -/
def maxErrno : BitVec 16 := 4095

def classify (a : Action) : ActionClass :=
  if a.actionBits = 0x80000000#32 then .killProcess
  else if a.actionBits = 0#32 then .killThread
  else if a.actionBits = 0x30000#32 then .trap a.data
  else if a.actionBits = 0x50000#32 then .errno (if maxErrno < a.data then maxErrno else a.data)
  else if a.actionBits = 0x7fc00000#32 then .userNotification a.data
  else if a.actionBits = 0x7ff00000#32 then .trace a.data
  else if a.actionBits = 0x7ffc0000#32 then .log
  else if a.actionBits = allow.raw then .allow
  else .unknown a.raw

theorem classify_eq_allow {a : Action} : a.classify = .allow ↔ a.actionBits = allow.raw := by
  constructor
  · unfold classify
    split_ifs with _ _ _ _ _ _ _ h <;> intro hclass <;> first | exact h | cases hclass
  · intro h
    unfold classify
    rw [h]
    rfl

/-- `SECCOMP_RET_ALLOW` is the largest action field there is. -/
theorem precedence_le_allow (a : Action) : a.precedence ≤ allow.precedence := by
  have hlow : a.actionBits.toNat % 2 ^ 16 = 0 := by
    unfold actionBits
    rw [BitVec.toNat_and, Nat.and_mod_two_pow]
    exact Nat.and_zero _
  have hallow : allow.precedence = 0x7fff0000 := by decide
  unfold precedence at hallow ⊢
  rw [hallow, BitVec.toInt_eq_toNat_cond]
  split <;> omega

theorem precedence_lt_allow {a : Action} (h : a.classify ≠ .allow) :
    a.precedence < allow.precedence := by
  refine lt_of_le_of_ne a.precedence_le_allow fun heq => h (classify_eq_allow.mpr ?_)
  exact BitVec.toInt_inj.mp heq

end Action

/-! ## Filters -/

structure SeccompData where
  number : BitVec 32
  architecture : BitVec 32
  instructionPointer : BitVec 64
  arguments : Fin 6 → BitVec 64

structure VerifiedProgram where
  evaluate : SeccompData → BitVec 32
  len : Nat
  pathCharge : Nat

structure FilterMetadata where
  log : Bool
  speculativeExecutionAllowed : Bool

/-- `FilterNode`, with the identity of its allocation. -/
structure FilterNode where
  id : Nat
  program : VerifiedProgram
  executor : Option (SeccompData → BitVec 32)
  metadata : FilterMetadata
  pathCost : Nat
  filterCount : Nat
  budget : Nat

structure FilterDecision where
  action : Action
  matchedFilter : Option FilterMetadata
  nativeExecutions : Nat
  interpreterExecutions : Nat

inductive FilterInstallError
  | noMemory
  | pathTooLong
  | budgetExceeded
  | budgetMismatch
deriving DecidableEq

abbrev FilterChain := List FilterNode

namespace FilterChain

def maxInsnsPerPath : Nat := 32768

def filterPathPenalty : Nat := 4

def filterCount : FilterChain → Nat
  | [] => 0
  | leaf :: _ => leaf.filterCount

def pathCost : FilterChain → Nat
  | [] => 0
  | leaf :: _ => leaf.pathCost

def sameIdentity : FilterChain → FilterChain → Bool
  | [], [] => true
  | left :: _, right :: _ => left.id == right.id
  | _, _ => false

/-- The loop of `FilterChain::is_ancestor_of`. -/
def reaches (id : Nat) : FilterChain → Bool
  | [] => false
  | node :: previous => if id == node.id then true else reaches id previous

def isAncestorOf : FilterChain → FilterChain → Bool
  | [], _ => true
  | ancestor :: _, descendant => reaches ancestor.id descendant

def directlyExtends : FilterChain → FilterChain → Bool
  | [], _ => false
  | _ :: previous, other => sameIdentity previous other

/-- The path cost of one more program, unless it overflows a `usize`. -/
def appendedCost (chain : FilterChain) (program : VerifiedProgram) : Option Nat :=
  if chain.isEmpty then some program.pathCharge
  else if program.pathCharge + chain.pathCost + filterPathPenalty < 2 ^ 64 then
    some (program.pathCharge + chain.pathCost + filterPathPenalty)
  else none

/-- `FilterChain::try_append_with_executor`; `id` is the identity of the new node, `reserved`
and `allocated` the outcomes of the charge and of the allocation. -/
def tryAppend (chain : FilterChain) (id : Nat) (program : VerifiedProgram)
    (metadata : FilterMetadata) (budget : Nat) (executor : Option (SeccompData → BitVec 32))
    (reserved allocated : Bool) : Except FilterInstallError FilterChain :=
  match chain.appendedCost program with
  | none => .error .pathTooLong
  | some pathCost =>
    if maxInsnsPerPath < pathCost then .error .pathTooLong
    else if 2 ^ 64 ≤ chain.filterCount + 1 then .error .pathTooLong
    else if chain.head?.any fun leaf => leaf.budget != budget then .error .budgetMismatch
    else if ¬ reserved then .error .budgetExceeded
    else if ¬ allocated then .error .noMemory
    else
      .ok ({ id, program, executor, metadata, pathCost, filterCount := chain.filterCount + 1,
             budget } :: chain)

/-- The raw result of one filter. -/
def run (node : FilterNode) (data : SeccompData) : BitVec 32 :=
  match node.executor with
  | some execute => execute data
  | none => node.program.evaluate data

/-- One round of the loop of `FilterChain::evaluate`. -/
def evaluateStep (data : SeccompData) (decision : FilterDecision) (node : FilterNode) :
    FilterDecision :=
  let decision :=
    if node.executor.isSome then
      { decision with nativeExecutions := min (decision.nativeExecutions + 1) (2 ^ 64 - 1) }
    else { decision with interpreterExecutions := min (decision.interpreterExecutions + 1) (2 ^ 64 - 1) }
  let current : Action := ⟨run node data⟩
  -- strictly less: the newest of equals keeps its data
  if current.precedence < decision.action.precedence then
    { decision with action := current, matchedFilter := some node.metadata }
  else decision

def evaluate (chain : FilterChain) (data : SeccompData) : FilterDecision :=
  chain.foldl (evaluateStep data)
    { action := .allow, matchedFilter := none, nativeExecutions := 0, interpreterExecutions := 0 }

/-! ### What is selected -/

/-- The precedence that one filter asks for. -/
def requested (data : SeccompData) (node : FilterNode) : Int := (Action.mk (run node data)).precedence

/-- The newest filter among those that ask for the most. -/
def Newest (data : SeccompData) (chain : FilterChain) (node : FilterNode) : Prop :=
  ∃ newer older, chain = newer ++ node :: older ∧
    (∀ other ∈ newer, requested data node < requested data other) ∧
    ∀ other ∈ older, requested data node ≤ requested data other

variable {data : SeccompData} {chain : FilterChain} {node other : FilterNode}

theorem Newest.mem (h : Newest data chain node) : node ∈ chain := by
  obtain ⟨newer, older, rfl, -⟩ := h
  exact mem_append_right _ mem_cons_self

theorem Newest.le (h : Newest data chain node) (hother : other ∈ chain) :
    requested data node ≤ requested data other := by
  obtain ⟨newer, older, rfl, hnewer, holder⟩ := h
  rcases mem_append.mp hother with hmem | hmem
  · exact le_of_lt (hnewer other hmem)
  rcases mem_cons.mp hmem with rfl | hmem
  · exact le_refl _
  · exact holder other hmem

theorem Newest.cons (h : Newest data chain node)
    (hlt : requested data node < requested data other) : Newest data (other :: chain) node := by
  obtain ⟨newer, older, rfl, hnewer, holder⟩ := h
  exact ⟨other :: newer, older, rfl, forall_mem_cons.mpr ⟨hlt, hnewer⟩, holder⟩

/-- One round: the filter asks for more and is selected, or nothing changes. -/
theorem evaluateStep_cases (data : SeccompData) (start : FilterDecision) (node : FilterNode) :
    let decision := evaluateStep data start node
    (requested data node < start.action.precedence ∧ decision.action = ⟨run node data⟩ ∧
      decision.matchedFilter = some node.metadata) ∨
    (start.action.precedence ≤ requested data node ∧ decision.action = start.action ∧
      decision.matchedFilter = start.matchedFilter) := by
  unfold evaluateStep
  dsimp only
  split_ifs with _ hlt hlt
  · exact .inl ⟨hlt, rfl, rfl⟩
  · exact .inr ⟨not_lt.mp hlt, rfl, rfl⟩
  · exact .inl ⟨hlt, rfl, rfl⟩
  · exact .inr ⟨not_lt.mp hlt, rfl, rfl⟩

/-- The loop keeps what it has, unless a filter asks for more: then the newest of those that
ask for the most decides. -/
theorem foldl_evaluateStep (data : SeccompData) : ∀ (chain : FilterChain) (start : FilterDecision),
    let decision := chain.foldl (evaluateStep data) start
    (decision.action = start.action ∧ decision.matchedFilter = start.matchedFilter ∧
      ∀ node ∈ chain, start.action.precedence ≤ requested data node) ∨
    ∃ node, Newest data chain node ∧ requested data node < start.action.precedence ∧
      decision.action = ⟨run node data⟩ ∧ decision.matchedFilter = some node.metadata
  | [], _ => .inl ⟨rfl, rfl, nofun⟩
  | newest :: chain, start => by
    have hrest := foldl_evaluateStep data chain (evaluateStep data start newest)
    rcases evaluateStep_cases data start newest with ⟨hlt, haction, hmatched⟩ | ⟨hle, haction, hmatched⟩
    · rw [haction, hmatched] at hrest
      rcases hrest with ⟨hsame, hnone, hall⟩ | ⟨node, hnewest, hmore, hselected⟩
      · exact .inr ⟨newest, ⟨[], chain, rfl, nofun, hall⟩, hlt, hsame, hnone⟩
      · exact .inr ⟨node, hnewest.cons hmore, hmore.trans hlt, hselected⟩
    · rw [haction, hmatched] at hrest
      rcases hrest with ⟨hsame, hnone, hall⟩ | ⟨node, hnewest, hmore, hselected⟩
      · exact .inl ⟨hsame, hnone, List.forall_mem_cons.mpr ⟨hle, hall⟩⟩
      · exact .inr ⟨node, hnewest.cons (hmore.trans_le hle), hmore, hselected⟩

/-- What a chain decides: plain allow while nothing asks for more, and otherwise the result of
the newest filter among those that ask for the most. -/
theorem evaluate_cases (chain : FilterChain) (data : SeccompData) :
    ((chain.evaluate data).action = .allow ∧ (chain.evaluate data).matchedFilter = none ∧
      ∀ node ∈ chain, (Action.mk (run node data)).classify = .allow) ∨
    ∃ node, Newest data chain node ∧ (Action.mk (run node data)).classify ≠ .allow ∧
      (chain.evaluate data).action = ⟨run node data⟩ ∧
      (chain.evaluate data).matchedFilter = some node.metadata := by
  rcases foldl_evaluateStep data chain _ with ⟨hsame, hnone, hall⟩ | ⟨node, hnewest, hlt, hselected⟩
  · refine .inl ⟨hsame, hnone, fun node hmem => ?_⟩
    by_contra hclass
    exact absurd (Action.precedence_lt_allow hclass) (not_lt.mpr (hall node hmem))
  · refine .inr ⟨node, hnewest, fun hclass => ?_, hselected⟩
    refine absurd hlt (not_lt.mpr (le_of_eq ?_))
    exact congrArg BitVec.toInt (Action.classify_eq_allow.mp hclass).symm

/-- More filters never select a less restrictive action. -/
theorem evaluate_anti {chain longer : FilterChain} (h : chain <:+ longer) (data : SeccompData) :
    (longer.evaluate data).action.precedence ≤ (chain.evaluate data).action.precedence := by
  rcases chain.evaluate_cases data with ⟨hallow, -⟩ | ⟨node, hnode, hclass, haction, -⟩
  · rw [hallow]
    exact Action.precedence_le_allow _
  rw [haction]
  rcases longer.evaluate_cases data with ⟨-, -, hall⟩ | ⟨node', hnode', -, haction', -⟩
  · exact absurd (hall node (h.subset hnode.mem)) hclass
  · rw [haction']
    exact hnode'.le (h.subset hnode.mem)

/-- Chain evaluation, for every chain and all syscall data: while every result is of the allow
class the decision is plain allow and names no filter; otherwise it is the result of the newest
filter among those of the least signed precedence. An unknown action is below allow, and one
unknown result is enough not to allow. -/
theorem evaluate_selects (chain : FilterChain) (data : SeccompData) :
    let decision := chain.evaluate data
    ((∀ node ∈ chain, (Action.mk (run node data)).classify = .allow) →
      decision.action = .allow ∧ decision.matchedFilter = none) ∧
    ((∃ node ∈ chain, (Action.mk (run node data)).classify ≠ .allow) →
      ∃ node, Newest data chain node ∧ decision.action = ⟨run node data⟩ ∧
        decision.matchedFilter = some node.metadata) ∧
    (∀ (a : Action) raw, a.classify = .unknown raw → a.precedence < Action.allow.precedence) ∧
    ∀ node ∈ chain, ∀ raw, (Action.mk (run node data)).classify = .unknown raw →
      decision.action.classify ≠ .allow := by
  have hunknown : ∀ {a : Action} {raw}, a.classify = .unknown raw → a.classify ≠ .allow := by
    intro a raw h
    rw [h]
    exact nofun
  rcases chain.evaluate_cases data with ⟨hallow, hnone, hall⟩ | ⟨node, hnode, hclass, haction⟩
  · refine ⟨fun _ => ⟨hallow, hnone⟩, ?_, fun a raw h => Action.precedence_lt_allow (hunknown h), ?_⟩
    · rintro ⟨node, hmem, hclass⟩
      exact absurd (hall node hmem) hclass
    · intro node hmem raw h
      exact absurd (hall node hmem) (hunknown h)
  · refine ⟨fun hall => absurd (hall node hnode.mem) hclass, fun _ => ⟨node, hnode, haction⟩,
      fun a raw h => Action.precedence_lt_allow (hunknown h), ?_⟩
    intro _ _ _ _
    rw [haction.1]
    exact hclass

end FilterChain

/-! ## Task states -/

inductive SeccompMode
  | disabled
  | strict
  | filter
deriving DecidableEq

inductive StateTransitionError
  | modeConflict
  | stale
  | invalidPreparedState
deriving DecidableEq

inductive SyncEligibility
  | eligible
  | callerNotFiltered
  | modeConflict
  | divergentFilter

structure SeccompState where
  mode : SeccompMode
  filters : FilterChain

namespace SeccompState

def disabled : SeccompState := { mode := .disabled, filters := [] }

def evaluate (state : SeccompState) (data : SeccompData) : FilterDecision :=
  state.filters.evaluate data

def tryEnterStrict (state : SeccompState) : Except StateTransitionError SeccompState :=
  if state.mode ≠ .disabled ∨ ¬ state.filters.isEmpty then .error .modeConflict
  else .ok { state with mode := .strict }

def tryPublishFilter (state : SeccompState) (expected prepared : FilterChain) :
    Except StateTransitionError SeccompState :=
  if state.mode = .strict then .error .modeConflict
  else if ¬ state.filters.sameIdentity expected then .error .stale
  else if ¬ prepared.directlyExtends expected then .error .invalidPreparedState
  else .ok { mode := .filter, filters := prepared }

def syncEligibility (state caller : SeccompState) : SyncEligibility :=
  if caller.mode ≠ .filter ∨ caller.filters.isEmpty then .callerNotFiltered
  else
    match state.mode with
    | .disabled => .eligible
    | .filter => if state.filters.isAncestorOf caller.filters then .eligible else .divergentFilter
    | .strict => .modeConflict

def prepareSynchronizedFrom (state caller : SeccompState) :
    Except StateTransitionError SeccompState :=
  match state.syncEligibility caller with
  | .eligible => .ok caller
  | .callerNotFiltered => .error .invalidPreparedState
  | .modeConflict | .divergentFilter => .error .modeConflict

end SeccompState

end LinuxAbi.Seccomp
