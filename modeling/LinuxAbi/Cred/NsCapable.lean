import LinuxAbi.Cred.Credential
import Mathlib.Logic.Relation

/-!
# Capabilities over user namespaces

`ns_capable` of `credential.rs` walks from the target namespace towards the root and stops at
the actor's namespace, at a level no higher than it, or at a child of it that the actor owns.
Like `credential_cap_is_subset` it is a total function of whatever the namespaces answer: a
parent is followed only to a lower level, so the walk is a recursion on the level.

`Authority` is the decision in terms of the tree.
-/

namespace LinuxAbi.Cred

variable {N : Type}

section Walk

variable [DecidableEq N]

/-- The loop of `ns_capable`. -/
def nsCapableFrom (view : UserNamespaceView N) (actor : Credential N) (capability : Nat)
    (ns : N) : Bool :=
  if ns = actor.userNs then actor.caps.effective.contains capability
  else if view.level ns ≤ view.level actor.userNs then false
  else
    match view.parent ns with
    | none => false
    | some parent =>
      if view.level parent < view.level ns then
        if parent = actor.userNs ∧ view.ownerKuid ns = actor.ids.euid then true
        else nsCapableFrom view actor capability parent
      else false
termination_by view.level ns

def nsCapable (view : UserNamespaceView N) (actor : Credential N) (targetUserNs : N)
    (capability : Nat) : Bool :=
  if capMask capability = none then false
  else nsCapableFrom view actor capability targetUserNs

end Walk

/-! ## The tree -/

/-- The namespaces form a tree with levels. -/
def UserNamespaceView.Leveled (view : UserNamespaceView N) : Prop :=
  ∀ ns parent, view.parent ns = some parent → view.level parent < view.level ns

/-- The path from a namespace up to an ancestor, possibly itself. -/
def UserNamespaceView.Below (view : UserNamespaceView N) (ancestor ns : N) : Prop :=
  Relation.ReflTransGen (fun child parent => view.parent child = some parent) ns ancestor

/-- What gives the actor a capability over a namespace: its effective set, here and further
down, or a child of its namespace that it owns, on the path. -/
def Authority (view : UserNamespaceView N) (actor : Credential N) (capability : Nat) (ns : N) :
    Prop :=
  view.Below actor.userNs ns ∧ actor.caps.effective.contains capability = true ∨
    ∃ child, view.Below child ns ∧ view.parent child = some actor.userNs
      ∧ view.ownerKuid child = actor.ids.euid

variable {view : UserNamespaceView N} {actor : Credential N} {capability : Nat} {ns parent : N}

theorem below_of_parent (h : view.parent ns = some parent) :
    view.Below a ns ↔ ns = a ∨ view.Below a parent := by
  rw [UserNamespaceView.Below, Relation.ReflTransGen.cases_head_iff]
  simp [h, UserNamespaceView.Below]

theorem Authority.below (h : Authority view actor capability ns) : view.Below actor.userNs ns := by
  rcases h with ⟨hbelow, -⟩ | ⟨child, hchild, hpar, -⟩
  · exact hbelow
  · exact hchild.tail hpar

theorem Authority.mono (h : Authority view actor capability target)
    (hbelow : view.Below target ns) : Authority view actor capability ns := by
  rcases h with ⟨habove, heff⟩ | ⟨child, hchild, howned⟩
  · exact .inl ⟨hbelow.trans habove, heff⟩
  · exact .inr ⟨child, hbelow.trans hchild, howned⟩

/-- One round up. -/
theorem authority_of_parent (h : view.parent ns = some parent) (hne : ns ≠ actor.userNs) :
    Authority view actor capability ns ↔
      parent = actor.userNs ∧ view.ownerKuid ns = actor.ids.euid
        ∨ Authority view actor capability parent := by
  have hself : view.Below actor.userNs ns ↔ view.Below actor.userNs parent := by
    rw [below_of_parent h]
    exact or_iff_right hne
  simp only [Authority, hself, below_of_parent h, or_and_right, exists_or, exists_eq_left', h,
    Option.some.injEq]
  tauto

theorem level_le_of_below (hlvl : view.Leveled) (h : view.Below a ns) :
    view.level a ≤ view.level ns := by
  induction h with
  | refl => exact Nat.le_refl _
  | tail _ hpar ih => exact Nat.le_trans (Nat.le_of_lt (hlvl _ _ hpar)) ih

theorem level_lt_of_below (hlvl : view.Leveled) (h : view.Below a ns) (hne : ns ≠ a) :
    view.level a < view.level ns := by
  rcases Relation.ReflTransGen.cases_head h with heq | ⟨parent, hpar, habove⟩
  · exact absurd heq hne
  · exact Nat.lt_of_le_of_lt (level_le_of_below hlvl habove) (hlvl _ _ hpar)

section Exact

variable [DecidableEq N]

theorem nsCapableFrom_iff (hlvl : view.Leveled) (ns : N) :
    nsCapableFrom view actor capability ns = true ↔ Authority view actor capability ns := by
  fun_induction nsCapableFrom view actor capability ns with
  | case1 =>
    -- a child of this namespace is not above it
    refine ⟨fun heff => .inl ⟨.refl, heff⟩, ?_⟩
    rintro (⟨-, heff⟩ | ⟨child, hbelow, hpar, -⟩)
    · exact heff
    · have hle := level_le_of_below hlvl hbelow
      have hlt := hlvl _ _ hpar
      omega
  | case2 ns hne hlevel =>
    refine ⟨nofun, fun h => ?_⟩
    have hlt := level_lt_of_below hlvl h.below hne
    omega
  | case3 ns hne _ hroot =>
    refine ⟨nofun, fun h => ?_⟩
    rcases Relation.ReflTransGen.cases_head h.below with heq | ⟨parent, hpar, -⟩
    · exact absurd heq hne
    · rw [hroot] at hpar
      cases hpar
  | case4 ns hne _ parent hpar _ howned => simp [authority_of_parent hpar hne, howned]
  | case5 ns hne _ parent hpar _ howned ih =>
    rw [authority_of_parent hpar hne, or_iff_right howned]
    exact ih
  | case6 ns hne _ parent hpar hmalformed => exact absurd (hlvl _ _ hpar) hmalformed

/-- The walk of `credential_cap_is_subset` only ends well at an owned child. -/
theorem authority_of_capIsSubsetAbove {set : Credential N} (ns : N)
    (h : capIsSubsetAbove view set ns = true) : Authority view set capability ns := by
  fun_induction capIsSubsetAbove view set ns with
  | case2 ns _ parent hpar _ howned => exact .inr ⟨ns, .refl, howned.1 ▸ hpar, howned.2⟩
  | case3 ns _ parent hpar _ _ ih => exact (ih h).mono (.single hpar)
  | _ => cases h

/-- `ns_capable` in any tree of user namespaces whose levels rise from parent to child: it is
the authority of the actor over the target, which only reaches the actor's namespace and its
descendants and everything below what it reaches. Of two credentials in different namespaces,
the one that `credential_cap_is_subset` puts above the other has every valid capability over
the other's namespace. -/
theorem nsCapable_exact (view : UserNamespaceView N) (hlevels : view.Leveled)
    (actor : Credential N) (target : N) (capability : Nat) :
    (nsCapable view actor target capability = true ↔
      capability ≤ capLastCap ∧ Authority view actor capability target)
    ∧ (nsCapable view actor target capability = true →
        view.Below actor.userNs target
        ∧ (view.Below target actor.userNs → target = actor.userNs)
        ∧ ∀ ns, view.Below target ns → nsCapable view actor ns capability = true)
    ∧ ∀ subset : Credential N, actor.userNs ≠ subset.userNs →
        credentialCapIsSubset view actor subset = true → capability ≤ capLastCap →
        nsCapable view actor subset.userNs capability = true := by
  have hiff : ∀ ns, nsCapable view actor ns capability = true ↔
      capability ≤ capLastCap ∧ Authority view actor capability ns := by
    intro ns
    unfold nsCapable
    by_cases hvalid : capability ≤ capLastCap
    · have hmask : capMask capability ≠ none := fun h => absurd (capMask_eq_none.mp h) (by omega)
      rw [if_neg hmask, nsCapableFrom_iff hlevels]
      exact (and_iff_right hvalid).symm
    · rw [if_pos (capMask_eq_none.mpr (by omega))]
      simp [hvalid]
  refine ⟨hiff target, fun hcapable => ?_, fun subset hne hsubset hvalid => ?_⟩
  · obtain ⟨hvalid, hauthority⟩ := (hiff target).mp hcapable
    refine ⟨hauthority.below, fun habove => ?_, fun ns hns =>
      (hiff ns).mpr ⟨hvalid, hauthority.mono hns⟩⟩
    by_contra hne
    have hlt := level_lt_of_below hlevels hauthority.below hne
    have hle := level_le_of_below hlevels habove
    omega
  · unfold credentialCapIsSubset at hsubset
    rw [if_neg hne] at hsubset
    exact (hiff _).mpr ⟨hvalid, authority_of_capIsSubsetAbove _ hsubset⟩

end Exact

/-- The initial namespace, and a child of it that root owns. -/
def ownedChild : UserNamespaceView Bool where
  parent child := if child then some false else none
  level child := if child then 1 else 0
  ownerKuid _ := .root
  rootKuid _ := none

/-- Root of the initial namespace, without any capability. -/
def bareRoot : Credential Bool where
  ids := .initialRoot
  groups := ⟨[], Nat.zero_le _, .nil⟩
  caps := ⟨noCapabilities, noCapabilities, noCapabilities, noCapabilities, noCapabilities, 0#32⟩
  noNewPrivs := false
  userNs := false
  coherent := by constructor <;> simp [Lib.wordBits]

/-- `CAP_SYS_ADMIN` over a child, by ownership alone. -/
theorem nsCapable_exact_owner : nsCapable ownedChild bareRoot true 21 = true :=
  (nsCapable_exact ownedChild (by unfold UserNamespaceView.Leveled; decide) bareRoot true 21).1.mpr
    ⟨by decide, .inr ⟨true, .refl, rfl, rfl⟩⟩

end LinuxAbi.Cred
