import LinuxAbi.Cred.Adjust
import LinuxAbi.Cred.Exec
import LinuxAbi.Lib.Run

/-!
# Privilege never grows inside a user namespace

A task's credential is replaced again and again: by set-ID calls, `capset`, `prctl` changes of
the ambient and bounding sets and of the securebits, and exec. `Transition.apply` is one such
replacement, planned, prepared and released against the current credential; a sequence of them
is a run.

Three relations carry the argument, each reflexive and transitive, so that a step lemma per
kind of transition settles every run: `Descends` (what can never come back), `LockedFixed`
(locked securebits, without exec's exception) and `IdRoles.Within` (no new ID).
`Transition.Admits` is the policy in its own terms, and a transition fails by policy or for
want of memory, never in one of the validations it passes on the way.
-/

namespace LinuxAbi.Cred

open Set
open Lib (bits wordBits)

/-! ## One transition -/

/-- The kinds of credential transitions inside one user namespace. -/
inductive Transition where
  | userId (input : UserIdTransitionInput) (authority : IdAuthority)
  | groupId (input : GroupIdTransitionInput) (authority : IdAuthority)
  | capset (request : CapsetRequest) (authority : CapsetAuthority)
  | adjust (adjustment : CapabilityAdjustment)
  | setNoNewPrivs
  | exec (input : ExecCredentialInput)

section Apply
variable {N : Type} [DecidableEq N]

/-- Prepares an ordinary replacement and releases it against the same credential. -/
def publish (view : UserNamespaceView N) (current : Shared (Credential N)) (memory : Option Nat)
    (ids : CredentialIds) (caps : CapabilitySets) (noNewPrivs : Bool) :
    Except CredError (Shared (Credential N)) := do
  let prepared ← tryPrepareTransition view current ids current.value.groups caps noNewPrivs memory
  prepared.tryIntoProposed current

/-- One transition of the current credential. -/
def Transition.apply (view : ExecUserNamespaceView N) (current : Shared (Credential N))
    (memory : Option Nat) : Transition → Except CredError (Shared (Credential N))
  | .userId input authority => do
    let plan ← planUserIdTransition view.toUserNamespaceView current input authority
    let prepared ← plan.tryPrepareCredential view.toUserNamespaceView current memory
    prepared.tryIntoProposed current
  | .groupId input authority => do
    let plan ← planGroupIdTransition current input authority
    let prepared ← plan.tryPrepareCredential view.toUserNamespaceView current memory
    prepared.tryIntoProposed current
  | .capset request authority => do
    let plan ← planCapset current request authority
    let prepared ← plan.tryPrepareCredential view.toUserNamespaceView current memory
    prepared.tryIntoProposed current
  | .adjust adjustment => do
    let caps ← current.value.caps.adjust adjustment
    publish view.toUserNamespaceView current memory current.value.ids caps current.value.noNewPrivs
  | .setNoNewPrivs =>
    publish view.toUserNamespaceView current memory current.value.ids current.value.caps true
  | .exec input => do
    let proposal ← deriveExecCredential view current input memory
    proposal.tryIntoProposed current

/-- The policy of a transition. -/
def Transition.Admits (view : ExecUserNamespaceView N) (old : Credential N) : Transition → Prop
  | .userId input authority => old.ids.users.Admits authority.privileged input
  | .groupId input authority => old.ids.groups.Admits authority.privileged input
  | .capset request authority => CapsetAdmits old.caps request authority.setpcap
  | .adjust adjustment => adjustment.Admits old.caps
  | .setNoNewPrivs => True
  | .exec input => ExecDerivation.Admits ⟨view, old, input⟩

def Transition.isExec : Transition → Bool
  | .exec _ => true
  | _ => false

/-- The transition may bring in a user ID: `CAP_SETUID` was granted, or exec honours a
set-user-ID bit. -/
def Transition.grantsUsers (view : ExecUserNamespaceView N) (old : Credential N) :
    Transition → Bool
  | .userId _ authority => authority.privileged
  | .exec input => ExecDerivation.honoredSetuid ⟨view, old, input⟩
  | _ => false

/-- The same for groups. -/
def Transition.grantsGroups (view : ExecUserNamespaceView N) (old : Credential N) :
    Transition → Bool
  | .groupId _ authority => authority.privileged
  | .exec input => ExecDerivation.honoredSetgid ⟨view, old, input⟩
  | _ => false

end Apply

/-! ## What a transition preserves -/

section Relations
variable {N : Type}

/-- Everything a credential can still draw capabilities from. -/
def CapabilitySets.authority (caps : CapabilitySets) : Set (Fin capabilityWords × Nat) :=
  bits caps.permitted ∪ bits caps.inheritable ∪ bits caps.bounding

/-- What no transition gives back. -/
structure Descends (old new : Credential N) : Prop where
  userNs : new.userNs = old.userNs
  bounding : bits new.caps.bounding ⊆ bits old.caps.bounding
  authority : new.caps.authority ⊆ old.caps.authority
  noNewPrivs : old.noNewPrivs = true →
    new.noNewPrivs = true ∧ bits new.caps.permitted ⊆ bits old.caps.permitted
  locks : wordBits old.caps.securebits ∩ wordBits secureAllLocks ⊆ wordBits new.caps.securebits
  locked : ∀ i ∈ wordBits secureAllBits, i + 1 ∈ wordBits old.caps.securebits →
    (i ∈ wordBits new.caps.securebits ↔ i ∈ wordBits old.caps.securebits)
      ∨ (i = keepCapsBit ∧ i ∉ wordBits new.caps.securebits)

/-- No locked securebit changes at all. -/
def LockedFixed (old new : Credential N) : Prop :=
  ∀ i ∈ wordBits secureAllBits, i + 1 ∈ wordBits old.caps.securebits →
    (i ∈ wordBits new.caps.securebits ↔ i ∈ wordBits old.caps.securebits)

theorem Descends.refl (old : Credential N) : Descends old old :=
  ⟨rfl, subset_rfl, subset_rfl, fun h => ⟨h, subset_rfl⟩, inter_subset_left,
    fun _ _ _ => .inl Iff.rfl⟩

variable {old new : Credential N}

/-- A locked value stays locked: its lock is one of the bits that are kept. -/
theorem Descends.lock_mem (h : Descends old new) (hi : i ∈ wordBits secureAllBits)
    (hlock : i + 1 ∈ wordBits old.caps.securebits) :
    i + 1 ∈ wordBits new.caps.securebits :=
  h.locks ⟨hlock, succ_mem_secureAllLocks hi⟩

theorem Descends.trans (hab : Descends a b) (hbc : Descends b c) : Descends a c where
  userNs := hbc.userNs.trans hab.userNs
  bounding := hbc.bounding.trans hab.bounding
  authority := hbc.authority.trans hab.authority
  noNewPrivs := by
    intro ha
    obtain ⟨hb, hsub⟩ := hab.noNewPrivs ha
    obtain ⟨hc, hsub'⟩ := hbc.noNewPrivs hb
    exact ⟨hc, hsub'.trans hsub⟩
  locks := fun i hi => hbc.locks ⟨hab.locks hi, hi.2⟩
  locked := by
    intro i hi hlock
    rcases hbc.locked i hi (hab.lock_mem hi hlock) with hsame | hcleared
    · rcases hab.locked i hi hlock with hsame' | ⟨hkeep, hnot⟩
      · exact .inl (hsame.trans hsame')
      · exact .inr ⟨hkeep, fun h => hnot (hsame.mp h)⟩
    · exact .inr hcleared

theorem LockedFixed.trans (hdesc : Descends a b) (hab : LockedFixed a b)
    (hbc : LockedFixed b c) : LockedFixed a c :=
  fun i hi hlock => (hbc i hi (hdesc.lock_mem hi hlock)).trans (hab i hi hlock)

/-- An ordinary replacement that draws no permitted capability from elsewhere. -/
theorem Descends.of_ordinary {ids : CredentialIds} {groups : GroupInfo} {caps : CapabilitySets}
    {noNewPrivs : Bool} (h : Replaces .normal old ids groups caps noNewPrivs new)
    (hperm : bits caps.permitted ⊆ bits old.caps.permitted)
    (hinh : bits caps.inheritable ⊆ old.caps.authority)
    (hbounding : bits caps.bounding ⊆ bits old.caps.bounding) :
    Descends old new ∧ LockedFixed old new := by
  have hfixed : LockedFixed old new := changedLockedValues_eq_zero.mp h.locks.1
  have hauthority : caps.authority ⊆ old.caps.authority := by
    refine union_subset (union_subset ?_ hinh) ?_
    · exact hperm.trans (subset_union_left.trans subset_union_left)
    · exact hbounding.trans subset_union_right
  rw [← h.caps] at hperm hbounding hauthority
  refine ⟨⟨h.userNs, hbounding, hauthority, fun hold => ⟨h.sticky hold, hperm⟩,
    clearedLocks_eq_zero.mp h.locks.2, ?_⟩, hfixed⟩
  intro i hi hlock
  exact .inl (hfixed i hi hlock)

/-- The replacement exec derives. -/
theorem Descends.of_exec
    (h : Replaces .execClearsKeepCaps old (ExecDerivation.ids ⟨view, old, input⟩) old.groups
      (ExecDerivation.capabilities ⟨view, old, input⟩) old.noNewPrivs new) : Descends old new := by
  generalize hd : (⟨view, old, input⟩ : ExecDerivation N) = d at h
  have hold : d.old = old := by rw [← hd]
  have hcaps : new.caps = d.capabilities := h.caps
  have hbits : wordBits new.caps.securebits = wordBits old.caps.securebits \ {keepCapsBit} := by
    rw [hcaps, ← hold]
    exact d.securebits_eq
  have hauthority : new.caps.authority ⊆ old.caps.authority := by
    rw [hcaps, ← hold]
    refine union_subset (union_subset d.permitted_subset_authority ?_) ?_
    · exact subset_union_right.trans subset_union_left
    · exact subset_union_right
  refine ⟨h.userNs, ?_, hauthority, ?_, clearedLocks_eq_zero.mp h.locks.2, ?_⟩
  · rw [hcaps, ← hold]
    exact subset_rfl
  · intro hnnp
    refine ⟨h.sticky hnnp, ?_⟩
    have hsuppressed : d.suppressed = true := by
      unfold ExecDerivation.suppressed
      rw [hold, hnnp, Bool.true_or]
    rw [hcaps, ← hold]
    exact d.permitted_subset_of_suppressed hsuppressed
  · intro i _ _
    rw [hbits]
    by_cases hi : i = keepCapsBit
    · exact .inr ⟨hi, fun hmem => hmem.2 hi⟩
    · exact .inl ⟨fun hmem => hmem.1, fun hmem => ⟨hmem, hi⟩⟩

/-- What one successful transition does to a credential. -/
structure StepFacts (view : ExecUserNamespaceView N) (t : Transition) (old new : Credential N) :
    Prop where
  descends : Descends old new
  locked : t.isExec = false → LockedFixed old new
  users : t.grantsUsers view old = false → old.ids.users.Within new.ids.users
  groups : t.grantsGroups view old = false → old.ids.groups.Within new.ids.groups

end Relations

/-! ## Releasing a replacement -/

section Steps
variable {N : Type} [DecidableEq N]

variable {current : Shared (Credential N)} {ids : CredentialIds} {caps : CapabilitySets}
  {noNewPrivs : Bool}

theorem publish_eq_ok (h : publish view current memory ids caps noNewPrivs = .ok next) :
    Replaces .normal current.value ids current.value.groups caps noNewPrivs next.value := by
  unfold publish at h
  cases hprep : tryPrepareTransition view current ids current.value.groups caps noNewPrivs
      memory with
  | error e =>
    rw [hprep] at h
    cases h
  | ok prepared =>
    obtain ⟨hold, hrepl⟩ := tryPrepareTransition_eq_ok hprep
    rw [hprep] at h
    change prepared.tryIntoProposed current = .ok next at h
    unfold PreparedCredential.tryIntoProposed at h
    rw [hold, Shared.ptrEq_self, if_pos rfl] at h
    cases h
    exact hrepl

theorem publish_of (hcaps : Coherent caps)
    (hsticky : current.value.noNewPrivs = true → noNewPrivs = true)
    (hlocks : LocksKept .normal current.value.caps.securebits caps.securebits) (addr : Nat) :
    ∃ next, publish view current (some addr) ids caps noNewPrivs = .ok next := by
  unfold publish tryPrepareTransition
  rw [tryFromTransition_of hcaps hsticky hlocks]
  show ∃ next, PreparedCredential.tryIntoProposed _ current = .ok next
  unfold PreparedCredential.tryIntoProposed
  rw [Shared.ptrEq_self, if_pos rfl]
  exact ⟨_, rfl⟩

/-- A plan made from the current credential is released like any other replacement. -/
theorem planned_eq_publish (view : UserNamespaceView N) (current : Shared (Credential N))
    (memory : Option Nat) (ids : CredentialIds) (caps : CapabilitySets) :
    (tryPreparePlannedCredential view current current ids caps memory >>= fun prepared =>
        prepared.tryIntoProposed current)
      = publish view current memory ids caps current.value.noNewPrivs := by
  unfold tryPreparePlannedCredential
  rw [Shared.ptrEq_self, if_pos rfl]
  rfl

/-! ## Every transition -/

/-- A transition either is admitted, succeeds whenever memory is there and has the step facts;
or it is outside its policy and refused. -/
def Transition.Settled (view : ExecUserNamespaceView N) (current : Shared (Credential N))
    (t : Transition) : Prop :=
  (t.Admits view current.value
      ∧ (∀ addr, ∃ next, t.apply view current (some addr) = .ok next)
      ∧ ∀ memory next, t.apply view current memory = .ok next →
        StepFacts view t current.value next.value)
    ∨ (¬t.Admits view current.value ∧ ∀ memory, ∃ e, t.apply view current memory = .error e)

/-- A transition that amounts to one ordinary replacement. -/
theorem Transition.settled_of_publish {view : ExecUserNamespaceView N} {t : Transition}
    (ids : CredentialIds) (caps : CapabilitySets) (hadm : t.Admits view current.value)
    (happly : ∀ memory, t.apply view current memory
      = publish view.toUserNamespaceView current memory ids caps noNewPrivs) (hcoh : Coherent caps)
    (hsticky : current.value.noNewPrivs = true → noNewPrivs = true)
    (hlocks : LocksKept .normal current.value.caps.securebits caps.securebits)
    (hperm : bits caps.permitted ⊆ bits current.value.caps.permitted)
    (hinh : bits caps.inheritable ⊆ current.value.caps.authority)
    (hbounding : bits caps.bounding ⊆ bits current.value.caps.bounding)
    (husers : t.grantsUsers view current.value = false →
      current.value.ids.users.Within ids.users) (hgrp : t.grantsGroups view current.value = false →
      current.value.ids.groups.Within ids.groups) : t.Settled view current := by
  refine .inl ⟨hadm, ?_, ?_⟩
  · intro addr
    rw [happly]
    exact publish_of hcoh hsticky hlocks addr
  · intro memory next hnext
    rw [happly] at hnext
    have hrepl := publish_eq_ok hnext
    obtain ⟨hdesc, hfixed⟩ := Descends.of_ordinary hrepl hperm hinh hbounding
    refine ⟨hdesc, fun _ => hfixed, ?_, ?_⟩
    · rw [hrepl.ids]
      exact husers
    · rw [hrepl.ids]
      exact hgrp

omit [DecidableEq N] in
theorem inheritable_subset_authority (caps : CapabilitySets) :
    bits caps.inheritable ⊆ caps.authority :=
  subset_union_right.trans subset_union_left

section

variable (view : ExecUserNamespaceView N) (current : Shared (Credential N))

theorem userId_settled (input : UserIdTransitionInput) (authority : IdAuthority) :
    (Transition.userId input authority).Settled view current := by
  rcases planUserIdTransition_cases view.toUserNamespaceView current input authority with
    ⟨plan, hplan, hadm, hold, htrims, hgrp, husers⟩ | ⟨hplan, href⟩
  · refine Transition.settled_of_publish plan.ids plan.capabilities hadm ?_ htrims.coherent id ?_
      htrims.permitted ?_ ?_ husers ?_
    · intro memory
      simp only [Transition.apply, hplan]
      rw [← planned_eq_publish, ← hold]
      rfl
    · rw [htrims.securebits]
      exact .refl _
    · rw [htrims.inheritable]
      exact inheritable_subset_authority _
    · rw [htrims.bounding]
    · intro _
      rw [hgrp]
      exact .refl _
  · refine .inr ⟨href, fun memory => ⟨.notPermitted, ?_⟩⟩
    simp only [Transition.apply, hplan]
    rfl

theorem groupId_settled (input : GroupIdTransitionInput) (authority : IdAuthority) :
    (Transition.groupId input authority).Settled view current := by
  rcases planGroupIdTransition_cases current input authority with
    ⟨plan, hplan, hadm, hold, husers, hgrp⟩ | ⟨hplan, href⟩
  · refine Transition.settled_of_publish plan.ids _ hadm ?_ current.value.coherent id (.refl _)
      subset_rfl (inheritable_subset_authority _) subset_rfl ?_ hgrp
    · intro memory
      simp only [Transition.apply, hplan]
      rw [← planned_eq_publish, ← hold]
      rfl
    · intro _
      rw [husers]
      exact .refl _
  · refine .inr ⟨href, fun memory => ⟨.notPermitted, ?_⟩⟩
    simp only [Transition.apply, hplan]
    rfl

theorem capset_settled (request : CapsetRequest) (authority : CapsetAuthority) :
    (Transition.capset request authority).Settled view current := by
  rcases planCapset_cases current request authority with
    ⟨plan, hplan, hadm, hold, hcoh, hperm, hinh, hbounding, hsecure⟩
      | ⟨hplan, href⟩
  · refine Transition.settled_of_publish current.value.ids plan.capabilities hadm ?_ hcoh id ?_ ?_ ?_
      ?_ (fun _ => .refl _) (fun _ => .refl _)
    · intro memory
      simp only [Transition.apply, hplan]
      rw [← planned_eq_publish, ← hold]
      rfl
    · rw [hsecure]
      exact .refl _
    · rw [hperm]
      exact hadm.permitted
    · rw [hinh]
      refine hadm.bounded.trans (union_subset ?_ subset_union_right)
      exact inheritable_subset_authority _
    · rw [hbounding]
  · refine .inr ⟨href, fun memory => ⟨.notPermitted, ?_⟩⟩
    simp only [Transition.apply, hplan]
    rfl

theorem adjust_settled (adjustment : CapabilityAdjustment) :
    (Transition.adjust adjustment).Settled view current := by
  rcases adjust_cases current.value.coherent adjustment with
    ⟨caps, hcaps, hadjusts, hadm⟩ | ⟨⟨e, herror⟩, href⟩
  · refine Transition.settled_of_publish current.value.ids caps hadm ?_ hadjusts.coherent id
      hadjusts.locks ?_ ?_ hadjusts.bounding (fun _ => .refl _) (fun _ => .refl _)
    · intro memory
      simp only [Transition.apply, hcaps]
      rfl
    · rw [hadjusts.permitted]
    · rw [hadjusts.inheritable]
      exact inheritable_subset_authority _
  · refine .inr ⟨href, fun memory => ⟨e, ?_⟩⟩
    simp only [Transition.apply, herror]
    rfl

theorem exec_settled (input : ExecCredentialInput) :
    (Transition.exec input).Settled view current := by
  -- a proposal derived from the current credential is released as it is
  have hrelease : ∀ (memory : Option Nat) (proposal : ExecCredentialProposal N),
      proposal.old = current →
      deriveExecCredential view current input memory = .ok proposal →
      (Transition.exec input).apply view current memory = .ok proposal.proposed := by
    intro memory proposal hold hderive
    simp only [Transition.apply, hderive]
    show proposal.tryIntoProposed current = _
    unfold ExecCredentialProposal.tryIntoProposed
    rw [hold, Shared.ptrEq_self, if_pos rfl]
  by_cases hadmits : ExecDerivation.Admits ⟨view, current.value, input⟩
  · refine .inl ⟨hadmits, ?_, ?_⟩
    · intro addr
      rcases deriveExecCredential_cases view current input (some addr) with
        ⟨-, new, -, hderive⟩ | ⟨href, -⟩
      · exact ⟨_, hrelease _ _ rfl ((hderive _).mpr ⟨addr, rfl, rfl⟩)⟩
      · exact absurd hadmits href
    · intro memory next hnext
      rcases deriveExecCredential_cases view current input memory with
        ⟨-, new, hrepl, hderive⟩ | ⟨href, -⟩
      · cases hproposal : deriveExecCredential view current input memory with
        | error e =>
          simp only [Transition.apply, hproposal] at hnext
          cases hnext
        | ok proposal =>
          obtain ⟨addr, -, rfl⟩ := (hderive proposal).mp hproposal
          rw [hrelease memory _ rfl hproposal] at hnext
          cases hnext
          refine ⟨.of_exec hrepl, ?_, ?_, ?_⟩
          · intro hexec
            cases hexec
          · intro huid
            rw [hrepl.ids]
            exact ExecDerivation.users_within _ huid
          · intro hgid
            rw [hrepl.ids]
            exact ExecDerivation.groups_within _ hgid
      · exact absurd hadmits href
  · refine .inr ⟨hadmits, fun memory => ⟨.notPermitted, ?_⟩⟩
    rcases deriveExecCredential_cases view current input memory with
      ⟨hadm, -⟩ | ⟨-, hderive⟩
    · exact absurd hadm hadmits
    · simp only [Transition.apply, hderive]
      rfl

/-- Every transition is settled by its policy. -/
theorem Transition.settled (t : Transition) : t.Settled view current := by
  cases t with
  | userId input authority => exact userId_settled view current input authority
  | groupId input authority => exact groupId_settled view current input authority
  | capset request authority => exact capset_settled view current request authority
  | adjust adjustment => exact adjust_settled view current adjustment
  | setNoNewPrivs =>
    exact Transition.settled_of_publish _ _ trivial (fun _ => rfl) current.value.coherent
      (fun _ => rfl) (.refl _) subset_rfl (inheritable_subset_authority _) subset_rfl
      (fun _ => .refl _) (fun _ => .refl _)
  | exec input => exact exec_settled view current input

end

/-! ## Runs -/

/-- One call of a run: a transition, what the namespaces answer meanwhile and what the
allocator answers. -/
structure CredCall (N : Type) where
  view : ExecUserNamespaceView N
  transition : Transition
  memory : Option Nat

/-- A call on the current credential: a refusal leaves it in place. -/
def credStep (current : Shared (Credential N)) (c : CredCall N) :
    Except CredError Unit × Shared (Credential N) :=
  match c.transition.apply c.view current c.memory with
  | .ok next => (.ok (), next)
  | .error e => (.error e, current)

/-- The transition a call performed, and the credential it performed it on. -/
def performed (current : Shared (Credential N)) (c : CredCall N) :
    List (Credential N × CredCall N) :=
  match c.transition.apply c.view current c.memory with
  | .ok _ => [(current.value, c)]
  | .error _ => []

/-- What holds between the credential a run starts with and the one it ends with, given the
transitions it performed. -/
structure PrivilegeMonotone (history : List (Credential N × CredCall N)) (old new : Credential N) :
    Prop where
  descends : Descends old new
  locked : (∀ p ∈ history, p.2.transition.isExec = false) → LockedFixed old new
  users : (∀ p ∈ history, p.2.transition.grantsUsers p.2.view p.1 = false) →
    old.ids.users.Within new.ids.users
  groups : (∀ p ∈ history, p.2.transition.grantsGroups p.2.view p.1 = false) →
    old.ids.groups.Within new.ids.groups

/-- One call extends the history and the relation. -/
theorem PrivilegeMonotone.step (h : PrivilegeMonotone history old current.value) (c : CredCall N) :
    PrivilegeMonotone (history ++ performed current c) old (credStep current c).2.value := by
  unfold performed credStep
  cases hnext : c.transition.apply c.view current c.memory with
  | error e =>
    rw [List.append_nil]
    exact h
  | ok next =>
    have hfacts : StepFacts c.view c.transition current.value next.value := by
      rcases c.transition.settled c.view current with ⟨-, -, hfacts⟩ | ⟨-, href⟩
      · exact hfacts c.memory next hnext
      obtain ⟨e, herror⟩ := href c.memory
      rw [hnext] at herror
      cases herror
    have hsplit : ∀ {P : Credential N × CredCall N → Prop},
        (∀ p ∈ history ++ [(current.value, c)], P p) →
          (∀ p ∈ history, P p) ∧ P (current.value, c) := by
      intro P hall
      exact ⟨fun p hp => hall p (List.mem_append_left _ hp),
        hall _ (List.mem_append_right _ List.mem_cons_self)⟩
    refine ⟨h.descends.trans hfacts.descends, ?_, ?_, ?_⟩
    · intro hall
      obtain ⟨hpast, hnow⟩ := hsplit hall
      exact .trans h.descends (h.locked hpast) (hfacts.locked hnow)
    · intro hall
      obtain ⟨hpast, hnow⟩ := hsplit hall
      exact (h.users hpast).trans (hfacts.users hnow)
    · intro hall
      obtain ⟨hpast, hnow⟩ := hsplit hall
      exact (h.groups hpast).trans (hfacts.groups hnow)

theorem run_privilegeMonotone (start : Shared (Credential N)) (calls : List (CredCall N)) :
    PrivilegeMonotone (Lib.history credStep performed start calls) start.value
      (Lib.run credStep start calls).value := by
  have hstart : PrivilegeMonotone [] start.value start.value :=
    ⟨.refl _, fun _ _ _ _ => Iff.rfl, fun _ => .refl _, fun _ => .refl _⟩
  exact Lib.history_invariant (I := fun past current =>
    PrivilegeMonotone past start.value current.value) (fun _ _ c h => h.step c) calls [] start hstart

/-- A capability drawn from the authority is in one of its three sets. -/
theorem contains_of_authority {s : CapabilityWords} {c : Nat} (hs : bits s ⊆ caps.authority)
    (hc : s.contains c = true) :
    caps.permitted.contains c = true ∨ caps.inheritable.contains c = true
      ∨ caps.bounding.contains c = true := by
  obtain ⟨word, mask, hmask, hbit⟩ := contains_iff.mp hc
  rcases hs hbit with (hp | hi) | hb
  · exact .inl (contains_iff.mpr ⟨word, mask, hmask, hp⟩)
  · exact .inr (.inl (contains_iff.mpr ⟨word, mask, hmask, hi⟩))
  · exact .inr (.inr (contains_iff.mpr ⟨word, mask, hmask, hb⟩))

/-- Privilege along every sequence of credential transitions inside one user namespace, from
any credential. With `final` the credential reached and `history` the transitions performed:

* effective capabilities are permitted, and ambient ones permitted and inheritable;
* the bounding set has not grown, and a capability the first credential had in none of its
  permitted, inheritable and bounding sets is in no set of the last;
* `no_new_privs` is still set if it was, and then the permitted set has not grown;
* no lock bit is cleared, and a locked securebit has its old value, unless it is `KEEP_CAPS`,
  it was set, and an exec cleared it;
* unless a transition used set-user-ID authority, or an exec honoured a set-user-ID bit, no
  real, effective or saved user ID is new, and none of these or the filesystem ID is; the same
  for groups;
* every transition from there on succeeds, given memory, exactly when its policy admits it:
  no validation along its way can fail. -/
theorem run_privilege_descends (start : Shared (Credential N)) (calls : List (CredCall N)) :
    let old := start.value
    let final := Lib.run credStep start calls
    let new := final.value
    let history := Lib.history credStep performed start calls
    (∀ c, new.caps.effective.contains c = true → new.caps.permitted.contains c = true)
    ∧ (∀ c, new.caps.ambient.contains c = true →
        new.caps.permitted.contains c = true ∧ new.caps.inheritable.contains c = true)
    ∧ (∀ c, new.caps.bounding.contains c = true → old.caps.bounding.contains c = true)
    ∧ (∀ c, old.caps.permitted.contains c = false → old.caps.inheritable.contains c = false →
        old.caps.bounding.contains c = false →
          new.caps.effective.contains c = false ∧ new.caps.permitted.contains c = false
          ∧ new.caps.inheritable.contains c = false ∧ new.caps.bounding.contains c = false
          ∧ new.caps.ambient.contains c = false)
    ∧ (old.noNewPrivs = true → new.noNewPrivs = true
        ∧ ∀ c, new.caps.permitted.contains c = true → old.caps.permitted.contains c = true)
    ∧ (∀ i ∈ wordBits secureAllLocks, i ∈ wordBits old.caps.securebits →
        i ∈ wordBits new.caps.securebits)
    ∧ (∀ i ∈ wordBits secureAllBits, i + 1 ∈ wordBits old.caps.securebits →
        (i ∈ wordBits new.caps.securebits ↔ i ∈ wordBits old.caps.securebits)
        ∨ (i = keepCapsBit ∧ i ∈ wordBits old.caps.securebits ∧ i ∉ wordBits new.caps.securebits
          ∧ ∃ p ∈ history, p.2.transition.isExec = true))
    ∧ ((∀ p ∈ history, p.2.transition.grantsUsers p.2.view p.1 = false) →
        new.ids.users.core ⊆ old.ids.users.core ∧ new.ids.users.all ⊆ old.ids.users.all)
    ∧ ((∀ p ∈ history, p.2.transition.grantsGroups p.2.view p.1 = false) →
        new.ids.groups.core ⊆ old.ids.groups.core ∧ new.ids.groups.all ⊆ old.ids.groups.all)
    ∧ (∀ (view : ExecUserNamespaceView N) (t : Transition) (addr : Nat),
        (∃ next, t.apply view final (some addr) = .ok next) ↔ t.Admits view new) := by
  intro old final new history
  have h : PrivilegeMonotone history old new := run_privilegeMonotone start calls
  have hcoherent := new.coherent
  refine ⟨fun c => contains_mono hcoherent.effective, ?_, fun c => contains_mono h.descends.bounding,
    ?_, ?_, ?_, ?_, h.users, h.groups, ?_⟩
  · intro c hc
    exact ⟨contains_mono (hcoherent.ambient.trans inter_subset_left) hc,
      contains_mono (hcoherent.ambient.trans inter_subset_right) hc⟩
  · intro c hp hi hb
    -- each set of the last credential lies in the authority of the first
    have hnone : ∀ s : CapabilityWords, bits s ⊆ new.caps.authority → s.contains c = false := by
      intro s hs
      refine Bool.eq_false_iff.mpr fun hc => ?_
      rcases contains_of_authority (hs.trans h.descends.authority) hc with h | h | h
      · rw [hp] at h
        cases h
      · rw [hi] at h
        cases h
      · rw [hb] at h
        cases h
    have hpermitted : bits new.caps.permitted ⊆ new.caps.authority :=
      subset_union_left.trans subset_union_left
    exact ⟨hnone _ (hcoherent.effective.trans hpermitted), hnone _ hpermitted,
      hnone _ (inheritable_subset_authority _), hnone _ subset_union_right,
      hnone _ ((hcoherent.ambient.trans inter_subset_left).trans hpermitted)⟩
  · intro hnnp
    obtain ⟨hnew, hsub⟩ := h.descends.noNewPrivs hnnp
    exact ⟨hnew, fun c => contains_mono hsub⟩
  · intro i hlock hi
    exact h.descends.locks ⟨hi, hlock⟩
  · intro i hi hlocked
    by_cases hexec : ∃ p ∈ history, p.2.transition.isExec = true
    · rcases h.descends.locked i hi hlocked with hsame | ⟨hkeep, hcleared⟩
      · exact .inl hsame
      · by_cases hset : i ∈ wordBits old.caps.securebits
        · exact .inr ⟨hkeep, hset, hcleared, hexec⟩
        · exact .inl ⟨fun hmem => absurd hmem hcleared, fun hmem => absurd hmem hset⟩
    · refine .inl (h.locked (fun p hp => ?_) i hi hlocked)
      exact Bool.eq_false_iff.mpr fun hp' => hexec ⟨p, hp, hp'⟩
  · intro view t addr
    rcases t.settled view final with ⟨hadmits, hsucceeds, -⟩ | ⟨hrefused, herror⟩
    · exact ⟨fun _ => hadmits, fun _ => hsucceeds addr⟩
    constructor
    · rintro ⟨next, hnext⟩
      obtain ⟨e, he⟩ := herror (some addr)
      rw [hnext] at he
      cases he
    · intro hadmits
      exact absurd hadmits hrefused

end Steps

end LinuxAbi.Cred
