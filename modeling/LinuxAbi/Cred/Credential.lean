import LinuxAbi.Cred.Capability

/-!
# Immutable credentials and exact-old-bound replacements

`Credential` of `credential.rs`, and the one function every replacement of a credential goes
through, `try_from_transition`. A credential is only ever built after `validate`, so the
structure carries `Coherent` of its capability sets.

An `Arc` is a `Shared` value: its contents and the address `Arc::ptr_eq` compares. Where the
source allocates one, the model takes the allocator's answer as an argument: the address, or
`none` when memory is exhausted. A user namespace is an object of a type `N`, compared by
identity, and what the policy reads from it is a `UserNamespaceView`.
-/

namespace LinuxAbi.Cred

/-- `Arc`. -/
structure Shared (α : Type) where
  addr : Nat
  value : α

/-- `Arc::ptr_eq`. -/
def Shared.ptrEq {α : Type} (a b : Shared α) : Bool := a.addr == b.addr

@[simp] theorem Shared.ptrEq_self {α : Type} (a : Shared α) : a.ptrEq a = true :=
  beq_self_eq_true a.addr

/-- `Arc::try_new`. -/
def Shared.tryNew {α : Type} (memory : Option Nat) (value : α) : Except CredError (Shared α) :=
  match memory with
  | none => .error .noMemory
  | some addr => .ok ⟨addr, value⟩

/-- `UserNamespaceView`: what the namespaces answer while one policy function runs. -/
structure UserNamespaceView (N : Type) where
  parent : N → Option N
  level : N → Nat
  ownerKuid : N → Kuid
  rootKuid : N → Option Kuid

structure Credential (N : Type) where
  ids : CredentialIds
  groups : GroupInfo
  caps : CapabilitySets
  noNewPrivs : Bool
  userNs : N
  coherent : Coherent caps

inductive CredentialTransitionMode where
  | normal
  | execClearsKeepCaps
deriving DecidableEq

/-- `changed_locked_values` of `try_from_transition`: exec is let off clearing a locked
`KEEP_CAPS`. -/
def transitionChangedLockedValues (mode : CredentialTransitionMode) (old new : BitVec 32) :
    BitVec 32 :=
  if mode = .execClearsKeepCaps
      ∧ old &&& (secbitKeepCaps ||| secbitKeepCapsLocked) = secbitKeepCaps ||| secbitKeepCapsLocked
      ∧ new &&& secbitKeepCaps = 0#32 then
    changedLockedValues old new &&& ~~~secbitKeepCaps
  else changedLockedValues old new

section Transition
variable {N : Type} [DecidableEq N]

/-- `Credential::try_from_transition`. -/
def tryFromTransition (old : Credential N) (ids : CredentialIds) (groups : GroupInfo)
    (caps : CapabilitySets) (noNewPrivs : Bool) (userNs : N) (mode : CredentialTransitionMode)
    (memory : Option Nat) : Except CredError (Shared (Credential N)) :=
  match hvalid : caps.validate with
  | .error e => .error e
  | .ok () =>
    if old.userNs ≠ userNs ∨ (old.noNewPrivs = true ∧ noNewPrivs = false) then
      .error .notPermitted
    else if transitionChangedLockedValues mode old.caps.securebits caps.securebits ≠ 0#32
        ∨ clearedLocks old.caps.securebits caps.securebits ≠ 0#32 then
      .error .notPermitted
    else
      Shared.tryNew memory ⟨ids, groups, caps, noNewPrivs, userNs, validate_eq_ok.mp hvalid⟩

/-- `credential_cap_is_subset` above `set`'s own namespace: the walk towards the root. -/
def capIsSubsetAbove (view : UserNamespaceView N) (set : Credential N) (subsetNs : N) : Bool :=
  if view.level subsetNs > view.level set.userNs then
    match view.parent subsetNs with
    | none => false
    | some parent =>
      if view.level parent < view.level subsetNs then
        if parent = set.userNs ∧ view.ownerKuid subsetNs = set.ids.euid then true
        else capIsSubsetAbove view set parent
      else false
  else false
termination_by view.level subsetNs

def credentialCapIsSubset (view : UserNamespaceView N) (set subset : Credential N) : Bool :=
  if set.userNs = subset.userNs then capabilitySubset subset.caps.permitted set.caps.permitted
  else capIsSubsetAbove view set subset.userNs

structure CredentialTransitionEffects where
  resetProcessSecurity : Bool

def CredentialTransitionEffects.between (view : UserNamespaceView N)
    (old proposed : Credential N) : CredentialTransitionEffects :=
  ⟨old.ids.euid ≠ proposed.ids.euid || old.ids.egid ≠ proposed.ids.egid
    || old.ids.fsuid ≠ proposed.ids.fsuid || old.ids.fsgid ≠ proposed.ids.fsgid
    || !credentialCapIsSubset view old proposed⟩

structure PreparedCredential (N : Type) where
  old : Shared (Credential N)
  proposed : Shared (Credential N)
  effects : CredentialTransitionEffects

def PreparedCredential.tryIntoProposed (prepared : PreparedCredential N)
    (expectedOld : Shared (Credential N)) : Except CredError (Shared (Credential N)) :=
  if prepared.old.ptrEq expectedOld then .ok prepared.proposed else .error .notPermitted

/-- `Credential::try_prepare_transition`. -/
def tryPrepareTransition (view : UserNamespaceView N) (old : Shared (Credential N))
    (ids : CredentialIds) (groups : GroupInfo) (caps : CapabilitySets) (noNewPrivs : Bool)
    (memory : Option Nat) : Except CredError (PreparedCredential N) := do
  let proposed ← tryFromTransition old.value ids groups caps noNewPrivs old.value.userNs .normal
    memory
  return ⟨old, proposed, .between view old.value proposed.value⟩

/-! ## What a replacement is -/

/-- The securebits a transition may install: no locked value changed, no lock cleared. -/
def LocksKept (mode : CredentialTransitionMode) (old new : BitVec 32) : Prop :=
  transitionChangedLockedValues mode old new = 0#32 ∧ clearedLocks old new = 0#32

/-- A replacement is exactly the value asked for, in the namespace of the old one, and it has
passed every check. -/
structure Replaces (mode : CredentialTransitionMode) (old : Credential N) (ids : CredentialIds)
    (groups : GroupInfo) (caps : CapabilitySets) (noNewPrivs : Bool) (new : Credential N) :
    Prop where
  ids : new.ids = ids
  groups : new.groups = groups
  caps : new.caps = caps
  noNewPrivs : new.noNewPrivs = noNewPrivs
  userNs : new.userNs = old.userNs
  sticky : old.noNewPrivs = true → new.noNewPrivs = true
  locks : LocksKept mode old.caps.securebits new.caps.securebits

variable {ids : CredentialIds} {groups : GroupInfo} {caps : CapabilitySets} {noNewPrivs : Bool}

theorem tryFromTransition_eq_ok {old : Credential N}
    (h : tryFromTransition old ids groups caps noNewPrivs userNs mode memory = .ok new) :
    Replaces mode old ids groups caps noNewPrivs new.value := by
  unfold tryFromTransition at h
  split at h
  · cases h
  split at h
  · cases h
  next hsame =>
  rw [not_or, not_not] at hsame
  split at h
  · cases h
  next hlocks =>
  rw [not_or, not_not, not_not] at hlocks
  cases memory with
  | none => cases h
  | some addr =>
    cases h
    refine ⟨rfl, rfl, rfl, rfl, hsame.1.symm, ?_, hlocks⟩
    intro hold
    exact Bool.eq_true_of_not_eq_false fun hnew => hsame.2 ⟨hold, hnew⟩

/-- With coherent capability sets, `no_new_privs` kept and the locks respected, only memory
can be missing. -/
theorem tryFromTransition_of {old : Credential N}
    (hcaps : Coherent caps) (hsticky : old.noNewPrivs = true → noNewPrivs = true)
    (hlocks : LocksKept mode old.caps.securebits caps.securebits) (memory : Option Nat) :
    tryFromTransition old ids groups caps noNewPrivs old.userNs mode memory
      = Shared.tryNew memory ⟨ids, groups, caps, noNewPrivs, old.userNs, hcaps⟩ := by
  unfold tryFromTransition
  split
  next e hbad =>
    rw [validate_eq_ok.mpr hcaps] at hbad
    cases hbad
  rw [if_neg, if_neg]
  · rw [not_or, not_not, not_not]
    exact hlocks
  · rw [not_or, not_not]
    refine ⟨rfl, ?_⟩
    rintro ⟨hold, hnew⟩
    rw [hsticky hold] at hnew
    cases hnew

/-- A prepared token is bound to the credential it was prepared from. -/
theorem tryPrepareTransition_eq_ok {view : UserNamespaceView N}
    (h : tryPrepareTransition view old ids groups caps noNewPrivs memory = .ok prepared) :
    prepared.old = old
      ∧ Replaces .normal old.value ids groups caps noNewPrivs prepared.proposed.value := by
  unfold tryPrepareTransition at h
  cases hnew : tryFromTransition old.value ids groups caps noNewPrivs old.value.userNs .normal
      memory with
  | error e =>
    rw [hnew] at h
    cases h
  | ok proposed =>
    rw [hnew] at h
    cases h
    exact ⟨rfl, tryFromTransition_eq_ok hnew⟩

end Transition

end LinuxAbi.Cred
