import LinuxAbi.Cred.Transition

/-!
# Exec credential derivation

`derive_exec_credential` of `exec.rs`. The source computes one value after another from the
old credential and the frozen facts about the executable; each of these values is a definition
here, under the name the source gives it, on the record `ExecDerivation` of what the function
reads.

After the definitions: the validation at the end cannot fail (`derivation_coherent`), which
capabilities the new permitted set can hold, and which IDs the new identity.
-/

namespace LinuxAbi.Cred

open Set
open Lib (bits wordBits)

structure ExecUserNamespaceView (N : Type) extends UserNamespaceView N where
  execIdMapSnapshot : N → IdMap × IdMap

structure ExecFileOwner where
  uid : Kuid
  gid : Kgid

inductive ExecMountPrivilege where
  | honor
  | noSuid
deriving DecidableEq

def ExecMountPrivilege.honorsFilePrivilege : ExecMountPrivilege → Bool
  | .honor => true
  | .noSuid => false

inductive ExecTraceState where
  | notSuppressingPrivilege
  | suppressingPrivilege
deriving DecidableEq

def ExecTraceState.suppressesPrivilege : ExecTraceState → Bool
  | .notSuppressingPrivilege => false
  | .suppressingPrivilege => true

inductive ExecImageReadability where
  | readable
  | unreadable
deriving DecidableEq

def ExecImageReadability.isUnreadable : ExecImageReadability → Bool
  | .readable => false
  | .unreadable => true

structure FileCapabilities where
  permitted : CapabilityWords
  inheritable : CapabilityWords
  effective : Bool
  rootid : Kuid
  valid : ∀ word, (permitted word ||| inheritable word) &&& ~~~capabilityValidMask word = 0#32

structure ExecCredentialInput where
  mode : BitVec 16
  owner : Option ExecFileOwner
  mountPrivilege : ExecMountPrivilege
  traceState : ExecTraceState
  imageReadability : ExecImageReadability
  fileCapabilities : Option FileCapabilities

def modeSetUid : BitVec 16 := 0o4000#16
def modeSetGid : BitVec 16 := 0o2000#16
def modeGroupExecute : BitVec 16 := 0o0010#16

def capSetuid : Nat := 7

/-- The walk of `file_root_owns_current_namespace` over the ancestors. -/
def fileRootOwnsAncestor {N : Type} (view : UserNamespaceView N) (rootid : Kuid)
    (namespaceAt : N) : Bool :=
  match view.parent namespaceAt with
  | none => false
  | some parent =>
    if view.level parent < view.level namespaceAt then
      if view.rootKuid parent = some rootid then true
      else fileRootOwnsAncestor view rootid parent
    else false
termination_by view.level namespaceAt

def fileRootOwnsCurrentNamespace {N : Type} (view : UserNamespaceView N) (userNs : N)
    (currentRootKuid : Option Kuid) (rootid : Kuid) : Bool :=
  if currentRootKuid = some rootid then true else fileRootOwnsAncestor view rootid userNs

def ownerIsMapped (owner : ExecFileOwner) (uidMap gidMap : IdMap) : Bool :=
  (uidMap.kernelUidToUser owner.uid).isSome && (gidMap.kernelGidToUser owner.gid).isSome

/-! ## The derivation -/

/-- What `derive_exec_credential` reads. -/
structure ExecDerivation (N : Type) where
  view : ExecUserNamespaceView N
  old : Credential N
  input : ExecCredentialInput

namespace ExecDerivation

variable {N : Type} (d : ExecDerivation N)

def uidMap : IdMap := (d.view.execIdMapSnapshot d.old.userNs).1

def gidMap : IdMap := (d.view.execIdMapSnapshot d.old.userNs).2

def rootKuid : Option Kuid := d.uidMap.userUidToKernel .root

def mappedOwner : Option ExecFileOwner :=
  d.input.owner.filter fun owner => ownerIsMapped owner d.uidMap d.gidMap

def setUid : Bool := d.mappedOwner.isSome && d.input.mode &&& modeSetUid != 0#16

-- the set-group-ID bit counts only together with group execute permission
def setGid : Bool :=
  d.mappedOwner.isSome
    && d.input.mode &&& (modeSetGid ||| modeGroupExecute) == (modeSetGid ||| modeGroupExecute)

def setidAdmitted : Bool := d.input.mountPrivilege.honorsFilePrivilege && !d.old.noNewPrivs

/-- `ids` once the set-ID bits have been applied. -/
def setidIds : CredentialIds :=
  if d.setidAdmitted then
    match d.mappedOwner with
    | none => d.old.ids
    | some owner =>
      { d.old.ids with
        euid := if d.setUid then owner.uid else d.old.ids.euid
        egid := if d.setGid then owner.gid else d.old.ids.egid }
  else d.old.ids

def idChanged : Bool :=
  d.setidIds.euid ≠ d.old.ids.euid
    || (d.setidIds.egid ≠ d.old.ids.fsgid && !d.old.groups.contains d.setidIds.egid)

/-- `file_capabilities`: the record, unless the mount or its root owner rules it out. -/
def fileCapabilities : Option FileCapabilities :=
  (if d.input.mountPrivilege.honorsFilePrivilege then d.input.fileCapabilities else none).filter
    fun caps => fileRootOwnsCurrentNamespace d.view.toUserNamespaceView d.old.userNs d.rootKuid
      caps.rootid

def hasFcap : Bool := d.fileCapabilities.isSome

def filePermitted : CapabilityWords :=
  d.fileCapabilities.elim noCapabilities FileCapabilities.permitted

def fileInheritable : CapabilityWords :=
  d.fileCapabilities.elim noCapabilities FileCapabilities.inheritable

/-- `file_effective` as the record has it. -/
def recordEffective : Bool := d.fileCapabilities.elim false FileCapabilities.effective

/-- `permitted_without_ambient` from the file capabilities. -/
def fileGrant : CapabilityWords :=
  capabilityUnion (capabilityInter d.old.caps.bounding d.filePermitted)
    (capabilityInter d.old.caps.inheritable d.fileInheritable)

def proposedIsSetuidRoot : Bool :=
  d.rootKuid ≠ some d.setidIds.ruid && d.rootKuid = some d.setidIds.euid

def rootCompat : Bool :=
  d.old.caps.securebits &&& secbitNoroot == 0#32
    && (d.rootKuid = some d.setidIds.ruid || d.rootKuid = some d.setidIds.euid)
    && !(d.hasFcap && d.proposedIsSetuidRoot)

/-- `permitted_without_ambient` after the legacy root rule. -/
def grantBeforeUnsafe : CapabilityWords :=
  if d.rootCompat then capabilityUnion d.old.caps.bounding d.old.caps.inheritable
  else d.fileGrant

/-- `file_effective` after the legacy root rule. -/
def fileEffective : Bool :=
  d.recordEffective || (d.rootCompat && d.rootKuid = some d.setidIds.euid)

def permittedGainedBeforeUnsafe : Bool :=
  !capabilitySubset d.grantBeforeUnsafe d.old.caps.permitted

def privilegeSensitive : Bool := d.idChanged || d.permittedGainedBeforeUnsafe

/-- The old credential or its tracer rules out an unsafe gain. -/
def suppressed : Bool := d.old.noNewPrivs || d.input.traceState.suppressesPrivilege

def setidDowngraded : Bool :=
  d.privilegeSensitive && d.suppressed
    && (d.old.noNewPrivs || !d.old.caps.effective.contains capSetuid)

def permittedWithoutAmbient : CapabilityWords :=
  if d.privilegeSensitive && d.suppressed then
    capabilityInter d.grantBeforeUnsafe d.old.caps.permitted
  else d.grantBeforeUnsafe

/-- The effective user ID after an unsafe downgrade. -/
def finalEuid : Kuid := if d.setidDowngraded then d.setidIds.ruid else d.setidIds.euid

def finalEgid : Kgid := if d.setidDowngraded then d.setidIds.rgid else d.setidIds.egid

/-- The final `ids`. -/
def ids : CredentialIds :=
  { d.setidIds with
    euid := d.finalEuid, suid := d.finalEuid, fsuid := d.finalEuid
    egid := d.finalEgid, sgid := d.finalEgid, fsgid := d.finalEgid }

def differsFromRealIds : Bool :=
  d.ids.euid ≠ d.old.ids.ruid || d.ids.egid ≠ d.old.ids.rgid

/-- `ambient` before it is intersected with the new sets. -/
def keptAmbient : CapabilityWords :=
  if d.hasFcap || d.idChanged then noCapabilities else d.old.caps.ambient

def permitted : CapabilityWords := capabilityUnion d.permittedWithoutAmbient d.keptAmbient

def effective : CapabilityWords := if d.fileEffective then d.permitted else d.keptAmbient

def ambient : CapabilityWords :=
  capabilityInter d.keptAmbient (capabilityInter d.permitted d.old.caps.inheritable)

def securebits : BitVec 32 := d.old.caps.securebits &&& ~~~secbitKeepCaps

/-- The sets handed to `CapabilitySets::try_new`. -/
def capabilities : CapabilitySets :=
  ⟨d.effective, d.permitted, d.old.caps.inheritable, d.old.caps.bounding, d.ambient, d.securebits⟩

def changedEffectiveOrFsIds : Bool :=
  d.old.ids.euid ≠ d.ids.euid || d.old.ids.egid ≠ d.ids.egid
    || d.old.ids.fsuid ≠ d.ids.fsuid || d.old.ids.fsgid ≠ d.ids.fsgid

def permittedGained : Bool := !capabilitySubset d.permitted d.old.caps.permitted

def honoredSetuid : Bool := d.setidAdmitted && d.setUid

def honoredSetgid : Bool := d.setidAdmitted && d.setGid

def capabilitiesBeyondAmbient : Bool := !capabilitySubset d.permitted d.ambient

def nonRootFilePrivilege : Bool :=
  d.rootKuid ≠ some d.ids.ruid && (d.fileEffective || d.capabilitiesBeyondAmbient)

def secureExec : Bool := d.idChanged || d.differsFromRealIds || d.nonRootFilePrivilege

def preExecIdsMismatched : Bool :=
  d.old.ids.euid ≠ d.old.ids.ruid || d.old.ids.egid ≠ d.old.ids.rgid

end ExecDerivation

inductive ExecDumpability where
  | notDumpable
  | userDumpable
deriving DecidableEq

/-- `USER_NAMESPACE_OVERFLOW_ID`. -/
def overflowId {space : IdSpace} : TypedId space := ⟨65534, by decide⟩

structure ExecAuxIdentity where
  uid : UserUid
  euid : UserUid
  gid : UserGid
  egid : UserGid
  secure : Bool

def ExecAuxIdentity.fromIds (ids : CredentialIds) (uidMap gidMap : IdMap) (secure : Bool) :
    ExecAuxIdentity :=
  ⟨(uidMap.kernelUidToUser ids.ruid).getD overflowId,
    (uidMap.kernelUidToUser ids.euid).getD overflowId,
    (gidMap.kernelGidToUser ids.rgid).getD overflowId,
    (gidMap.kernelGidToUser ids.egid).getD overflowId, secure⟩

structure ExecCredentialEffects where
  auxIdentity : ExecAuxIdentity
  dumpability : ExecDumpability
  clearPdeathSignal : Bool
  clearPersonalityOnSetid : Bool

structure ExecPtraceRevalidation where
  privilegeSensitive : Bool
  preparedTraceState : ExecTraceState
deriving DecidableEq

structure ExecCredentialProposal (N : Type) where
  old : Shared (Credential N)
  proposed : Shared (Credential N)
  input : ExecCredentialInput
  effects : ExecCredentialEffects
  revalidation : ExecPtraceRevalidation

def ExecDerivation.effects {N : Type} (d : ExecDerivation N) : ExecCredentialEffects where
  auxIdentity := .fromIds d.ids d.uidMap d.gidMap d.secureExec
  dumpability :=
    if d.input.imageReadability.isUnreadable || d.preExecIdsMismatched
        || d.changedEffectiveOrFsIds || d.permittedGained then
      .notDumpable
    else .userDumpable
  clearPdeathSignal := d.secureExec || d.changedEffectiveOrFsIds || d.permittedGained
  clearPersonalityOnSetid :=
    d.honoredSetuid || d.honoredSetgid || d.permittedGainedBeforeUnsafe

section Derive
variable {N : Type} [DecidableEq N]

def deriveExecCredential (view : ExecUserNamespaceView N) (old : Shared (Credential N))
    (input : ExecCredentialInput) (memory : Option Nat) :
    Except CredError (ExecCredentialProposal N) :=
  let d : ExecDerivation N := ⟨view, old.value, input⟩
  if d.recordEffective ∧ ¬capabilitySubset d.filePermitted d.fileGrant then .error .notPermitted
  else do
    let capabilities ← CapabilitySets.tryNew d.effective d.permitted old.value.caps.inheritable
      old.value.caps.bounding d.ambient d.securebits
    let proposed ← tryFromTransition old.value d.ids old.value.groups capabilities
      old.value.noNewPrivs old.value.userNs .execClearsKeepCaps memory
    return ⟨old, proposed, input, d.effects, ⟨d.privilegeSensitive, input.traceState⟩⟩

def ExecCredentialProposal.tryIntoProposed (proposal : ExecCredentialProposal N)
    (expectedOld : Shared (Credential N)) : Except CredError (Shared (Credential N)) :=
  if proposal.old.ptrEq expectedOld then .ok proposal.proposed else .error .notPermitted

end Derive

/-! ## The derived capabilities -/

namespace ExecDerivation

variable {N : Type} (d : ExecDerivation N)

/-- Ambient capabilities only survive from the old ambient set. -/
theorem keptAmbient_subset : bits d.keptAmbient ⊆ bits d.old.caps.ambient := by
  unfold keptAmbient
  split
  · simp
  · exact subset_rfl

/-- What the file or the root rule can grant. -/
theorem grantBeforeUnsafe_subset :
    bits d.grantBeforeUnsafe ⊆ bits d.old.caps.inheritable ∪ bits d.old.caps.bounding := by
  unfold grantBeforeUnsafe fileGrant
  split
  · rw [bits_capabilityUnion, union_comm]
  simp only [bits_capabilityUnion, bits_capabilityInter]
  rw [union_comm]
  exact union_subset_union inter_subset_left inter_subset_left

theorem permittedWithoutAmbient_subset :
    bits d.permittedWithoutAmbient ⊆ bits d.grantBeforeUnsafe := by
  unfold permittedWithoutAmbient
  split
  · rw [bits_capabilityInter]
    exact inter_subset_left
  · exact subset_rfl

theorem permitted_eq : bits d.permitted = bits d.permittedWithoutAmbient ∪ bits d.keptAmbient :=
  bits_capabilityUnion _ _

theorem keptAmbient_subset_permitted : bits d.keptAmbient ⊆ bits d.old.caps.permitted :=
  d.keptAmbient_subset.trans (d.old.coherent.ambient.trans inter_subset_left)

/-- The new permitted set is drawn from the old permitted, inheritable and bounding sets. -/
theorem permitted_subset_authority :
    bits d.permitted
      ⊆ bits d.old.caps.permitted ∪ bits d.old.caps.inheritable ∪ bits d.old.caps.bounding := by
  rw [permitted_eq]
  refine union_subset ?_ ?_
  · refine (d.permittedWithoutAmbient_subset.trans d.grantBeforeUnsafe_subset).trans ?_
    rw [union_assoc]
    exact subset_union_right
  · refine d.keptAmbient_subset_permitted.trans ?_
    rw [union_assoc]
    exact subset_union_left

/-- Under `no_new_privs` or a suppressing tracer nothing is gained: either the whole grant was
permitted before, or the transition was privilege sensitive and the grant is cut down. -/
theorem permitted_subset_of_suppressed (h : d.suppressed = true) :
    bits d.permitted ⊆ bits d.old.caps.permitted := by
  rw [permitted_eq]
  refine union_subset ?_ d.keptAmbient_subset_permitted
  unfold permittedWithoutAmbient
  rw [h, Bool.and_true]
  split
  · rw [bits_capabilityInter]
    exact inter_subset_right
  next hsensitive =>
  unfold privilegeSensitive permittedGainedBeforeUnsafe at hsensitive
  rw [Bool.or_eq_true, not_or, Bool.not_eq_true, Bool.not_eq_true, Bool.not_eq_false'] at hsensitive
  exact capabilitySubset_iff.mp hsensitive.2

theorem securebits_eq : wordBits d.securebits = wordBits d.old.caps.securebits \ {keepCapsBit} := by
  unfold securebits
  rw [Lib.wordBits_diff, wordBits_secbitKeepCaps]

/-- The validation at the end of the derivation cannot fail. -/
theorem derivation_coherent : Coherent d.capabilities := by
  have hold := d.old.coherent
  have hperm : bits d.permitted ⊆ bits capabilityValidMask := by
    refine d.permitted_subset_authority.trans ?_
    exact union_subset (union_subset hold.permitted_valid hold.inheritable_valid)
      hold.bounding_valid
  have heff : bits d.effective ⊆ bits d.permitted := by
    unfold effective
    split
    · exact subset_rfl
    · rw [permitted_eq]
      exact subset_union_right
  have hambient : bits d.ambient ⊆ bits d.permitted ∩ bits d.old.caps.inheritable := by
    unfold ambient
    rw [bits_capabilityInter, bits_capabilityInter]
    exact inter_subset_right
  have hsecure : wordBits d.securebits ⊆ wordBits (secureAllBits ||| secureAllLocks) := by
    rw [securebits_eq]
    exact sdiff_subset.trans hold.securebits
  exact ⟨hsecure, hperm, hold.inheritable_valid, hold.bounding_valid, heff, hambient⟩

/-- Exec clears `KEEP_CAPS` and nothing else, which its transition mode lets pass. -/
theorem derivation_locksKept :
    LocksKept .execClearsKeepCaps d.old.caps.securebits d.securebits := by
  have hkeep : keepCapsBit ∉ wordBits d.securebits := by
    rw [securebits_eq]
    exact fun h => h.2 rfl
  have hsame : ∀ i, i ≠ keepCapsBit →
      (i ∈ wordBits d.securebits ↔ i ∈ wordBits d.old.caps.securebits) := by
    intro i hi
    rw [securebits_eq]
    exact ⟨fun h => h.1, fun h => ⟨h, hi⟩⟩
  refine ⟨?_, ?_⟩
  · unfold transitionChangedLockedValues
    split
    next hrelaxed =>
      -- the only locked value that can have changed is the one the mask leaves out
      rw [Lib.and_not_eq_zero, wordBits_secbitKeepCaps]
      intro i hi
      by_contra hne
      exact (mem_changedLockedValues.mp hi).2.2 (hsame i hne)
    next hstrict =>
    refine changedLockedValues_eq_zero.mpr ?_
    intro i _ hlocked
    by_cases hi : i = keepCapsBit
    · subst hi
      refine ⟨fun h => absurd h hkeep, fun hset => absurd ⟨rfl, ?_, ?_⟩ hstrict⟩
      · refine Lib.and_eq_right.mpr ?_
        rw [Lib.wordBits_or, wordBits_secbitKeepCaps, wordBits_secbitKeepCapsLocked]
        rintro i (rfl | rfl)
        · exact hset
        · exact hlocked
      · exact not_not.mp (mt Lib.and_twoPow_ne_zero.mp hkeep)
    · exact hsame i hi
  · refine clearedLocks_eq_zero.mpr ?_
    rintro i ⟨hold, hlock⟩
    refine (hsame i ?_).mpr hold
    rintro rfl
    exact absurd hlock (by decide)

/-! ## The derived identity -/

/-- Without an honoured set-ID bit the effective ID is still the old one. -/
theorem setidIds_effective : (d.honoredSetuid = false → d.setidIds.euid = d.old.ids.euid)
      ∧ (d.honoredSetgid = false → d.setidIds.egid = d.old.ids.egid) := by
  unfold setidIds honoredSetuid honoredSetgid
  split
  next hadm =>
    rw [hadm, Bool.true_and, Bool.true_and]
    split
    · exact ⟨fun _ => rfl, fun _ => rfl⟩
    · exact ⟨fun h => by simp [h], fun h => by simp [h]⟩
  · exact ⟨fun _ => rfl, fun _ => rfl⟩

theorem setidIds_real : d.setidIds.ruid = d.old.ids.ruid ∧ d.setidIds.rgid = d.old.ids.rgid := by
  unfold setidIds
  split
  · split
    · exact ⟨rfl, rfl⟩
    · exact ⟨rfl, rfl⟩
  · exact ⟨rfl, rfl⟩

/-- Exec moves the real ID around at most. -/
theorem roles_within {α : Type} {old : IdRoles α} {real effective final : α}
    (hreal : real = old.real) (heff : effective = old.effective)
    (hfinal : final = if d.setidDowngraded then real else effective) :
    old.Within ⟨real, final, final, final⟩ := by
  have hcore : final ∈ old.core := by
    rw [hfinal, hreal, heff]
    split
    · exact old.real_mem
    · exact old.effective_mem
  exact .of_core (hreal ▸ old.real_mem) hcore hcore (.inr hcore)

theorem users_within (h : d.honoredSetuid = false) : d.old.ids.users.Within d.ids.users :=
  d.roles_within d.setidIds_real.1 (d.setidIds_effective.1 h) rfl

theorem groups_within (h : d.honoredSetgid = false) : d.old.ids.groups.Within d.ids.groups :=
  d.roles_within d.setidIds_real.2 (d.setidIds_effective.2 h) rfl

/-- The one refusal of the derivation: a file whose capabilities must take effect, and which
the bounding and inheritable sets do not supply. -/
def Admits : Prop := d.recordEffective = true → bits d.filePermitted ⊆ bits d.fileGrant

end ExecDerivation

section Answer
variable {N : Type} [DecidableEq N]

/-- The derivation refuses by policy only; else it allocates exactly the derived credential. -/
theorem deriveExecCredential_cases (view : ExecUserNamespaceView N) (old : Shared (Credential N))
    (input : ExecCredentialInput) (memory : Option Nat) :
    (ExecDerivation.Admits ⟨view, old.value, input⟩
        ∧ ∃ new : Credential N,
          Replaces .execClearsKeepCaps old.value (ExecDerivation.ids ⟨view, old.value, input⟩)
            old.value.groups (ExecDerivation.capabilities ⟨view, old.value, input⟩)
            old.value.noNewPrivs new
          ∧ ∀ proposal : ExecCredentialProposal N,
            deriveExecCredential view old input memory = .ok proposal ↔
              ∃ addr, memory = some addr ∧ proposal = ⟨old, ⟨addr, new⟩, input,
                ExecDerivation.effects ⟨view, old.value, input⟩,
                ⟨ExecDerivation.privilegeSensitive ⟨view, old.value, input⟩, input.traceState⟩⟩)
      ∨ (¬ExecDerivation.Admits ⟨view, old.value, input⟩
        ∧ deriveExecCredential view old input memory = .error .notPermitted) := by
  generalize hd : (⟨view, old.value, input⟩ : ExecDerivation N) = d
  have hold : d.old = old.value := by rw [← hd]
  unfold deriveExecCredential
  dsimp only
  rw [hd]
  split
  next hbad =>
    rw [capabilitySubset_iff] at hbad
    exact .inr ⟨fun h => hbad.2 (h hbad.1), rfl⟩
  next hgood =>
  rw [not_and, not_not, capabilitySubset_iff] at hgood
  have hcoh := d.derivation_coherent
  have hlocks := d.derivation_locksKept
  rw [hold] at hlocks
  refine .inl ⟨hgood, ⟨d.ids, old.value.groups, d.capabilities, old.value.noNewPrivs,
    old.value.userNs, hcoh⟩, ⟨rfl, rfl, rfl, rfl, rfl, id, hlocks⟩, ?_⟩
  intro proposal
  have hcaps : CapabilitySets.tryNew d.effective d.permitted old.value.caps.inheritable
      old.value.caps.bounding d.ambient d.securebits = .ok d.capabilities := by
    rw [← hold]
    exact tryNew_of_coherent hcoh
  rw [hcaps]
  show (tryFromTransition old.value d.ids old.value.groups d.capabilities old.value.noNewPrivs
    old.value.userNs .execClearsKeepCaps memory >>= _) = _ ↔ _
  rw [tryFromTransition_of hcoh id hlocks]
  cases memory with
  | none =>
    constructor
    · intro h
      cases h
    · rintro ⟨addr, h, -⟩
      cases h
  | some addr =>
    constructor
    · intro h
      cases h
      exact ⟨addr, rfl, rfl⟩
    · rintro ⟨addr', haddr, rfl⟩
      cases haddr
      rfl

end Answer

end LinuxAbi.Cred
