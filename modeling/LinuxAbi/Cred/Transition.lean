import LinuxAbi.Cred.Credential
import Mathlib.Data.List.ReduceOption

/-!
# Credential-mutation planners

`transition.rs`: the set-ID planners with their capability fixups, and `capset`.

The user-ID and the group-ID planner decide about four IDs each in the same way, so that
decision is one definition over an arbitrary ID type, `IdRoles.next`. The user-ID planner then
fixes up the capability sets; the group-ID planner leaves them alone. Each planner is followed
by what it answers on a coherent credential: the policy alone decides, and the validation it
ends with cannot fail.
-/

namespace LinuxAbi.Cred

open Lib (bits)

/-! ## The four roles of an ID -/

/-- The real, effective, saved and filesystem ID of one kind. -/
structure IdRoles (α : Type) where
  real : α
  effective : α
  saved : α
  fs : α

/-- `UserIdTransitionKind` and `GroupIdTransitionKind`. -/
inductive IdTransitionKind (α : Type) where
  | id (id : α)
  | reId (real effective : Option α)
  | resId (real effective saved : Option α)
  | fsId (id : α)
deriving DecidableEq

namespace IdRoles

variable {α : Type} [DecidableEq α]

/-- `setresuid_is_noop` and `setresgid_is_noop`. -/
def resIdIsNoop (old : IdRoles α) (real effective saved : Option α) : Bool :=
  real.all (fun id => id = old.real)
    && effective.all (fun id => id = old.effective && id = old.fs)
    && saved.all (fun id => id = old.saved)

/-- The IDs `plan_user_id_transition` and `plan_group_id_transition` compute. -/
def next (old : IdRoles α) (privileged : Bool) :
    IdTransitionKind α → Except CredError (IdRoles α)
  | .id id =>
    if privileged then .ok ⟨id, id, id, id⟩
    else if id ≠ old.real ∧ id ≠ old.saved then .error .notPermitted
    else .ok { old with effective := id, fs := id }
  | .reId real effective =>
    if !privileged
        && (real.any (fun id => id ≠ old.real && id ≠ old.effective)
          || effective.any (fun id => id ≠ old.real && id ≠ old.effective && id ≠ old.saved)) then
      .error .notPermitted
    else
      let newEffective := effective.getD old.effective
      .ok {
        real := real.getD old.real
        effective := newEffective
        saved :=
          if real.isSome || effective.any (fun id => id ≠ old.real) then newEffective
          else old.saved
        fs := newEffective }
  | .resId real effective saved =>
    if old.resIdIsNoop real effective saved then .ok old
    else if !privileged
        && [real, effective, saved].reduceOption.any
          (fun id => id ≠ old.real && id ≠ old.effective && id ≠ old.saved) then
      .error .notPermitted
    else
      .ok {
        real := real.getD old.real
        effective := effective.getD old.effective
        saved := saved.getD old.saved
        fs := effective.getD old.effective }
  | .fsId id =>
    -- an unauthorized request is answered with an unchanged plan
    if privileged || id = old.real || id = old.effective || id = old.saved || id = old.fs then
      .ok { old with fs := id }
    else .ok old

/-- The IDs a process may switch its real, effective and saved ID between. -/
def core (roles : IdRoles α) : Set α := {roles.real, roles.effective, roles.saved}

/-- All IDs of a process. -/
def all (roles : IdRoles α) : Set α := insert roles.fs roles.core

omit [DecidableEq α] in
theorem real_mem (roles : IdRoles α) : roles.real ∈ roles.core := .inl rfl

omit [DecidableEq α] in
theorem effective_mem (roles : IdRoles α) : roles.effective ∈ roles.core := .inr (.inl rfl)

omit [DecidableEq α] in
theorem saved_mem (roles : IdRoles α) : roles.saved ∈ roles.core := .inr (.inr rfl)

/-- The set-ID policy: without authority only the current IDs may be asked for, and `setfsid`
is never refused. -/
def Admits (old : IdRoles α) (privileged : Bool) : IdTransitionKind α → Prop
  | .id id => privileged = true ∨ id = old.real ∨ id = old.saved
  | .reId real effective =>
    privileged = true
      ∨ (∀ id ∈ real, id = old.real ∨ id = old.effective) ∧ ∀ id ∈ effective, id ∈ old.core
  | .resId real effective saved =>
    privileged = true
      ∨ (∀ id ∈ real, id ∈ old.core) ∧ (∀ id ∈ effective, id ∈ old.core)
        ∧ ∀ id ∈ saved, id ∈ old.core
  | .fsId _ => True

/-- No ID of `new` is new to `old`, with and without the filesystem ID. -/
def Within (old new : IdRoles α) : Prop := new.core ⊆ old.core ∧ new.all ⊆ old.all

omit [DecidableEq α] in
theorem Within.refl (old : IdRoles α) : Within old old := ⟨subset_rfl, subset_rfl⟩

omit [DecidableEq α] in
theorem Within.trans {a b c : IdRoles α} (hab : Within a b) (hbc : Within b c) : Within a c :=
  ⟨hbc.1.trans hab.1, hbc.2.trans hab.2⟩

omit [DecidableEq α] in
/-- The four roles drawn from the three IDs a process may switch between. -/
theorem Within.of_core {old : IdRoles α} {real effective saved fs : α} (hreal : real ∈ old.core)
    (heff : effective ∈ old.core) (hsaved : saved ∈ old.core) (hfs : fs ∈ old.all) :
    Within old ⟨real, effective, saved, fs⟩ := by
  have hcore : core ⟨real, effective, saved, fs⟩ ⊆ old.core := by
    rintro id (rfl | rfl | rfl)
    · exact hreal
    · exact heff
    · exact hsaved
  refine ⟨hcore, ?_⟩
  rintro id (rfl | hid)
  · exact hfs
  · exact .inr (hcore hid)

omit [DecidableEq α] in
theorem getD_mem {s : Set α} {o : Option α} {d : α} (hd : d ∈ s) (ho : ∀ id ∈ o, id ∈ s) :
    o.getD d ∈ s := by
  cases o with
  | none => exact hd
  | some id => exact ho id rfl

/-- `setreid` is refused exactly outside the policy. -/
theorem reId_refused_iff (old : IdRoles α) (privileged : Bool) (real effective : Option α) :
    (!privileged
        && (real.any (fun id => id ≠ old.real && id ≠ old.effective)
          || effective.any (fun id => id ≠ old.real && id ≠ old.effective && id ≠ old.saved)))
        = true
      ↔ ¬old.Admits privileged (.reId real effective) := by
  simp only [Admits, core]
  cases privileged <;> cases real <;> cases effective <;> simp <;> tauto

/-- `setresid` is refused exactly outside the policy. -/
theorem resId_refused_iff (old : IdRoles α) (privileged : Bool) (real effective saved : Option α) :
    (!privileged
        && [real, effective, saved].reduceOption.any
          (fun id => id ≠ old.real && id ≠ old.effective && id ≠ old.saved)) = true
      ↔ ¬old.Admits privileged (.resId real effective saved) := by
  simp only [Admits, core]
  cases privileged <;> cases real <;> cases effective <;> cases saved
    <;> simp [List.reduceOption] <;> tauto

/-- What a planner answers: inside the policy the next IDs, none of them new without
authority; outside of it the refusal. -/
theorem next_cases (old : IdRoles α) (privileged : Bool) (input : IdTransitionKind α) :
    (∃ new, old.next privileged input = .ok new ∧ old.Admits privileged input
        ∧ (privileged = false → Within old new))
      ∨ (old.next privileged input = .error .notPermitted ∧ ¬old.Admits privileged input) := by
  cases input with
  | id id =>
    by_cases hpriv : privileged = true
    · refine .inl ⟨⟨id, id, id, id⟩, if_pos hpriv, .inl hpriv, ?_⟩
      intro hnot
      rw [hpriv] at hnot
      cases hnot
    by_cases hid : id ≠ old.real ∧ id ≠ old.saved
    · refine .inr ⟨by simp only [next, if_neg hpriv, if_pos hid], ?_⟩
      rintro (h | rfl | rfl)
      · exact hpriv h
      · exact hid.1 rfl
      · exact hid.2 rfl
    · have hmem : id = old.real ∨ id = old.saved := by
        rw [not_and_or, not_not, not_not] at hid
        exact hid
      have hcore : id ∈ old.core := by
        rcases hmem with rfl | rfl
        · exact old.real_mem
        · exact old.saved_mem
      refine .inl ⟨{ old with effective := id, fs := id }, ?_, .inr hmem, fun _ => ?_⟩
      · simp only [next, if_neg hpriv, if_neg hid]
      · exact .of_core old.real_mem hcore old.saved_mem (.inr hcore)
  | reId real effective =>
    have hiff := reId_refused_iff old privileged real effective
    by_cases hbad : old.Admits privileged (.reId real effective)
    · refine .inl ⟨_, if_neg (mt hiff.mp (not_not.mpr hbad)), hbad, ?_⟩
      rintro rfl
      obtain ⟨hreal, heff⟩ := hbad.resolve_left Bool.false_ne_true
      have hnew : effective.getD old.effective ∈ old.core := getD_mem old.effective_mem heff
      refine .of_core (getD_mem old.real_mem ?_) hnew ?_ (.inr hnew)
      · intro id hid
        rcases hreal id hid with rfl | rfl
        · exact old.real_mem
        · exact old.effective_mem
      · split
        · exact hnew
        · exact old.saved_mem
    · exact .inr ⟨if_pos (hiff.mpr hbad), hbad⟩
  | resId real effective saved =>
    have hiff := resId_refused_iff old privileged real effective saved
    by_cases hnoop : old.resIdIsNoop real effective saved = true
    · -- a request for the current IDs is inside the policy
      refine .inl ⟨old, if_pos hnoop, .inr ?_, fun _ => .refl old⟩
      simp only [resIdIsNoop, Bool.and_eq_true, Option.all_eq_true, decide_eq_true_eq] at hnoop
      obtain ⟨⟨hreal, heff⟩, hsaved⟩ := hnoop
      refine ⟨?_, ?_, ?_⟩
      · intro id hid
        exact hreal id hid ▸ old.real_mem
      · intro id hid
        exact (heff id hid).1 ▸ old.effective_mem
      · intro id hid
        exact hsaved id hid ▸ old.saved_mem
    by_cases hbad : old.Admits privileged (.resId real effective saved)
    · refine .inl ⟨_, (if_neg hnoop).trans (if_neg (mt hiff.mp (not_not.mpr hbad))), hbad, ?_⟩
      rintro rfl
      obtain ⟨hreal, heff, hsaved⟩ := hbad.resolve_left Bool.false_ne_true
      have hnew := getD_mem old.effective_mem heff
      exact .of_core (getD_mem old.real_mem hreal) hnew (getD_mem old.saved_mem hsaved) (.inr hnew)
    · exact .inr ⟨(if_neg hnoop).trans (if_pos (hiff.mpr hbad)), hbad⟩
  | fsId id =>
    refine .inl ?_
    by_cases hadm : (privileged || id = old.real || id = old.effective || id = old.saved
        || id = old.fs) = true
    · refine ⟨_, if_pos hadm, trivial, ?_⟩
      rintro rfl
      refine .of_core old.real_mem old.effective_mem old.saved_mem ?_
      simp only [Bool.false_or, Bool.or_eq_true, decide_eq_true_eq] at hadm
      rcases hadm with ((rfl | rfl) | rfl) | rfl
      · exact .inr old.real_mem
      · exact .inr old.effective_mem
      · exact .inr old.saved_mem
      · exact .inl rfl
    · exact ⟨old, if_neg hadm, trivial, fun _ => .refl old⟩

end IdRoles

/-! ## Capability fixups -/

/-- `CAP_CHOWN`, `CAP_MKNOD`, `CAP_DAC_OVERRIDE`, `CAP_DAC_READ_SEARCH`, `CAP_FOWNER`,
`CAP_FSETID`, `CAP_MAC_OVERRIDE`, `CAP_LINUX_IMMUTABLE`. -/
def filesystemCapabilities : List Nat := [0, 27, 1, 2, 3, 4, 32, 9]

def fixupUidCapabilities (rootKuid : Option Kuid) (oldIds newIds : CredentialIds)
    (caps : CapabilitySets) : Except CredError CapabilitySets :=
  if (oldIds.ruid = newIds.ruid ∧ oldIds.euid = newIds.euid ∧ oldIds.suid = newIds.suid)
      ∨ caps.securebits &&& secbitNoSetuidFixup ≠ 0#32 then
    .ok caps
  else
    let oldHadRoot := [oldIds.ruid, oldIds.euid, oldIds.suid].any fun id => rootKuid = some id
    let newHasRoot := [newIds.ruid, newIds.euid, newIds.suid].any fun id => rootKuid = some id
    let leavesRoot := oldHadRoot && !newHasRoot
    let drops := leavesRoot && caps.securebits &&& secbitKeepCaps == 0#32
    let permitted := if drops then noCapabilities else caps.permitted
    let effective := if drops then noCapabilities else caps.effective
    let ambient := if leavesRoot then noCapabilities else caps.ambient
    let effective :=
      if rootKuid = some oldIds.euid ∧ rootKuid ≠ some newIds.euid then noCapabilities
      else effective
    let effective :=
      if rootKuid ≠ some oldIds.euid ∧ rootKuid = some newIds.euid then permitted else effective
    CapabilitySets.tryNew effective permitted caps.inheritable caps.bounding ambient
      caps.securebits

/-- One round of the loop in `fixup_fsuid_capabilities`. -/
def fixupFilesystemCapability (rootKuid : Option Kuid) (oldFsuid newFsuid : Kuid)
    (permitted effective : CapabilityWords) (capability : Nat) : CapabilityWords :=
  match capMask capability with
  | none => effective
  | some (word, mask) =>
    if rootKuid = some oldFsuid ∧ rootKuid ≠ some newFsuid then
      Function.update effective word (effective word &&& ~~~mask)
    else if rootKuid ≠ some oldFsuid ∧ rootKuid = some newFsuid
        ∧ permitted word &&& mask ≠ 0#32 then
      Function.update effective word (effective word ||| mask)
    else effective

def fixupFsuidCapabilities (rootKuid : Option Kuid) (oldFsuid newFsuid : Kuid)
    (caps : CapabilitySets) : Except CredError CapabilitySets :=
  if oldFsuid = newFsuid ∨ caps.securebits &&& secbitNoSetuidFixup ≠ 0#32 then .ok caps
  else
    CapabilitySets.tryNew
      (filesystemCapabilities.foldl
        (fixupFilesystemCapability rootKuid oldFsuid newFsuid caps.permitted) caps.effective)
      caps.permitted caps.inheritable caps.bounding caps.ambient caps.securebits

/-- What a fixup may do: take permitted capabilities away and rearrange effective and ambient
ones below. -/
structure Trims (old new : CapabilitySets) : Prop where
  coherent : Coherent new
  permitted : bits new.permitted ⊆ bits old.permitted
  inheritable : new.inheritable = old.inheritable
  bounding : new.bounding = old.bounding
  securebits : new.securebits = old.securebits

variable {caps : CapabilitySets}

theorem Trims.refl (h : Coherent caps) : Trims caps caps :=
  ⟨h, subset_rfl, rfl, rfl, rfl⟩

/-- The validation `fixup_uid_capabilities` ends with cannot fail. -/
theorem fixupUidCapabilities_of (h : Coherent caps) (rootKuid : Option Kuid)
    (oldIds newIds : CredentialIds) :
    ∃ fixed, fixupUidCapabilities rootKuid oldIds newIds caps = .ok fixed ∧ Trims caps fixed := by
  unfold fixupUidCapabilities
  split
  · exact ⟨caps, rfl, .refl h⟩
  extract_lets oldHadRoot newHasRoot leavesRoot drops permitted effective₀ ambient effective₁
    effective
  have hperm : bits permitted ⊆ bits caps.permitted := by
    by_cases hdrops : drops = true
    · simp [permitted, hdrops]
    · simp [permitted, hdrops]
  -- effective starts below permitted, and each of the two adjustments keeps it there
  have heffective₀ : bits effective₀ ⊆ bits permitted := by
    by_cases hdrops : drops = true
    · simp [effective₀, hdrops]
    · simpa [effective₀, permitted, hdrops] using h.effective
  have heff₁ : bits effective₁ ⊆ bits permitted := by
    unfold effective₁
    split
    · simp
    · exact heffective₀
  have heff : bits effective ⊆ bits permitted := by
    unfold effective
    split
    · exact subset_rfl
    · exact heff₁
  -- permitted is only dropped together with ambient
  have hambient : bits ambient ⊆ bits permitted ∩ bits caps.inheritable := by
    by_cases hleaves : leavesRoot = true
    · simp [ambient, hleaves]
    · have hdrops : drops = false := by simp [drops, hleaves]
      simpa [ambient, permitted, hleaves, hdrops] using h.ambient
  have hcoh : Coherent ⟨effective, permitted, caps.inheritable, caps.bounding, ambient,
      caps.securebits⟩ :=
    ⟨h.securebits, hperm.trans h.permitted_valid, h.inheritable_valid, h.bounding_valid,
      heff, hambient⟩
  exact ⟨_, tryNew_of_coherent hcoh, hcoh, hperm, rfl, rfl, rfl⟩

/-- One round of the filesystem fixup keeps effective inside permitted. -/
theorem fixupFilesystemCapability_subset (h : bits effective ⊆ bits permitted) (capability : Nat) :
    bits (fixupFilesystemCapability rootKuid oldFsuid newFsuid permitted effective capability)
      ⊆ bits permitted := by
  unfold fixupFilesystemCapability
  split
  · exact h
  next word mask hmask =>
  split
  · exact (Lib.bits_update_diff_subset effective word mask).trans h
  split
  next hraise =>
    obtain ⟨-, -, rfl⟩ := capMask_eq_some.mp hmask
    have hbit := Lib.and_twoPow_ne_zero.mp hraise.2.2
    exact Lib.bits_update_or_subset h (Lib.wordBits_twoPow_subset hbit)
  · exact h

/-- The validation `fixup_fsuid_capabilities` ends with cannot fail. -/
theorem fixupFsuidCapabilities_of (h : Coherent caps) (rootKuid : Option Kuid)
    (oldFsuid newFsuid : Kuid) :
    ∃ fixed, fixupFsuidCapabilities rootKuid oldFsuid newFsuid caps = .ok fixed
      ∧ Trims caps fixed := by
  unfold fixupFsuidCapabilities
  split
  · exact ⟨caps, rfl, .refl h⟩
  -- induction over the capabilities already visited
  have hfold : ∀ (visited : List Nat) {effective : CapabilityWords},
      bits effective ⊆ bits caps.permitted →
      bits (visited.foldl (fixupFilesystemCapability rootKuid oldFsuid newFsuid caps.permitted)
        effective) ⊆ bits caps.permitted := by
    intro visited
    induction visited with
    | nil => exact fun heff => heff
    | cons capability visited ih =>
      exact fun heff => ih (fixupFilesystemCapability_subset heff capability)
  have hnew : Coherent { caps with
      effective := filesystemCapabilities.foldl
        (fixupFilesystemCapability rootKuid oldFsuid newFsuid caps.permitted) caps.effective } :=
    ⟨h.securebits, h.permitted_valid, h.inheritable_valid, h.bounding_valid,
      hfold filesystemCapabilities h.effective, h.ambient⟩
  exact ⟨_, tryNew_of_coherent hnew, hnew, subset_rfl, rfl, rfl, rfl⟩

/-! ## Set-ID plans -/

abbrev UserIdTransitionInput := IdTransitionKind Kuid

abbrev GroupIdTransitionInput := IdTransitionKind Kgid

/-- `UserIdAuthority` and `GroupIdAuthority`: the consumer's `CAP_SETUID` (`CAP_SETGID`)
decision. -/
structure IdAuthority where
  privileged : Bool

/-- The user-ID half of an identity. -/
def CredentialIds.users (ids : CredentialIds) : IdRoles Kuid :=
  ⟨ids.ruid, ids.euid, ids.suid, ids.fsuid⟩

/-- The group-ID half of an identity. -/
def CredentialIds.groups (ids : CredentialIds) : IdRoles Kgid :=
  ⟨ids.rgid, ids.egid, ids.sgid, ids.fsgid⟩

def CredentialIds.withUsers (ids : CredentialIds) (users : IdRoles Kuid) : CredentialIds :=
  { ids with ruid := users.real, euid := users.effective, suid := users.saved, fsuid := users.fs }

def CredentialIds.withGroups (ids : CredentialIds) (groups : IdRoles Kgid) : CredentialIds :=
  { ids with
    rgid := groups.real, egid := groups.effective, sgid := groups.saved, fsgid := groups.fs }

section Plans
variable {N : Type}

structure UserIdTransitionPlan (N : Type) where
  old : Shared (Credential N)
  input : UserIdTransitionInput
  authority : IdAuthority
  ids : CredentialIds
  capabilities : CapabilitySets

/-- The capabilities of a user-ID plan. A no-op `setresuid` and a refused `setfsuid` leave the
IDs alone, on which both fixups answer the old sets. -/
def plannedCapabilities (rootKuid : Option Kuid) (oldIds newIds : CredentialIds)
    (caps : CapabilitySets) : UserIdTransitionInput → Except CredError CapabilitySets
  | .fsId _ => fixupFsuidCapabilities rootKuid oldIds.fsuid newIds.fsuid caps
  | .id _ | .reId _ _ | .resId _ _ _ => fixupUidCapabilities rootKuid oldIds newIds caps

def planUserIdTransition (view : UserNamespaceView N) (old : Shared (Credential N))
    (input : UserIdTransitionInput) (authority : IdAuthority) :
    Except CredError (UserIdTransitionPlan N) := do
  let oldIds := old.value.ids
  let users ← oldIds.users.next authority.privileged input
  let ids := oldIds.withUsers users
  let capabilities ← plannedCapabilities (view.rootKuid old.value.userNs) oldIds ids
    old.value.caps input
  return ⟨old, input, authority, ids, capabilities⟩

structure GroupIdTransitionPlan (N : Type) where
  old : Shared (Credential N)
  input : GroupIdTransitionInput
  authority : IdAuthority
  ids : CredentialIds

def planGroupIdTransition (old : Shared (Credential N)) (input : GroupIdTransitionInput)
    (authority : IdAuthority) : Except CredError (GroupIdTransitionPlan N) := do
  let groups ← old.value.ids.groups.next authority.privileged input
  return ⟨old, input, authority, old.value.ids.withGroups groups⟩

structure CapsetRequest where
  effective : CapabilityWords
  permitted : CapabilityWords
  inheritable : CapabilityWords
  valid : ∀ word, (effective word ||| permitted word ||| inheritable word)
    &&& ~~~capabilityValidMask word = 0#32

def CapsetRequest.tryNew (effective permitted inheritable : CapabilityWords) :
    Except CredError CapsetRequest :=
  if h : ∀ word, (effective word ||| permitted word ||| inheritable word)
      &&& ~~~capabilityValidMask word = 0#32 then
    .ok ⟨effective, permitted, inheritable, h⟩
  else .error .invalidInput

structure CapsetAuthority where
  setpcap : Bool

structure CapsetPlan (N : Type) where
  old : Shared (Credential N)
  request : CapsetRequest
  authority : CapsetAuthority
  capabilities : CapabilitySets

def planCapset (old : Shared (Credential N)) (request : CapsetRequest)
    (authority : CapsetAuthority) : Except CredError (CapsetPlan N) :=
  let caps := old.value.caps
  if ¬capabilitySubset request.effective request.permitted
      ∨ ¬capabilitySubset request.permitted caps.permitted then
    .error .notPermitted
  else if ¬capabilitySubset request.inheritable (capabilityUnion caps.inheritable caps.bounding)
  then .error .notPermitted
  else if ¬authority.setpcap
      ∧ ¬capabilitySubset request.inheritable (capabilityUnion caps.inheritable caps.permitted)
  then .error .notPermitted
  else do
    let ambient : CapabilityWords := fun word =>
      caps.ambient word &&& (request.permitted word &&& request.inheritable word)
    let capabilities ← CapabilitySets.tryNew request.effective request.permitted
      request.inheritable caps.bounding ambient caps.securebits
    return ⟨old, request, authority, capabilities⟩

variable [DecidableEq N]

def tryPreparePlannedCredential (view : UserNamespaceView N)
    (plannedOld expectedOld : Shared (Credential N)) (ids : CredentialIds)
    (capabilities : CapabilitySets) (memory : Option Nat) :
    Except CredError (PreparedCredential N) :=
  if plannedOld.ptrEq expectedOld then
    tryPrepareTransition view expectedOld ids expectedOld.value.groups capabilities
      expectedOld.value.noNewPrivs memory
  else .error .notPermitted

def UserIdTransitionPlan.tryPrepareCredential (plan : UserIdTransitionPlan N)
    (view : UserNamespaceView N) (expectedOld : Shared (Credential N)) (memory : Option Nat) :
    Except CredError (PreparedCredential N) :=
  tryPreparePlannedCredential view plan.old expectedOld plan.ids plan.capabilities memory

def GroupIdTransitionPlan.tryPrepareCredential (plan : GroupIdTransitionPlan N)
    (view : UserNamespaceView N) (expectedOld : Shared (Credential N)) (memory : Option Nat) :
    Except CredError (PreparedCredential N) :=
  tryPreparePlannedCredential view plan.old expectedOld plan.ids expectedOld.value.caps memory

def CapsetPlan.tryPrepareCredential (plan : CapsetPlan N) (view : UserNamespaceView N)
    (expectedOld : Shared (Credential N)) (memory : Option Nat) :
    Except CredError (PreparedCredential N) :=
  tryPreparePlannedCredential view plan.old expectedOld expectedOld.value.ids plan.capabilities
    memory

end Plans

/-! ## What the planners answer -/

section Answers
variable {N : Type}

theorem plannedCapabilities_of (h : Coherent caps) (rootKuid : Option Kuid)
    (oldIds newIds : CredentialIds) (input : UserIdTransitionInput) :
    ∃ fixed, plannedCapabilities rootKuid oldIds newIds caps input = .ok fixed
      ∧ Trims caps fixed := by
  cases input with
  | fsId _ => exact fixupFsuidCapabilities_of h rootKuid oldIds.fsuid newIds.fsuid
  | id _ | reId _ _ | resId _ _ _ => exact fixupUidCapabilities_of h rootKuid oldIds newIds

/-- The user-ID planner refuses by policy only; its plan trims the capability sets, leaves the
group IDs alone and brings in no user ID without authority. -/
theorem planUserIdTransition_cases (view : UserNamespaceView N) (old : Shared (Credential N))
    (input : UserIdTransitionInput) (authority : IdAuthority) :
    (∃ plan, planUserIdTransition view old input authority = .ok plan
        ∧ old.value.ids.users.Admits authority.privileged input
        ∧ plan.old = old ∧ Trims old.value.caps plan.capabilities
        ∧ plan.ids.groups = old.value.ids.groups
        ∧ (authority.privileged = false → old.value.ids.users.Within plan.ids.users))
      ∨ (planUserIdTransition view old input authority = .error .notPermitted
        ∧ ¬old.value.ids.users.Admits authority.privileged input) := by
  rcases old.value.ids.users.next_cases authority.privileged input with
    ⟨users, hnext, hadm, hwin⟩ | ⟨hnext, href⟩
  · obtain ⟨fixed, hfixed, htrims⟩ := plannedCapabilities_of old.value.coherent
      (view.rootKuid old.value.userNs) old.value.ids (old.value.ids.withUsers users) input
    refine .inl ⟨⟨old, input, authority, old.value.ids.withUsers users, fixed⟩, ?_, hadm, rfl,
      htrims, rfl, hwin⟩
    simp only [planUserIdTransition, hnext, hfixed, bind, Except.bind]
    rfl
  · refine .inr ⟨?_, href⟩
    simp only [planUserIdTransition, hnext, bind, Except.bind]

/-- The group-ID planner likewise, with the two kinds of IDs exchanged. -/
theorem planGroupIdTransition_cases (old : Shared (Credential N)) (input : GroupIdTransitionInput)
    (authority : IdAuthority) :
    (∃ plan, planGroupIdTransition old input authority = .ok plan
        ∧ old.value.ids.groups.Admits authority.privileged input
        ∧ plan.old = old
        ∧ plan.ids.users = old.value.ids.users
        ∧ (authority.privileged = false → old.value.ids.groups.Within plan.ids.groups))
      ∨ (planGroupIdTransition old input authority = .error .notPermitted
        ∧ ¬old.value.ids.groups.Admits authority.privileged input) := by
  rcases old.value.ids.groups.next_cases authority.privileged input with
    ⟨groups, hnext, hadm, hwin⟩ | ⟨hnext, href⟩
  · refine .inl ⟨⟨old, input, authority, old.value.ids.withGroups groups⟩, ?_, hadm, rfl, rfl, hwin⟩
    simp only [planGroupIdTransition, hnext, bind]
    rfl
  · refine .inr ⟨?_, href⟩
    simp only [planGroupIdTransition, hnext, bind, Except.bind]

/-- The commoncap `capset` policy, over sets of capabilities. -/
structure CapsetAdmits (caps : CapabilitySets) (request : CapsetRequest) (setpcap : Bool) :
    Prop where
  effective : bits request.effective ⊆ bits request.permitted
  permitted : bits request.permitted ⊆ bits caps.permitted
  bounded : bits request.inheritable ⊆ bits caps.inheritable ∪ bits caps.bounding
  restricted : setpcap = false →
    bits request.inheritable ⊆ bits caps.inheritable ∪ bits caps.permitted

/-- The `capset` planner refuses by policy only. -/
theorem planCapset_cases (old : Shared (Credential N)) (request : CapsetRequest)
    (authority : CapsetAuthority) :
    (∃ plan, planCapset old request authority = .ok plan
        ∧ CapsetAdmits old.value.caps request authority.setpcap
        ∧ plan.old = old ∧ Coherent plan.capabilities
        ∧ plan.capabilities.permitted = request.permitted
        ∧ plan.capabilities.inheritable = request.inheritable
        ∧ plan.capabilities.bounding = old.value.caps.bounding
        ∧ plan.capabilities.securebits = old.value.caps.securebits)
      ∨ (planCapset old request authority = .error .notPermitted
        ∧ ¬CapsetAdmits old.value.caps request authority.setpcap) := by
  unfold planCapset
  dsimp only
  split
  next hsub =>
    refine .inr ⟨rfl, fun h => ?_⟩
    rw [capabilitySubset_iff, capabilitySubset_iff] at hsub
    rcases hsub with hsub | hsub
    · exact hsub h.effective
    · exact hsub h.permitted
  next hsub =>
  rw [not_or, not_not, not_not, capabilitySubset_iff, capabilitySubset_iff] at hsub
  split
  next hbound =>
    rw [capabilitySubset_iff, bits_capabilityUnion] at hbound
    exact .inr ⟨rfl, fun h => hbound h.bounded⟩
  next hbound =>
  rw [not_not, capabilitySubset_iff, bits_capabilityUnion] at hbound
  split
  next hrestrict =>
    rw [capabilitySubset_iff, bits_capabilityUnion] at hrestrict
    refine .inr ⟨rfl, fun h => hrestrict.2 (h.restricted ?_)⟩
    exact Bool.eq_false_iff.mpr hrestrict.1
  next hrestrict =>
  rw [not_and, not_not, capabilitySubset_iff, bits_capabilityUnion] at hrestrict
  have hadm : CapsetAdmits old.value.caps request authority.setpcap :=
    ⟨hsub.1, hsub.2, hbound, fun hno => hrestrict (Bool.eq_false_iff.mp hno)⟩
  -- the request was checked against the valid mask when it was built
  have hval : ∀ word, Lib.wordBits (request.effective word ||| request.permitted word
      ||| request.inheritable word) ⊆ Lib.wordBits (capabilityValidMask word) :=
    fun word => Lib.and_not_eq_zero.mp (request.valid word)
  simp only [Lib.wordBits_or, Set.union_subset_iff] at hval
  have hambient : bits (fun word => old.value.caps.ambient word
      &&& (request.permitted word &&& request.inheritable word))
        ⊆ bits request.permitted ∩ bits request.inheritable := by
    rw [Lib.bits_and, Lib.bits_and]
    exact Set.inter_subset_right
  have hcoh : Coherent ⟨request.effective, request.permitted, request.inheritable,
      old.value.caps.bounding, _, old.value.caps.securebits⟩ :=
    ⟨old.value.coherent.securebits, fun b hb => (hval b.1).1.2 hb,
      fun b hb => (hval b.1).2 hb, old.value.coherent.bounding_valid, hsub.1, hambient⟩
  refine .inl ⟨⟨old, request, authority, _⟩, ?_, hadm, rfl, hcoh, rfl, rfl, rfl, rfl⟩
  rw [tryNew_of_coherent hcoh]
  rfl

end Answers

end LinuxAbi.Cred
