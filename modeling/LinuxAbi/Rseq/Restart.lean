import Mathlib.Data.BitVec
import LinuxAbi.Lib.Outcome

/-!
# The restart gate of restartable sequences

`crates/rseq/src/restart.rs`, with the descriptors of `descriptor.rs` and `abi.rs`.

A descriptor is only built by `RseqDescriptor::new`; what it checks are fields of the
descriptor. Of the area there are the two fields that the gate reads. `from_bits` only narrows
the event masks there are; every word is a mask here.
-/

namespace LinuxAbi.Rseq

/-- `RseqError`, as far as the functions here return it. -/
inductive RseqError
  | invalidAreaFlags
  | invalidDescriptorAddress
  | descriptorReadFault
  | invalidVersion
  | invalidFlags
  | addressOverflow
  | addressOutOfRange
  | abortInCriticalSection
  | signatureAddressUnderflow
  | activeDescriptorMismatch
  | restartSignatureMismatch
deriving DecidableEq

structure RseqEventMask where
  bits : BitVec 32

def RseqEventMask.isEmpty (m : RseqEventMask) : Bool := m.bits == 0

structure RseqArea where
  rseqCs : BitVec 64
  flags : BitVec 32

structure RseqCriticalSection where
  version : BitVec 32
  flags : BitVec 32
  startIp : BitVec 64
  postCommitOffset : BitVec 64
  abortIp : BitVec 64

namespace RseqCriticalSection

variable (cs : RseqCriticalSection)

def postCommitIp : Except RseqError (BitVec 64) :=
  if cs.startIp.toNat + cs.postCommitOffset.toNat < 2 ^ 64 then
    .ok (cs.startIp + cs.postCommitOffset)
  else .error .addressOverflow

/-- The word is `RSEQ_CS_SIGNATURE_BYTES` long. -/
def signatureAddress : Except RseqError (BitVec 64) :=
  if 4 ≤ cs.abortIp.toNat then .ok (cs.abortIp - 4) else .error .signatureAddressUnderflow

def contains (ip : BitVec 64) : Except RseqError Bool := do
  let stop ← cs.postCommitIp
  .ok (decide (cs.startIp ≤ ip) && decide (ip < stop))

def validateForUser (userLimit : BitVec 64) : Except RseqError Unit :=
  if cs.version ≠ 0 then .error .invalidVersion
  else do
    let stop ← cs.postCommitIp
    if ¬ cs.startIp < userLimit ∨ ¬ stop < userLimit ∨ ¬ cs.abortIp < userLimit then
      .error .addressOutOfRange
    else do
      let inside ← cs.contains cs.abortIp
      if inside then .error .abortInCriticalSection else .ok ()

/-- `RSEQ_CS_SUPPORTED_FLAGS` is zero. -/
def validateRestartFlags : Except RseqError Unit :=
  if cs.flags &&& ~~~0#32 ≠ 0 then .error .invalidFlags else .ok ()

/-- The interval `[start_ip, start_ip + post_commit_offset)`, without wrapping. -/
def Inside (ip : BitVec 64) : Prop :=
  cs.startIp.toNat ≤ ip.toNat ∧ ip.toNat < cs.startIp.toNat + cs.postCommitOffset.toNat

end RseqCriticalSection

structure RseqDescriptor where
  address : BitVec 64
  criticalSection : RseqCriticalSection
  userLimit : BitVec 64
  nonzero : address ≠ 0
  bounded : address < userLimit
  validated : criticalSection.validateForUser userLimit = .ok ()

namespace RseqDescriptor

def new (address : BitVec 64) (criticalSection : RseqCriticalSection) (userLimit : BitVec 64) :
    Except RseqError RseqDescriptor :=
  if nonzero : address = 0 then .error .invalidDescriptorAddress
  else if bounded : address < userLimit then
    match validated : criticalSection.validateForUser userLimit with
    | .error error => .error error
    | .ok () => .ok { address, criticalSection, userLimit, nonzero, bounded, validated }
  else .error .addressOutOfRange

def validateRestartFlags (d : RseqDescriptor) (areaFlags : BitVec 32) : Except RseqError Unit :=
  if areaFlags ≠ 0 then .error .invalidAreaFlags else d.criticalSection.validateRestartFlags

end RseqDescriptor

inductive RestartDecision
  | noActive
  | clearOnly
  | abort

def decideRestart (area : RseqArea) (descriptor : Option RseqDescriptor) (ip : BitVec 64)
    (pendingEvents : RseqEventMask) (registrationSignature abortSignature : BitVec 32) :
    Except RseqError RestartDecision :=
  if area.rseqCs = 0 then .ok .noActive
  else if pendingEvents.isEmpty then .ok .noActive
  else
    match descriptor with
    | none => .error .descriptorReadFault
    | some descriptor =>
      if area.rseqCs ≠ descriptor.address then .error .activeDescriptorMismatch
      else do
        -- the address is derived for its own fault only
        let _ ← descriptor.criticalSection.signatureAddress
        if abortSignature ≠ registrationSignature then .error .restartSignatureMismatch
        else do
          let inside ← descriptor.criticalSection.contains ip
          if inside then do
            descriptor.validateRestartFlags area.flags
            .ok .abort
          else .ok .clearOnly

/-! ## What the checks leave -/

theorem RseqCriticalSection.contains_eq_ok {cs : RseqCriticalSection} {ip : BitVec 64} {b : Bool} :
    cs.contains ip = .ok b ↔ cs.startIp.toNat + cs.postCommitOffset.toNat < 2 ^ 64 ∧
      (b = true ↔ cs.Inside ip) := by
  unfold contains postCommitIp Inside
  split
  · next h =>
    change Except.ok _ = Except.ok b ↔ _
    rw [Except.ok.injEq, and_iff_right h, Bool.eq_iff_iff, Bool.and_eq_true, decide_eq_true_eq,
      decide_eq_true_eq, BitVec.le_def, BitVec.lt_def, BitVec.toNat_add, Nat.mod_eq_of_lt h]
    exact iff_comm
  · next h => exact ⟨nofun, fun hb => absurd hb.1 h⟩

/-- What `RseqDescriptor::new` has checked. -/
theorem RseqDescriptor.sound (d : RseqDescriptor) :
    let cs := d.criticalSection
    cs.startIp.toNat + cs.postCommitOffset.toNat < 2 ^ 64 ∧ cs.abortIp < d.userLimit ∧
      ¬ cs.Inside cs.abortIp := by
  have hval := d.validated
  unfold RseqCriticalSection.validateForUser at hval
  split at hval
  · cases hval
  obtain ⟨stop, -, hval⟩ := Lib.bind_eq_ok.mp hval
  split at hval
  · cases hval
  next hrange =>
  obtain ⟨inside, hinside, hval⟩ := Lib.bind_eq_ok.mp hval
  obtain ⟨hfits, hiff⟩ := RseqCriticalSection.contains_eq_ok.mp hinside
  refine ⟨hfits, not_not.mp (not_or.mp (not_or.mp hrange).2).2, fun h => ?_⟩
  rw [hiff.mpr h] at hval
  cases hval

theorem decideRestart_eq_abort {area : RseqArea}
    (h : decideRestart area (some d) ip events registered found = .ok .abort) :
    events.isEmpty = false ∧ found = registered ∧ area.flags = 0 ∧ d.criticalSection.flags = 0 ∧
      d.criticalSection.Inside ip := by
  unfold decideRestart at h
  split at h
  · cases h
  split at h
  · cases h
  next hev =>
  dsimp only at h
  split at h
  · cases h
  obtain ⟨-, -, h⟩ := Lib.bind_eq_ok.mp h
  split at h
  · cases h
  next hsignature =>
  obtain ⟨inside, hinside, h⟩ := Lib.bind_eq_ok.mp h
  split at h
  · next hin =>
    obtain ⟨_, hflags, -⟩ := Lib.bind_eq_ok.mp h
    unfold RseqDescriptor.validateRestartFlags RseqCriticalSection.validateRestartFlags at hflags
    split at hflags
    · cases hflags
    next harea =>
    split at hflags
    · cases hflags
    next hcs =>
    rw [BitVec.not_zero, BitVec.and_allOnes] at hcs
    exact ⟨Bool.eq_false_iff.mpr hev, not_not.mp hsignature, not_not.mp harea,
      not_not.mp hcs, (RseqCriticalSection.contains_eq_ok.mp hinside).2.mp hin⟩
  · cases h

/-- The interval of a descriptor never wraps. An abort is chosen only with an event pending,
matching signatures, no flags and the instruction pointer inside the interval; the abort address
is then a user address outside, so the gate does not choose an abort there again. -/
theorem abort_never_loops (d : RseqDescriptor) (area : RseqArea) (ip : BitVec 64)
    (events : RseqEventMask) (registered found : BitVec 32) :
    let cs := d.criticalSection
    cs.startIp.toNat + cs.postCommitOffset.toNat < 2 ^ 64 ∧
    (decideRestart area (some d) ip events registered found = .ok .abort →
      events.isEmpty = false ∧ found = registered ∧ area.flags = 0 ∧ cs.flags = 0 ∧
        cs.Inside ip ∧ cs.abortIp < d.userLimit ∧ ¬ cs.Inside cs.abortIp ∧
        ∀ events' registered' found',
          decideRestart area (some d) cs.abortIp events' registered' found' ≠ .ok .abort) := by
  obtain ⟨hfits, hlimit, houtside⟩ := d.sound
  refine ⟨hfits, fun h => ?_⟩
  obtain ⟨hevents, hsignature, harea, hflags, hinside⟩ := decideRestart_eq_abort h
  refine ⟨hevents, hsignature, harea, hflags, hinside, hlimit, houtside, ?_⟩
  intro events' registered' found' h'
  obtain ⟨-, -, -, -, hagain⟩ := decideRestart_eq_abort h'
  exact houtside hagain

end LinuxAbi.Rseq
