import LinuxAbi.Cred.Ids
import LinuxAbi.Lib.Bits
import LinuxAbi.Lib.Outcome
import Mathlib.Data.Fintype.Pi

/-!
# Capability sets and securebits

`CapabilitySets` of `credential.rs`: five capability sets of two 32-bit words each and the
securebits word, with `validate` and the in-place operations.

A row of words is the set of its bits (`Lib.bits`), and `Coherent` says in those terms what
`validate` accepts: effective inside permitted, ambient inside permitted and inheritable, no
bit beyond the last capability. Every operation keeps it (`Coherent.raiseAmbient`, ...).
-/

namespace LinuxAbi.Cred

open Lib (bits wordBits)

/-- `CAP_LAST_CAP` of the Linux UAPI headers. -/
def capLastCap : Nat := 40

def capabilityWords : Nat := 2

/-- `[u32; CAPABILITY_WORDS]`. -/
abbrev CapabilityWords := Fin capabilityWords → BitVec 32

def capabilityValidMaskWord (word : Nat) : BitVec 32 :=
  let firstCapability := word * 32
  if capLastCap < firstCapability then 0#32
  else
    let lastBit := capLastCap - firstCapability
    if lastBit ≥ 31 then BitVec.allOnes 32 else (1#32 <<< (lastBit + 1)) - 1#32

def capabilityValidMask : CapabilityWords := fun word => capabilityValidMaskWord word

/-! ## Securebits -/

def secbitNoroot : BitVec 32 := 1#32 <<< 0
def secbitNoSetuidFixup : BitVec 32 := 1#32 <<< 2
def secbitKeepCaps : BitVec 32 := 1#32 <<< 4
def secbitKeepCapsLocked : BitVec 32 := 1#32 <<< 5
def secbitNoCapAmbientRaise : BitVec 32 := 1#32 <<< 6
def secbitExecRestrictFile : BitVec 32 := 1#32 <<< 8
def secbitExecDenyInteractive : BitVec 32 := 1#32 <<< 10

/-- `SECURE_ALL_BITS`: every value bit, without its adjacent lock bit. -/
def secureAllBits : BitVec 32 :=
  secbitNoroot ||| secbitNoSetuidFixup ||| secbitKeepCaps ||| secbitNoCapAmbientRaise
    ||| secbitExecRestrictFile ||| secbitExecDenyInteractive

def secureAllLocks : BitVec 32 := secureAllBits <<< 1

/-! ## Capability sets -/

structure CapabilitySets where
  effective : CapabilityWords
  permitted : CapabilityWords
  inheritable : CapabilityWords
  bounding : CapabilityWords
  ambient : CapabilityWords
  securebits : BitVec 32
deriving DecidableEq

/-- `CapabilitySets::cap_mask`. -/
def capMask (capability : Nat) : Option (Fin capabilityWords × BitVec 32) :=
  if capability > capLastCap then none
  else if h : capability / 32 < capabilityWords then
    some (⟨capability / 32, h⟩, 1#32 <<< (capability % 32))
  else none

/-- Whether a set has a capability, as `has_effective`, `bounding_contains` and
`ambient_contains` test it. -/
def CapabilityWords.contains (s : CapabilityWords) (capability : Nat) : Bool :=
  match capMask capability with
  | none => false
  | some (word, mask) => s word &&& mask != 0#32

/-- `capability_subset`, and the negation of `any_bits_outside`. -/
def capabilitySubset (subset set : CapabilityWords) : Bool :=
  decide (∀ word, subset word &&& ~~~set word = 0#32)

def capabilityUnion (lhs rhs : CapabilityWords) : CapabilityWords :=
  fun word => lhs word ||| rhs word

/-- The word-by-word intersection written as a loop at several places of the source. -/
def capabilityInter (lhs rhs : CapabilityWords) : CapabilityWords :=
  fun word => lhs word &&& rhs word

/-- `[0; CAPABILITY_WORDS]`. -/
def noCapabilities : CapabilityWords := fun _ => 0#32

namespace CapabilitySets

variable (sets : CapabilitySets)

/-- One round of the loop in `CapabilitySets::validate`. -/
def validateWord (word : Fin capabilityWords) : Except CredError Unit :=
  if (sets.effective word ||| sets.permitted word ||| sets.inheritable word
      ||| sets.bounding word ||| sets.ambient word) &&& ~~~capabilityValidMask word ≠ 0#32 then
    .error .invalidInput
  else if sets.effective word &&& ~~~sets.permitted word ≠ 0#32
      ∨ sets.ambient word &&& ~~~(sets.permitted word &&& sets.inheritable word) ≠ 0#32 then
    .error .notPermitted
  else .ok ()

def validate : Except CredError Unit :=
  if sets.securebits &&& ~~~(secureAllBits ||| secureAllLocks) ≠ 0#32 then .error .invalidInput
  else (List.finRange capabilityWords).forM sets.validateWord

def tryNew (effective permitted inheritable bounding ambient : CapabilityWords)
    (securebits : BitVec 32) : Except CredError CapabilitySets := do
  let sets := ⟨effective, permitted, inheritable, bounding, ambient, securebits⟩
  validate sets
  return sets

def tryRaiseAmbient (capability : Nat) :
    Except CredError CapabilitySets :=
  match capMask capability with
  | none => .error .invalidInput
  | some (word, mask) =>
    if sets.securebits &&& secbitNoCapAmbientRaise ≠ 0#32
        ∨ sets.permitted word &&& mask = 0#32 ∨ sets.inheritable word &&& mask = 0#32 then
      .error .notPermitted
    else
      .ok { sets with
        ambient := Function.update sets.ambient word (sets.ambient word ||| mask) }

def tryLowerAmbient (capability : Nat) :
    Except CredError CapabilitySets :=
  match capMask capability with
  | none => .error .invalidInput
  | some (word, mask) =>
    .ok { sets with
      ambient := Function.update sets.ambient word (sets.ambient word &&& ~~~mask) }

def clearAmbient : CapabilitySets :=
  { sets with ambient := noCapabilities }

def reconcileAmbient : CapabilitySets :=
  { sets with
    ambient := fun word => sets.ambient word &&& (sets.permitted word &&& sets.inheritable word) }

def tryDropBounding (capability : Nat) :
    Except CredError CapabilitySets :=
  match capMask capability with
  | none => .error .invalidInput
  | some (word, mask) =>
    .ok { sets with
      bounding := Function.update sets.bounding word (sets.bounding word &&& ~~~mask) }

end CapabilitySets

/-- The values `old` has locked and `new` has changed. -/
def changedLockedValues (old new : BitVec 32) : BitVec 32 :=
  ((old &&& secureAllLocks) >>> 1) &&& (old ^^^ new) &&& secureAllBits

/-- The locks of `old` that `new` no longer has. -/
def clearedLocks (old new : BitVec 32) : BitVec 32 :=
  old &&& secureAllLocks &&& ~~~new

namespace CapabilitySets

def trySetSecurebits (sets : CapabilitySets) (requested : BitVec 32) :
    Except CredError CapabilitySets :=
  if requested &&& ~~~(secureAllBits ||| secureAllLocks) ≠ 0#32 then .error .notPermitted
  else if changedLockedValues sets.securebits requested ≠ 0#32
      ∨ clearedLocks sets.securebits requested ≠ 0#32 then
    .error .notPermitted
  else .ok { sets with securebits := requested }

def trySetKeepCaps (sets : CapabilitySets) (enabled : Bool) : Except CredError CapabilitySets :=
  if sets.securebits &&& secbitKeepCapsLocked ≠ 0#32 then .error .notPermitted
  else if enabled then .ok { sets with securebits := sets.securebits ||| secbitKeepCaps }
  else .ok { sets with securebits := sets.securebits &&& ~~~secbitKeepCaps }

end CapabilitySets

/-! ## Words as sets -/

theorem capabilitySubset_iff {subset set : CapabilityWords} :
    capabilitySubset subset set = true ↔ bits subset ⊆ bits set := by
  unfold capabilitySubset
  rw [decide_eq_true_eq]
  exact Lib.forall_and_not_eq_zero

@[simp] theorem bits_capabilityUnion (lhs rhs : CapabilityWords) :
    bits (capabilityUnion lhs rhs) = bits lhs ∪ bits rhs :=
  Lib.bits_or lhs rhs

@[simp] theorem bits_capabilityInter (lhs rhs : CapabilityWords) :
    bits (capabilityInter lhs rhs) = bits lhs ∩ bits rhs :=
  Lib.bits_and lhs rhs

@[simp] theorem bits_noCapabilities : bits noCapabilities = ∅ :=
  Lib.bits_zero

variable {capability : Nat} {old new : BitVec 32}

/-- The word and bit `cap_mask` picks for a capability. -/
theorem capMask_eq_some :
    capMask capability = some (word, mask) ↔
      capability ≤ capLastCap ∧ word.val = capability / 32
        ∧ mask = 1#32 <<< (capability % 32) := by
  unfold capMask
  constructor
  · intro h
    split at h
    · cases h
    next hle =>
    split at h
    next hword =>
      injection h with h
      injection h with hw hm
      exact ⟨Nat.le_of_not_lt hle, by rw [← hw], hm.symm⟩
    · cases h
  · rintro ⟨hle, hword, rfl⟩
    rw [if_neg (Nat.not_lt.mpr hle), dif_pos (hword ▸ word.isLt)]
    simp only [← hword]

theorem capMask_eq_none : capMask capability = none ↔ capLastCap < capability := by
  unfold capMask
  constructor
  · intro h
    split at h
    next hgt => exact hgt
    next hle =>
    -- the last capability still lies in the last word
    have hword : capability / 32 < capabilityWords := by
      unfold capLastCap at hle
      unfold capabilityWords
      omega
    rw [dif_pos hword] at h
    cases h
  · intro h
    rw [if_pos h]

/-- Membership of a capability is membership of its bit. -/
theorem contains_iff {s : CapabilityWords} :
    s.contains capability = true ↔
      ∃ word mask, capMask capability = some (word, mask)
        ∧ (word, capability % 32) ∈ bits s := by
  unfold CapabilityWords.contains
  split
  next hnone =>
    constructor
    · intro h
      cases h
    · rintro ⟨word, mask, hsome, -⟩
      rw [hnone] at hsome
      cases hsome
  next word mask hsome =>
  obtain ⟨-, -, rfl⟩ := capMask_eq_some.mp hsome
  rw [bne_iff_ne, Lib.and_twoPow_ne_zero]
  constructor
  · intro h
    exact ⟨word, _, hsome, h⟩
  · rintro ⟨word', mask', hsome', h⟩
    rw [hsome] at hsome'
    cases hsome'
    exact h

/-- A capability of a set is one of every larger set. -/
theorem contains_mono {s t : CapabilityWords} (h : bits s ⊆ bits t)
    (hs : s.contains capability = true) : t.contains capability = true := by
  obtain ⟨word, mask, hsome, hbit⟩ := contains_iff.mp hs
  exact contains_iff.mpr ⟨word, mask, hsome, h hbit⟩

/-! ## What validation accepts -/

/-- The state `validate` accepts, as a relation of bit sets. -/
structure Coherent (sets : CapabilitySets) : Prop where
  securebits : wordBits sets.securebits ⊆ wordBits (secureAllBits ||| secureAllLocks)
  permitted_valid : bits sets.permitted ⊆ bits capabilityValidMask
  inheritable_valid : bits sets.inheritable ⊆ bits capabilityValidMask
  bounding_valid : bits sets.bounding ⊆ bits capabilityValidMask
  effective : bits sets.effective ⊆ bits sets.permitted
  ambient : bits sets.ambient ⊆ bits sets.permitted ∩ bits sets.inheritable

theorem validateWord_eq_ok {sets : CapabilitySets} :
    sets.validateWord word = .ok () ↔
      (sets.effective word ||| sets.permitted word ||| sets.inheritable word
        ||| sets.bounding word ||| sets.ambient word) &&& ~~~capabilityValidMask word = 0#32
      ∧ sets.effective word &&& ~~~sets.permitted word = 0#32
      ∧ sets.ambient word &&& ~~~(sets.permitted word &&& sets.inheritable word) = 0#32 := by
  unfold CapabilitySets.validateWord
  constructor
  · intro h
    split at h
    · cases h
    next hval =>
    split at h
    · cases h
    next hsub =>
    rw [not_or, not_not, not_not] at hsub
    exact ⟨not_not.mp hval, hsub.1, hsub.2⟩
  · rintro ⟨hval, heff, hamb⟩
    rw [if_neg (not_not.mpr hval), if_neg (by rw [not_or, not_not, not_not]; exact ⟨heff, hamb⟩)]

theorem validate_eq_ok {sets : CapabilitySets} : sets.validate = .ok () ↔ Coherent sets := by
  unfold CapabilitySets.validate
  constructor
  · intro h
    split at h
    · cases h
    next hsecure =>
    rw [Lib.forM_eq_ok] at h
    have hword := fun word => validateWord_eq_ok.mp (h word (List.mem_finRange word))
    -- the five sets are masked together: each bit of one of them is a bit of the union
    have hval : ∀ word, wordBits (sets.effective word ||| sets.permitted word
        ||| sets.inheritable word ||| sets.bounding word ||| sets.ambient word)
          ⊆ wordBits (capabilityValidMask word) :=
      fun word => Lib.and_not_eq_zero.mp (hword word).1
    simp only [Lib.wordBits_or, Set.union_subset_iff] at hval
    exact {
      securebits := Lib.and_not_eq_zero.mp (not_not.mp hsecure)
      permitted_valid := fun b hb => (hval b.1).1.1.1.2 hb
      inheritable_valid := fun b hb => (hval b.1).1.1.2 hb
      bounding_valid := fun b hb => (hval b.1).1.2 hb
      effective := Lib.forall_and_not_eq_zero.mp fun word => (hword word).2.1
      ambient := by
        rw [← Lib.bits_and]
        exact Lib.forall_and_not_eq_zero.mp fun word => (hword word).2.2 }
  · intro h
    rw [if_neg (not_not.mpr (Lib.and_not_eq_zero.mpr h.securebits)), Lib.forM_eq_ok]
    intro word _
    refine validateWord_eq_ok.mpr ⟨?_, ?_, ?_⟩
    · refine Lib.and_not_eq_zero.mpr ?_
      simp only [Lib.wordBits_or, Set.union_subset_iff]
      have hrow : ∀ {s : CapabilityWords}, bits s ⊆ bits capabilityValidMask →
          wordBits (s word) ⊆ wordBits (capabilityValidMask word) :=
        fun hs n hn => hs (a := (word, n)) hn
      have heff := h.effective.trans h.permitted_valid
      have hamb := (h.ambient.trans Set.inter_subset_left).trans h.permitted_valid
      exact ⟨⟨⟨⟨hrow heff, hrow h.permitted_valid⟩, hrow h.inheritable_valid⟩,
        hrow h.bounding_valid⟩, hrow hamb⟩
    · exact Lib.forall_and_not_eq_zero.mpr h.effective word
    · have hamb := h.ambient
      rw [← Lib.bits_and] at hamb
      exact Lib.forall_and_not_eq_zero.mpr hamb word

/-- Construction succeeds exactly on coherent values. -/
theorem tryNew_of_coherent
    (h : Coherent ⟨effective, permitted, inheritable, bounding, ambient, securebits⟩) :
    CapabilitySets.tryNew effective permitted inheritable bounding ambient securebits
      = .ok ⟨effective, permitted, inheritable, bounding, ambient, securebits⟩ := by
  unfold CapabilitySets.tryNew
  simp only [validate_eq_ok.mpr h]
  rfl

/-! ## Locks -/

/-- The bit number of `KEEP_CAPS`. -/
def keepCapsBit : Nat := 4

theorem wordBits_secbitKeepCaps : wordBits secbitKeepCaps = {keepCapsBit} := by
  ext i
  unfold secbitKeepCaps keepCapsBit
  rw [← BitVec.twoPow_eq, Lib.mem_wordBits, BitVec.getLsbD_twoPow]
  simp [eq_comm]

theorem wordBits_secbitKeepCapsLocked : wordBits secbitKeepCapsLocked = {keepCapsBit + 1} := by
  ext i
  unfold secbitKeepCapsLocked keepCapsBit
  rw [← BitVec.twoPow_eq, Lib.mem_wordBits, BitVec.getLsbD_twoPow]
  simp [eq_comm]

/-- The lock of a securebit is its neighbour. -/
theorem succ_mem_secureAllLocks (hi : i ∈ wordBits secureAllBits) :
    i + 1 ∈ wordBits secureAllLocks := by
  have hlt : i < 31 := by
    by_contra hge
    have h31 : i = 31 := by
      have := BitVec.lt_of_getLsbD (Lib.mem_wordBits.mp hi)
      omega
    rw [h31] at hi
    exact absurd hi (by decide)
  have hwidth : i + 1 < 32 := Nat.succ_lt_succ hlt
  rw [Lib.mem_wordBits, secureAllLocks, BitVec.getLsbD_shiftLeft]
  simp [hwidth, Lib.mem_wordBits.mp hi]

theorem mem_changedLockedValues :
    i ∈ wordBits (changedLockedValues old new) ↔
      i ∈ wordBits secureAllBits ∧ i + 1 ∈ wordBits old
        ∧ ¬(i ∈ wordBits new ↔ i ∈ wordBits old) := by
  have hlock : i ∈ wordBits secureAllBits → secureAllLocks.getLsbD (1 + i) = true := by
    intro hi
    rw [Nat.add_comm]
    exact succ_mem_secureAllLocks hi
  unfold changedLockedValues
  simp only [Lib.mem_wordBits, BitVec.getLsbD_and, BitVec.getLsbD_ushiftRight,
    BitVec.getLsbD_xor, Bool.and_eq_true, Nat.add_comm i 1] at hlock ⊢
  constructor
  · rintro ⟨⟨⟨hold, -⟩, hne⟩, hi⟩
    refine ⟨hi, hold, fun hiff => ?_⟩
    rw [Bool.eq_iff_iff.mpr hiff, Bool.xor_self] at hne
    cases hne
  · rintro ⟨hi, hold, hne⟩
    refine ⟨⟨⟨hold, hlock hi⟩, ?_⟩, hi⟩
    cases hn : new.getLsbD i <;> cases ho : old.getLsbD i <;> simp [hn, ho] at hne ⊢

/-- No locked value changed, bit by bit. -/
theorem changedLockedValues_eq_zero :
    changedLockedValues old new = 0#32 ↔
      ∀ i ∈ wordBits secureAllBits, i + 1 ∈ wordBits old →
        (i ∈ wordBits new ↔ i ∈ wordBits old) := by
  rw [← Lib.wordBits_eq_empty, Set.eq_empty_iff_forall_notMem]
  constructor
  · intro h i hi hlock
    by_contra hne
    exact h i (mem_changedLockedValues.mpr ⟨hi, hlock, hne⟩)
  · intro h i hi
    obtain ⟨hall, hlock, hne⟩ := mem_changedLockedValues.mp hi
    exact hne (h i hall hlock)

/-- No lock cleared, bit by bit. -/
theorem clearedLocks_eq_zero :
    clearedLocks old new = 0#32 ↔ wordBits old ∩ wordBits secureAllLocks ⊆ wordBits new := by
  unfold clearedLocks
  rw [Lib.and_not_eq_zero, Lib.wordBits_and]

end LinuxAbi.Cred
