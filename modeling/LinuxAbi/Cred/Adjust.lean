import LinuxAbi.Cred.Credential

/-!
# In-place capability operations

The operations of `CapabilitySets` a consumer applies to a copy of the current sets before it
prepares a replacement: the ambient and bounding changes and the securebits. Each is refused
by policy only (`adjust_cases`), and none touches the permitted or inheritable set.
-/

namespace LinuxAbi.Cred

open Set
open Lib (bits wordBits)

/-- The operations of `CapabilitySets` that `prctl` uses. -/
inductive CapabilityAdjustment where
  | raiseAmbient (capability : Nat)
  | lowerAmbient (capability : Nat)
  | clearAmbient
  | reconcileAmbient
  | dropBounding (capability : Nat)
  | setSecurebits (requested : BitVec 32)
  | setKeepCaps (enabled : Bool)

def CapabilitySets.adjust (caps : CapabilitySets) :
    CapabilityAdjustment → Except CredError CapabilitySets
  | .raiseAmbient capability => caps.tryRaiseAmbient capability
  | .lowerAmbient capability => caps.tryLowerAmbient capability
  | .clearAmbient => .ok caps.clearAmbient
  | .reconcileAmbient => .ok caps.reconcileAmbient
  | .dropBounding capability => caps.tryDropBounding capability
  | .setSecurebits requested => caps.trySetSecurebits requested
  | .setKeepCaps enabled => caps.trySetKeepCaps enabled

/-- The policy of an adjustment. -/
def CapabilityAdjustment.Admits (caps : CapabilitySets) : CapabilityAdjustment → Prop
  | .raiseAmbient capability =>
    caps.securebits &&& secbitNoCapAmbientRaise = 0#32
      ∧ caps.permitted.contains capability = true ∧ caps.inheritable.contains capability = true
  | .lowerAmbient capability | .dropBounding capability => capability ≤ capLastCap
  | .clearAmbient | .reconcileAmbient => True
  | .setSecurebits requested =>
    wordBits requested ⊆ wordBits (secureAllBits ||| secureAllLocks)
      ∧ LocksKept .normal caps.securebits requested
  | .setKeepCaps _ => keepCapsBit + 1 ∉ wordBits caps.securebits

/-- What an adjustment leaves of the sets: permitted and inheritable as they were, no new
bounding capability, the locks respected. -/
structure Adjusts (old new : CapabilitySets) : Prop where
  coherent : Coherent new
  permitted : new.permitted = old.permitted
  inheritable : new.inheritable = old.inheritable
  bounding : bits new.bounding ⊆ bits old.bounding
  locks : LocksKept .normal old.securebits new.securebits

theorem LocksKept.refl (securebits : BitVec 32) : LocksKept .normal securebits securebits :=
  ⟨changedLockedValues_eq_zero.mpr fun _ _ _ => Iff.rfl,
    clearedLocks_eq_zero.mpr inter_subset_left⟩

variable {caps : CapabilitySets}

/-- Replacing the ambient set by a smaller one. -/
theorem Adjusts.ambient (h : Coherent caps) {ambient : CapabilityWords}
    (hambient : bits ambient ⊆ bits caps.permitted ∩ bits caps.inheritable) :
    Adjusts caps { caps with ambient := ambient } :=
  ⟨⟨h.securebits, h.permitted_valid, h.inheritable_valid, h.bounding_valid, h.effective, hambient⟩,
    rfl, rfl, subset_rfl, .refl caps.securebits⟩

/-- Replacing the securebits by a supported word that respects the locks. -/
theorem Adjusts.securebits (h : Coherent caps)
    (hsupported : wordBits requested ⊆ wordBits (secureAllBits ||| secureAllLocks))
    (hlocks : LocksKept .normal caps.securebits requested) :
    Adjusts caps { caps with securebits := requested } :=
  ⟨⟨hsupported, h.permitted_valid, h.inheritable_valid, h.bounding_valid, h.effective, h.ambient⟩,
    rfl, rfl, subset_rfl, hlocks⟩

theorem tryRaiseAmbient_cases (h : Coherent caps) (capability : Nat) :
    (∃ new, caps.tryRaiseAmbient capability = .ok new ∧ Adjusts caps new
        ∧ CapabilityAdjustment.Admits caps (.raiseAmbient capability))
      ∨ (∃ e, caps.tryRaiseAmbient capability = .error e)
        ∧ ¬CapabilityAdjustment.Admits caps (.raiseAmbient capability) := by
  unfold CapabilitySets.tryRaiseAmbient
  split
  next hnone =>
    refine .inr ⟨⟨_, rfl⟩, fun hadm => ?_⟩
    obtain ⟨word, mask, hsome, -⟩ := contains_iff.mp hadm.2.1
    rw [hnone] at hsome
    cases hsome
  next word mask hmask =>
  have hcont : ∀ s : CapabilityWords, s.contains capability = true ↔ s word &&& mask ≠ 0#32 := by
    intro s
    simp only [CapabilityWords.contains, hmask, bne_iff_ne]
  split
  next href =>
    refine .inr ⟨⟨_, rfl⟩, ?_⟩
    rintro ⟨hraise, hperm, hinh⟩
    rw [hcont] at hperm hinh
    rcases href with hno | hno | hno
    · exact hno hraise
    · exact hperm hno
    · exact hinh hno
  next hallowed =>
  rw [not_or, not_or, not_not, ← Ne, ← Ne] at hallowed
  obtain ⟨hraise, hperm, hinh⟩ := hallowed
  refine .inl ⟨_, rfl, .ambient h ?_, hraise, (hcont _).mpr hperm, (hcont _).mpr hinh⟩
  -- the one bit added is permitted and inheritable
  obtain ⟨-, -, rfl⟩ := capMask_eq_some.mp hmask
  have hp := Lib.wordBits_twoPow_subset (Lib.and_twoPow_ne_zero.mp hperm)
  have hi := Lib.wordBits_twoPow_subset (Lib.and_twoPow_ne_zero.mp hinh)
  exact subset_inter
    (Lib.bits_update_or_subset (h.ambient.trans inter_subset_left) hp)
    (Lib.bits_update_or_subset (h.ambient.trans inter_subset_right) hi)

/-- Turning `KEEP_CAPS` on or off respects the locks while its own lock is open. -/
theorem locksKept_keepCaps (hopen : keepCapsBit + 1 ∉ wordBits old)
    (hsame : ∀ i, i ≠ keepCapsBit → (i ∈ wordBits new ↔ i ∈ wordBits old)) :
    LocksKept .normal old new := by
  refine ⟨changedLockedValues_eq_zero.mpr ?_, clearedLocks_eq_zero.mpr ?_⟩
  · intro i _ hlocked
    refine hsame i ?_
    rintro rfl
    exact hopen hlocked
  · rintro i ⟨hold, hlock⟩
    refine (hsame i ?_).mpr hold
    rintro rfl
    exact absurd hlock (by decide)

theorem trySetKeepCaps_cases (h : Coherent caps) (enabled : Bool) :
    (∃ new, caps.trySetKeepCaps enabled = .ok new ∧ Adjusts caps new
        ∧ CapabilityAdjustment.Admits caps (.setKeepCaps enabled))
      ∨ (∃ e, caps.trySetKeepCaps enabled = .error e)
        ∧ ¬CapabilityAdjustment.Admits caps (.setKeepCaps enabled) := by
  have hkeep : keepCapsBit ∈ wordBits (secureAllBits ||| secureAllLocks) := by decide
  unfold CapabilitySets.trySetKeepCaps
  split
  next hlock => exact .inr ⟨⟨_, rfl⟩, fun hopen => hopen (Lib.and_twoPow_ne_zero.mp hlock)⟩
  next hopen =>
  have hopen' : keepCapsBit + 1 ∉ wordBits caps.securebits := mt Lib.and_twoPow_ne_zero.mpr hopen
  split
  · refine .inl ⟨_, rfl, .securebits h ?_ (locksKept_keepCaps hopen' ?_), hopen'⟩
    · rw [Lib.wordBits_or caps.securebits, wordBits_secbitKeepCaps]
      exact union_subset h.securebits (singleton_subset_iff.mpr hkeep)
    · intro i hi
      rw [Lib.wordBits_or, wordBits_secbitKeepCaps]
      exact ⟨fun hmem => hmem.resolve_right hi, .inl⟩
  · refine .inl ⟨_, rfl, .securebits h ?_ (locksKept_keepCaps hopen' ?_), hopen'⟩
    · rw [Lib.wordBits_diff caps.securebits]
      exact sdiff_subset.trans h.securebits
    · intro i hi
      rw [Lib.wordBits_diff, wordBits_secbitKeepCaps]
      exact ⟨fun hmem => hmem.1, fun hmem => ⟨hmem, hi⟩⟩

theorem trySetSecurebits_cases (h : Coherent caps) (requested : BitVec 32) :
    (∃ new, caps.trySetSecurebits requested = .ok new ∧ Adjusts caps new
        ∧ CapabilityAdjustment.Admits caps (.setSecurebits requested))
      ∨ (∃ e, caps.trySetSecurebits requested = .error e)
        ∧ ¬CapabilityAdjustment.Admits caps (.setSecurebits requested) := by
  unfold CapabilitySets.trySetSecurebits
  split
  next hbad => exact .inr ⟨⟨_, rfl⟩, fun hadm => hbad (Lib.and_not_eq_zero.mpr hadm.1)⟩
  next hsupported =>
  rw [not_not, Lib.and_not_eq_zero] at hsupported
  split
  next hbad =>
    refine .inr ⟨⟨_, rfl⟩, fun hadm => ?_⟩
    rcases hbad with hbad | hbad
    · exact hbad hadm.2.1
    · exact hbad hadm.2.2
  next hlocks =>
  rw [not_or, not_not, not_not] at hlocks
  exact .inl ⟨_, rfl, .securebits h hsupported hlocks, hsupported, hlocks⟩

/-- Clearing one capability of a set, wherever `cap_mask` finds it. -/
theorem clearCapability_cases {capability : Nat}
    {clear : Fin capabilityWords → BitVec 32 → CapabilitySets}
    (hclear : ∀ word mask, Adjusts caps (clear word mask)) :
    (∃ new, (match capMask capability with
          | none => Except.error CredError.invalidInput
          | some (word, mask) => .ok (clear word mask)) = .ok new
        ∧ Adjusts caps new ∧ capability ≤ capLastCap)
      ∨ (∃ e, (match capMask capability with
          | none => Except.error CredError.invalidInput
          | some (word, mask) => .ok (clear word mask)) = .error e)
        ∧ ¬capability ≤ capLastCap := by
  split
  next hnone =>
    exact .inr ⟨⟨_, rfl⟩, Nat.not_le.mpr (capMask_eq_none.mp hnone)⟩
  next word mask hmask =>
    exact .inl ⟨_, rfl, hclear word mask, (capMask_eq_some.mp hmask).1⟩

/-- Every adjustment is refused by policy only. -/
theorem adjust_cases (h : Coherent caps) (a : CapabilityAdjustment) :
    (∃ new, caps.adjust a = .ok new ∧ Adjusts caps new ∧ a.Admits caps)
      ∨ (∃ e, caps.adjust a = .error e) ∧ ¬a.Admits caps := by
  cases a with
  | raiseAmbient capability => exact tryRaiseAmbient_cases h capability
  | lowerAmbient capability =>
    refine clearCapability_cases fun word mask => .ambient h ?_
    exact (Lib.bits_update_diff_subset caps.ambient word mask).trans h.ambient
  | clearAmbient =>
    refine .inl ⟨_, rfl, .ambient h ?_, trivial⟩
    rw [bits_noCapabilities]
    exact empty_subset _
  | reconcileAmbient =>
    refine .inl ⟨_, rfl, .ambient h ?_, trivial⟩
    rw [Lib.bits_and, Lib.bits_and]
    exact inter_subset_right
  | dropBounding capability =>
    refine clearCapability_cases fun word mask => ?_
    have hsub := Lib.bits_update_diff_subset caps.bounding word mask
    exact ⟨⟨h.securebits, h.permitted_valid, h.inheritable_valid, hsub.trans h.bounding_valid,
      h.effective, h.ambient⟩, rfl, rfl, hsub, .refl caps.securebits⟩
  | setSecurebits requested => exact trySetSecurebits_cases h requested
  | setKeepCaps enabled => exact trySetKeepCaps_cases h enabled

end LinuxAbi.Cred
