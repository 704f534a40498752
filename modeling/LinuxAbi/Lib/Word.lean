import Mathlib.Data.BitVec
import Mathlib.Data.Nat.ModEq

/-!
# Machine words: nonzero identities and wrapping ring counters

Facts about fixed-width integers that several of the tables below use.

* A *generation* is a nonzero 64-bit number that is only ever incremented with
  an overflow check; `NonZeroU64.checkedSucc` is that increment, and it either
  strictly grows or reports exhaustion.
* A page size is a power of two, and rounding is done with its mask of low bits;
  `and_not_lowMask` is rounding down.
* A shared ring keeps two free-running counters `head` and `tail` of some fixed
  width and never stores their difference. `span head tail` is that difference
  modulo `2 ^ w`; `span_succ` and `span_advance` say how it follows one push at
  the tail and one observed head, and `slot_ne_of_lt_span` says that, as long
  as the ring holds fewer than `size` elements, the slot under the tail is none
  of the occupied ones, wherever the counters have wrapped.
-/

namespace LinuxAbi.Lib

open BitVec
open Nat

/-! ## Nonzero 64-bit numbers -/

/-- A 64-bit unsigned number other than zero. -/
structure NonZeroU64 where
  val : Nat
  pos : 0 < val
  lt : val < 2 ^ 64

namespace NonZeroU64

/-- `NonZeroU64::new(1)`. -/
def one : NonZeroU64 := ⟨1, by decide, by decide⟩

/-- `n.get().checked_add(1).and_then(NonZeroU64::new)`. -/
def checkedSucc (n : NonZeroU64) : Option NonZeroU64 :=
  if h : n.val + 1 < 2 ^ 64 then some ⟨n.val + 1, succ_pos _, h⟩ else none

variable {a b : NonZeroU64}

theorem ext_val (h : a.val = b.val) : a = b := by
  cases a
  cases b
  cases h
  rfl

instance : DecidableEq NonZeroU64 := fun _ _ => decidable_of_iff _ ⟨ext_val, congrArg val⟩

theorem val_checkedSucc (h : a.checkedSucc = some b) : b.val = a.val + 1 := by
  unfold checkedSucc at h
  split at h
  · injection h with h
    rw [← h]
  · exact absurd h (by simp)

/-- Below another generation the increment cannot be exhausted. -/
theorem checkedSucc_of_lt (h : a.val < b.val) : ∃ c, a.checkedSucc = some c ∧ c.val ≤ b.val := by
  have hlt : a.val + 1 < 2 ^ 64 := lt_of_le_of_lt h b.lt
  exact ⟨⟨a.val + 1, succ_pos _, hlt⟩, dif_pos hlt, h⟩

/-- How far a generation counter has come; an exhausted one is past every
value. -/
def rank (g : Option NonZeroU64) : Nat := g.elim (2 ^ 64) val

@[simp] theorem rank_some (n : NonZeroU64) : rank (some n) = n.val := rfl

theorem rank_le (g : Option NonZeroU64) : rank g ≤ 2 ^ 64 := by
  cases g with
  | none => exact le_refl _
  | some n => exact le_of_lt n.lt

theorem lt_rank_checkedSucc (n : NonZeroU64) : n.val < rank n.checkedSucc := by
  cases h : n.checkedSucc with
  | none => exact n.lt
  | some m =>
    rw [rank_some, val_checkedSucc h]
    omega

end NonZeroU64

/-! ## Alignment masks -/

/-- `v & !mask` for the mask of the `k` low bits of a `w`-bit word. -/
theorem and_not_lowMask {w k v : Nat} (hv : v < 2 ^ w) (hk : k ≤ w) :
    v &&& (2 ^ w - 1 - (2 ^ k - 1)) = v - v % 2 ^ k := by
  have hmask : 2 ^ k - 1 < 2 ^ w := by
    have hle := Nat.pow_le_pow_right (show 0 < 2 by decide) hk
    omega
  have hshift : v - v % 2 ^ k = v >>> k <<< k := by
    rw [Nat.shiftLeft_eq, Nat.shiftRight_eq_div_pow]
    have hdiv := div_add_mod v (2 ^ k)
    rw [mul_comm] at hdiv
    omega
  rw [hshift]
  apply Nat.eq_of_testBit_eq
  intro i
  rw [Nat.testBit_and, Nat.sub_sub, Nat.add_comm 1, Nat.testBit_two_pow_sub_succ hmask,
    Nat.testBit_two_pow_sub_one, Nat.testBit_shiftLeft, Nat.testBit_shiftRight]
  by_cases hki : k ≤ i
  · have hadd : k + (i - k) = i := by omega
    by_cases hiw : i < w
    · simp [hki, hiw]
    -- bits past the width are clear on both sides
    have hbit : v.testBit i = false := Nat.testBit_lt_two_pow
      (Nat.lt_of_lt_of_le hv (Nat.pow_le_pow_right (by decide) (Nat.not_lt.mp hiw)))
    simp [hki, hbit]
  · have hik : i < k := Nat.not_le.mp hki
    simp [hik]

/-! ## Wrapping counters -/

section Counters

variable {w : Nat}

/-- The number of ring elements between two free-running counters. -/
def span (head tail : BitVec w) : Nat := (tail - head).toNat

@[simp] theorem span_self (head : BitVec w) : span head head = 0 := by
  simp [span]

variable {head tail : BitVec w}

/-- Pushing one element moves the tail by one, unless the counters have gone
all the way round. -/
theorem span_succ (h : span head tail + 1 < 2 ^ w) : span head (tail + 1) = span head tail + 1 := by
  have hsub : tail + 1 - head = tail - head + 1 := by
    rw [sub_eq_add_neg, sub_eq_add_neg, add_assoc,
      add_comm 1, ← add_assoc]
  have hw : 0 < w := by
    rcases Nat.eq_zero_or_pos w with h0 | h0
    · subst h0
      simp at h
    · exact h0
  have hone : (1 : BitVec w).toNat = 1 := by
    simp [Nat.mod_eq_of_lt (Nat.one_lt_two_pow (Nat.pos_iff_ne_zero.mp hw))]
  unfold span at h ⊢
  rw [hsub, toNat_add, hone, Nat.mod_eq_of_lt h]

/-- Moving the head inside the occupied stretch shortens it by the distance
moved. -/
theorem span_advance {seen : BitVec w} (h : span head seen ≤ span head tail) :
    span seen tail = span head tail - span head seen := by
  unfold span at h ⊢
  rw [← sub_sub_sub_cancel_right tail seen head]
  exact toNat_sub_of_le (le_def.mpr h)

/-- The counter `span head seen` places after `head` is `seen`. -/
theorem add_span (head seen : BitVec w) (i : Nat) :
    head + BitVec.ofNat w (span head seen + i) = seen + BitVec.ofNat w i := by
  unfold span
  rw [BitVec.ofNat_add, BitVec.ofNat_toNat, BitVec.setWidth_eq, ← BitVec.add_assoc,
    BitVec.add_comm head, BitVec.sub_add_cancel]

/-- The counters at distance at most `n` are the ones reached by at most `n`
increments. -/
theorem span_le_iff {seen : BitVec w} {n : Nat} :
    span head seen ≤ n ↔ ∃ k ≤ n, seen = head + BitVec.ofNat w k := by
  constructor
  · intro h
    have hback := add_span head seen 0
    rw [add_zero, BitVec.add_zero] at hback
    exact ⟨span head seen, h, hback.symm⟩
  · rintro ⟨k, hk, rfl⟩
    have hcancel : head + BitVec.ofNat w k - head = BitVec.ofNat w k := by
      rw [BitVec.add_comm, BitVec.add_sub_cancel]
    unfold span
    rw [hcancel, BitVec.toNat_ofNat]
    exact le_trans (mod_le _ _) hk

/-- The element `i` places after the head sits at `head + i`, modulo the counter
range and then modulo the ring size. With `size` dividing the counter range and
fewer than `size` elements in the ring, the slot under the tail is free. -/
theorem slot_ne_of_lt_span {size i : Nat} (hdvd : size ∣ 2 ^ w) (hroom : span head tail < size)
    (hi : i < span head tail) : (head + BitVec.ofNat w i).toNat % size ≠ tail.toNat % size := by
  intro heq
  have hmod : ∀ n : Nat, n % 2 ^ w % size = n % size := fun n => mod_mod_of_dvd n hdvd
  have htail : tail.toNat % size = (head.toNat + span head tail) % size := by
    have hback : tail = head + (tail - head) := by
      rw [BitVec.add_comm, BitVec.sub_add_cancel]
    conv_lhs => rw [hback, BitVec.toNat_add, hmod]
    rfl
  have hslot : (head + BitVec.ofNat w i).toNat % size = (head.toNat + i) % size := by
    have hilt : i < 2 ^ w := lt_trans hi (tail - head).isLt
    rw [BitVec.toNat_add, BitVec.toNat_ofNat, mod_eq_of_lt hilt, hmod]
  rw [hslot, htail] at heq
  have hcong : i % size = span head tail % size := ModEq.add_left_cancel' head.toNat heq
  rw [mod_eq_of_lt (lt_trans hi hroom), mod_eq_of_lt hroom] at hcong
  omega

end Counters

end LinuxAbi.Lib
