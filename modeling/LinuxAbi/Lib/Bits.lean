import Mathlib.Data.BitVec
import Mathlib.Data.Set.Basic

/-!
# Rows of machine words as sets of bits

A flag word, or a row `s : ι → BitVec w` of them, stands for the set of its one bits. Code
compares and combines such rows word by word, and writes `a ⊆ b` as `a & !b == 0`.

`wordBits` and `bits` are the sets; the lemmas push `&&&`, `|||` and `~~~` down to `∩`, `∪`
and `\`, so that a fact about words becomes a fact about sets of bits. `and_not_eq_zero`
reads the subset test back, for one word and for a row.
-/

namespace LinuxAbi.Lib

open BitVec
open Bool

variable {ι : Type*} {w : Nat}

/-- The one bits of a word. -/
def wordBits (x : BitVec w) : Set Nat :=
  {i | x.getLsbD i = true}

/-- The one bits of a row of words. -/
def bits (s : ι → BitVec w) : Set (ι × Nat) :=
  {b | b.2 ∈ wordBits (s b.1)}

variable {x : BitVec w} {i : Nat}

@[simp] theorem mem_wordBits :
    i ∈ wordBits x ↔ x.getLsbD i = true :=
  Iff.rfl

@[simp] theorem mem_bits {s : ι → BitVec w} {b : ι × Nat} :
    b ∈ bits s ↔ b.2 ∈ wordBits (s b.1) :=
  Iff.rfl

instance decidableMemWordBits (x : BitVec w) (i : Nat) : Decidable (i ∈ wordBits x) :=
  inferInstanceAs (Decidable (x.getLsbD i = true))

theorem wordBits_and (x y : BitVec w) : wordBits (x &&& y) = wordBits x ∩ wordBits y := by
  ext i
  simp

theorem wordBits_or (x y : BitVec w) : wordBits (x ||| y) = wordBits x ∪ wordBits y := by
  ext i
  simp

theorem wordBits_diff (x y : BitVec w) : wordBits (x &&& ~~~y) = wordBits x \ wordBits y := by
  ext i
  simp only [mem_wordBits, Set.mem_sdiff, getLsbD_and, getLsbD_not,
    and_eq_true, decide_eq_true_eq, not_eq_true']
  constructor
  · rintro ⟨hx, -, hy⟩
    exact ⟨hx, by rw [hy]; exact false_ne_true⟩
  · rintro ⟨hx, hy⟩
    -- a one bit lies below the width, where complement is negation
    exact ⟨hx, lt_of_getLsbD hx, eq_false_iff.mpr hy⟩

theorem wordBits_eq_empty : wordBits x = ∅ ↔ x = 0#w := by
  constructor
  · intro h
    refine eq_of_getLsbD_eq ?_
    intro i _
    have hnot : i ∉ wordBits x := by
      rw [h]
      exact Set.notMem_empty i
    rw [getLsbD_zero]
    exact eq_false_iff.mpr hnot
  · rintro rfl
    ext i
    simp

/-- `x & !y == 0` is the subset test of two words. -/
theorem and_not_eq_zero {y : BitVec w} : x &&& ~~~y = 0#w ↔ wordBits x ⊆ wordBits y := by
  rw [← wordBits_eq_empty, wordBits_diff, Set.sdiff_eq_empty]

/-- `x & y == y` is the subset test the other way round. -/
theorem and_eq_right {y : BitVec w} : x &&& y = y ↔ wordBits y ⊆ wordBits x := by
  constructor
  · intro h
    rw [← h, wordBits_and]
    exact Set.inter_subset_left
  · intro h
    refine eq_of_getLsbD_eq fun i _ => ?_
    have hi : i ∈ wordBits (x &&& y) ↔ i ∈ wordBits y := by
      rw [wordBits_and]
      exact ⟨fun hmem => hmem.2, fun hy => ⟨h hy, hy⟩⟩
    exact eq_iff_iff.mpr hi

theorem bits_and (s t : ι → BitVec w) : bits (fun i => s i &&& t i) = bits s ∩ bits t := by
  ext b
  simp

theorem bits_or (s t : ι → BitVec w) : bits (fun i => s i ||| t i) = bits s ∪ bits t := by
  ext b
  simp

@[simp] theorem bits_zero : bits (fun _ : ι => 0#w) = ∅ := by
  ext b
  simp

/-- The subset test of two rows, word by word. -/
theorem forall_and_not_eq_zero {s t : ι → BitVec w} :
    (∀ i, s i &&& ~~~t i = 0#w) ↔ bits s ⊆ bits t := by
  constructor
  · intro h b hb
    exact and_not_eq_zero.mp (h b.1) hb
  · intro h i
    refine and_not_eq_zero.mpr ?_
    intro n hn
    exact h (a := (i, n)) hn

section Update
variable [DecidableEq ι]

/-- Clearing a mask in one word only removes bits. -/
theorem bits_update_diff_subset (s : ι → BitVec w) (i : ι) (mask : BitVec w) :
    bits (Function.update s i (s i &&& ~~~mask)) ⊆ bits s := by
  rintro ⟨j, n⟩ hn
  rw [mem_bits, Function.update_apply] at hn
  split at hn
  · next heq =>
    subst heq
    rw [wordBits_diff] at hn
    exact hn.1
  · exact hn

/-- Setting a mask in one word adds nothing to a row that already has the mask there. -/
theorem bits_update_or_subset {s t : ι → BitVec w} {i : ι} {mask : BitVec w} (hs : bits s ⊆ bits t)
    (hmask : wordBits mask ⊆ wordBits (t i)) :
    bits (Function.update s i (s i ||| mask)) ⊆ bits t := by
  rintro ⟨j, n⟩ hn
  rw [mem_bits, Function.update_apply] at hn
  split at hn
  · next heq =>
    subst heq
    rw [wordBits_or] at hn
    rcases hn with hold | hnew
    · exact hs (a := (j, n)) hold
    · exact hmask hnew
  · exact hs hn

end Update

/-- A one-bit mask is either disjoint from a word or inside it. -/
theorem and_twoPow_ne_zero : x &&& (1#w <<< i) ≠ 0#w ↔ i ∈ wordBits x := by
  rw [← twoPow_eq, Ne, ← wordBits_eq_empty, ← Ne, ← Set.nonempty_iff_ne_empty]
  constructor
  · rintro ⟨n, hn⟩
    rw [wordBits_and] at hn
    obtain ⟨hx, hmask⟩ := hn
    rw [mem_wordBits, getLsbD_twoPow] at hmask
    simp only [and_eq_true, decide_eq_true_eq] at hmask
    exact hmask.2 ▸ hx
  · intro hx
    refine ⟨i, ?_⟩
    rw [wordBits_and]
    refine ⟨hx, ?_⟩
    simp [lt_of_getLsbD hx]

theorem wordBits_twoPow_subset (h : i ∈ wordBits x) : wordBits (1#w <<< i) ⊆ wordBits x := by
  intro n hn
  rw [← twoPow_eq, mem_wordBits, getLsbD_twoPow] at hn
  simp only [and_eq_true, decide_eq_true_eq] at hn
  exact hn.2 ▸ h

/-- Clearing the low bits of a word rounds it down. -/
theorem toNat_and_not_mask (x : BitVec w) {k : Nat} (hk : k ≤ w) :
    (x &&& ~~~BitVec.ofNat w (2 ^ k - 1)).toNat = x.toNat / 2 ^ k * 2 ^ k := by
  have hlt : 2 ^ k - 1 < 2 ^ w :=
    Nat.lt_of_lt_of_le (Nat.sub_one_lt (Nat.two_pow_pos k).ne') (Nat.pow_le_pow_right (by omega) hk)
  have hlow : (x &&& BitVec.ofNat w (2 ^ k - 1)).toNat = x.toNat % 2 ^ k := by
    rw [BitVec.toNat_and, BitVec.toNat_ofNat, Nat.mod_eq_of_lt hlt, Nat.and_two_pow_sub_one_eq_mod]
  generalize BitVec.ofNat w (2 ^ k - 1) = mask at hlow ⊢
  -- the bits that are cleared and the bits that stay are apart, and together the word
  have hapart : (x &&& ~~~mask) &&& (x &&& mask) = 0#w := by
    ext i
    cases hm : mask[i] <;> simp [hm]
  have hjoin : (x &&& ~~~mask) + (x &&& mask) = x := by
    rw [add_eq_or_of_and_eq_zero _ _ hapart]
    ext i
    cases hm : mask[i] <;> simp [hm]
  have hsum := toNat_add_of_and_eq_zero hapart
  rw [hjoin, hlow] at hsum
  have hdiv := Nat.div_add_mod' x.toNat (2 ^ k)
  omega

end LinuxAbi.Lib
