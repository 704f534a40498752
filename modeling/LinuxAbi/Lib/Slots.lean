import Mathlib.Data.List.Perm.Basic
import Mathlib.Data.List.ReduceOption

/-!
# Fixed tables of optional slots

A table without allocation is an array of optional rows. What it holds is the list of its
rows, `reduceOption`, up to order: `live_set_free`, `live_take` and `live_replace` say what
filling, clearing and overwriting a slot do to that list. `locate` is the search for a row
with its index, the loop that every operation on such a table begins with.
-/

namespace LinuxAbi.Lib

open Option
open List

variable {α : Type*}

/-- The first row that meets a condition, with its slot: `iter().position(..)` and the row
read back from the slot found. -/
def locate (p : α → Bool) : List (Option α) → Option (Nat × α)
  | [] => none
  | none :: slots => (locate p slots).map fun found => (found.1 + 1, found.2)
  | some a :: slots =>
    if p a then some (0, a) else (locate p slots).map fun found => (found.1 + 1, found.2)

/-- The first empty slot: `iter().position(Option::is_none)`. -/
def firstFree (slots : List (Option α)) : Option Nat := slots.findIdx? isNone

theorem locate_eq_some {p : α → Bool} : ∀ {slots : List (Option α)} {i : Nat} {a : α},
    locate p slots = some (i, a) → slots[i]? = some (some a) ∧ p a = true
  | none :: slots, i, a, h => by
    obtain ⟨⟨j, b⟩, hfound, heq⟩ := map_eq_some_iff.mp h
    cases heq
    have hrest := locate_eq_some hfound
    exact hrest
  | some b :: slots, i, a, h => by
    unfold locate at h
    split at h
    · next hp =>
      cases h
      exact ⟨rfl, hp⟩
    · obtain ⟨⟨j, c⟩, hfound, heq⟩ := map_eq_some_iff.mp h
      cases heq
      have hrest := locate_eq_some hfound
      exact hrest

theorem locate_eq_none {p : α → Bool} : ∀ {slots : List (Option α)},
    locate p slots = none → ∀ a ∈ slots.reduceOption, p a = false
  | [], _, a, ha => by cases ha
  | none :: slots, h, a, ha => by
    rw [reduceOption_cons_of_none] at ha
    exact locate_eq_none (map_eq_none_iff.mp h) a ha
  | some b :: slots, h, a, ha => by
    unfold locate at h
    split at h
    · cases h
    next hp =>
    rw [reduceOption_cons_of_some] at ha
    rcases mem_cons.mp ha with rfl | hmem
    · exact Bool.eq_false_iff.mpr hp
    · exact locate_eq_none (map_eq_none_iff.mp h) a hmem

variable {slots : List (Option α)} {i : Nat} {a : α}

theorem firstFree_eq_some (h : firstFree slots = some i) : slots[i]? = some none := by
  obtain ⟨hi, hnone, -⟩ := findIdx?_eq_some_iff_getElem.mp h
  rw [getElem?_eq_getElem hi]
  exact congrArg some (isNone_iff_eq_none.mp hnone)

theorem firstFree_eq_none (h : firstFree slots = none) :
    slots.reduceOption.length = slots.length := by
  rw [reduceOption_length_eq_iff]
  intro slot hslot
  have hsome := findIdx?_eq_none_iff.mp h slot hslot
  cases slot with
  | none => cases hsome
  | some a => rfl

/-! ## What the table holds -/

theorem mem_live_of_getElem? (h : slots[i]? = some (some a)) : a ∈ slots.reduceOption :=
  reduceOption_mem_iff.mpr (mem_of_getElem? h)

/-- Any write to a slot: the row written, and the rest. -/
theorem live_set : ∀ {slots : List (Option α)} {i : Nat}, i < slots.length → ∀ slot : Option α,
    (slots.set i slot).reduceOption.Perm (slot.toList ++ (slots.set i none).reduceOption)
  | _ :: slots, 0, _, none => Perm.refl _
  | _ :: slots, 0, _, some a => by
    show (some a :: slots).reduceOption.Perm (a :: (none :: slots).reduceOption)
    rw [reduceOption_cons_of_some, reduceOption_cons_of_none]
  | none :: slots, i + 1, h, slot => by
    show (none :: slots.set i slot).reduceOption.Perm (_ ++ (none :: slots.set i none).reduceOption)
    rw [reduceOption_cons_of_none, reduceOption_cons_of_none]
    exact live_set (Nat.lt_of_succ_lt_succ h) slot
  | some a :: slots, i + 1, h, slot => by
    show (some a :: slots.set i slot).reduceOption.Perm
      (_ ++ (some a :: slots.set i none).reduceOption)
    rw [reduceOption_cons_of_some, reduceOption_cons_of_some]
    exact ((live_set (Nat.lt_of_succ_lt_succ h) slot).cons a).trans perm_middle.symm

/-- Taking a row out. -/
theorem live_take (h : slots[i]? = some (some a)) :
    slots.reduceOption.Perm (a :: (slots.set i none).reduceOption) := by
  obtain ⟨hi, hget⟩ := List.getElem?_eq_some_iff.mp h
  have hset := live_set hi (some a)
  rw [← hget, List.set_getElem_self hi] at hset
  rw [hget] at hset
  exact hset

/-- Filling an empty slot. -/
theorem live_set_free (h : slots[i]? = some none) (a : α) :
    (slots.set i (some a)).reduceOption.Perm (a :: slots.reduceOption) := by
  obtain ⟨hi, hget⟩ := List.getElem?_eq_some_iff.mp h
  have hset := live_set hi (some a)
  have hsame : slots.set i none = slots := by
    rw [← hget]
    exact set_getElem_self hi
  rw [hsame] at hset
  exact hset

/-- Overwriting a row. -/
theorem live_replace (h : slots[i]? = some (some a))
    (b : α) : (slots.set i (some b)).reduceOption.Perm (b :: (slots.set i none).reduceOption) :=
  live_set (List.getElem?_eq_some_iff.mp h).1 (some b)

/-! ## Clearing rows by a condition -/

theorem live_filter (p : α → Bool) : ∀ slots : List (Option α),
    (slots.map (Option.filter p)).reduceOption = slots.reduceOption.filter p
  | [] => rfl
  | none :: slots => by
    show (none :: slots.map (Option.filter p)).reduceOption = _
    rw [reduceOption_cons_of_none, reduceOption_cons_of_none]
    exact live_filter p slots
  | some a :: slots => by
    rw [map_cons, reduceOption_cons_of_some]
    cases hp : p a with
    | true =>
      rw [filter_some, if_pos hp, reduceOption_cons_of_some, filter_cons, if_pos hp,
        live_filter p slots]
    | false =>
      have hneg : ¬ p a = true := by simp [hp]
      rw [filter_some, if_neg hneg, reduceOption_cons_of_none, filter_cons,
        if_neg hneg, live_filter p slots]

/-- Nothing goes when no row meets the condition. -/
theorem filter_eq_self {gone : α → Bool} (h : ∀ a ∈ slots.reduceOption, gone a = false) :
    slots.map (Option.filter fun a => !gone a) = slots := by
  conv_rhs => rw [← map_id slots]
  apply map_congr_left
  intro slot hslot
  cases slot with
  | none => rfl
  | some a =>
    have hstay := h a (reduceOption_mem_iff.mpr hslot)
    simp [hstay]

/-- Counting over the slots is counting over the rows. -/
theorem countP_slots (p : α → Bool) : ∀ slots : List (Option α),
    (range slots.length).countP (fun i => slots[i]?.join.any p) = slots.reduceOption.countP p
  | [] => rfl
  | slot :: slots => by
    have hrest := countP_slots p slots
    have hshift : (fun i => ((slot :: slots)[i]?).join.any p) ∘ Nat.succ =
        fun i => slots[i]?.join.any p := rfl
    rw [length_cons, range_succ_eq_map, countP_cons, countP_map, hshift, hrest]
    cases slot with
    | none =>
      rw [reduceOption_cons_of_none]
      rfl
    | some a =>
      rw [reduceOption_cons_of_some, countP_cons]
      rfl

/-- A key that no two rows share tells the slots apart. -/
theorem slot_inj {β : Type*} {key : α → β} {j : Nat} {b : α}
    (h : (slots.reduceOption.map key).Nodup) (hi : slots[i]? = some (some a))
    (hj : slots[j]? = some (some b)) (hkey : key a = key b) : i = j := by
  by_contra hne
  have hrest : (slots.set i none)[j]? = some (some b) := by
    rw [getElem?_set_ne hne]
    exact hj
  have hnodup := ((live_take hi).map key).nodup_iff.mp h
  rw [map_cons, nodup_cons, hkey] at hnodup
  exact hnodup.1 (mem_map_of_mem (mem_live_of_getElem? hrest))

/-- Clearing the one slot whose row meets the condition. -/
theorem set_none_eq_filter {gone : α → Bool} (hi : slots[i]? = some (some a))
    (hgone : gone a = true)
    (honly : ∀ (j : Nat) b, slots[j]? = some (some b) → gone b = true → j = i) :
    slots.set i none = slots.map (Option.filter fun a => !gone a) := by
  apply ext_getElem?
  intro j
  rw [List.getElem?_map]
  by_cases heq : j = i
  · subst heq
    rw [List.getElem?_set_self (List.getElem?_eq_some_iff.mp hi).1, hi]
    simp [filter_some, hgone]
  · rw [List.getElem?_set_ne (Ne.symm heq)]
    cases hj : slots[j]? with
    | none => rfl
    | some slot =>
      cases slot with
      | none => rfl
      | some b =>
        have hstay : gone b = false := Bool.eq_false_iff.mpr fun h => heq (honly j b hj h)
        simp [filter_some, hstay]

end LinuxAbi.Lib
