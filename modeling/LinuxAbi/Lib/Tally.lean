import Mathlib.Algebra.BigOperators.Fin
import Mathlib.Algebra.BigOperators.Group.List.Basic
import Mathlib.Data.Multiset.Basic

/-!
# Tallies over tables

What a table holds in total, for tables that are lists of rows (a row is found by
its index and rows are only ever overwritten or appended) and for tables that are
functions on a finite index type. Overwriting one row exchanges what the old row
held for what the new row holds; the laws are stated as equations between sums,
so that they can be used in a monoid without subtraction.
-/

namespace LinuxAbi.Lib

open List

variable {α β M : Type*}

/-! ## Lists of rows -/

/-- The total of `f` over the rows. -/
def tally [AddCommMonoid M] (f : α → M) (rows : List α) : M := (rows.map f).sum

theorem lt_of_getElem? {rows : List α} {i : Nat} {a : α} (h : rows[i]? = some a) :
    i < rows.length :=
  (List.getElem?_eq_some_iff.mp h).1

theorem getElem?_set_of_some {rows : List α} {i : Nat} {a b : α} (h : rows[i]? = some a) :
    (rows.set i b)[i]? = some b :=
  getElem?_set_self (lt_of_getElem? h)

section Tally

variable [AddCommMonoid M] {f : α → M}

@[simp] theorem tally_nil : tally f [] = 0 := rfl

@[simp] theorem tally_cons (a : α) (rows : List α) : tally f (a :: rows) = f a + tally f rows := by
  simp [tally]

theorem tally_append (rows rows' : List α) :
    tally f (rows ++ rows') = tally f rows + tally f rows' := by
  simp [tally]

variable {rows : List α} {i : Nat} {a : α}

/-- Overwriting one row. -/
theorem tally_set (h : rows[i]? = some a) (b : α) :
    tally f (rows.set i b) + f a = tally f rows + f b := by
  induction rows generalizing i with
  | nil => cases h
  | cons r rows ih =>
    cases i with
    | zero =>
      obtain rfl := Option.some.inj h
      rw [set_cons_zero, tally_cons, tally_cons]
      rw [add_comm (f b), add_right_comm, add_comm (f r), add_right_comm]
    | succ i =>
      rw [set_cons_succ, tally_cons, tally_cons, add_assoc, ih h, add_assoc]

/-- Taking out one row. -/
theorem perm_eraseIdx (h : rows[i]? = some a) : rows.Perm (a :: rows.eraseIdx i) := by
  obtain ⟨hlt, rfl⟩ := List.getElem?_eq_some_iff.mp h
  exact (List.getElem_cons_eraseIdx_perm hlt).symm

theorem tally_eraseIdx (h : rows[i]? = some a) :
    tally f rows = f a + tally f (rows.eraseIdx i) := by
  exact ((perm_eraseIdx h).map f).sum_eq

/-- An overwriting leaves alone what the other rows hold. -/
theorem tally_exchange (h : rows[i]? = some a) (b : α) :
    ∃ rest, rest + f a = tally f rows ∧ rest + f b = tally f (rows.set i b) := by
  refine ⟨tally f (rows.eraseIdx i), ?_, ?_⟩
  · rw [tally_eraseIdx h, add_comm]
  · have hb : (rows.set i b)[i]? = some b := getElem?_set_of_some h
    rw [tally_eraseIdx hb, eraseIdx_set_eq, add_comm]

/-- An overwriting that does not change what a row holds. -/
theorem tally_set_of_eq {M : Type*} [AddCancelCommMonoid M] {f : α → M} {b : α}
    (h : rows[i]? = some a) (hb : f b = f a) : tally f (rows.set i b) = tally f rows := by
  have hset := tally_set (f := f) h b
  rw [hb] at hset
  exact add_right_cancel hset

/-- Counting is a tally. -/
theorem tally_toNat (p : α → Bool) (rows : List α) :
    tally (fun a => (p a).toNat) rows = rows.countP p := by
  induction rows with
  | nil => rfl
  | cons a rows ih =>
    rw [tally_cons, ih, countP_cons, add_comm]
    cases p a with
    | false | true => rfl

/-- Counting after one row is overwritten. -/
theorem countP_set (h : rows[i]? = some a) (p : α → Bool)
    (b : α) : (rows.set i b).countP p + (p a).toNat = rows.countP p + (p b).toNat := by
  rw [← tally_toNat, ← tally_toNat]
  exact tally_set h b

/-- A row that counts. -/
theorem countP_pos_of_getElem? (h : rows[i]? = some a) {p : α → Bool}
    (hp : p a = true) : 0 < rows.countP p :=
  countP_pos_iff.mpr ⟨a, mem_of_getElem? h, hp⟩

theorem mem_tally {f : α → Multiset β} {b : β} (h : rows[i]? = some a) (hb : b ∈ f a) :
    b ∈ tally f rows := by
  rw [tally_eraseIdx h]
  exact Multiset.mem_add.mpr (.inl hb)

theorem tally_eq_zero (h : ∀ a ∈ rows, f a = 0) : tally f rows = 0 := by
  refine sum_eq_zero ?_
  intro x hx
  obtain ⟨a, ha, rfl⟩ := mem_map.mp hx
  exact h a ha

end Tally

/-! ## Functions on a finite type -/

theorem sum_update [AddCommMonoid M] [Fintype β] [DecidableEq β] (f : α → M) (g : β → α) (i : β)
    (x : α) : ∑ j, f (Function.update g i x j) + f (g i) = ∑ j, f (g j) + f x := by
  have hsplit : ∀ k : β → α, ∑ j, f (k j) = f (k i) + ∑ j ∈ Finset.univ.erase i, f (k j) :=
    fun k => (Finset.add_sum_erase _ (fun j => f (k j)) (Finset.mem_univ i)).symm
  have hrest : ∑ j ∈ Finset.univ.erase i, f (Function.update g i x j)
      = ∑ j ∈ Finset.univ.erase i, f (g j) := by
    refine Finset.sum_congr rfl ?_
    intro j hj
    rw [Function.update_of_ne (Finset.ne_of_mem_erase hj)]
  rw [hsplit, hsplit g, hrest, Function.update_self]
  exact (add_comm _ _).trans ((add_assoc _ _ _).symm.trans (add_right_comm _ _ _))

/-! ## Rows kept by a write -/

variable {rows : List α} {i : Nat} {b a : α} {g : α → β}

/-- A property of all rows survives an overwrite by a row that has it. -/
theorem forall_mem_set {P : α → Prop} (h : ∀ a ∈ rows, P a)
    (hb : P b) : ∀ a ∈ rows.set i b, P a := by
  intro a ha
  rcases mem_or_eq_of_mem_set ha with hold | rfl
  · exact h a hold
  · exact hb

theorem forall_mem_singleton {P : α → Prop} (h : P a) : ∀ b ∈ ({a} : Multiset α), P b := by
  intro b hb
  rw [Multiset.mem_singleton.mp hb]
  exact h

/-- A row after an append is an old one or the new one. -/
theorem mem_concat_cases (h : a ∈ rows ++ [b]) : a ∈ rows ∨ a = b :=
  (mem_append.mp h).imp_right mem_singleton.mp

theorem forall_mem_concat {P : α → Prop} (h : ∀ a ∈ rows, P a) (hb : P b) :
    ∀ a ∈ rows ++ [b], P a := by
  intro a ha
  rcases mem_concat_cases ha with hold | rfl
  · exact h a hold
  · exact hb

/-- A row after an overwrite is the new one or an old one. -/
theorem getElem?_set_cases {j : Nat}
    (h : (rows.set i b)[j]? = some a) : (j = i ∧ a = b) ∨ (j ≠ i ∧ rows[j]? = some a) := by
  by_cases hij : j = i
  · subst hij
    have hlt : j < (rows.set j b).length := lt_of_getElem? h
    rw [List.length_set] at hlt
    rw [List.getElem?_set_self hlt] at h
    exact .inl ⟨rfl, (Option.some.inj h).symm⟩
  · rw [getElem?_set_ne (Ne.symm hij)] at h
    exact .inr ⟨hij, h⟩

theorem getElem?_concat_cases
    (h : (rows ++ [b])[i]? = some a) : rows[i]? = some a ∨ (i = rows.length ∧ a = b) := by
  by_cases hlt : i < rows.length
  · rw [List.getElem?_append_left hlt] at h
    exact .inl h
  have hlen : i < (rows ++ [b]).length := lt_of_getElem? h
  rw [List.length_append, List.length_singleton] at hlen
  have hlast : i = rows.length := by omega
  subst hlast
  rw [getElem?_concat_length] at h
  exact .inr ⟨rfl, (Option.some.inj h).symm⟩

/-- A new row in which there is nothing to see. -/
theorem bind_concat {f : α → Option β} (h : f b = none) (i : Nat) :
    (rows ++ [b])[i]?.bind f = rows[i]?.bind f := by
  by_cases hlt : i < rows.length
  · rw [getElem?_append_left hlt]
  rw [getElem?_eq_none (Nat.not_lt.mp hlt)]
  cases hget : (rows ++ [b])[i]? with
  | none => rfl
  | some a =>
    rcases getElem?_concat_cases hget with hold | ⟨-, rfl⟩
    · exact absurd (lt_of_getElem? hold) hlt
    · exact h

theorem getElem?_map_of_some (h : rows[i]? = some a) : (rows.map g)[i]? = some (g a) := by
  rw [getElem?_map, h]
  rfl

theorem of_getElem?_map {b : β} (h : (rows.map g)[i]? = some b) :
    ∃ a, rows[i]? = some a ∧ g a = b := by
  rw [getElem?_map] at h
  exact Option.map_eq_some_iff.mp h

section Keyed

variable {κ : Type} [DecidableEq κ] {linked : α → Bool} {key : α → κ} {k : κ}

/-- A row that is found under a key. -/
theorem findIdx?_keyed (h : rows.findIdx? (fun a => linked a && key a == k) = some i) :
    ∃ a, rows[i]? = some a ∧ linked a = true ∧ key a = k := by
  obtain ⟨hlt, hfound, -⟩ := findIdx?_eq_some_iff_getElem.mp h
  rw [Bool.and_eq_true, beq_iff_eq] at hfound
  exact ⟨_, getElem?_eq_getElem hlt, hfound.1, hfound.2⟩

theorem key_ne_of_findIdx? (h : rows.findIdx? (fun a => linked a && key a == k) = none)
    (ha : rows[i]? = some a) (hlink : linked a = true) : key a ≠ k := by
  rintro rfl
  have hmiss := findIdx?_eq_none_iff.mp h a (mem_of_getElem? ha)
  rw [hlink, beq_self_eq_true] at hmiss
  cases hmiss

variable (hunique : ∀ (i j : Nat) a b, rows[i]? = some a → rows[j]? = some b → linked a = true →
  linked b = true → key a = key b → i = j)
include hunique

/-- Where no two linked rows have one key, a row is found under its own as long as it is
linked. -/
theorem findIdx?_own_iff (ha : rows[i]? = some a) :
    rows.findIdx? (fun b => linked b && key b == key a) = some i ↔ linked a = true := by
  constructor
  · intro hfound
    obtain ⟨b, hb, hlink, -⟩ := findIdx?_keyed hfound
    obtain rfl := Option.some.inj (ha.symm.trans hb)
    exact hlink
  · intro hlink
    cases hfound : rows.findIdx? fun b => linked b && key b == key a with
    | none => exact absurd rfl (key_ne_of_findIdx? hfound ha hlink)
    | some j =>
      obtain ⟨b, hb, hlink', hkey⟩ := findIdx?_keyed hfound
      exact congrArg some (hunique j i b a hb ha hlink' hlink hkey)

omit [DecidableEq κ]

/-- A row with a free key. -/
theorem unique_concat {c : α} (hfree : ∀ (i : Nat) a, rows[i]? = some a → linked a = true → key a ≠ key c)
    (i j : Nat) (a b : α) (ha : (rows ++ [c])[i]? = some a) (hb : (rows ++ [c])[j]? = some b)
    (hal : linked a = true) (hbl : linked b = true) (heq : key a = key b) : i = j := by
  rcases getElem?_concat_cases ha with hold | ⟨rfl, rfl⟩
  · rcases getElem?_concat_cases hb with hold' | ⟨rfl, rfl⟩
    · exact hunique i j a b hold hold' hal hbl heq
    · exact absurd heq (hfree i a hold hal)
  · rcases getElem?_concat_cases hb with hold' | ⟨rfl, rfl⟩
    · exact absurd heq.symm (hfree j b hold' hbl)
    · rfl

/-- A row keeps its key, and is linked only if it was. -/
theorem unique_set {k : Nat} {c c' : α} (hc : rows[k]? = some c)
    (hnew : linked c' = true → linked c = true ∧ key c' = key c)
    (i j : Nat) (a b : α) (ha : (rows.set k c')[i]? = some a) (hb : (rows.set k c')[j]? = some b)
    (hal : linked a = true) (hbl : linked b = true) (heq : key a = key b) : i = j := by
  have hold : ∀ {i : Nat} {a}, (rows.set k c')[i]? = some a → linked a = true →
      ∃ a', rows[i]? = some a' ∧ linked a' = true ∧ key a = key a' := by
    intro i a ha hal
    rcases getElem?_set_cases ha with ⟨rfl, rfl⟩ | ⟨-, hold⟩
    · exact ⟨c, hc, hnew hal⟩
    · exact ⟨a, hold, hal, rfl⟩
  obtain ⟨a', ha', hal', hka⟩ := hold ha hal
  obtain ⟨b', hb', hbl', hkb⟩ := hold hb hbl
  exact hunique i j a' b' ha' hb' hal' hbl' (hka.symm.trans (heq.trans hkb))

end Keyed

/-- Modifying a row that is there is overwriting it. -/
theorem modify_eq_set_of_some (h : rows[i]? = some a)
    (g : α → α) : rows.modify i g = rows.set i (g a) := by
  have : Inhabited α := ⟨a⟩
  rw [modify_eq_set, h]
  rfl

/-- A view of the rows that does not see an overwriting. -/
theorem map_set_of_eq (h : rows[i]? = some a)
    (hg : g b = g a) : (rows.set i b).map g = rows.map g := by
  rw [map_set, hg]
  apply ext_getElem?
  intro j
  by_cases hij : i = j
  · subst hij
    obtain ⟨hi, -⟩ := List.getElem?_eq_some_iff.mp h
    rw [List.getElem?_set_self (by rw [List.length_map]; exact hi), List.getElem?_map, h]
    rfl
  · rw [List.getElem?_set_ne hij]

/-- A view of the rows changes with the row. -/
theorem map_modify {f : α → α} {f' : β → β} (h : ∀ a, g (f a) = f' (g a)) (rows : List α)
    (i : Nat) : (rows.modify i f).map g = (rows.map g).modify i f' := by
  apply ext_getElem?
  intro j
  by_cases hij : i = j
  · subst hij
    rw [getElem?_map, getElem?_modify_eq, getElem?_modify_eq, getElem?_map]
    cases rows[i]? with
    | none => rfl
    | some a => exact congrArg some (h a)
  · rw [getElem?_map, getElem?_modify_ne _ _ hij, getElem?_modify_ne _ _ hij, getElem?_map]

/-- A view of the rows that does not see a change. -/
theorem map_modify_of_eq {f : α → α} (h : ∀ a, g (f a) = g a) (rows : List α)
    (i : Nat) : (rows.modify i f).map g = rows.map g := by
  have hid : ∀ a, g (f a) = id (g a) := h
  rw [map_modify hid, modify_id]

end LinuxAbi.Lib
