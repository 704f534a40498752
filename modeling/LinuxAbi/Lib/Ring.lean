import Mathlib.Data.List.Rotate
import Mathlib.Data.List.TakeDrop
import Mathlib.Data.Nat.ModEq

/-!
# A bounded ring buffer

A ring buffer keeps its elements in a fixed block of cells, starting at `head`
and running on past the end of the block. Read from `head` on, the block is just
a list (`List.rotate`), and the contents are its first `len` elements: `toList`.
Every operation is specified by what it does to `toList`, so users of the buffer
never meet an index.

The one fact that makes this work is `rotate_set`: a write `k` cells past the
head is a write at position `k` of the rotated block. The in-place `remove`
compacts the contents towards the head; in the rotated block that is the usual
two-index filter loop.
-/

namespace LinuxAbi.Lib

open Nat
open List

universe u

variable {α : Type u}

/-- Two cells of a block of `n` are the same only at the same distance. -/
theorem add_mod_inj {n h i j : Nat} (hi : i < n) (hj : j < n) (heq : (h + i) % n = (h + j) % n) :
    i = j := by
  have hmod : i % n = j % n := ModEq.add_left_cancel' h heq
  rwa [mod_eq_of_lt hi, mod_eq_of_lt hj] at hmod

theorem rotate_set (l : List α) (n : Nat) {k : Nat} (hk : k < l.length) (x : α) :
    (l.set ((n + k) % l.length) x).rotate n = (l.rotate n).set k x := by
  refine ext_getElem (by simp) ?_
  intro i hi _
  rw [length_rotate, length_set] at hi
  rw [getElem_rotate, getElem_set, getElem_set, getElem_rotate]
  simp only [length_set]
  by_cases hik : k = i
  · subst hik
    rw [if_pos rfl, if_pos (by rw [add_comm])]
  rw [if_neg hik, if_neg]
  intro heq
  rw [add_comm i] at heq
  exact hik (add_mod_inj hk hi heq)

/-- A block of cells, the cell of the first element and the number of elements. -/
structure RingBuffer (α : Type u) where
  items : List α
  head : Nat
  len : Nat

namespace RingBuffer

/-- The number of cells. -/
def capacity (r : RingBuffer α) : Nat := r.items.length

/-- Appends at the tail, unless every cell is in use. -/
def push (r : RingBuffer α) (x : α) : Option (RingBuffer α) :=
  if r.len = r.capacity then none
  else some { r with items := r.items.set ((r.head + r.len) % r.capacity) x, len := r.len + 1 }

/-- The element at the head. -/
def peek (r : RingBuffer α) : Option α :=
  if r.len ≠ 0 then r.items[r.head]? else none

/-- The ring without the element at the head. -/
def pop (r : RingBuffer α) : RingBuffer α :=
  if r.len = 0 then r
  else { r with head := (r.head + 1) % r.capacity, len := r.len - 1 }

/-- One round of the removal loop: keep the element under `read` unless it is
`x`, moving it down to the first cell not retained yet. -/
def removeStep [DecidableEq α] (head capacity : Nat) (x : α) (state : List α × Nat) (read : Nat) :
    List α × Nat :=
  match state.1[(head + read) % capacity]? with
  | none => state
  | some item =>
    if item ≠ x then (state.1.set ((head + state.2) % capacity) item, state.2 + 1) else state

/-- Removes every occurrence of `x` in place. -/
def remove [DecidableEq α] (r : RingBuffer α) (x : α) : RingBuffer α :=
  if r.len = 0 then r
  else
    let state := (List.range r.len).foldl (removeStep r.head r.capacity x) (r.items, 0)
    { r with items := state.1, len := state.2 }

/-- The elements, oldest first. -/
def toList (r : RingBuffer α) : List α := (r.items.rotate r.head).take r.len

/-- The head is a cell and no more elements are counted than there are cells. -/
structure Valid (r : RingBuffer α) : Prop where
  head_lt : 0 < r.capacity → r.head < r.capacity
  len_le : r.len ≤ r.capacity

variable {r : RingBuffer α}

theorem Valid.length_toList (hr : Valid r) : r.toList.length = r.len := by
  unfold toList
  rw [length_take, length_rotate]
  exact min_eq_left hr.len_le

/-! ## Push, peek and pop -/

/-- A push succeeds unless the ring is full, and appends. -/
theorem Valid.push (hr : Valid r) (hroom : r.toList.length < r.capacity) (x : α) :
    ∃ r', r.push x = some r' ∧ Valid r' ∧ r'.capacity = r.capacity ∧
      r'.toList = r.toList ++ [x] := by
  rw [hr.length_toList] at hroom
  refine ⟨_, if_neg (Nat.ne_of_lt hroom), ⟨?_, ?_⟩, length_set, ?_⟩
  · show 0 < (r.items.set _ _).length → r.head < (r.items.set _ _).length
    rw [length_set]
    exact hr.head_lt
  · show r.len + 1 ≤ (r.items.set _ _).length
    rw [length_set]
    exact hroom
  · show ((r.items.set ((r.head + r.len) % r.items.length) x).rotate r.head).take (r.len + 1) = _
    have hlen : r.len < (r.items.rotate r.head).length := by
      rw [length_rotate]
      exact hroom
    rw [rotate_set r.items r.head hroom, take_succ_eq_append_getElem (by simpa using hlen),
      getElem_set_self, take_set_of_le (le_refl _)]
    rfl

theorem Valid.peek_eq (hr : Valid r) : r.peek = r.toList.head? := by
  unfold peek toList
  by_cases hlen : r.len = 0
  · rw [if_neg (not_not.mpr hlen), hlen, take_zero]
    rfl
  have hcap : 0 < r.items.length := Nat.lt_of_lt_of_le (Nat.pos_of_ne_zero hlen) hr.len_le
  have hhead : r.head < r.items.length := hr.head_lt hcap
  rw [if_pos hlen, head?_take, if_neg hlen, head?_eq_getElem?,
    getElem?_rotate hcap, Nat.zero_add, Nat.mod_eq_of_lt hhead]

theorem Valid.pop (hr : Valid r) :
    Valid r.pop ∧ r.pop.capacity = r.capacity ∧ r.pop.toList = r.toList.tail := by
  unfold RingBuffer.pop
  by_cases hlen : r.len = 0
  · rw [if_pos hlen]
    refine ⟨hr, rfl, ?_⟩
    unfold toList
    rw [hlen, take_zero]
    rfl
  · rw [if_neg hlen]
    have hle := hr.len_le
    have hcap : 0 < r.capacity := Nat.lt_of_lt_of_le (Nat.pos_of_ne_zero hlen) hle
    refine ⟨⟨fun _ => Nat.mod_lt _ hcap, Nat.le_trans (Nat.sub_le _ _) hle⟩, rfl, ?_⟩
    show (r.items.rotate ((r.head + 1) % r.items.length)).take (r.len - 1) = r.toList.tail
    rw [rotate_mod, ← rotate_rotate]
    unfold toList
    obtain ⟨a, l, hl⟩ : ∃ a l, r.items.rotate r.head = a :: l := by
      cases h : r.items.rotate r.head with
      | nil =>
        have hzero := congrArg length h
        rw [length_rotate] at hzero
        exact absurd hzero (ne_of_gt hcap)
      | cons a l => exact ⟨a, l, rfl⟩
    have hlen' : r.len - 1 ≤ l.length := by
      have hcons := congrArg length hl
      rw [length_rotate, length_cons] at hcons
      have hle' : r.len ≤ r.items.length := hle
      omega
    rw [hl, rotate_cons_succ, rotate_zero, take_append_of_le_length hlen']
    obtain ⟨n, hn⟩ := exists_eq_succ_of_ne_zero hlen
    rw [hn]
    rfl

/-! ## Removal -/

section Remove

variable [DecidableEq α]

/-- The state of the removal loop after `n` rounds: the elements read so far are
compacted in front, the unread ones are where they were. -/
structure RemoveInv (l : List α) (head : Nat) (x : α) (n : Nat) (state : List α × Nat) : Prop where
  length_eq : state.1.length = l.length
  retained_le : state.2 ≤ n
  retained : (state.1.rotate head).take state.2 = ((l.rotate head).take n).filter (· ≠ x)
  unread : ∀ j, n ≤ j → j < l.length → (state.1.rotate head)[j]? = (l.rotate head)[j]?

theorem RemoveInv.step {l : List α} {head n : Nat} {x : α} {state : List α × Nat}
    (hi : RemoveInv l head x n state) (hn : n < l.length) :
    RemoveInv l head x (n + 1) (removeStep head l.length x state n) := by
  have hlen := hi.length_eq
  have hret := hi.retained_le
  have hnr : n < (l.rotate head).length := by
    rw [length_rotate]
    exact hn
  have hread : state.1[(head + n) % l.length]? = some (l.rotate head)[n] := by
    have hrot := getElem?_rotate (n := head) (hlen ▸ hn : n < state.1.length)
    rw [hlen, add_comm n] at hrot
    rw [← hrot, hi.unread n (le_refl n) hn]
    exact getElem?_eq_getElem hnr
  have htake : (l.rotate head).take (n + 1) = (l.rotate head).take n ++ [(l.rotate head)[n]] :=
    take_succ_eq_append_getElem hnr
  unfold removeStep
  rw [hread]
  dsimp only
  split
  · next hkeep =>
    -- the kept element is written at position `state.2`, at or before the one read
    have hslot : state.2 < state.1.length := by omega
    have hslot' : state.2 < (state.1.rotate head).length := by
      rw [length_rotate]
      exact hslot
    have hset : (state.1.set ((head + state.2) % l.length) (l.rotate head)[n]).rotate head
        = (state.1.rotate head).set state.2 (l.rotate head)[n] := by
      rw [← hlen]
      exact rotate_set state.1 head hslot _
    refine ⟨by rw [length_set, hlen], succ_le_succ hret, ?_, ?_⟩
    · rw [hset, take_succ_eq_append_getElem (by simpa using hslot'), getElem_set_self,
        take_set_of_le (le_refl _), hi.retained, htake, filter_append,
        filter_cons_of_pos (by exact decide_eq_true hkeep), filter_nil]
    · intro j hj hjl
      rw [hset, getElem?_set_ne (by omega)]
      exact hi.unread j (by omega) hjl
  · next hdrop =>
    refine ⟨hlen, le_succ_of_le hret, ?_, fun j hj hjl => hi.unread j (by omega) hjl⟩
    rw [hi.retained, htake, filter_append,
      filter_cons_of_neg (by rw [decide_eq_true_iff]; exact hdrop), filter_nil,
      append_nil]

theorem removeLoop_inv (l : List α) (head : Nat) (x : α) :
    ∀ n, n ≤ l.length →
      RemoveInv l head x n ((List.range n).foldl (removeStep head l.length x) (l, 0)) := by
  intro n
  induction n with
  | zero =>
    intro _
    exact ⟨rfl, le_refl 0, by simp, fun _ _ _ => rfl⟩
  | succ n ih =>
    intro hn
    rw [range_succ, foldl_append]
    exact (ih (le_of_succ_le hn)).step hn

theorem Valid.remove {r : RingBuffer α} (hr : Valid r) (x : α) :
    Valid (r.remove x) ∧ (r.remove x).capacity = r.capacity ∧
      (r.remove x).toList = r.toList.filter (· ≠ x) := by
  unfold RingBuffer.remove
  by_cases hlen : r.len = 0
  · rw [if_pos hlen]
    refine ⟨hr, rfl, ?_⟩
    unfold toList
    rw [hlen, take_zero]
    rfl
  · rw [if_neg hlen]
    have hi := removeLoop_inv r.items r.head x r.len hr.len_le
    have hcap := hi.length_eq
    refine ⟨⟨?_, ?_⟩, hcap, hi.retained⟩
    · intro hpos
      unfold capacity at hpos ⊢
      rw [hcap] at hpos ⊢
      exact hr.head_lt hpos
    · unfold capacity
      rw [hcap]
      exact le_trans hi.retained_le hr.len_le

end Remove

end RingBuffer

end LinuxAbi.Lib
