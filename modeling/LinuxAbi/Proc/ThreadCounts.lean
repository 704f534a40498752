import LinuxAbi.Proc.Types
import LinuxAbi.Lib.Tally
import Mathlib.Algebra.Order.Group.Multiset
import Mathlib.Data.List.Nodup

/-!
# The counters of a thread group

`memberships` counts the linked threads and `live_threads` those that are live. The threads
in between, linked and not live, are the ones that a token is still out for (`waiting`).
Linking, publishing, detaching and putting back a thread keep the counts; for each of them
this module says what becomes of the waiting threads.
-/

namespace LinuxAbi.Proc

open List

namespace ThreadGroup

/-- The threads that are linked and not live. -/
def waiting (tg : ThreadGroup) : Multiset Nat :=
  ((tg.threads.filter fun t => !t.live).map (·.node) : List Nat)

/-- The counters count the threads. -/
structure Counted (tg : ThreadGroup) (nextNode : Nat) : Prop where
  memberships : tg.memberships = tg.threads.length
  live : tg.liveThreads = tg.threads.countP (·.live)
  nodes : (tg.threads.map (·.node)).Nodup
  tids : (tg.threads.map (·.tid)).Nodup
  fresh : ∀ t ∈ tg.threads, t.node < nextNode

theorem counted_new (nextNode : Nat) : new.Counted nextNode where
  memberships := rfl
  live := rfl
  nodes := List.nodup_nil
  tids := List.nodup_nil
  fresh := by
    intro t ht
    cases ht

variable {tg : ThreadGroup} {nextNode node : Nat} {threads : List ThreadNode} {t : ThreadNode}

theorem Counted.mono (h : tg.Counted nextNode)
    (hle : nextNode ≤ nextNode') : tg.Counted nextNode' where
  memberships := h.memberships
  live := h.live
  nodes := h.nodes
  tids := h.tids
  fresh := fun t ht => Nat.lt_of_lt_of_le (h.fresh t ht) hle

/-- Only threads and the two counters matter. -/
theorem Counted.of_eq {tg' : ThreadGroup} (h : tg.Counted nextNode)
    (hthr : tg'.threads = tg.threads) (hmemberships : tg'.memberships = tg.memberships)
    (hlive : tg'.liveThreads = tg.liveThreads) : tg'.Counted nextNode where
  memberships := by rw [hmemberships, hthr]; exact h.memberships
  live := by rw [hlive, hthr]; exact h.live
  nodes := by rw [hthr]; exact h.nodes
  tids := by rw [hthr]; exact h.tids
  fresh := by rw [hthr]; exact h.fresh

/-- A thread taken out of a group, and the rest. -/
theorem perm_filter_node (hnodes : (threads.map (·.node)).Nodup)
    (hfind : threads.find? (·.node == node) = some t) :
    threads.Perm (t :: threads.filter (·.node != node)) := by
  induction threads with
  | nil => cases hfind
  | cons a threads ih =>
    obtain ⟨hnew, hrest⟩ := nodup_cons.mp hnodes
    by_cases ha : a.node = node
    · rw [find?_cons_of_pos (by simp [ha])] at hfind
      obtain rfl := Option.some.inj hfind
      rw [filter_cons_of_neg (by simp [ha])]
      -- no other thread has this node
      have hkeep : threads.filter (·.node != node) = threads := by
        refine filter_eq_self.mpr ?_
        intro b hb
        refine bne_iff_ne.mpr ?_
        intro hbn
        exact hnew (mem_map.mpr ⟨b, hb, hbn.trans ha.symm⟩)
      rw [hkeep]
    · rw [find?_cons_of_neg (by simp [ha])] at hfind
      rw [filter_cons_of_pos (by simp [ha])]
      exact ((ih hrest hfind).cons a).trans (List.Perm.swap t a _)

theorem find?_node (hfind : threads.find? (·.node == node) = some t) : t.node = node := by
  have hnode := find?_some hfind
  exact beq_iff_eq.mp hnode

theorem find?_of_mem (hnodes : (threads.map (·.node)).Nodup)
    (ht : t ∈ threads) : threads.find? (·.node == t.node) = some t := by
  induction threads with
  | nil => cases ht
  | cons a threads ih =>
    obtain ⟨hnew, hrest⟩ := nodup_cons.mp hnodes
    rcases mem_cons.mp ht with rfl | hmem
    · exact find?_cons_of_pos (beq_self_eq_true _)
    have hne : a.node ≠ t.node := fun h => hnew (mem_map.mpr ⟨t, hmem, h.symm⟩)
    rw [find?_cons_of_neg (by simp [hne])]
    exact ih hrest hmem

/-- Linking a thread that is not live. -/
theorem Counted.link (h : tg.Counted nextNode) (htid : tg.find tid = none) :
    ({ tg with
        threads := tg.threads ++ [{ node := nextNode, tid, live := false }]
        memberships := tg.memberships + 1 } : ThreadGroup).Counted (nextNode + 1) where
  memberships := by
    rw [length_append, h.memberships]
    rfl
  live := by
    rw [countP_append, h.live]
    rfl
  nodes := by
    rw [map_append]
    refine h.nodes.append (nodup_singleton _) ?_
    rw [map_singleton, disjoint_singleton]
    intro hmem
    obtain ⟨t, ht, heq⟩ := mem_map.mp hmem
    exact absurd heq (Nat.ne_of_lt (h.fresh t ht))
  tids := by
    rw [map_append]
    refine h.tids.append (nodup_singleton _) ?_
    rw [map_singleton, disjoint_singleton]
    intro hmem
    obtain ⟨t, ht, heq⟩ := mem_map.mp hmem
    exact find?_eq_none.mp htid t ht (beq_iff_eq.mpr heq)
  fresh := Lib.forall_mem_concat (fun t ht => Nat.lt_succ_of_lt (h.fresh t ht))
    (Nat.lt_succ_self nextNode)

section

variable (hfind : tg.threads.find? (·.node == node) = some t)
include hfind

/-- Marking one thread live. -/
theorem perm_setLive (hnodes : (tg.threads.map (·.node)).Nodup) :
    (tg.setLive node).threads.Perm
      ({ t with live := true } :: tg.threads.filter (·.node != node)) := by
  have hperm := (perm_filter_node hnodes hfind).map
    fun t => if t.node = node then { t with live := true } else t
  rw [map_cons, if_pos (find?_node hfind)] at hperm
  have hrest : (tg.threads.filter (·.node != node)).map
      (fun t => if t.node = node then { t with live := true } else t)
      = tg.threads.filter (·.node != node) := by
    refine (map_congr_left ?_).trans (map_id _)
    intro b hb
    exact if_neg (bne_iff_ne.mp (mem_filter.mp hb).2)
  rw [hrest] at hperm
  exact hperm

theorem Counted.setLive (h : tg.Counted nextNode) (hlive : t.live = false) :
    ({ tg.setLive node with liveThreads := tg.liveThreads + 1 } : ThreadGroup).Counted nextNode := by
  have hold := perm_filter_node h.nodes hfind
  have hnew := perm_setLive hfind h.nodes
  -- the two lists differ in the flag of one thread
  have hmap : ∀ {β : Type} (f : ThreadNode → β), f { t with live := true } = f t →
      ((tg.setLive node).threads.map f).Perm (tg.threads.map f) := by
    intro β f hf
    have hflag := hnew.map f
    rw [map_cons, hf, ← map_cons] at hflag
    exact hflag.trans (hold.map f).symm
  constructor
  · change tg.memberships = (tg.setLive node).threads.length
    rw [hnew.length_eq, h.memberships, hold.length_eq]
    rfl
  · change tg.liveThreads + 1 = (tg.setLive node).threads.countP _
    rw [hnew.countP_eq, h.live, hold.countP_eq, countP_cons_of_neg (by simp [hlive]),
      countP_cons_of_pos rfl]
  · exact (hmap (·.node) rfl).nodup_iff.mpr h.nodes
  · exact (hmap (·.tid) rfl).nodup_iff.mpr h.tids
  · intro b hb
    obtain ⟨c, hc, heq⟩ := mem_map.mp ((hmap (·.node) rfl).mem_iff.mp (mem_map.mpr ⟨b, hb, rfl⟩))
    rw [← heq]
    exact h.fresh c hc

theorem waiting_setLive (hnodes : (tg.threads.map (·.node)).Nodup) (liveThreads : Nat)
    (hlive : t.live = false) :
    ({ tg.setLive node with liveThreads } : ThreadGroup).waiting + {node} = tg.waiting := by
  have hold := ((perm_filter_node hnodes hfind).filter (fun t => !t.live)).map (·.node)
  have hnew := ((perm_setLive hfind hnodes).filter (fun t => !t.live)).map (·.node)
  rw [filter_cons_of_pos (by simp [hlive]), map_cons, find?_node hfind] at hold
  rw [filter_cons_of_neg (by simp)] at hnew
  unfold waiting
  rw [Multiset.coe_eq_coe.mpr hold, Multiset.coe_eq_coe.mpr hnew, add_comm, Multiset.singleton_add,
    Multiset.cons_coe]

/-- Taking a thread out. -/
theorem detachThreadLocked_eq :
    tg.detachThreadLocked node = (some { t with live := false },
      { tg with
        threads := tg.threads.filter (·.node != node)
        memberships := tg.memberships - 1
        liveThreads := if t.live then tg.liveThreads - 1 else tg.liveThreads }) := by
  unfold detachThreadLocked
  rw [hfind]

end

theorem Counted.detach (h : tg.Counted nextNode)
    (hfind : tg.threads.find? (·.node == node) = some t) :
    (tg.detachThreadLocked node).2.Counted nextNode ∧
      (tg.detachThreadLocked node).2.memberships + 1 = tg.memberships ∧
      (tg.detachThreadLocked node).2.waiting + (if t.live then 0 else {node}) = tg.waiting := by
  have hold := perm_filter_node h.nodes hfind
  have hlen : tg.threads.length = (tg.threads.filter (·.node != node)).length + 1 := hold.length_eq
  have hsub : (tg.threads.filter (·.node != node)).Sublist tg.threads := filter_sublist
  rw [detachThreadLocked_eq hfind]
  refine ⟨⟨?_, ?_, ?_, ?_, ?_⟩, ?_, ?_⟩
  · change tg.memberships - 1 = (tg.threads.filter _).length
    rw [h.memberships, hlen]
    rfl
  · change (if t.live then tg.liveThreads - 1 else tg.liveThreads) = (tg.threads.filter _).countP _
    rw [h.live, hold.countP_eq]
    cases hlive : t.live with
    | true => rw [if_pos rfl, countP_cons_of_pos hlive, Nat.add_sub_cancel]
    | false => rw [if_neg Bool.false_ne_true, countP_cons_of_neg (by simp [hlive])]
  · exact h.nodes.sublist (hsub.map _)
  · exact h.tids.sublist (hsub.map _)
  · intro b hb
    exact h.fresh b (hsub.subset hb)
  · rw [h.memberships, hlen]
    rfl
  · have hwait := (hold.filter (fun t => !t.live)).map (·.node)
    unfold waiting
    dsimp only
    rw [Multiset.coe_eq_coe.mpr hwait]
    cases hlive : t.live with
    | true =>
      rw [filter_cons_of_neg (by simp [hlive]), if_pos rfl, add_zero]
    | false =>
      rw [filter_cons_of_pos (by simp [hlive]), if_neg Bool.false_ne_true, map_cons,
        find?_node hfind, add_comm, Multiset.singleton_add, Multiset.cons_coe]

/-- `ProcessExitAdmission::drop`: the departing thread is put back. -/
def restore (tg : ThreadGroup) : Option ThreadNode → ThreadGroup
  | none => { tg with exitPrepared := false }
  | some thread =>
    { tg with
      threads := tg.threads ++ [{ thread with live := true }]
      memberships := tg.memberships + 1
      liveThreads := tg.liveThreads + 1
      exitPrepared := false }

/-- Into a group without threads. -/
theorem Counted.restore (h : tg.Counted nextNode) (hemp : tg.threads = [])
    (hfresh : ∀ t, departing = some t → t.node < nextNode) :
    (tg.restore departing).Counted nextNode := by
  cases departing with
  | none => exact h.of_eq rfl rfl rfl
  | some thread =>
    have hm := h.memberships
    have hl := h.live
    constructor
    · change tg.memberships + 1 = (tg.threads ++ _).length
      rw [hm, hemp]
      rfl
    · change tg.liveThreads + 1 = (tg.threads ++ _).countP _
      rw [hl, hemp]
      rfl
    · change ((tg.threads ++ _).map _).Nodup
      rw [hemp]
      exact nodup_singleton _
    · change ((tg.threads ++ _).map _).Nodup
      rw [hemp]
      exact nodup_singleton _
    · intro t ht
      change t ∈ tg.threads ++ _ at ht
      rw [hemp] at ht
      rw [mem_singleton.mp ht]
      exact hfresh thread rfl

theorem waiting_of_empty (h : tg.threads = []) : tg.waiting = 0 := by
  unfold waiting
  rw [h]
  rfl

theorem waiting_restore (h : tg.threads = []) (departing : Option ThreadNode) :
    (tg.restore departing).waiting = 0 := by
  cases departing with
  | none => exact waiting_of_empty h
  | some thread =>
    unfold restore
    rw [h]
    rfl

/-- A thread with a token is linked and not live. -/
theorem exists_of_mem_waiting (hnodes : (tg.threads.map (·.node)).Nodup) (h : node ∈ tg.waiting) :
    ∃ t, tg.threads.find? (·.node == node) = some t ∧ t.live = false := by
  obtain ⟨t, ht, rfl⟩ := mem_map.mp (Multiset.mem_coe.mp h)
  obtain ⟨hmem, hlive⟩ := mem_filter.mp ht
  exact ⟨t, find?_of_mem hnodes hmem, (Bool.not_eq_true' _).mp hlive⟩

end ThreadGroup

end LinuxAbi.Proc
