import LinuxAbi.Lib.Tally
import LinuxAbi.Signal.Pending

/-!
# Queue operations move records

What accounting sees of an owner is a multiset of items: the accounted records it
owns and the bare charges it holds. Every operation of a pending queue hands its
records on (`publish_items`, `WF.dequeueSignal_cases`, ...): what the queue and the
other party hold together is the same before and after. And every operation keeps
the queue well formed, under which `dequeue_signal` never panics.
-/

namespace LinuxAbi.Signal

open Function
open List

/-- What an owner is accounted for. -/
inductive Item
  | record (id : Nat) (charge : SignalQueueCharge)
  | charge (account : Nat)

namespace Item

/-- The accounts an item is charged to. -/
def charges : Item → Multiset Nat
  | .record _ held => {held.perUser, held.global}
  | .charge account => {account}

end Item

/-- The node as an item. -/
def RealtimeSignalNode.item (node : RealtimeSignalNode) : Item := .record node.id node.charge

/-- The items of a list of nodes. -/
def itemsOf (l : List RealtimeSignalNode) : Multiset Item := (l.map RealtimeSignalNode.item : List Item)

@[simp] theorem itemsOf_nil : itemsOf [] = 0 := rfl

@[simp] theorem itemsOf_cons (node : RealtimeSignalNode) (l : List RealtimeSignalNode) :
    itemsOf (node :: l) = {node.item} + itemsOf l := by
  simp [itemsOf]

@[simp] theorem itemsOf_append (l l' : List RealtimeSignalNode) :
    itemsOf (l ++ l') = itemsOf l + itemsOf l' := by
  simp [itemsOf]

theorem itemsOf_flatMap {α : Type} (g : α → List RealtimeSignalNode) :
    ∀ l : List α, itemsOf (l.flatMap g) = (l.map fun a => itemsOf (g a)).sum
  | [] => rfl
  | a :: l => by
    rw [flatMap_cons, itemsOf_append, itemsOf_flatMap g l, map_cons, sum_cons]

/-- The items of a prepared signal. -/
def PreparedSignal.items (prepared : PreparedSignal) : Multiset Item :=
  match prepared.kind with
  | .realtime node => {node.item}
  | _ => 0

/-- The items of a dequeued signal. -/
def DequeuedSignal.items : DequeuedSignal → Multiset Item
  | .realtime node => {node.item}
  | _ => 0

/-- The items of an owner that may hold nothing. -/
def optItems {α : Type} (items : α → Multiset Item) (o : Option α) : Multiset Item :=
  (o.map items).getD 0

theorem PreparedSignal.items_unqueued (info : SignalInfo) : (unqueued info).items = 0 := by
  unfold unqueued
  split <;> rfl

theorem PreparedSignal.items_replaceInfo (prepared : PreparedSignal) (info : SignalInfo) :
    (prepared.replaceInfo info).2.items = prepared.items := by
  unfold replaceInfo
  split
  · obtain ⟨kind, generation⟩ := prepared
    cases kind <;> rfl
  · rfl

namespace PendingSignals

/-- The items of a queue. -/
def items (q : PendingSignals) : Multiset Item := ∑ i, itemsOf (q.realtime i)

theorem items_nodes (q : PendingSignals) : itemsOf q.nodes = q.items := by
  unfold nodes items
  rw [itemsOf_flatMap, Fin.sum_univ_def]

@[simp] theorem items_default : default.items = 0 := by
  simp [items, default]

/-- Changing one real-time queue. -/
theorem items_update (q q' : PendingSignals) (index : Fin 33) (l : List RealtimeSignalNode)
    (h : q'.realtime = update q.realtime index l) :
    q'.items + itemsOf (q.realtime index) = q.items + itemsOf l := by
  unfold items
  rw [h]
  exact Lib.sum_update itemsOf q.realtime index l

/-- What holds of every queue between two locked sections. -/
structure WF (q : PendingSignals) : Prop where
  slot : ∀ s : Signo, s.isRealtime = false → (q.set.has s = true ↔ (q.standard s).isSome = true)
  queue : ∀ i, q.realtime i ≠ [] → q.set.has (.sigrt i) = true
  named : ∀ s signal, q.standard s = some signal → signal.info.signo = s
  sorted : ∀ i, ∀ node ∈ q.realtime i, node.index = i

theorem wf_default : default.WF where
  slot := by
    intro s _
    simp [default]
  queue := by
    intro i h
    exact absurd rfl h
  named := by
    intro s signal h
    cases h
  sorted := by
    intro i node h
    cases h

/-! ## Publication -/

theorem publish_items (q : PendingSignals) (prepared : PreparedSignal) :
    (q.publish prepared).2.items + optItems PreparedSignal.items (q.publish prepared).1.unused
      = q.items + prepared.items := by
  obtain ⟨kind, generation⟩ := prepared
  cases kind with
  | standard signal =>
    unfold publish
    dsimp only
    split
    · rfl
    · rfl
  | realtime node =>
    have hupd := items_update q (q.publish ⟨.realtime node, generation⟩).2 node.index
      (q.realtime node.index ++ [{ node with generation }]) rfl
    rw [itemsOf_append, itemsOf_cons, itemsOf_nil, add_zero, add_left_comm,
      add_comm (itemsOf _)] at hupd
    exact (add_zero _).trans (add_right_cancel hupd)
  | realtimeFallback info realtime => rfl

variable {q q' : PendingSignals}

/-- Replacing one real-time queue, with the bit of its signal. -/
theorem WF.setRealtime (h : q.WF) {index : Fin 33} {l : List RealtimeSignalNode}
    (hstandard : q'.standard = q.standard)
    (hrealtime : q'.realtime = update q.realtime index l)
    (hset : ∀ s, s ≠ .sigrt index → q'.set.has s = q.set.has s)
    (hbit : l ≠ [] → q'.set.has (.sigrt index) = true) (hl : ∀ node ∈ l, node.index = index) :
    q'.WF where
  slot := by
    intro s hs
    have hne : s ≠ .sigrt index := by
      intro heq
      rw [heq] at hs
      cases hs
    rw [hset s hne, hstandard]
    exact h.slot s hs
  queue := by
    intro i hi
    rw [hrealtime] at hi
    by_cases heq : i = index
    · subst heq
      rw [update_self] at hi
      exact hbit hi
    · rw [update_of_ne heq] at hi
      rw [hset _ (by simpa using heq)]
      exact h.queue i hi
  named := hstandard ▸ h.named
  sorted := by
    intro i node hnode
    rw [hrealtime] at hnode
    by_cases heq : i = index
    · subst heq
      rw [update_self] at hnode
      exact hl node hnode
    · rw [update_of_ne heq] at hnode
      exact h.sorted i node hnode

/-- Setting the bit of a real-time signal. -/
theorem WF.addRealtime (h : q.WF) (index : Fin 33) :
    WF { q with set := (q.set.add (.sigrt index)).2 } := by
  refine h.setRealtime rfl (update_eq_self index _).symm ?_ ?_ (h.sorted index)
  · intro s hs
    simp [hs]
  · simp

/-- Replacing the slot of a standard signal, with its bit. -/
theorem WF.setStandard (h : q.WF) {signo : Signo} {slot : Option StandardSignal}
    (hsigno : signo.isRealtime = false)
    (hstandard : q'.standard = update q.standard signo slot)
    (hrealtime : q'.realtime = q.realtime) (hset : ∀ s, s ≠ signo → q'.set.has s = q.set.has s)
    (hbit : q'.set.has signo = slot.isSome) (hslot : ∀ signal ∈ slot, signal.info.signo = signo) :
    q'.WF where
  slot := by
    intro s hs
    rw [hstandard]
    by_cases heq : s = signo
    · rw [heq, update_self, hbit]
    · rw [update_of_ne heq, hset s heq]
      exact h.slot s hs
  queue := by
    intro i hi
    rw [hrealtime] at hi
    have hne : Signo.sigrt i ≠ signo := by
      intro heq
      rw [← heq] at hsigno
      cases hsigno
    rw [hset _ hne]
    exact h.queue i hi
  named := by
    intro s signal hsignal
    rw [hstandard] at hsignal
    by_cases heq : s = signo
    · subst heq
      rw [update_self] at hsignal
      exact hslot signal hsignal
    · rw [update_of_ne heq] at hsignal
      exact h.named s signal hsignal
  sorted := hrealtime ▸ h.sorted

/-- Filling the slot of a standard signal. -/
theorem WF.fill (h : q.WF) (signal : StandardSignal) :
    WF { q with
      standard := update q.standard signal.info.signo (some signal)
      set := (q.set.add signal.info.signo).2 } := by
  refine h.setStandard signal.standard rfl rfl ?_ (by simp) ?_
  · intro s hs
    simp [hs]
  · rintro _ ⟨⟩
    rfl

theorem WF.publish (h : q.WF) (prepared : PreparedSignal) : (q.publish prepared).2.WF := by
  obtain ⟨kind, generation⟩ := prepared
  cases kind with
  | standard signal =>
    unfold PendingSignals.publish
    dsimp only
    split
    · exact h
    exact h.fill { signal with generation }
  | realtime node =>
    have hsigno : node.info.signo = .sigrt node.index := node.info.signo.eq_sigrt node.realtime
    refine @WF.setRealtime q _ h node.index _ rfl rfl ?_ ?_ (Lib.forall_mem_concat (h.sorted _) rfl)
    · intro s hs
      simp [PendingSignals.publish, hsigno, hs]
    · simp [PendingSignals.publish, hsigno]
  | realtimeFallback info realtime =>
    have hadd := h.addRealtime (info.signo.rtIndex realtime)
    rwa [← info.signo.eq_sigrt realtime] at hadd

/-! ## Selection -/

/-- Emptying the slot of a standard number whose bit is cleared. -/
theorem WF.clear (h : q.WF) {signo : Signo} {set : SignalSet} (hstd : signo.isRealtime = false)
    (hset : ∀ s, set.has s = (q.set.has s && decide (s ≠ signo))) :
    WF { q with set, standard := update q.standard signo none } := by
  refine h.setStandard hstd rfl rfl ?_ (by simp [hset]) (by nofun)
  intro s hs
  simp [hset, hs]

/-- What a selection does: nothing, or it takes one signal out of the queue. -/
theorem WF.dequeueSignal_cases (h : q.WF) (mask : SignalSet) :
    (q.dequeueSignal mask = (.ok none, q) ∧ ∀ s, ¬ (q.set.has s = true ∧ mask.has s = true)) ∨
      ∃ signal q', q.dequeueSignal mask = (.ok (some signal), q') ∧
        q.set.has signal.signo = true ∧ mask.has signal.signo = true ∧
        q'.WF ∧ q'.items + signal.items = q.items := by
  unfold dequeueSignal
  split
  · next set hdeq =>
    left
    obtain ⟨hrest, hnone⟩ := SignalSet.dequeue_none hdeq
    exact ⟨by rw [hrest], hnone⟩
  · next signo set hdeq =>
    right
    obtain ⟨hin, hmask, hset⟩ := SignalSet.dequeue_some hdeq
    dsimp only
    split
    · next index =>
      split
      · next node rest hhead =>
        have hnode : node.info.signo = .sigrt index := by
          have hidx := h.sorted index node (hhead ▸ mem_cons_self ..)
          rw [node.info.signo.eq_sigrt node.realtime]
          exact congrArg Signo.sigrt hidx
        refine ⟨.realtime node, _, rfl, by rwa [DequeuedSignal.signo, hnode],
          by rwa [DequeuedSignal.signo, hnode], ?_, ?_⟩
        · have hsorted : ∀ node ∈ rest, node.index = index := by
            intro stored hstored
            exact h.sorted index stored (hhead ▸ mem_cons_of_mem node hstored)
          split
          · next hrest =>
            refine h.setRealtime rfl rfl ?_ (absurd (isEmpty_iff.mp hrest)) hsorted
            intro s hs
            simp [hset, hs]
          · refine h.setRealtime rfl rfl ?_ (by simp) hsorted
            intro s hs
            simp [hset, hs]
        · have hupd := items_update q
            { q with set, realtime := update q.realtime index rest } index rest rfl
          rw [hhead, itemsOf_cons, ← add_assoc] at hupd
          have hitems := add_right_cancel hupd
          split <;> exact hitems
      · next hnil =>
        refine ⟨_, _, rfl, hin, hmask, h.setRealtime rfl (update_eq_self index _).symm ?_
          (absurd hnil) (h.sorted index), add_zero _⟩
        intro s hs
        simp [hset, hs]
    · next hstd =>
      have hrt : signo.isRealtime = false := by
        cases signo <;> first | rfl | exact absurd rfl (hstd _)
      split
      · next signal hslot =>
        have hnamed := h.named signo signal hslot
        exact ⟨_, _, rfl, by rwa [DequeuedSignal.signo, hnamed],
          by rwa [DequeuedSignal.signo, hnamed], h.clear hrt hset, add_zero _⟩
      · next hnone =>
        -- the bit is set, so the slot is not empty
        have hslot := (h.slot signo hrt).mp hin
        rw [hnone] at hslot
        cases hslot

/-! ## Detaching and putting back -/

theorem WF.detachSignalInto (h : q.WF) (signo : Signo) (detached : List RealtimeSignalNode) :
    (q.detachSignalInto signo detached).2.WF ∧
      (q.detachSignalInto signo detached).2.items
          + itemsOf (q.detachSignalInto signo detached).1
        = q.items + itemsOf detached := by
  unfold PendingSignals.detachSignalInto
  split
  · exact ⟨h, rfl⟩
  next set hrem =>
  have hset : ∀ s, set.has s = (q.set.has s && decide (s ≠ signo)) := by
    intro s
    have hrem' := congrArg Prod.snd hrem
    rw [← SignalSet.has_remove, hrem']
  split
  · next index =>
    refine ⟨h.setRealtime rfl rfl ?_ (absurd rfl) (by nofun), ?_⟩
    · intro s hs
      simp [hset, hs]
    · have hupd := items_update q
        { q with set, realtime := update q.realtime index [] } index [] rfl
      rw [itemsOf_nil, add_zero] at hupd
      rw [itemsOf_append, add_left_comm, hupd, add_comm]
  · next hstd =>
    have hrt : signo.isRealtime = false := by
      cases signo <;> first | rfl | exact absurd rfl (hstd _)
    exact ⟨h.clear hrt hset, rfl⟩

theorem takeAll_items (q : PendingSignals) : q.takeAll.2.items + itemsOf q.takeAll.1 = q.items := by
  show default.items + itemsOf q.nodes = q.items
  rw [items_default, zero_add, items_nodes]

theorem WF.requeueFront (h : q.WF) (signal : DequeuedSignal) :
    (q.requeueFront signal).WF ∧ (q.requeueFront signal).items = q.items + signal.items := by
  cases signal with
  | standard signal => exact ⟨h.fill signal, (add_zero _).symm⟩
  | realtime node =>
    have hsigno : node.info.signo = .sigrt node.index := node.info.signo.eq_sigrt node.realtime
    refine ⟨h.setRealtime rfl rfl ?_ ?_ (forall_mem_cons.mpr ⟨rfl, h.sorted _⟩), ?_⟩
    · intro s hs
      simp [PendingSignals.requeueFront, hsigno, hs]
    · simp [PendingSignals.requeueFront, hsigno]
    · have hupd := items_update q (q.requeueFront (.realtime node)) node.index
        (node :: q.realtime node.index) rfl
      rw [itemsOf_cons, ← add_assoc] at hupd
      exact add_right_cancel hupd
  | realtimeFallback index publishEpoch =>
    show WF (if _ then _ else _) ∧ items (if _ then _ else _) = _
    split
    · exact ⟨h.addRealtime index, (add_zero _).symm⟩
    · exact ⟨h, (add_zero _).symm⟩

end PendingSignals

end LinuxAbi.Signal
