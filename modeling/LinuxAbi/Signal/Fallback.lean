import LinuxAbi.Signal.Pending

/-!
# Putting back a real-time fallback

A real-time signal that could not be accounted is only a bit of the pending set. When the
delivery that took the bit puts it back, it compares the queue's count of published records
with the count it saw, and sets the bit if no record came in between.

`fallback_put_back` says that this is exact over every history without a whole-queue flush.
`take_all` starts the count over, and then the comparison goes wrong both ways.
-/

namespace LinuxAbi.Signal

/-- What happens to a pending queue while the fallback is out. -/
inductive QueueCall
  | publish (prepared : PreparedSignal)
  | dequeue (mask : SignalSet)
  | flush (signo : Signo)
  | takeAll
  | requeue (signal : DequeuedSignal)
deriving DecidableEq

/-- An accounted record of the signal is published. -/
def QueueCall.accounts (index : Fin 33) : QueueCall → Bool
  | .publish ⟨.realtime node, _⟩ => node.index == index
  | _ => false

namespace PendingSignals

def call (q : PendingSignals) : QueueCall → PendingSignals
  | .publish prepared => (q.publish prepared).2
  | .dequeue mask => (q.dequeueSignal mask).2
  | .flush signo => (q.detachSignalInto signo []).2
  | .takeAll => q.takeAll.2
  | .requeue signal => q.requeueFront signal

variable {q q₀ : PendingSignals} {index : Fin 33}

theorem epoch_dequeueSignal (q : PendingSignals) (mask : SignalSet) :
    (q.dequeueSignal mask).2.realtimePublishEpoch = q.realtimePublishEpoch := by
  unfold dequeueSignal
  dsimp only
  split
  · rfl
  split
  · split
    · split <;> rfl
    · rfl
  · split <;> rfl

/-- A call other than `take_all` counts the record it publishes, and nothing else. -/
theorem epoch_call (q : PendingSignals) (hc : c ≠ .takeAll) :
    (q.call c).realtimePublishEpoch index
      = q.realtimePublishEpoch index + BitVec.ofNat 64 (c.accounts index).toNat := by
  have hsame : ∀ {q' : PendingSignals}, q'.realtimePublishEpoch = q.realtimePublishEpoch →
      q'.realtimePublishEpoch index = q.realtimePublishEpoch index + 0#64 := by
    intro q' heq
    rw [heq, BitVec.add_zero]
  cases c with
  | takeAll => exact absurd rfl hc
  | dequeue mask => exact hsame (q.epoch_dequeueSignal mask)
  | flush signo =>
    refine hsame (show (q.detachSignalInto signo []).2.realtimePublishEpoch = _ from ?_)
    unfold detachSignalInto
    split
    · rfl
    · split <;> rfl
  | requeue signal =>
    refine hsame (show (q.requeueFront signal).realtimePublishEpoch = _ from ?_)
    unfold requeueFront
    split
    · rfl
    · rfl
    · split <;> rfl
  | publish prepared =>
    obtain ⟨kind, generation⟩ := prepared
    cases kind with
    | standard signal =>
      refine hsame (show (q.publish _).2.realtimePublishEpoch = _ from ?_)
      unfold publish
      dsimp only
      split <;> rfl
    | realtimeFallback => exact hsame rfl
    | realtime node =>
      show Function.update q.realtimePublishEpoch node.index _ index
        = _ + BitVec.ofNat 64 (node.index == index).toNat
      by_cases heq : node.index = index
      · subst heq
        rw [Function.update_self, beq_self_eq_true]
        rfl
      · rw [Function.update_of_ne (Ne.symm heq), beq_eq_false_iff_ne.mpr heq]
        exact (BitVec.add_zero _).symm

/-- The count along a history. -/
theorem epoch_calls : ∀ (calls : List QueueCall) (q : PendingSignals), .takeAll ∉ calls →
    (calls.foldl call q).realtimePublishEpoch index
      = q.realtimePublishEpoch index + BitVec.ofNat 64 (calls.countP (·.accounts index))
  | [], q, _ => (BitVec.add_zero _).symm
  | c :: calls, q, h => by
    obtain ⟨hc, hcalls⟩ := List.ne_and_not_mem_of_not_mem_cons h
    rw [List.foldl_cons, epoch_calls calls _ hcalls, epoch_call q (Ne.symm hc), BitVec.add_assoc,
      ← BitVec.ofNat_add, List.countP_cons, Nat.add_comm]
    cases c.accounts index <;> rfl

/-- A fallback comes with the count at its selection. -/
theorem epoch_of_fallback
    (h : q₀.dequeueSignal mask = (.ok (some (.realtimeFallback index epoch)), q)) :
    q.realtimePublishEpoch index = epoch := by
  unfold dequeueSignal at h
  dsimp only at h
  split at h
  · cases h
  split at h
  · split at h
    · cases h
    · cases h
      rfl
  · split at h <;> cases h

/-- After a history without `take_all` the bit is set if it was, or if no accounted record
of the signal was published since the fallback was taken. -/
theorem fallback_put_back {mask : SignalSet} {epoch : BitVec 64}
    (hselect : q₀.dequeueSignal mask = (.ok (some (.realtimeFallback index epoch)), q))
    (calls : List QueueCall) (hkeep : .takeAll ∉ calls)
    (hfew : calls.countP (·.accounts index) < 2 ^ 64) :
    ((calls.foldl call q).requeueFront (.realtimeFallback index epoch)).set.has (.sigrt index) = true ↔
      (calls.foldl call q).set.has (.sigrt index) = true ∨ ∀ c ∈ calls, c.accounts index = false := by
  have hepoch := @epoch_calls index calls q hkeep
  rw [epoch_of_fallback hselect] at hepoch
  have hnone : calls.countP (·.accounts index) = 0 ↔ ∀ c ∈ calls, c.accounts index = false := by
    simp [List.countP_eq_zero]
  rw [← hnone]
  show (if _ = epoch then _ else calls.foldl call q : PendingSignals).set.has _ = true ↔ _
  by_cases hcount : calls.countP (·.accounts index) = 0
  · rw [hcount] at hepoch
    rw [if_pos (hepoch.trans (BitVec.add_zero _))]
    simp [hcount]
  · -- the count cannot come round to where it was
    have hne : (calls.foldl call q).realtimePublishEpoch index ≠ epoch := by
      bv_omega
    rw [if_neg hne]
    simp [hcount]

/-! ## Whole-queue flushes -/

/-- A record of the first real-time signal. -/
def firstRealtime : QueueCall :=
  .publish ⟨.realtime ⟨0, .newUser (.sigrt 0) 0 0 0, none, ⟨0, 0⟩, rfl⟩, none⟩

/-- A fallback for the same signal. -/
def firstFallback : QueueCall := .publish (.unqueued (.newUser (.sigrt 0) 0 0 0))

/-- The fallback is pending after a record came and went. -/
def fallbackPending : PendingSignals :=
  [firstRealtime, .dequeue (-1#64), firstFallback].foldl call default

/-- The queue once the fallback is taken. -/
def fallbackTaken : PendingSignals := (fallbackPending.dequeueSignal (-1#64)).2

theorem fallback_put_back_superseded :
    ¬ (([firstRealtime, .dequeue (-1#64)].foldl call fallbackTaken).requeueFront
      (.realtimeFallback 0 1)).set.has (.sigrt 0) = true := by
  have hselect : fallbackPending.dequeueSignal (-1#64)
      = (.ok (some (.realtimeFallback 0 1)), fallbackTaken) :=
    Prod.ext (by decide +kernel) (by dsimp only [fallbackTaken])
  rw [fallback_put_back hselect _ (by decide) (by decide)]
  decide +kernel

/-- With a whole-queue flush in between, the fallback is lost although nothing was published,
and it comes back after a record was published and consumed. -/
theorem take_all_confuses_fallback :
    (fallbackPending.dequeueSignal (-1#64)).1 = .ok (some (.realtimeFallback 0 1)) ∧
      (([.takeAll].foldl call fallbackTaken).requeueFront (.realtimeFallback 0 1)).set.has
        (.sigrt 0) = false ∧
      ([.takeAll, firstRealtime, .dequeue (-1#64)].foldl call fallbackTaken).set.has
        (.sigrt 0) = false ∧
      (([.takeAll, firstRealtime, .dequeue (-1#64)].foldl call fallbackTaken).requeueFront
        (.realtimeFallback 0 1)).set.has (.sigrt 0) = true := by
  decide +kernel

end PendingSignals

end LinuxAbi.Signal
