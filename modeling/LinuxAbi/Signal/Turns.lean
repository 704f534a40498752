import LinuxAbi.Signal.Frame

/-!
# The turns of a delivery check

A delivery check goes through the phases of `CheckPhase`, one section at a time. `Next`
lists the phases that each section can lead to, and `check_turn` says that this is all
that happens to the checks in progress: one of them moves on or ends, or a new one is
opened.

`seen_before_call` is the rule that follows: what an observer sees in a check after a
call was to be seen there before, as soon as no phase that the call leads to shows
anything new.
-/

namespace LinuxAbi.Signal

/-- The phases that a section leads to. -/
inductive CheckPhase.Next : SignalCall → Nat → CheckPhase → CheckPhase → Prop
  | mask : Next (.checkMask h) t (.opened excluded) (.threadQueue mask)
  | threadMissed : Next (.checkSelect h) t (.threadQueue mask) (.processQueue mask)
  | threadTaken :
    Next (.checkSelect h) t (.threadQueue mask) (.selected mask (.thread t) signal)
  | processTaken :
    Next (.checkSelect h) t (.processQueue mask) (.selected mask (.process p) signal)
  | armed :
    Next (.checkBypass h generation priority) t (.threadQueue mask)
      (.bypassThread mask signo generation)
  | bypassMissed :
    Next (.checkPriority h) t (.bypassThread mask signo generation)
      (.bypassProcess mask signo generation)
  | bypassThreadTaken :
    Next (.checkPriority h) t (.bypassThread mask signo generation) (.selected mask (.thread t) signal)
  | bypassThreadStale :
    Next (.checkPriority h) t (.bypassThread mask signo generation) (.stale mask (.thread t) signal)
  | disarmed :
    Next (.checkPriority h) t (.bypassProcess mask signo generation) (.threadQueue mask)
  | bypassProcessTaken :
    Next (.checkPriority h) t (.bypassProcess mask signo generation)
      (.selected mask (.process p) signal)
  | bypassProcessStale :
    Next (.checkPriority h) t (.bypassProcess mask signo generation) (.stale mask (.process p) signal)
  | putBack : Next (.checkPutBack h) t (.stale mask source signal) (.threadQueue mask)
  | claimed :
    Next (.checkClaim h keep) t (.selected mask source signal)
      (.claimed mask source signal.intoInfo (if keep then some signal else none) action claim)
  | handled :
    Next (.checkHandle h answer hook framed) t (.claimed mask source info signal action claim)
      (.handled mask source signal claim result)
  | finished :
    Next (.checkFinish h) t (.handled mask source signal claim result)
      (.finished mask source signal result)
  | again : Next (.checkDispose h) t (.finished mask source signal result) (.threadQueue mask)

namespace World

/-- What one call can do to the checks in progress. -/
inductive Turn (c : SignalCall) (w : World) : World → Prop
  | none : Turn c w w
  | opened (hc : c = .checkOpen t excluded) (ht : w.threads[t]? = some thread)
      (hactive : thread.lifecycle = .active) :
    Turn c w (w.putHand (.check t (.opened excluded)))
  | next (hh : w.hands[h]? = some (.check t phase))
      (hnext : phase.Next c t phase') : Turn c w (w.setHand h (.check t phase'))
  | ended (hh : w.hands[h]? = some (.check t phase))
      (hhand : hand.part = none) : Turn c w (w.setHand h hand)

variable {w w' : World} {c : SignalCall}

/-- The checks in progress are those of a turn. -/
def Turned (c : SignalCall) (w w' : World) : Prop :=
  ∃ w₀, Turn c w w₀ ∧ ∀ i, w'.holding .checks i = w₀.holding .checks i

theorem turned_refl (c : SignalCall) (w : World) : Turned c w w := ⟨w, .none, fun _ => rfl⟩

theorem holding_of_hands (h : w'.hands = w.hands) (part : Part) (i : Nat) :
    w'.holding part i = w.holding part i := by
  unfold holding
  rw [h]

variable {h t : Nat} {phase : CheckPhase}

theorem turned_next (hh : w.hands[h]? = some (.check t phase)) (hnext : phase.Next c t phase')
    (hhands : w'.hands = w.hands.set h (.check t phase')) : Turned c w w' :=
  ⟨_, .next hh hnext, holding_of_hands hhands _⟩

theorem turned_ended (hh : w.hands[h]? = some (.check t phase))
    (hhand : hand.part = none) (hhands : w'.hands = w.hands.set h hand) : Turned c w w' :=
  ⟨_, .ended hh hhand, holding_of_hands hhands _⟩

theorem Turned.putHand (ht : Turned c w w') (hextra : extra.part = none) :
    Turned c w (w'.putHand extra) := by
  obtain ⟨w₀, hturn, hsame⟩ := ht
  refine ⟨w₀, hturn, ?_⟩
  intro i
  rw [← hsame i]
  have hput : Frame [] w' (w'.putHand extra) := by
    refine (Frame.refl _ w').putHand ?_
    unfold Hand.among
    rw [hextra]
  exact hput.hands .checks List.not_mem_nil i

/-! ## Section by section -/

theorem hands_dequeueOwned (w : World) (q : QueueId) (mask : SignalSet) :
    (w.dequeueOwned q mask).2.hands = w.hands := by
  unfold dequeueOwned
  split
  · rfl
  · exact hands_storeQueue ..

theorem part_spentHand (signal : DequeuedSignal) : (spentHand signal).part = none := by
  cases signal <;> rfl

theorem part_requeue (w : World) (q : QueueId) (signal : DequeuedSignal) :
    (w.requeue q signal).1.part = none := by
  rcases w.requeue_cases q signal with heq | ⟨old, -, heq⟩
  · rw [heq]
    cases signal <;> rfl
  · rw [heq]
    rfl

theorem turned_checkTake
    {taken : DequeuedSignal → CheckPhase} (hh : w.hands[h]? = some (.check t phase))
    (hmissed : otherwise.part = none ∨ ∃ phase', otherwise = .check t phase' ∧ phase.Next c t phase')
    (htaken : ∀ signal, phase.Next c t (taken signal)) :
    Turned c w (w.checkTake h mask q otherwise fun signal => .check t (taken signal)).2 := by
  have hhands := w.hands_dequeueOwned q mask
  have hset : ∀ {mid : World}, mid.hands = w.hands → ∀ new : Hand,
      (mid.setHand h new).hands = w.hands.set h new := by
    intro mid hmid new
    show mid.hands.set h new = _
    rw [hmid]
  unfold checkTake
  split
  · next heq =>
    rw [heq] at hhands
    exact ⟨w, .none, holding_of_hands hhands _⟩
  · next heq =>
    rw [heq] at hhands
    exact turned_ended hh rfl (hset hhands _)
  · next heq =>
    rw [heq] at hhands
    rcases hmissed with hnone | ⟨phase', rfl, hnext⟩
    · exact turned_ended hh hnone (hset hhands _)
    · exact turned_next hh hnext (hset hhands _)
  · next signal _ heq =>
    rw [heq] at hhands
    exact turned_next hh (htaken signal) (hset hhands _)

theorem turned_checkClaim (w : World) (h : Nat) (keep : Bool) :
    Turned (.checkClaim h keep) w (w.checkClaim h keep).2 := by
  unfold checkClaim
  split
  · next signal hh =>
    split
    · exact turned_refl _ w
    split
    · exact turned_refl _ w
    dsimp only
    split
    · next hkeep =>
      subst hkeep
      exact turned_next hh .claimed rfl
    · next hkeep =>
      cases Bool.not_eq_true keep ▸ hkeep
      exact (turned_next hh .claimed rfl).putHand (part_spentHand signal)
  · exact turned_refl _ w

theorem turned_checkHandle (w : World) (h : Nat) (answer : SignalDeliveryPreflight)
    (hook framed : Bool) :
    Turned (.checkHandle h answer hook framed) w (w.checkHandle h answer hook framed).2 := by
  unfold checkHandle
  split
  · next hh =>
    split
    · exact turned_refl _ w
    split
    · exact turned_next hh .handled rfl
    split
    · exact turned_next hh .handled rfl
    · exact turned_next hh .handled rfl
  · exact turned_refl _ w

theorem turned_checkFinish (w : World) (h : Nat) :
    Turned (.checkFinish h) w (w.checkFinish h).2 := by
  unfold checkFinish
  split
  · next hh =>
    dsimp only
    split
    · exact turned_next hh .finished rfl
    split
    · exact turned_next hh .finished rfl
    · exact turned_next hh .finished rfl
  · exact turned_refl _ w

theorem turned_checkDispose (w : World) (h : Nat) :
    Turned (.checkDispose h) w (w.checkDispose h).2 := by
  unfold checkDispose
  split
  · next t mask source signal result hh =>
    have hagain : ∀ {w' : World}, w'.hands = w.hands.set h
        (if result = .action none then .check t (.threadQueue mask) else .empty) →
        Turned (.checkDispose h) w w' := by
      intro w' hhands
      split at hhands
      · exact turned_next hh .again hhands
      · exact turned_ended hh rfl hhands
    dsimp only
    split
    · exact hagain rfl
    next signal =>
    split
    · refine turned_ended hh (part_requeue w source signal) ?_
      show (w.requeue source signal).2.hands.set h _ = _
      rw [hands_requeue]
    · exact (hagain rfl).putHand (part_spentHand signal)
  · exact turned_refl _ w

/-- What one call does to the checks in progress. -/
theorem check_turn (w : World) (c : SignalCall) : Turned c w (w.call c).2 := by
  by_cases hchecks : .checks ∉ c.parts
  · exact ⟨w, .none, (w.frame_call c).hands .checks hchecks⟩
  cases c with
  | checkOpen t excluded =>
    show Turned _ w (w.checkOpen t excluded).2
    unfold checkOpen
    split
    · exact turned_refl _ w
    next thread ht =>
    split
    · exact turned_refl _ w
    next hactive =>
    split
    · exact turned_refl _ w
    · exact ⟨_, .opened rfl ht (not_not.mp hactive), fun _ => rfl⟩
  | checkMask h =>
    show Turned _ w (w.checkMask h).2
    unfold checkMask
    split
    · next hh =>
      split
      · exact turned_refl _ w
      · exact turned_next hh .mask rfl
    · exact turned_refl _ w
  | checkSelect h =>
    show Turned _ w (w.checkSelect h).2
    unfold checkSelect
    split
    · next hh =>
      exact turned_checkTake hh (.inr ⟨_, rfl, .threadMissed⟩) fun _ => .threadTaken
    · next hh =>
      split
      · exact turned_refl _ w
      · exact turned_checkTake hh (.inl rfl) fun _ => .processTaken
    · exact turned_refl _ w
  | checkBypass h generation priority =>
    show Turned _ w (w.checkBypass h generation priority).2
    unfold checkBypass
    split
    · next hh =>
      split
      · exact turned_next hh .armed rfl
      · exact turned_refl _ w
    · exact turned_refl _ w
  | checkPriority h =>
    show Turned _ w (w.checkPriority h).2
    unfold checkPriority
    split
    · next hh =>
      rw [checkPriorityQueue_eq]
      refine turned_checkTake hh (.inr ⟨_, rfl, .bypassMissed⟩) fun signal => ?_
      split
      · exact .bypassThreadTaken
      · exact .bypassThreadStale
    · next hh =>
      split
      · exact turned_refl _ w
      · rw [checkPriorityQueue_eq]
        refine turned_checkTake hh (.inr ⟨_, rfl, .disarmed⟩) fun signal => ?_
        split
        · exact .bypassProcessTaken
        · exact .bypassProcessStale
    · exact turned_refl _ w
  | checkPutBack h =>
    show Turned _ w (w.checkPutBack h).2
    unfold checkPutBack
    split
    · next source signal hh =>
      refine Turned.putHand (turned_next hh .putBack ?_) (part_requeue w source signal)
      show (w.requeue source signal).2.hands.set h _ = _
      rw [hands_requeue]
    · exact turned_refl _ w
  | checkClaim h keep => exact w.turned_checkClaim h keep
  | checkHandle h answer hook framed => exact w.turned_checkHandle h answer hook framed
  | checkFinish h => exact w.turned_checkFinish h
  | checkDispose h => exact w.turned_checkDispose h
  | _ => exact absurd (by simp [SignalCall.parts]) hchecks

/-! ## Observers of the checks -/

/-- An observer of the checks sees after a call what it could see before, unless the
call opens a check or moves one on to a phase that shows more. -/
theorem seen_before_call {α : Type} {f : Hand → Option α}
    (hsees : ∀ hand a, f hand = some a → hand.part = some .checks)
    (hopened : ∀ t excluded, c = .checkOpen t excluded → f (.check t (.opened excluded)) = none)
    (hnext : ∀ t phase phase' a, CheckPhase.Next c t phase phase' →
      f (.check t phase') = some a → f (.check t phase) = some a)
    {a : α} (hseen : (w.call c).2.seen f h = some a) : w.seen f h = some a := by
  obtain ⟨w₀, hturn, hsame⟩ := w.check_turn c
  rw [seen_eq_holding hsees, hsame h, ← seen_eq_holding hsees] at hseen
  cases hturn with
  | none => exact hseen
  | opened hc _ _ => rwa [seen_putHand_of_none (hopened _ _ hc)] at hseen
  | next hh hphase =>
    rw [seen_setHand hh] at hseen
    split at hseen
    · next heq =>
      rw [heq, seen_of_hand hh]
      exact hnext _ _ _ _ hphase hseen
    · exact hseen
  | ended hh hhand =>
    rw [seen_setHand hh] at hseen
    split at hseen
    · rw [hsees _ _ hseen] at hhand
      cases hhand
    · exact hseen

end World

end LinuxAbi.Signal
