import LinuxAbi.Signal.ResetHand

/-!
# What can block `SIGKILL` and `SIGSTOP`

The blocked mask of a thread is written by `set_blocked`, by a signal return and by
entering a handler. The first two strip the two signals that cannot be blocked;
entering a handler adds the mask of the action as it was stored, and
`SignalActions::replace` stores it as it was given. So the two signals stay
unblocked in the runs whose handler actions have masks without them.
-/

namespace LinuxAbi.Signal

open SignalSet
open SignalActions
open Function
open List
open Lib (run forall_mem_set)

/-- Whether the set has neither of the two signals. -/
def SignalSet.sparesKill (set : SignalSet) : Bool := !set.has .sigkill && !set.has .sigstop

/-- Whether entering the action's handler adds neither signal through its mask. -/
def SignalAction.sparesKill (action : SignalAction) : Bool :=
  !action.disposition.isHandler || action.mask.sparesKill

/-- Whether handling the signal with the action blocks neither of the two. -/
def SignalAction.sparesKillOn (action : SignalAction) (signo : Signo) : Bool :=
  !action.disposition.isHandler ||
    (action.mask.sparesKill && !isUncatchable signo)

/-- The same of an action that was claimed and is still to be handled. -/
def Hand.sparesKill : Hand → Bool
  | .check _ (.claimed _ _ info _ action _) => action.sparesKillOn info.signo
  | _ => true

/-- Whether a claimed action will block one of the two. -/
def Hand.blocks? (hand : Hand) : Option Unit := if hand.sparesKill then none else some ()

theorem SignalSet.sparesKill_or (a b : SignalSet) :
    sparesKill (a ||| b) = (a.sparesKill && b.sparesKill) := by
  simp only [sparesKill, has_or]
  cases a.has .sigkill <;> cases b.has .sigkill <;> simp

theorem SignalSet.sparesKill_stripped (set : SignalSet) :
    sparesKill (remove (set.remove .sigkill).2 .sigstop).2 = true := by
  simp [sparesKill]

theorem SignalSet.sparesKill_add (set : SignalSet)
    (hs : isUncatchable signo = false) :
    sparesKill (set.add signo).2 = set.sparesKill := by
  simp only [isUncatchable, Bool.or_eq_false_iff, beq_eq_false_iff_ne] at hs
  simp [sparesKill, Ne.symm hs.1, Ne.symm hs.2]

/-! ## Actions -/

namespace SignalActions

/-- Every stored action spares the two signals. -/
def Spares (a : SignalActions) : Prop := ∀ signo, (a.actions signo).sparesKill = true

theorem spares_default : Spares .default := fun _ => rfl

variable {a : SignalActions}

theorem Spares.replace (h : a.Spares) (signo : Signo) {action : SignalAction}
    (haction : action.sparesKill = true) : (a.replace signo action).2.Spares := by
  unfold SignalActions.replace
  split
  · exact h
  split
  · intro other
    show (update a.actions signo action other).sparesKill = true
    by_cases heq : other = signo
    · rw [heq, update_self]
      exact haction
    · rw [update_of_ne heq]
      exact h other
  · exact h

/-- A claimed action is a stored one, and never a handler of the two signals. -/
theorem Spares.claimDelivery (h : a.Spares) (signo : Signo) :
    (a.claimDelivery signo).1.1.sparesKillOn signo = true ∧ (a.claimDelivery signo).2.Spares := by
  unfold SignalActions.claimDelivery
  split
  · exact ⟨rfl, h⟩
  next hcatch =>
  have haction : (a.actions signo).sparesKillOn signo = true := by
    have hstored := h signo
    unfold SignalAction.sparesKill at hstored
    unfold SignalAction.sparesKillOn
    rw [(Bool.not_eq_true _).mp hcatch]
    simpa using hstored
  split
  · exact ⟨rfl, h⟩
  dsimp only
  split
  · exact ⟨haction, h⟩
  · exact ⟨haction, h⟩

theorem Spares.finishDelivery (h : a.Spares) (claim : ResetDeliveryClaim)
    (commit : Bool) : (a.finishDelivery claim commit).Spares := by
  unfold SignalActions.finishDelivery
  dsimp only
  split
  · exact h
  split
  · intro other
    show (update a.actions claim.signo SignalAction.default other).sparesKill = true
    by_cases heq : other = claim.signo
    · rw [heq, update_self]
      rfl
    · rw [update_of_ne heq]
      exact h other
  · exact h

theorem Spares.snapshot (h : a.Spares) : a.snapshot.Spares := by
  intro signo
  show SignalAction.sparesKill (if _ then _ else _) = true
  split
  · rfl
  · exact h signo

/-- No handler survives an exec. -/
theorem spares_execSnapshot (a : SignalActions) : a.execSnapshot.Spares := by
  intro signo
  unfold execSnapshot
  dsimp only
  split <;> rfl

end SignalActions

/-- Handling a signal keeps the mask clear of the two signals when the action does. -/
theorem ThreadSignalManager.handleSignal_spares {t : ThreadSignalManager} {signo : Signo}
    {action : SignalAction} (ht : t.blocked.sparesKill = true)
    (haction : action.sparesKillOn signo = true) (framed : Bool) :
    (t.handleSignal signo action framed).2.blocked.sparesKill = true := by
  unfold ThreadSignalManager.handleSignal
  split
  · exact ht
  · exact ht
  next handler hhdl =>
  unfold SignalAction.sparesKillOn at haction
  rw [hhdl] at haction
  obtain ⟨hmask, hcatch⟩ : action.mask.sparesKill = true ∧
      isUncatchable signo = false := by
    simpa [SignalDisposition.isHandler] using haction
  split
  · show sparesKill (t.blocked ||| _) = true
    rw [sparesKill_or, ht, Bool.true_and]
    split
    · exact hmask
    · rw [sparesKill_add _ hcatch]
      exact hmask
  · exact ht

/-- What a call that brings an action with it must keep to. -/
def SignalCall.sparesKill : SignalCall → Bool
  | .replaceAction _ _ action _ => action.sparesKill
  | .handleSignal _ signo action _ _ => action.sparesKillOn signo
  | _ => true

namespace World

/-! ## The invariant and the writes that keep it -/

/-- Nothing in the world blocks the two signals or is about to. -/
structure Spares (w : World) : Prop where
  blocked : ∀ t ∈ w.threads, t.blocked.sparesKill = true
  stored : ∀ actions ∈ w.owners, actions.Spares
  claimed : ∀ hand ∈ w.hands, hand.sparesKill = true

variable {w : World}

theorem spares_empty : Spares World.empty := by
  constructor
  · intro t ht
    cases ht
  · intro actions hactions
    cases hactions
  · intro hand hhand
    cases hhand

theorem Spares.thread (h : Spares w) {t : Nat} {thread : ThreadSignalManager}
    (ht : w.threads[t]? = some thread) : thread.blocked.sparesKill = true :=
  h.blocked thread (mem_of_getElem? ht)

theorem Spares.owner (h : Spares w) {o : Nat} {actions : SignalActions}
    (ho : w.owners[o]? = some actions) : actions.Spares :=
  h.stored actions (mem_of_getElem? ho)

theorem Spares.snocOwner (h : Spares w) (hnew : new.Spares) :
    ∀ actions ∈ w.owners ++ [new], actions.Spares :=
  Lib.forall_mem_concat h.stored hnew

/-! ## One call -/

variable {c : SignalCall}

/-- The tables after a call that stores masks without the two signals. -/
theorem Spares.stored_call (h : Spares w) (hc : c.sparesKill = true) :
    ∀ actions ∈ (w.call c).2.owners, actions.Spares := by
  by_cases htables : .owners ∉ c.parts
  · rw [(w.frame_call c).owners htables]
    exact h.stored
  cases c with
  | replaceAction p signo action snapshotted =>
    show ∀ actions ∈ (w.replaceAction p signo action snapshotted).2.owners, actions.Spares
    cases hcall : w.replaceAction p signo action snapshotted with | mk answer w'
    rcases replaceAction_cases hcall with
      ⟨rfl, -⟩ | ⟨m, a, a', old, -, ha, hr, -, howners⟩
    · exact h.stored
    have hreplaced := (h.owner ha).replace signo hc
    rw [hr] at hreplaced
    rw [howners]
    exact forall_mem_set h.stored hreplaced
  | newOwner allocated =>
    show ∀ actions ∈ (w.newOwner allocated).2.owners, actions.Spares
    unfold newOwner
    split
    · exact h.snocOwner spares_default
    · exact h.stored
  | snapshotOwner owner allocated =>
    show ∀ actions ∈ (w.snapshotOwner owner allocated).2.owners, actions.Spares
    unfold snapshotOwner
    split
    · exact h.stored
    next actions ho =>
    split
    · exact h.stored
    split
    · exact h.snocOwner (h.owner ho).snapshot
    · exact h.stored
  | prepareExecUnshare p allocated =>
    show ∀ actions ∈ (w.prepareExecUnshare p allocated).2.owners, actions.Spares
    unfold prepareExecUnshare
    split
    · exact h.stored
    next actions ho =>
    split
    · exact h.snocOwner actions.spares_execSnapshot
    · exact h.stored
  | commitExecUnshare i =>
    show ∀ actions ∈ (w.commitExecUnshare i).2.owners, actions.Spares
    cases hcall : w.commitExecUnshare i with | mk answer w'
    rcases commitExecUnshare_cases hcall with
      ⟨rfl, -⟩ | ⟨p, replacement, m, source, -, -, -, -, howners, -⟩
    · exact h.stored
    rw [howners]
    exact forall_mem_set h.stored source.spares_execSnapshot
  | checkClaim i keep =>
    show ∀ actions ∈ (w.checkClaim i keep).2.owners, actions.Spares
    cases hcall : w.checkClaim i keep with | mk answer w'
    rcases checkClaim_cases hcall with
      rfl | ⟨t, mask, source, signal, m, a, action, claim, a', -, -, ha, hclaim, howners, -⟩
    · exact h.stored
    have hclaimed := ((h.owner ha).claimDelivery signal.signo).2
    rw [hclaim] at hclaimed
    rw [howners]
    exact forall_mem_set h.stored hclaimed
  | checkFinish i =>
    show ∀ actions ∈ (w.checkFinish i).2.owners, actions.Spares
    cases hcall : w.checkFinish i with | mk answer w'
    rcases checkFinish_cases hcall with
      ⟨-, howners, -⟩ | ⟨claim, commit, -, -, -, howners⟩
    · rw [howners]
      exact h.stored
    rw [howners]
    split
    · exact h.stored
    · next ha => exact forall_mem_set h.stored ((h.owner ha).finishDelivery _ _)
  | _ => exact absurd (by simp [SignalCall.parts]) htables

theorem signo_intoInfo (signal : DequeuedSignal) : signal.intoInfo.signo = signal.signo := by
  cases signal <;> rfl

theorem seen_blocks (h : Spares w) (i : Nat) : w.seen Hand.blocks? i = none := by
  unfold seen
  cases hi : w.hands[i]? with
  | none => rfl
  | some hand => simp [Hand.blocks?, h.claimed hand (mem_of_getElem? hi)]

/-- The claimed actions after a call: one that `checkClaim` picks up was stored. -/
theorem Spares.claimed_call (h : Spares w) (c : SignalCall) :
    ∀ hand ∈ (w.call c).2.hands, hand.sparesKill = true := by
  have hsees : ∀ (hand : Hand) a, hand.blocks? = some a → hand.part = some .checks := by
    intro hand a ha
    cases hand <;> first | rfl | cases ha
  have hnone : ∀ i, (w.call c).2.seen Hand.blocks? i = none := by
    intro i
    by_cases hc : ∀ i keep, c ≠ .checkClaim i keep
    · refine Option.eq_none_iff_forall_not_mem.mpr ?_
      intro a ha
      have hbef := seen_before_call hsees (fun _ _ _ => rfl) ?_ ha
      · rw [seen_blocks h] at hbef
        cases hbef
      · -- no phase but `claimed` blocks anything
        intro t phase phase' a hnext hsome
        cases hnext with
        | claimed => exact absurd rfl (hc _ _)
        | _ => cases hsome
    · obtain ⟨j, hc⟩ := not_forall.mp hc
      obtain ⟨keep, hc⟩ := not_forall.mp hc
      obtain rfl := not_not.mp hc
      show (w.checkClaim j keep).2.seen _ i = none
      cases hcall : w.checkClaim j keep with | mk answer w'
      rcases checkClaim_cases hcall with
        rfl | ⟨t, mask, source, signal, m, a, action, claim, a', -, -, ha, hclaim, -, hseen⟩
      · exact seen_blocks h i
      have hstored := ((h.owner ha).claimDelivery signal.signo).1
      rw [hclaim] at hstored
      rw [hseen hsees i]
      split
      · simp only [Hand.blocks?, Hand.sparesKill, signo_intoInfo, hstored, if_true]
      · exact seen_blocks h i
  intro hand hmem
  obtain ⟨i, hi⟩ := mem_iff_getElem?.mp hmem
  have hi' := hnone i
  rw [seen_of_hand hi] at hi'
  by_contra hblocks
  rw [Hand.blocks?, if_neg hblocks] at hi'
  cases hi'

/-- The masks after a call that handles no signal with an action that blocks the two. -/
theorem Spares.blocked_call (h : Spares w) (hc : c.sparesKill = true) :
    ∀ t ∈ (w.call c).2.threads, t.blocked.sparesKill = true := by
  by_cases hmasks : .masks ∉ c.parts
  · intro t ht
    have hmem : t.blocked ∈ w.threads.map (·.blocked) := by
      rw [← (w.frame_call c).masks hmasks]
      exact mem_map_of_mem ht
    obtain ⟨old, hold, heq⟩ := mem_map.mp hmem
    rw [← heq]
    exact h.blocked old hold
  cases c with
  | newThread p allocated =>
    show ∀ t ∈ (w.newThread p allocated).2.threads, _
    unfold newThread
    split
    · exact h.blocked
    split
    · refine Lib.forall_mem_concat h.blocked ?_
      simp [ThreadSignalManager.new, sparesKill]
    · exact h.blocked
  | setBlocked t set =>
    show ∀ row ∈ (w.setBlocked t set).2.threads, _
    unfold setBlocked
    split
    · exact h.blocked
    · exact forall_mem_set h.blocked set.sparesKill_stripped
  | restore t sigmask valid =>
    show ∀ row ∈ (w.restore t sigmask valid).2.threads, _
    unfold restore
    split
    · exact h.blocked
    split
    · exact forall_mem_set h.blocked sigmask.sparesKill_stripped
    · exact h.blocked
  | handleSignal t signo action hook framed =>
    show ∀ row ∈ (w.handleSignal t signo action hook framed).2.threads, _
    unfold handleSignal
    split
    · exact h.blocked
    next ht =>
    split
    · exact h.blocked
    · exact forall_mem_set h.blocked
        (ThreadSignalManager.handleSignal_spares (h.thread ht) hc framed)
  | checkHandle i answer hook framed =>
    show ∀ t ∈ (w.checkHandle i answer hook framed).2.threads, _
    unfold checkHandle
    split
    · next hi =>
      split
      · exact h.blocked
      next ht =>
      split
      · exact h.blocked
      split
      · exact h.blocked
      · exact forall_mem_set h.blocked (ThreadSignalManager.handleSignal_spares (h.thread ht)
          (h.claimed _ (mem_of_getElem? hi)) framed)
    · exact h.blocked
  | _ => exact absurd (by simp [SignalCall.parts]) hmasks

theorem Spares.call (h : Spares w) (hc : c.sparesKill = true) :
    Spares (w.call c).2 :=
  ⟨h.blocked_call hc, h.stored_call hc, h.claimed_call c⟩

theorem run_spares (hcalls : ∀ c ∈ calls, c.sparesKill = true) :
    Spares (run World.call World.empty calls) := by
  refine Lib.run_preserves_of ?_ spares_empty calls hcalls
  intro w c hc h
  exact h.call hc

/-- No thread blocks the two signals, and a delivery check of a thread that has one
pending, on itself or on its process, may select it and selects something. -/
def Killable (w : World) : Prop :=
  ∀ i t, w.threads[i]? = some t → ∀ s, isUncatchable s = true →
    t.blocked.has s = false ∧ ∀ excluded : SignalSet, excluded.has s = false →
      (t.deliveryMask excluded).has s = true ∧
        ∀ q pending, q = .thread i ∨ q = .process t.proc → w.queue q = some pending →
          pending.set.has s = true →
          ∃ signal, (pending.dequeueSignal (t.deliveryMask excluded)).1 = .ok (some signal)

theorem has_of_sparesKill {set : SignalSet} (h : set.sparesKill = true) {s : Signo}
    (hs : isUncatchable s = true) : set.has s = false := by
  simp only [sparesKill, Bool.and_eq_true, Bool.not_eq_true'] at h
  simp only [isUncatchable, Bool.or_eq_true, beq_iff_eq] at hs
  rcases hs with rfl | rfl
  · exact h.1
  · exact h.2

/-- In every run whose handler actions have masks without the two signals, whatever
masks are set and whatever frames are returned from, the two stay unblocked. -/
theorem run_killable {calls : List SignalCall} (hcalls : ∀ c ∈ calls, c.sparesKill = true) :
    Killable (run World.call World.empty calls) := by
  intro i t ht s hs
  have hblocked := has_of_sparesKill ((run_spares hcalls).thread ht) hs
  refine ⟨hblocked, ?_⟩
  intro excluded hexcluded
  have hmask : (t.deliveryMask excluded).has s = true := by
    simp [ThreadSignalManager.deliveryMask, hblocked, hexcluded]
  refine ⟨hmask, ?_⟩
  intro q pending _ hq hpending
  rcases ((run_books calls).wf.queue hq).dequeueSignal_cases (t.deliveryMask excluded) with
    ⟨-, hnone⟩ | ⟨signal, rest, heq, -⟩
  · exact absurd ⟨hpending, hmask⟩ (hnone s)
  · exact ⟨signal, by rw [heq]⟩

/-- A thread that is sent `SIGUSR1` and takes it with the action, and is then sent
`SIGKILL`. -/
def handlerCalls (action : SignalAction) : List SignalCall :=
  [.newOwner true, .newProcess 0 8, .newThread 0 true, .tryRegister 0 100 true,
    .commitAdmission 0, .replaceAction 0 .sigusr1 action true,
    .beginAccounted (.newUser .sigusr1 0 1 0) 0 0 0, .threadCommit 0 .active 1, .raiseFlag 3,
    .checkOpen 0 0#64, .checkMask 4, .checkSelect 4, .checkClaim 4 true,
    .checkHandle 4 .proceed true true, .checkFinish 4, .checkDispose 4,
    .beginAccounted (.newUser .sigkill 0 1 0) 0 0 0, .threadCommit 0 .active 6]

/-- `rt_sigaction` with a handler and the given mask. -/
def handlerWith (mask : SignalSet) : SignalAction :=
  .ofRaw { handler := 0x1000#64, flags := 0#64, restorer := 0#64, mask }

/-- After entering a handler that masks another signal, `SIGKILL` is pending and can be
selected. -/
theorem run_killable_in_handler :
    let w := run World.call World.empty (handlerCalls (handlerWith (signoBit .sigusr2)))
    Killable w ∧ w.threads.map (fun t => (t.blocked.has .sigusr2, t.pending.set.has .sigkill))
      = [(true, true)] :=
  ⟨run_killable (by decide), by decide +kernel⟩

/-- A handler whose mask has the two signals blocks them when it is entered: the
pending `SIGKILL` is not selected. -/
theorem handler_mask_blocks_kill :
    let mask := signoBit .sigkill ||| signoBit .sigstop
    let w := run World.call World.empty (handlerCalls (handlerWith mask))
    w.threads.map (fun t => (t.blocked.has .sigkill, t.blocked.has .sigstop,
        t.pending.set.has .sigkill, (t.pending.dequeueSignal (t.deliveryMask 0#64)).1))
      = [(true, true, true, .ok none)] := by
  decide +kernel

end World

end LinuxAbi.Signal
