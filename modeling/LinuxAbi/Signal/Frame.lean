import LinuxAbi.Signal.Steps

/-!
# What each call leaves alone

`SignalCall.parts` lists the parts of the state a call can change: the action tables,
which owner each process has, the thread registry, masks, counters, what is put into the
queues, and the four kinds of value that running code keeps across locks (admissions,
prepared sends, exec tokens, delivery checks). `frame_call` says that every other part is
as it was, so an assertion about one part is proved over the few calls that name it.
-/

namespace LinuxAbi.Signal

open List

/-- The parts a call can change. -/
def SignalCall.parts : SignalCall → List Part
  | .replaceAction _ _ _ _ | .newOwner _ | .snapshotOwner _ _ => [.owners]
  | .prepareExecUnshare _ _ => [.owners, .execs]
  | .commitExecUnshare _ => [.owners, .seats, .execs]
  | .newProcess _ _ => [.seats, .registry]
  | .newThread _ _ => [.registry, .masks, .counters]
  | .cancelRegistration _ | .retireRegistration _ _ _ | .dropThread _ => [.registry]
  | .tryRegister _ _ _ | .commitAdmission _ | .dropAdmission _ => [.registry, .admissions]
  | .processCommit _ _ => [.queues]
  | .threadCommit _ _ _ => [.queues, .counters]
  | .prepareProcessSend _ _ | .prepareThreadSend _ => [.sends]
  | .publishProcessSend _ _ => [.queues, .sends]
  | .publishThreadSend _ _ => [.queues, .sends, .counters]
  | .setBlocked _ _ | .restore _ _ _ | .handleSignal _ _ _ _ _ => [.masks]
  | .checkClaim _ _ | .checkFinish _ => [.checks, .owners]
  | .checkHandle _ _ _ _ => [.checks, .masks]
  | .checkPutBack _ | .checkDispose _ => [.checks, .queues]
  | .checkOpen _ _ | .checkMask _ | .checkSelect _ | .checkBypass _ _ _ | .checkPriority _ =>
    [.checks]
  | _ => []

namespace World

/-- What an observer sees in a hand. -/
def seen {α : Type} (f : Hand → Option α) (w : World) (h : Nat) : Option α := w.hands[h]?.bind f

variable {w w' w'' : World} {parts : List Part}

theorem among_leftover (unused : Option PreparedSignal) (parts : List Part) :
    (leftover unused).among parts = true := by
  cases unused <;> rfl

theorem among_spentHand (signal : DequeuedSignal) (parts : List Part) :
    (spentHand signal).among parts = true := by
  cases signal <;> rfl

/-! ## Records -/

/-- A flag is raised over a queue that stays. -/
theorem frame_raise (hq : w.queue q = some pending) :
    Frame parts w (w.storeQueue q pending (some true)) := by
  refine frame_lose hq (.refl pending) ?_
  intro _ hfalse
  cases hfalse

/-! ## Sends -/

theorem frame_processPreflight (w : World) (p : Nat) (signo : Signo) :
    Frame [] w (w.processPreflight p signo).2 := by
  unfold processPreflight
  split
  · exact .refl _ w
  next m hm =>
  split
  · exact .refl _ w
  have heff : Frame [] w _ := w.frame_effect p m signo
  dsimp only
  split
  · exact heff
  split
  · split
    · exact heff.putHand rfl
    · exact heff
  · exact heff

theorem frame_threadPreflight (w : World) (t : Nat) (mode : EndpointSendMode) (signo : Signo) :
    Frame [] w (w.threadPreflight t mode signo).2 := by
  unfold threadPreflight
  split
  · exact .refl _ w
  next thread ht =>
  split
  · exact .refl _ w
  next m hm =>
  split
  · exact .refl _ w
  have heff : Frame [] w _ := w.frame_effect thread.proc m signo
  dsimp only
  split
  · exact heff
  split
  · exact heff
  next hq =>
  split
  · exact heff.trans (frame_raise hq)
  · exact heff

variable {h : Nat} {hand : Hand}

/-- A prepared record is still in its hand when a token elsewhere has been spent. -/
theorem getElem?_spent (hsend : w.hands[send]? = some token)
    (hne : ∀ signal, token ≠ .prepared signal) (hh : w.hands[h]? = some (.prepared signal)) :
    (w.setHand send .empty).hands[h]? = some (.prepared signal) := by
  have hneq : send ≠ h := by
    rintro rfl
    rw [hsend] at hh
    exact hne signal (Option.some.inj hh)
  show (w.hands.set send _)[h]? = _
  rw [getElem?_set_ne hneq]
  exact hh

theorem Fed.frame (hfed : Fed parts w q signal h added w')
    (hh : w.hands[h]? = some (.prepared prepared)) : Frame (.queues :: parts) w w' := by
  obtain ⟨mid, old, hframe, -, -, rfl⟩ := hfed
  have hstore : Frame (.queues :: parts) w (mid.storeQueue q (old.publish signal).2 none) :=
    (hframe.mono (subset_cons_self _ _)).trans
      (frame_storeQueue fun h => absurd mem_cons_self h)
  exact (hstore.setHand hh rfl (among_leftover _ _)).putHand rfl

/-! ## Selections and flushes -/

section

variable (w : World)

theorem frame_take (q : QueueId) (mask : SignalSet) : Frame [] w (w.take q mask).2 := by
  have hnext : Frame [] w _ := w.frame_dequeueOwned q mask
  unfold take
  split
  · next heq =>
    rw [heq] at hnext
    exact hnext
  · next heq =>
    rw [heq] at hnext
    exact hnext
  · next heq =>
    rw [heq] at hnext
    exact hnext
  · next heq =>
    rw [heq] at hnext
    exact hnext.putHand rfl

theorem frame_takeSignalfd (t : Nat) (mask : SignalSet) : Frame [] w (w.takeSignalfd t mask).2 := by
  unfold takeSignalfd
  split
  · exact .refl _ w
  next thread ht =>
  have hfirst := w.frame_take (.thread t) (mask &&& thread.blocked)
  dsimp only
  split
  · next heq =>
    rw [heq] at hfirst
    exact hfirst.trans (frame_take _ _ _)
  · exact hfirst

theorem frame_retirePending (p : Nat) : Frame [] w (w.retirePending p).2 := by
  unfold retirePending
  split
  · exact .refl _ w
  next m hm =>
  split
  · exact .refl _ w
  have hrow : ProcessKept [] m { m with lifecycle := .cancelled } :=
    ⟨fun _ => rfl, fun _ => rfl, rfl, id⟩
  exact (frame_setProcess hm hrow).trans (frame_takeQueue _ _)

/-! ## Dispositions -/

theorem frame_replaceAction (p : Nat) (signo : Signo) (action : SignalAction)
    (snapshotted : Bool) : Frame [.owners] w (w.replaceAction p signo action snapshotted).2 := by
  unfold replaceAction
  split
  · exact .refl _ w
  next m hm =>
  split
  · exact .refl _ w
  split
  · exact .refl _ w
  split
  · exact .refl _ w
  split
  · exact .refl _ w
  next actions _ =>
  have htable : Frame [.owners] w { w with owners := w.owners.set m.actions actions } :=
    (Frame.refl _ w).setOwners mem_cons_self _
  split
  · exact Frame.putHand ((htable.trans (frame_detachSignalInto (_, []) (.process p)
      signo)).trans (frame_detachChildren m.children [signo] _)) rfl
  · exact htable

theorem frame_commitExecUnshare (h : Nat) :
    Frame [.owners, .seats, .execs] w (w.commitExecUnshare h).2 := by
  unfold commitExecUnshare
  split
  · next hh =>
    split
    · exact .refl _ w
    next m hm =>
    split
    · exact .refl _ w
    refine Frame.setHand (Frame.setProcess ?_ rfl hm ⟨?_, fun _ => rfl, rfl, id⟩) hh rfl rfl
    · exact (Frame.refl _ w).setOwners mem_cons_self _
    · intro hpart
      exact absurd (by decide) hpart
  · exact .refl _ w

/-! ## Endpoints -/

/-- A new row starts with an empty queue. -/
theorem frame_newProcess (owner threadLimit : Nat) :
    Frame [.seats, .registry] w (w.newProcess owner threadLimit).2 := by
  unfold newProcess
  split
  · exact .refl _ w
  refine ⟨fun _ => rfl, fun h => absurd mem_cons_self h, fun _ => rfl,
    fun h => absurd (by decide) h, fun _ => rfl, fun _ => rfl, fun _ => rfl,
    fun _ => calm_of_slots ?_, fun _ _ _ => rfl⟩
  intro q new f hslot
  cases q with
  | thread t => exact .inr ⟨new, f, hslot, .refl new, fun _ hf => hf⟩
  | process p =>
    obtain ⟨row, hrow, heq⟩ := Option.map_eq_some_iff.mp hslot
    rcases Lib.getElem?_concat_cases hrow with hold | ⟨-, rfl⟩
    · exact .inr ⟨new, f, by simp [slot, hold, heq], .refl new, fun _ hf => hf⟩
    · cases heq
      exact .inl (.refl _)

theorem frame_newThread (p : Nat) (allocated : Bool) :
    Frame [.registry, .masks, .counters] w (w.newThread p allocated).2 := by
  unfold newThread
  split
  · exact .refl _ w
  split
  · refine ⟨fun _ => rfl, fun _ => rfl, fun _ => rfl, fun _ => rfl,
      fun h => absurd (by decide) h, fun h => absurd (by decide) h,
      fun h => absurd (by decide) h, fun _ => calm_of_slots ?_, fun _ _ _ => rfl⟩
    intro q new f hslot
    cases q with
    | process p => exact .inr ⟨new, f, hslot, .refl new, fun _ hf => hf⟩
    | thread t =>
      obtain ⟨row, hrow, heq⟩ := Option.map_eq_some_iff.mp hslot
      rcases Lib.getElem?_concat_cases hrow with hold | ⟨-, rfl⟩
      · exact .inr ⟨new, f, by simp [slot, hold, heq], .refl new, fun _ hf => hf⟩
      · cases heq
        exact .inl (.refl _)
  · exact .refl _ w

/-- A row whose endpoint changes and nothing else. -/
theorem threadKept_endpoint (hpart : .registry ∈ parts) (hnew : new = { thread with
      lifecycle := new.lifecycle, registration := new.registration, dropped := new.dropped }) :
    ThreadKept parts thread new := by
  rw [hnew]
  exact ⟨fun h => absurd hpart h, fun _ => rfl, fun _ => rfl, rfl, id⟩

theorem frame_tryRegister (t tid : Nat) (allocated : Bool) :
    Frame [.registry, .admissions] w (w.tryRegister t tid allocated).2 := by
  unfold tryRegister
  split
  · exact .refl _ w
  next thread ht =>
  split
  · exact .refl _ w
  next m hm =>
  split
  · exact .refl _ w
  dsimp only
  split
  · exact .refl _ w
  split
  · exact .refl _ w
  split
  · exact .refl _ w
  refine Frame.putHand (Frame.setProcess (Frame.setThread ?_ rfl ht
    (threadKept_endpoint mem_cons_self rfl)) rfl hm ?_) rfl
  · exact (Frame.refl _ w).setRegistrations mem_cons_self _
  · exact ⟨fun _ => rfl, fun h => absurd mem_cons_self h, rfl, id⟩

theorem frame_commitAdmission (h : Nat) :
    Frame [.registry, .admissions] w (w.commitAdmission h).2 := by
  unfold commitAdmission
  split
  · next hh =>
    split
    · exact .refl _ w
    next ht =>
    split
    · refine Frame.setHand (Frame.setRegistrations ?_ mem_cons_self _) hh rfl rfl
      exact frame_setThread ht (threadKept_endpoint mem_cons_self rfl)
    · exact .refl _ w
  · exact .refl _ w

theorem frame_dropAdmission (h : Nat) : Frame [.registry, .admissions] w (w.dropAdmission h).2 := by
  unfold dropAdmission
  split
  · next t r hh =>
    split
    · exact .refl _ w
    next ht =>
    have htok : Frame [.registry, .admissions] w
        ((w.setRegistration r .cancelled).setHand h .empty) :=
      Frame.setHand ((Frame.refl _ w).setRegistrations mem_cons_self _) hh rfl rfl
    split
    · exact (htok.setThread rfl ht (threadKept_endpoint mem_cons_self rfl)).trans
        (frame_takeQueue _ _)
    · exact htok
  · exact .refl _ w

end

/-- An endpoint is withdrawn and its queue taken. -/
theorem frame_withdraw
    (ht : w.threads[t]? = some thread) (r : Option Nat) (hrow : ThreadKept [.registry] thread new) :
    Frame [.registry] w (((w.deactivate r).setThread t new).takeQueue (.thread t)) := by
  have hentry : Frame [.registry] w (w.deactivate r) := by
    cases r with
    | none => exact .refl _ w
    | some r => exact (Frame.refl _ w).setRegistrations mem_cons_self _
  exact (hentry.setThread (threads_deactivate ..) ht hrow).trans (frame_takeQueue _ _)

section

variable (w : World)

theorem frame_cancelRegistration (t : Nat) : Frame [.registry] w (w.cancelRegistration t).2 := by
  unfold cancelRegistration
  split
  · exact .refl _ w
  · next ht => exact frame_withdraw ht _ (threadKept_endpoint mem_cons_self rfl)

theorem frame_dropThread (t : Nat) : Frame [.registry] w (w.dropThread t).2 := by
  unfold dropThread
  split
  · exact .refl _ w
  · next ht => exact frame_withdraw ht _ (threadKept_endpoint mem_cons_self rfl)

theorem frame_retireRegistration (t tid : Nat) (retain : Bool) :
    Frame [.registry] w (w.retireRegistration t tid retain).2 := by
  unfold retireRegistration
  split
  · exact .refl _ w
  next ht =>
  dsimp only
  split
  · exact .refl _ w
  next r _ =>
  split
  · exact .refl _ w
  split
  · split
    · exact ((Frame.refl _ w).setRegistrations mem_cons_self _).setThread rfl ht
        (threadKept_endpoint mem_cons_self rfl)
    · exact .refl _ w
  · exact frame_withdraw ht (some r) (threadKept_endpoint mem_cons_self rfl)

/-! ## Masks -/

/-- Handling a signal writes the mask only. -/
theorem threadKept_handleSignal (hpart : .masks ∈ parts) (thread : ThreadSignalManager)
    (signo : Signo) (action : SignalAction) (framed : Bool) :
    ThreadKept parts thread (thread.handleSignal signo action framed).2 := by
  have hsame : ThreadKept parts thread thread := ⟨fun _ => rfl, fun _ => rfl, fun _ => rfl, rfl, id⟩
  unfold ThreadSignalManager.handleSignal
  split
  · exact hsame
  · exact hsame
  split
  · exact ⟨fun _ => rfl, fun h => absurd hpart h, fun _ => rfl, rfl, id⟩
  · exact hsame

theorem frame_handleSignal (t : Nat) (signo : Signo) (action : SignalAction)
    (hook framed : Bool) : Frame [.masks] w (w.handleSignal t signo action hook framed).2 := by
  unfold handleSignal
  split
  · exact .refl _ w
  next thread ht =>
  split
  · exact .refl _ w
  · exact frame_setThread ht (threadKept_handleSignal mem_cons_self thread ..)

/-! ## The delivery check -/

theorem frame_checkTake (hh : w.hands[h]? = some hand)
    (hhand : hand.among [.checks] = true) (mask : SignalSet) (q : QueueId)
    (hother : otherwise.among [.checks] = true)
    (htaken : ∀ signal, (taken signal).among [.checks] = true) :
    Frame [.checks] w (w.checkTake h mask q otherwise taken).2 := by
  have hnext : Frame [.checks] w _ := w.frame_dequeueOwned q mask
  unfold checkTake
  split
  · next heq =>
    rw [heq] at hnext
    exact hnext
  · next heq =>
    rw [heq] at hnext
    exact hnext.setHand hh hhand rfl
  · next heq =>
    rw [heq] at hnext
    exact hnext.setHand hh hhand hother
  · next heq =>
    rw [heq] at hnext
    exact hnext.setHand hh hhand (htaken _)

theorem frame_checkSelect (h : Nat) : Frame [.checks] w (w.checkSelect h).2 := by
  unfold checkSelect
  split
  · next hh => exact w.frame_checkTake hh rfl _ _ rfl fun _ => rfl
  · next hh =>
    split
    · exact .refl _ w
    · exact w.frame_checkTake hh rfl _ _ rfl fun _ => rfl
  · exact .refl _ w

theorem frame_checkPriority (h : Nat) : Frame [.checks] w (w.checkPriority h).2 := by
  unfold checkPriority
  split
  · next hh =>
    rw [checkPriorityQueue_eq]
    exact w.frame_checkTake hh rfl _ _ rfl fun _ => rfl
  · next hh =>
    split
    · exact .refl _ w
    · rw [checkPriorityQueue_eq]
      exact w.frame_checkTake hh rfl _ _ rfl fun _ => rfl
  · exact .refl _ w

/-- A record that is put back touches queues only. -/
theorem frame_requeue (q : QueueId) (signal : DequeuedSignal) (hpart : .queues ∈ parts) :
    Frame parts w (w.requeue q signal).2 ∧ (w.requeue q signal).1.among parts = true := by
  rcases w.requeue_cases q signal with heq | ⟨old, -, heq⟩
  · rw [heq]
    refine ⟨.refl parts w, ?_⟩
    cases signal <;> rfl
  · rw [heq]
    exact ⟨frame_storeQueue fun h => absurd hpart h, rfl⟩

theorem frame_checkPutBack (h : Nat) : Frame [.checks, .queues] w (w.checkPutBack h).2 := by
  unfold checkPutBack
  split
  · next source signal hh =>
    have hqueues : .queues ∈ [Part.checks, .queues] := by decide
    obtain ⟨hback, hhand⟩ := w.frame_requeue source signal hqueues
    exact (hback.setHand hh rfl rfl).putHand hhand
  · exact .refl _ w

theorem frame_checkClaim (h : Nat) (keep : Bool) :
    Frame [.checks, .owners] w (w.checkClaim h keep).2 := by
  unfold checkClaim
  split
  · next signal hh =>
    split
    · exact .refl _ w
    split
    · exact .refl _ w
    dsimp only
    split
    · exact Frame.setHand ((Frame.refl _ w).setOwners (by decide) _) hh rfl rfl
    · refine Frame.putHand (Frame.setHand ?_ hh rfl rfl) (among_spentHand signal _)
      exact (Frame.refl _ w).setOwners (by decide) _
  · exact .refl _ w

theorem frame_checkHandle (h : Nat) (answer : SignalDeliveryPreflight)
    (hook framed : Bool) : Frame [.checks, .masks] w (w.checkHandle h answer hook framed).2 := by
  unfold checkHandle
  split
  · next hh =>
    split
    · exact .refl _ w
    next thread ht =>
    split
    · exact (Frame.refl _ w).setHand hh rfl rfl
    split
    · exact (Frame.refl _ w).setHand hh rfl rfl
    · exact (frame_setThread ht (threadKept_handleSignal (by decide) thread ..)).setHand hh rfl rfl
  · exact .refl _ w

theorem frame_checkFinish (h : Nat) : Frame [.checks, .owners] w (w.checkFinish h).2 := by
  unfold checkFinish
  split
  · next t mask source signal claim result hh =>
    have hphase : Frame [.checks, .owners] w
        (w.setHand h (.check t (.finished mask source signal result))) :=
      (Frame.refl _ w).setHand hh rfl rfl
    dsimp only
    split
    · exact hphase
    split
    · exact hphase
    · exact hphase.setOwners (by decide) _
  · exact .refl _ w

theorem frame_checkDispose (h : Nat) : Frame [.checks, .queues] w (w.checkDispose h).2 := by
  unfold checkDispose
  split
  · next t mask source signal result hh =>
    have hagain : Hand.among (if result = .action none then .check t (.threadQueue mask) else .empty)
        [.checks, .queues] = true := by split <;> rfl
    dsimp only
    split
    · exact (Frame.refl _ w).setHand hh rfl hagain
    next signal =>
    split
    · have hqueues : .queues ∈ [Part.checks, .queues] := by decide
      obtain ⟨hback, hhand⟩ := w.frame_requeue source signal hqueues
      exact hback.setHand hh rfl hhand
    · exact ((Frame.refl _ w).setHand hh rfl hagain).putHand (among_spentHand signal _)
  · exact .refl _ w

end

theorem frame_publishProcessSend (w : World) (send h : Nat) :
    Frame [.queues, .sends] w (w.publishProcessSend send h).2 := by
  rcases w.publishProcessSend_cases send h with
    ⟨heq, -⟩ | ⟨p, endpoints, signal, hsend, hh, hcases⟩
  · rw [heq]
    exact .refl _ w
  have hspent : Frame [.queues, .sends] w (w.setHand send .empty) :=
    (Frame.refl _ w).setHand hsend rfl rfl
  rcases hcases with ⟨hframe, -⟩ | hfed
  · exact hspent.trans (hframe.mono (nil_subset _))
  · exact hspent.trans ((hfed.frame (getElem?_spent hsend nofun hh)).mono (by decide))

theorem frame_publishThreadSend (w : World) (send h : Nat) :
    Frame [.queues, .sends, .counters] w (w.publishThreadSend send h).2 := by
  rcases w.publishThreadSend_cases send h with
    ⟨heq, -⟩ | ⟨t, r, signal, hsend, hh, hcases⟩
  · rw [heq]
    exact .refl _ w
  have hspent : Frame [.queues, .sends, .counters] w (w.setHand send .empty) :=
    (Frame.refl _ w).setHand hsend rfl rfl
  rcases hcases with ⟨hframe, -⟩ | ⟨thread, signal', -, -, -, -, hfed⟩
  · exact hspent.trans (hframe.mono (by decide))
  · exact hspent.trans ((hfed.frame (getElem?_spent hsend nofun hh)).mono (by decide))

/-- Every call changes at most the parts it names. -/
theorem frame_call (w : World) (c : SignalCall) : Frame c.parts w (w.call c).2 := by
  cases c with
  | processPreflight p signo => exact w.frame_processPreflight p signo
  | threadPreflight t mode signo => exact w.frame_threadPreflight t mode signo
  | take q mask => exact w.frame_take q mask
  | takeSignalfd t mask => exact w.frame_takeSignalfd t mask
  | retirePending p => exact w.frame_retirePending p
  | replaceAction p signo action snapshotted =>
    exact w.frame_replaceAction p signo action snapshotted
  | commitExecUnshare h => exact w.frame_commitExecUnshare h
  | newProcess owner threadLimit => exact w.frame_newProcess owner threadLimit
  | newThread p allocated => exact w.frame_newThread p allocated
  | tryRegister t tid allocated => exact w.frame_tryRegister t tid allocated
  | commitAdmission h => exact w.frame_commitAdmission h
  | dropAdmission h => exact w.frame_dropAdmission h
  | cancelRegistration t => exact w.frame_cancelRegistration t
  | retireRegistration t tid retain => exact w.frame_retireRegistration t tid retain
  | dropThread t => exact w.frame_dropThread t
  | handleSignal t signo action hook framed => exact w.frame_handleSignal t signo action hook framed
  | checkSelect h => exact w.frame_checkSelect h
  | checkPriority h => exact w.frame_checkPriority h
  | checkPutBack h => exact w.frame_checkPutBack h
  | checkClaim h keep => exact w.frame_checkClaim h keep
  | checkHandle h answer hook framed => exact w.frame_checkHandle h answer hook framed
  | checkFinish h => exact w.frame_checkFinish h
  | checkDispose h => exact w.frame_checkDispose h
  | unqueued info => exact (Frame.refl _ w).putHand rfl
  | flushPending q => exact w.frame_takeQueue q
  | dropProcess p => exact w.frame_takeQueue (.process p)
  | flushSignal q signo => exact (frame_detachSignalInto (w, []) q signo).putHand rfl
  | processCommit p h =>
    rcases w.processCommit_cases p h with ⟨hframe, -⟩ | ⟨m, signal, -, hh, hfed⟩
    · exact hframe.mono (nil_subset _)
    · exact hfed.frame hh
  | threadCommit t mode h =>
    rcases w.threadCommit_cases t mode h with
      ⟨hframe, -⟩ | ⟨thread, signal, signal', -, -, hh, -, hfed⟩
    · exact hframe.mono (subset_cons_self _ _)
    · exact hfed.frame hh
  | publishProcessSend send h => exact w.frame_publishProcessSend send h
  | publishThreadSend send h => exact w.frame_publishThreadSend send h
  | _ =>
    -- the others make one update at most, apart from hands
    simp only [call, SignalCall.parts, newAccount, beginAccounted, chargeGlobal, allocateNode,
      replaceInfo, dropPrepared, dropDetached, refundNext, consume, raiseFlag, prepareProcessSend,
      prepareThreadSend, retainPendingOnly, newOwner, snapshotOwner, prepareExecUnshare, setBlocked,
      setRealBlocked, restore, checkOpen, checkMask, checkBypass]
    (repeat' split) <;> try dsimp only
    all_goals first
      | exact .refl _ w
      | exact (Frame.refl _ w).putHand rfl
      | exact (Frame.refl _ w).setHand (by assumption) rfl rfl
      | exact (Frame.refl _ w).setHand (by assumption) rfl (among_spentHand _ _)
      | exact ((Frame.refl _ w).setHand (by assumption) rfl rfl).putHand rfl
      | exact frame_accounts _ w _ _
      | exact (frame_accounts _ w _ _).putHand rfl
      | exact (frame_accounts _ w _ _).setHand (by assumption) rfl rfl
      | exact (frame_raise (by assumption)).setHand (by assumption) rfl rfl
      | exact (Frame.refl _ w).setOwners mem_cons_self _
      | exact ((Frame.refl _ w).setOwners mem_cons_self _).putHand rfl
      | (refine frame_setProcess (by assumption) ?_
         exact ⟨fun _ => rfl, fun _ => rfl, rfl, id⟩)
      | (refine frame_setThread (by assumption) ?_
         exact ⟨fun _ => rfl, fun _ => rfl, fun _ => rfl, rfl, id⟩)
      | (refine frame_setThread (by assumption) ?_
         exact ⟨fun _ => rfl, fun h => absurd mem_cons_self h, fun _ => rfl, rfl, fun _ => rfl⟩)

/-! ## Looking into hands -/

variable {α : Type} {f : Hand → Option α}

theorem seen_of_hand (hh : w.hands[h]? = some hand) : w.seen f h = f hand := by
  unfold seen
  rw [hh]
  rfl

theorem seen_setHand (hh : w.hands[h]? = some hand) (i : Nat) :
    (w.setHand h new).seen f i = if i = h then f new else w.seen f i := by
  unfold seen
  by_cases heq : h = i
  · subst heq
    rw [getElem?_setHand_self hh, if_pos rfl]
    rfl
  · show (w.hands.set h new)[i]?.bind _ = _
    rw [getElem?_set_ne heq, if_neg (Ne.symm heq)]

theorem seen_putHand (w : World) (new : Hand) (i : Nat) :
    (w.putHand new).seen f i = if i = w.hands.length then f new else w.seen f i := by
  unfold seen
  show (w.hands ++ [new])[i]?.bind _ = _
  rcases Nat.lt_trichotomy i w.hands.length with hlt | rfl | hgt
  · rw [getElem?_append_left hlt, if_neg (Nat.ne_of_lt hlt)]
  · rw [getElem?_concat_length, if_pos rfl]
    rfl
  · rw [if_neg (Nat.ne_of_gt hgt), getElem?_eq_none (Nat.le_of_lt hgt),
      getElem?_eq_none (by rw [length_append]; exact hgt)]

theorem seen_length (w : World) : w.seen f w.hands.length = none := by
  unfold seen
  rw [getElem?_eq_none (Nat.le_refl _)]
  rfl

/-- A hand in which nothing is seen is added. -/
theorem seen_putHand_of_none (hnew : f new = none) (i : Nat) :
    (w.putHand new).seen f i = w.seen f i := by
  rw [seen_putHand]
  split
  · next heq => rw [heq, hnew, seen_length]
  · rfl

theorem seen_eq_some (hseen : w.seen f h = some a) :
    ∃ hand, w.hands[h]? = some hand ∧ f hand = some a :=
  Option.bind_eq_some_iff.mp hseen

/-- An observer of one part looks at the hands of that part. -/
theorem seen_eq_holding (hsees : ∀ hand a, f hand = some a → hand.part = some part)
    (w : World) (h : Nat) : w.seen f h = (w.holding part h).bind f := by
  unfold seen holding
  cases w.hands[h]? with
  | none => rfl
  | some hand =>
    cases hsome : f hand with
    | none => cases hb : (hand.part == some part) <;> simp [Option.filter, hb, hsome]
    | some a => simp [Option.filter, hsees hand a hsome]

/-- What is only seen in hands of one part stays when that part stays. -/
theorem Frame.seen (hf : Frame parts w w') (hpart : part ∉ parts)
    (hsees : ∀ hand a, f hand = some a → hand.part = some part) (h : Nat) :
    w'.seen f h = w.seen f h := by
  rw [seen_eq_holding hsees, seen_eq_holding hsees, hf.hands part hpart]

end World

end LinuxAbi.Signal
