import LinuxAbi.Signal.Sends
import LinuxAbi.Signal.Endpoints
import LinuxAbi.Lib.Run

/-!
# The delivery check, and one call of any kind

`check_signals_slow` and its pre-delivery variant, cut at their locks: read the
mask, select, claim the action, handle, finish the claim, dispose of the record.
-/

namespace LinuxAbi.Signal

namespace World

/-! ## The delivery check -/

variable (w : World)

/-- Entry of `check_signals`: registration and the two flags. -/
def checkOpen (t : Nat) (excluded : SignalSet) : Answer × World :=
  match w.threads[t]? with
  | none => (.of .unknown, w)
  | some thread =>
    if thread.lifecycle ≠ .active then (.of .nothing, w)
    else if ¬ thread.possiblyHasSignal ∧
        ¬ w.processes[thread.proc]?.any (fun m => m.possiblyHasSignal) then (.of .nothing, w)
    else (.of .done, w.putHand (.check t (.opened excluded)))

/-- The blocked mask is read once, before the scan. -/
def checkMask (h : Nat) : Answer × World :=
  match w.hands[h]? with
  | some (.check t (.opened excluded)) =>
    match w.threads[t]? with
    | none => (.of .unknown, w)
    | some thread => (.of .done, w.setHand h (.check t (.threadQueue (thread.deliveryMask excluded))))
  | _ => (.of .unknown, w)

/-- One dequeue of the scan. -/
def checkQueue (h t : Nat) (mask : SignalSet) (q : QueueId) (otherwise : Hand) :
    Answer × World :=
  match w.dequeueOwned q mask with
  | (none, w) => (.of .unknown, w)
  | (some (.error cause), w) =>
    ({ reply := .panic cause, events := [.panicked] }, w.setHand h .empty)
  | (some (.ok none), w) => (.of .nothing, w.setHand h otherwise)
  | (some (.ok (some signal)), w) => (.of .done, w.setHand h (.check t (.selected mask q signal)))

/-- `dequeue_signal_with_source`: the thread's queue, then the process's. -/
def checkSelect (h : Nat) : Answer × World :=
  match w.hands[h]? with
  | some (.check t (.threadQueue mask)) =>
    w.checkQueue h t mask (.thread t) (.check t (.processQueue mask))
  | some (.check t (.processQueue mask)) =>
    match w.threads[t]? with
    | none => (.of .unknown, w)
    | some thread => w.checkQueue h t mask (.process thread.proc) .empty
  | _ => (.of .unknown, w)

/-- The loads at the head of `dequeue_signal_for_delivery`. -/
def checkBypass (h generation priority : Nat) : Answer × World :=
  match w.hands[h]? with
  | some (.check t (.threadQueue mask)) =>
    match if generation ≠ 0 then Signo.fromRepr priority else none with
    | some signo => (.of .done, w.setHand h (.check t (.bypassThread mask signo generation)))
    | none => (.of .nothing, w)
  | _ => (.of .unknown, w)

/-- One dequeue of the bypass, restricted to its signal. -/
def checkPriorityQueue (h t : Nat) (mask : SignalSet) (signo : Signo)
    (generation : Nat) (q : QueueId) (otherwise : Hand) : Answer × World :=
  match w.dequeueOwned q ((SignalSet.add 0#64 signo).2 &&& mask) with
  | (none, w) => (.of .unknown, w)
  | (some (.error cause), w) =>
    ({ reply := .panic cause, events := [.panicked] }, w.setHand h .empty)
  | (some (.ok none), w) => (.of .nothing, w.setHand h otherwise)
  | (some (.ok (some signal)), w) =>
    -- only the record with the armed generation satisfies the bypass
    if signal.generation = some generation then
      (.of .done, w.setHand h (.check t (.selected mask q signal)))
    else (.of .done, w.setHand h (.check t (.stale mask q signal)))

/-- What both dequeues do; they differ in the hand of a record that was found. -/
def checkTake (h : Nat) (mask : SignalSet) (q : QueueId) (otherwise : Hand)
    (taken : DequeuedSignal → Hand) : Answer × World :=
  match w.dequeueOwned q mask with
  | (none, w) => (.of .unknown, w)
  | (some (.error cause), w) =>
    ({ reply := .panic cause, events := [.panicked] }, w.setHand h .empty)
  | (some (.ok none), w) => (.of .nothing, w.setHand h otherwise)
  | (some (.ok (some signal)), w) => (.of .done, w.setHand h (taken signal))

theorem checkPriorityQueue_eq (w : World) (h t : Nat) (mask : SignalSet) (signo : Signo)
    (generation : Nat) (q : QueueId) (otherwise : Hand) :
    w.checkPriorityQueue h t mask signo generation q otherwise
      = w.checkTake h ((SignalSet.add 0#64 signo).2 &&& mask) q otherwise fun signal =>
          .check t (if signal.generation = some generation then .selected mask q signal
            else .stale mask q signal) := by
  unfold checkPriorityQueue checkTake
  split <;> try rfl
  dsimp only
  split <;> rfl

/-- The priority selection of `dequeue_signal_for_delivery`; when neither queue has the
signal the ordinary selection follows. -/
def checkPriority (h : Nat) : Answer × World :=
  match w.hands[h]? with
  | some (.check t (.bypassThread mask signo generation)) =>
    w.checkPriorityQueue h t mask signo generation (.thread t)
      (.check t (.bypassProcess mask signo generation))
  | some (.check t (.bypassProcess mask signo generation)) =>
    match w.threads[t]? with
    | none => (.of .unknown, w)
    | some thread =>
      w.checkPriorityQueue h t mask signo generation (.process thread.proc)
        (.check t (.threadQueue mask))
  | _ => (.of .unknown, w)

/-- `signal.requeue` of a record that does not satisfy the bypass. -/
def checkPutBack (h : Nat) : Answer × World :=
  match w.hands[h]? with
  | some (.check t (.stale mask source signal)) =>
    let (hand, w) := w.requeue source signal
    (.of .done, (w.setHand h (.check t (.threadQueue mask))).putHand hand)
  | _ => (.of .unknown, w)

/-- `claim_delivery`. With `keep` the record is retained (pre-delivery variant);
otherwise it is consumed now (pre-handler variant). -/
def checkClaim (h : Nat) (keep : Bool) : Answer × World :=
  match w.hands[h]? with
  | some (.check t (.selected mask source signal)) =>
    match w.threads[t]?.bind fun thread => w.processes[thread.proc]? with
    | none => (.of .unknown, w)
    | some m =>
      match w.owners[m.actions]? with
      | none => (.of .unknown, w)
      | some actions =>
        let ((action, claim), actions) := actions.claimDelivery signal.signo
        let claim := claim.map fun claim => OwnedResetDeliveryClaim.mk m.actions claim
        let w := { w with owners := w.owners.set m.actions actions }
        if keep then
          (.of .done,
            w.setHand h (.check t (.claimed mask source signal.intoInfo (some signal) action claim)))
        else
          ({ reply := .done, events := spentEvents signal },
            (w.setHand h (.check t (.claimed mask source signal.intoInfo none action claim))).putHand
              (spentHand signal))
  | _ => (.of .unknown, w)

/-- `handle_signal_with_pre_delivery_and_fp_snapshot`, or the pre-handler variant
when the record was consumed before. -/
def checkHandle (h : Nat) (answer : SignalDeliveryPreflight) (hook framed : Bool) :
    Answer × World :=
  match w.hands[h]? with
  | some (.check t (.claimed mask source info signal action claim)) =>
    match w.threads[t]? with
    | none => (.of .unknown, w)
    | some thread =>
      if action.disposition.isHandler ∧ signal.isSome ∧ answer ≠ .proceed then
        (.of (.handled (.preflight answer)),
          w.setHand h (.check t (.handled mask source signal claim (.preflight answer))))
      else if action.disposition.isHandler ∧ signal.isNone ∧ ¬ hook then
        (.of (.handled .hook), w.setHand h (.check t (.handled mask source signal claim .hook)))
      else
        let (os, thread) := thread.handleSignal info.signo action framed
        (.of (.handled (.action os)),
          (w.setThread t thread).setHand h (.check t (.handled mask source signal claim (.action os))))
  | _ => (.of .unknown, w)

/-- `finish_delivery` on the owner the claim came from. -/
def checkFinish (h : Nat) : Answer × World :=
  match w.hands[h]? with
  | some (.check t (.handled mask source signal claim result)) =>
    let w := w.setHand h (.check t (.finished mask source signal result))
    match claim with
    | none => (.of .done, w)
    | some claim =>
      match w.owners[claim.owner]? with
      | none => (.of .done, w)
      | some actions =>
        let actions := actions.finishDelivery claim.claim (result == .action (some .handler))
        (.of .done, { w with owners := w.owners.set claim.owner actions })
  | _ => (.of .unknown, w)

/-- The end of one round: Retry and Fault put the record back, an ignored signal is
used up and the scan goes on, everything else ends the check. -/
def checkDispose (h : Nat) : Answer × World :=
  match w.hands[h]? with
  | some (.check t (.finished mask source signal result)) =>
    let again : Hand := if result = .action none then .check t (.threadQueue mask) else .empty
    match signal with
    | none => (.of (.handled result), w.setHand h again)
    | some signal =>
      if result = .preflight .retry ∨ result = .preflight .fault then
        let (hand, w) := w.requeue source signal
        (.of (.handled result), w.setHand h hand)
      else
        ({ reply := .handled result, events := spentEvents signal },
          (w.setHand h again).putHand (spentHand signal))
  | _ => (.of .unknown, w)

end World

/-! ## Calls -/

/-- One locked section, with the outcomes it does not decide itself. -/
inductive SignalCall
  | newAccount (allocated : Bool) (hardLimit : Nat)
  | beginAccounted (info : SignalInfo) (perUser rlimit global : Nat)
  | chargeGlobal (h : Nat)
  | allocateNode (h : Nat) (allocated : Bool)
  | unqueued (info : SignalInfo)
  | replaceInfo (h : Nat) (info : SignalInfo)
  | dropPrepared (h : Nat)
  | dropDetached (h : Nat)
  | refundNext (h : Nat)
  | consume (h : Nat)
  | raiseFlag (h : Nat)
  | processPreflight (p : Nat) (signo : Signo)
  | processCommit (p h : Nat)
  | prepareProcessSend (p : Nat) (allocated : Bool)
  | publishProcessSend (send h : Nat)
  | threadPreflight (t : Nat) (mode : EndpointSendMode) (signo : Signo)
  | threadCommit (t : Nat) (mode : EndpointSendMode) (h : Nat)
  | prepareThreadSend (t : Nat)
  | publishThreadSend (send h : Nat)
  | take (q : QueueId) (mask : SignalSet)
  | takeSignalfd (t : Nat) (mask : SignalSet)
  | flushPending (q : QueueId)
  | flushSignal (q : QueueId) (signo : Signo)
  | retainPendingOnly (p : Nat)
  | retirePending (p : Nat)
  | replaceAction (p : Nat) (signo : Signo) (action : SignalAction) (snapshotted : Bool)
  | newOwner (allocated : Bool)
  | snapshotOwner (owner : Nat) (allocated : Bool)
  | prepareExecUnshare (p : Nat) (allocated : Bool)
  | commitExecUnshare (h : Nat)
  | newProcess (owner threadLimit : Nat)
  | newThread (p : Nat) (allocated : Bool)
  | tryRegister (t tid : Nat) (allocated : Bool)
  | commitAdmission (h : Nat)
  | dropAdmission (h : Nat)
  | cancelRegistration (t : Nat)
  | retireRegistration (t tid : Nat) (retain : Bool)
  | dropThread (t : Nat)
  | dropProcess (p : Nat)
  | setBlocked (t : Nat) (set : SignalSet)
  | setRealBlocked (t : Nat) (realBlocked : Option SignalSet)
  | restore (t : Nat) (sigmask : SignalSet) (valid : Bool)
  | handleSignal (t : Nat) (signo : Signo) (action : SignalAction) (hook framed : Bool)
  | checkOpen (t : Nat) (excluded : SignalSet)
  | checkMask (h : Nat)
  | checkSelect (h : Nat)
  | checkBypass (h generation priority : Nat)
  | checkPriority (h : Nat)
  | checkPutBack (h : Nat)
  | checkClaim (h : Nat) (keep : Bool)
  | checkHandle (h : Nat) (answer : SignalDeliveryPreflight) (hook framed : Bool)
  | checkFinish (h : Nat)
  | checkDispose (h : Nat)

/-- Runs one section. -/
def World.call (w : World) : SignalCall → Answer × World
  | .newAccount allocated hardLimit => w.newAccount allocated hardLimit
  | .beginAccounted info perUser rlimit global => w.beginAccounted info perUser rlimit global
  | .chargeGlobal h => w.chargeGlobal h
  | .allocateNode h allocated => w.allocateNode h allocated
  | .unqueued info => w.unqueued info
  | .replaceInfo h info => w.replaceInfo h info
  | .dropPrepared h => w.dropPrepared h
  | .dropDetached h => w.dropDetached h
  | .refundNext h => w.refundNext h
  | .consume h => w.consume h
  | .raiseFlag h => w.raiseFlag h
  | .processPreflight p signo => w.processPreflight p signo
  | .processCommit p h => w.processCommit p h
  | .prepareProcessSend p allocated => w.prepareProcessSend p allocated
  | .publishProcessSend send h => w.publishProcessSend send h
  | .threadPreflight t mode signo => w.threadPreflight t mode signo
  | .threadCommit t mode h => w.threadCommit t mode h
  | .prepareThreadSend t => w.prepareThreadSend t
  | .publishThreadSend send h => w.publishThreadSend send h
  | .take q mask => w.take q mask
  | .takeSignalfd t mask => w.takeSignalfd t mask
  | .flushPending q => w.flushPending q
  | .flushSignal q signo => w.flushSignal q signo
  | .retainPendingOnly p => w.retainPendingOnly p
  | .retirePending p => w.retirePending p
  | .replaceAction p signo action snapshotted => w.replaceAction p signo action snapshotted
  | .newOwner allocated => w.newOwner allocated
  | .snapshotOwner owner allocated => w.snapshotOwner owner allocated
  | .prepareExecUnshare p allocated => w.prepareExecUnshare p allocated
  | .commitExecUnshare h => w.commitExecUnshare h
  | .newProcess owner threadLimit => w.newProcess owner threadLimit
  | .newThread p allocated => w.newThread p allocated
  | .tryRegister t tid allocated => w.tryRegister t tid allocated
  | .commitAdmission h => w.commitAdmission h
  | .dropAdmission h => w.dropAdmission h
  | .cancelRegistration t => w.cancelRegistration t
  | .retireRegistration t tid retain => w.retireRegistration t tid retain
  | .dropThread t => w.dropThread t
  | .dropProcess p => w.dropProcess p
  | .setBlocked t set => w.setBlocked t set
  | .setRealBlocked t realBlocked => w.setRealBlocked t realBlocked
  | .restore t sigmask valid => w.restore t sigmask valid
  | .handleSignal t signo action hook framed => w.handleSignal t signo action hook framed
  | .checkOpen t excluded => w.checkOpen t excluded
  | .checkMask h => w.checkMask h
  | .checkSelect h => w.checkSelect h
  | .checkBypass h generation priority => w.checkBypass h generation priority
  | .checkPriority h => w.checkPriority h
  | .checkPutBack h => w.checkPutBack h
  | .checkClaim h keep => w.checkClaim h keep
  | .checkHandle h answer hook framed => w.checkHandle h answer hook framed
  | .checkFinish h => w.checkFinish h
  | .checkDispose h => w.checkDispose h

/-- The record events of one call. -/
def signalEvents (_ : SignalCall) (answer : Answer) : List SignalEvent := answer.events

end LinuxAbi.Signal
