import LinuxAbi.Signal.Managers

/-!
# Records in the signal world

Every function here and in the three modules that follow is one locked section (or
one atomic operation on an account) of `crates/signal/src/pending.rs`,
`api/process.rs` and `api/thread.rs`; an operation of the source is a sequence of
them. `World.call` runs one, so a list of calls is an interleaving of any number of
operations by any number of callers. This module has the records' own operations
and what the sections share.

A section that is called with the index of a missing row, or with a hand that does
not hold what the section takes, does not exist in the source; it answers `unknown`
and changes nothing.
-/

namespace LinuxAbi.Signal

/-! ## Answers -/

structure ProcessSignalSendOutcome where
  published : Bool
  wakeTid : Option Nat

structure ThreadSignalSendOutcome where
  published : Bool
  wake : Bool
  generation : Option Nat

inductive ThreadRegistrationError
  | noMemory
  | alreadyRegistered
  | tidInUse
  | capacity
  | cancelled
deriving DecidableEq

/-- What a section answers. -/
inductive SignalReply
  | unknown
  | done
  | accountError (error : SignalQueueAccountError)
  | queueError (error : SignalQueueError)
  | outOfMemory
  | oldInfo (old : Option SignalInfo)
  | proceed
  | processSent (outcome : ProcessSignalSendOutcome)
  | threadSent (outcome : ThreadSignalSendOutcome)
  | oldAction (old : SignalAction)
  | actionError (error : SignalActionUpdateError)
  | registrationError (error : ThreadRegistrationError)
  | notRegistered
  | cancelled (registered : Bool)
  | oldBlocked (old : SignalSet)
  | nothing
  | info (info : SignalInfo)
  | handled (result : HandleResult)
  | panic (cause : PendingPanic)

/-- What happens to an accounted record for good. -/
inductive SignalEvent
  /-- its siginfo was taken out, or it was selected and used up -/
  | consumed (id : Nat)
  /-- it was dropped without being selected -/
  | released (id : Nat)
  | panicked

/-- An answer with what happened to records. -/
structure Answer where
  reply : SignalReply
  events : List SignalEvent

/-- An answer without events. -/
def Answer.of (reply : SignalReply) : Answer := { reply, events := [] }

/-- A process send that publishes nothing and wakes no one. -/
def ProcessSignalSendOutcome.inactive : ProcessSignalSendOutcome :=
  { published := false, wakeTid := none }

/-- A thread send that publishes nothing and wakes no one. -/
def ThreadSignalSendOutcome.inactive : ThreadSignalSendOutcome :=
  { published := false, wake := false, generation := none }

namespace World

/-! ## Preparation and release of records -/

variable (w : World)

/-- `SignalQueueAccount::try_new`. -/
def newAccount (allocated : Bool) (hardLimit : Nat) : Answer × World :=
  match SignalQueueAccount.tryNew allocated hardLimit with
  | .error error => (.of (.accountError error), w)
  | .ok account => (.of .done, { w with accounts := w.accounts ++ [account] })

/-- `PreparedSignal::try_accounted_with` up to the per-user charge. -/
def beginAccounted (info : SignalInfo) (perUser rlimit global : Nat) : Answer × World :=
  if h : info.signo.isRealtime = true then
    match w.accounts[perUser]?, w.accounts[global]? with
    | some account, some _ =>
      match account.tryCharge rlimit with
      | .error error => (.of (.queueError error), w)
      | .ok account =>
        (.of .done, putHand { w with accounts := w.accounts.set perUser account }
          (.charging info h { perUser, global }))
    | _, _ => (.of .unknown, w)
  else (.of .done, w.putHand (.prepared (.ofStandard info (PreparedSignal.standard_of h))))

/-- The global charge of `SignalQueueCharge::try_new`. -/
def chargeGlobal (h : Nat) : Answer × World :=
  match w.hands[h]? with
  | some (.charging info realtime charge) =>
    match w.accounts[charge.global]? with
    | some account =>
      match account.tryCharge (2 ^ 64 - 1) with
      | .error error => (.of (.queueError error), w.setHand h (.refunding [charge.perUser]))
      | .ok account =>
        (.of .done, setHand { w with accounts := w.accounts.set charge.global account } h
          (.charged info realtime charge))
    | none => (.of .unknown, w)
  | _ => (.of .unknown, w)

/-- The node allocation of `try_accounted_with`; a failed one drops the charge. -/
def allocateNode (h : Nat) (allocated : Bool) : Answer × World :=
  match w.hands[h]? with
  | some (.charged info realtime charge) =>
    if allocated then
      let node : RealtimeSignalNode :=
        { id := w.nextNode, info, generation := none, charge, realtime }
      (.of .done, setHand { w with nextNode := w.nextNode + 1 } h
        (.prepared { kind := .realtime node, generation := none }))
    else
      (.of (.queueError .noMemory), w.setHand h (.refunding [charge.perUser, charge.global]))
  | _ => (.of .unknown, w)

/-- `PreparedSignal::unqueued`. -/
def unqueued (info : SignalInfo) : Answer × World :=
  (.of .done, w.putHand (.prepared (.unqueued info)))

/-- `PreparedSignal::replace_info`. -/
def replaceInfo (h : Nat) (info : SignalInfo) : Answer × World :=
  match w.hands[h]? with
  | some (.prepared signal) =>
    (.of (.oldInfo (signal.replaceInfo info).1), w.setHand h (.prepared (signal.replaceInfo info).2))
  | _ => (.of .unknown, w)

/-- Dropping a prepared record that was not published. -/
def dropPrepared (h : Nat) : Answer × World :=
  match w.hands[h]? with
  | some (.prepared signal) =>
    match signal.kind with
    | .realtime node =>
      ({ reply := .done, events := [.released node.id] },
        w.setHand h (.refunding [node.charge.perUser, node.charge.global]))
    | _ => (.of .done, w.setHand h .empty)
  | _ => (.of .unknown, w)

/-- One round of `RealtimeSignalQueue::drop`. -/
def dropDetached (h : Nat) : Answer × World :=
  match w.hands[h]? with
  | some (.detached (node :: rest)) =>
    ({ reply := .done, events := [.released node.id] },
      (w.setHand h (.detached rest)).putHand
        (.refunding [node.charge.perUser, node.charge.global]))
  | some (.detached []) => (.of .done, w.setHand h .empty)
  | _ => (.of .unknown, w)

/-- `SingleSignalQueueCharge::drop`. -/
def refundNext (h : Nat) : Answer × World :=
  match w.hands[h]? with
  | some (.refunding (account :: rest)) =>
    (.of .done, setHand { w with accounts := w.accounts.modify account (·.refund) } h
      (.refunding rest))
  | some (.refunding []) => (.of .done, w.setHand h .empty)
  | _ => (.of .unknown, w)

/-- The hand that a consumed record leaves: its charges. -/
def spentHand : DequeuedSignal → Hand
  | .realtime node => .refunding [node.charge.perUser, node.charge.global]
  | _ => .empty

/-- The event of consuming a record. -/
def spentEvents : DequeuedSignal → List SignalEvent
  | .realtime node => [.consumed node.id]
  | _ => []

/-- `DequeuedSignal::into_info`. -/
def consume (h : Nat) : Answer × World :=
  match w.hands[h]? with
  | some (.dequeued _ signal) =>
    ({ reply := .info signal.intoInfo, events := spentEvents signal }, w.setHand h (spentHand signal))
  | _ => (.of .unknown, w)

/-- `possibly_has_signal.store(true)` after a publishing section. -/
def raiseFlag (h : Nat) : Answer × World :=
  match w.hands[h]? with
  | some (.raise q) =>
    match w.queue q with
    | some pending => (.of .done, (w.storeQueue q pending (some true)).setHand h .empty)
    | none => (.of .unknown, w)
  | _ => (.of .unknown, w)

/-! ## Registry and action lookups -/

/-- `RegisteredThread::is_live`. -/
def isLive (entry : RegisteredThread) : Bool :=
  entry.state != .cancelled && w.threads[entry.thread]?.any fun t => !t.dropped

/-- `RegisteredThread::upgrade`. -/
def upgrade (r : Nat) : Option (Nat × Nat) :=
  match w.registrations[r]? with
  | some entry =>
    if entry.state = .active ∧ w.threads[entry.thread]?.any (fun t => !t.dropped) then
      some (entry.tid, entry.thread)
    else none
  | none => none

/-- `RegisteredThread::upgrade_for_action_update`. -/
def upgradeForActionUpdate (r : Nat) : Option Nat :=
  match w.registrations[r]? with
  | some entry =>
    if (entry.state = .active ∨ entry.state = .retained) ∧
        w.threads[entry.thread]?.any (fun t => !t.dropped) then
      some entry.thread
    else none
  | none => none

/-- `RegisteredThread::is_active`. -/
def isActive (r : Nat) : Bool := w.registrations[r]?.any fun entry => entry.state == .active

/-- `ProcessSignalManager::action_ignored` with the manager's current owner. -/
def actionIgnored (m : ProcessSignalManager) (signo : Signo) : Bool :=
  w.owners[m.actions]?.any fun actions => actions.actionIgnored signo

/-- `ProcessSignalManager::blocked_by_any_thread`. -/
def blockedByAnyThread (m : ProcessSignalManager) (signo : Signo) : Bool :=
  m.children.any fun r => (w.upgrade r).any fun (_, t) =>
    w.threads[t]?.any fun thread => thread.blocked.has signo || thread.signalRealBlocked signo

/-- `ProcessSignalManager::wake_thread_for`. -/
def wakeThreadFor (m : ProcessSignalManager) (signo : Signo) : Option Nat :=
  m.children.findSome? fun r => (w.upgrade r).bind fun (tid, t) =>
    if w.threads[t]?.any fun thread => !thread.blocked.has signo then some tid else none

/-! ## Detaching -/

/-- `detach_signal_into` of a manager. -/
def detachSignalInto (wd : World × List RealtimeSignalNode) (q : QueueId) (signo : Signo) :
    World × List RealtimeSignalNode :=
  match wd.1.queue q with
  | none => wd
  | some pending =>
    let (detached, pending) := pending.detachSignalInto signo wd.2
    (wd.1.storeQueue q pending (clearIfEmpty pending), detached)

/-- Detaches each of the signals from a queue. -/
def detachAll (wd : World × List RealtimeSignalNode) (q : QueueId) (flush : List Signo) :
    World × List RealtimeSignalNode :=
  flush.foldl (fun wd signo => detachSignalInto wd q signo) wd

/-- Detaches the signals from the queues of registered threads. -/
def detachChildren (wd : World × List RealtimeSignalNode) (children : List Nat)
    (flush : List Signo) : World × List RealtimeSignalNode :=
  children.foldl (fun wd r =>
    match wd.1.upgradeForActionUpdate r with
    | some t => detachAll wd (.thread t) flush
    | none => wd) wd

/-- `ProcessSignalManager::apply_generation_effect_locked`, guarded by
`has_generation_effect` as at every caller. -/
def applyGenerationEffect (p : Nat) (m : ProcessSignalManager) (signo : Signo) :
    World × List RealtimeSignalNode :=
  if hasGenerationEffect signo then
    detachChildren (detachAll (w, []) (.process p) (generationFlush signo)) m.children
      (generationFlush signo)
  else (w, [])

/-- What publication left over goes back to the caller's hand. -/
def leftover : Option PreparedSignal → Hand
  | some signal => .prepared signal
  | none => .empty

/-! ## Selection and putting back -/

/-- `dequeue_thread_signal_owned` and `dequeue_signal_owned`: the selected signal,
or the panic of the queue. -/
def dequeueOwned (q : QueueId) (mask : SignalSet) :
    Option (Except PendingPanic (Option DequeuedSignal)) × World :=
  match w.queue q with
  | none => (none, w)
  | some pending =>
    let (result, pending) := pending.dequeueSignal mask
    (some result, w.storeQueue q pending (clearIfEmpty pending))

/-- A selection by `dequeue_signal`, one queue at a time. -/
def take (q : QueueId) (mask : SignalSet) : Answer × World :=
  match w.dequeueOwned q mask with
  | (none, w) => (.of .unknown, w)
  | (some (.error cause), w) => ({ reply := .panic cause, events := [.panicked] }, w)
  | (some (.ok none), w) => (.of .nothing, w)
  | (some (.ok (some signal)), w) => (.of .done, w.putHand (.dequeued q signal))

/-- `dequeue_signal_for_signalfd`: both queues under the blocked-mask lock. -/
def takeSignalfd (t : Nat) (mask : SignalSet) : Answer × World :=
  match w.threads[t]? with
  | none => (.of .unknown, w)
  | some thread =>
    let effective := mask &&& thread.blocked
    match w.take (.thread t) effective with
    | ({ reply := .nothing, events := _ }, w) => w.take (.process thread.proc) effective
    | result => result

/-- A record that was not put back, to be dropped. -/
def refusedHand : DequeuedSignal → Hand
  | .realtime node => .detached [node]
  | _ => .empty

/-- `requeue_thread_signal` and `ProcessSignalManager::requeue_signal`; a cancelled
process queue leaves the record with the caller, who drops it. -/
def requeue (q : QueueId) (signal : DequeuedSignal) : Hand × World :=
  match q, w.queue q with
  | .process p, some pending =>
    if w.processes[p]?.any fun m => m.lifecycle == .cancelled then (refusedHand signal, w)
    else (.empty, w.storeQueue q (pending.requeueFront signal) (some true))
  | .thread _, some pending => (.empty, w.storeQueue q (pending.requeueFront signal) (some true))
  | _, none => (refusedHand signal, w)

end World

end LinuxAbi.Signal
