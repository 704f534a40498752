import LinuxAbi.Signal.Actions
import LinuxAbi.Signal.Pending

/-!
# Process and thread signal managers

The state of `crates/signal/src/api/process.rs` and `crates/signal/src/api/thread.rs`,
for any number of processes, threads, action owners and queue accounts at once.

Every object that the source shares through an `Arc` is a row of a table and is
named by its index. What running code owns outside every lock (a prepared record,
a dequeued record, a detached queue, a token, the position of a delivery check) is
a row of the table `hands`; a locked section takes it from there and leaves there
what its caller still has to deal with.

Mirroring notes:
- `Weak::upgrade` succeeds until the endpoint is dropped.
- The alternate stack, the frame and the machine context are not here: the frame's
  outcome is an argument of the section that publishes it.
- The `delivery` mutex only excludes interleavings and is left out here, so the runs
  include those of the source.
- The words of the delivery bypass are plain atomics that the embedding kernel writes
  under no lock; what a check loads from them is an argument.
-/

namespace LinuxAbi.Signal

/-! ## Managers -/

/-- One of the pending queues. -/
inductive QueueId
  | process (p : Nat)
  | thread (t : Nat)
deriving DecidableEq

/-- The process endpoint states `PROCESS_ENDPOINT_*`. -/
inductive ProcessLifecycle
  | active
  | retained
  | cancelled
deriving DecidableEq

/-- The thread endpoint states `ENDPOINT_*`. -/
inductive ThreadLifecycle
  | pending
  | active
  | retained
  | cancelled
deriving DecidableEq

/-- The registry entry states `REGISTRATION_*`. -/
inductive RegistrationState
  | pending
  | active
  | cancelled
  | retained
deriving DecidableEq

inductive EndpointSendMode
  | active
  | retained
deriving DecidableEq

def EndpointSendMode.accepts : EndpointSendMode → ThreadLifecycle → Bool
  | .active, .active => true
  | .retained, .retained => true
  | _, _ => false

structure RegisteredThread where
  tid : Nat
  thread : Nat
  state : RegistrationState

structure ProcessSignalManager where
  pending : PendingSignals
  lifecycle : ProcessLifecycle
  actions : Nat
  children : List Nat
  threadLimit : Nat
  possiblyHasSignal : Bool

structure ThreadSignalManager where
  proc : Nat
  pending : PendingSignals
  blocked : SignalSet
  realBlocked : Option SignalSet
  lifecycle : ThreadLifecycle
  registration : Option Nat
  nextGeneration : Nat
  possiblyHasSignal : Bool
  dropped : Bool

namespace ThreadSignalManager

/-- `ThreadSignalManager::try_new`. -/
def new (proc : Nat) : ThreadSignalManager where
  proc
  pending := .default
  blocked := 0#64
  realBlocked := none
  lifecycle := .pending
  registration := none
  nextGeneration := 1
  possiblyHasSignal := false
  dropped := false

variable (t : ThreadSignalManager)

def signalRealBlocked (signo : Signo) : Bool :=
  t.realBlocked.any fun set => set.has signo

/-- `ThreadSignalManager::allocate_generation`; zero is the sticky exhausted state. -/
def allocateGeneration : Option Nat × ThreadSignalManager :=
  if t.nextGeneration = 0 then (none, t)
  else
    (some t.nextGeneration,
      { t with nextGeneration := if t.nextGeneration + 1 < 2 ^ 64 then t.nextGeneration + 1 else 0 })

def assignGeneration (prepared : PreparedSignal) :
    Option (Option Nat × PreparedSignal) × ThreadSignalManager :=
  if prepared.supportsGeneration then
    match t.allocateGeneration with
    | (none, t) => (none, t)
    | (some generation, t) => (some (some generation, prepared.setGeneration generation), t)
  else (some (none, prepared), t)

def setBlocked (set : SignalSet) : SignalSet × ThreadSignalManager :=
  let set : SignalSet := (set.remove .sigkill).2
  let set : SignalSet := (set.remove .sigstop).2
  (t.blocked, { t with blocked := set, possiblyHasSignal := true })

/-- `prepare_signal_restore_with_fp` and `commit_restore`: the mask of a frame that
passed the context checks. -/
def commitRestore (sigmask : SignalSet) : ThreadSignalManager :=
  let blocked : SignalSet := (sigmask.remove .sigkill).2
  let blocked : SignalSet := (blocked.remove .sigstop).2
  { t with blocked, possiblyHasSignal := true }

/-- `handle_signal_with_pre_handler_and_fp_snapshot` after the hook; `framed` says
that the frame was laid out and copied to userspace. -/
def handleSignal (signo : Signo) (action : SignalAction) (framed : Bool) :
    Option SignalOSAction × ThreadSignalManager :=
  match action.disposition with
  | .default =>
    (match signo.defaultAction with
      | .terminate => some .terminate
      | .coreDump => some .coreDump
      | .stop => some .stop
      | .ignore => none
      | .continue => some .continue, t)
  | .ignore => (none, t)
  | .handler _ =>
    if framed then
      let addBlocked : SignalSet :=
        if action.flags.contains SignalActionFlags.noDefer then action.mask
        else (action.mask.add signo).2
      (some .handler, { t with blocked := t.blocked ||| addBlocked })
    else (some .coreDump, t)

/-- The mask of `check_signals_slow`: what a delivery check may select. -/
def deliveryMask (excluded : SignalSet) : SignalSet :=
  ~~~ t.blocked &&& ~~~ excluded

end ThreadSignalManager

/-! ## What running code owns -/

structure OwnedResetDeliveryClaim where
  owner : Nat
  claim : ResetDeliveryClaim
deriving DecidableEq

inductive SignalDeliveryPreflight
  | proceed
  | retry
  | fault
  | replaced
  | fatal
deriving DecidableEq

/-- What handling a selected signal came to. -/
inductive HandleResult
  | action (os : Option SignalOSAction)
  | preflight (answer : SignalDeliveryPreflight)
  | hook
deriving DecidableEq

/-- Where `check_signals_slow` stands between two sections. In the pre-handler
variant the record is already consumed once its action is claimed. -/
inductive CheckPhase
  | opened (excluded : SignalSet)
  | threadQueue (mask : SignalSet)
  | processQueue (mask : SignalSet)
  /-- a bypass was loaded: the thread's queue is tried for its signal first -/
  | bypassThread (mask : SignalSet) (signo : Signo) (generation : Nat)
  /-- and then the process's queue -/
  | bypassProcess (mask : SignalSet) (signo : Signo) (generation : Nat)
  /-- the signal found there is not the armed record and is to be put back -/
  | stale (mask : SignalSet) (source : QueueId) (signal : DequeuedSignal)
  | selected (mask : SignalSet) (source : QueueId) (signal : DequeuedSignal)
  | claimed (mask : SignalSet) (source : QueueId) (info : SignalInfo)
      (signal : Option DequeuedSignal) (action : SignalAction)
      (claim : Option OwnedResetDeliveryClaim)
  | handled (mask : SignalSet) (source : QueueId) (signal : Option DequeuedSignal)
      (claim : Option OwnedResetDeliveryClaim) (result : HandleResult)
  | finished (mask : SignalSet) (source : QueueId) (signal : Option DequeuedSignal)
      (result : HandleResult)

structure RetainedThreadEndpoint where
  registration : Nat
  tid : Nat
  thread : Nat

/-- A value that running code owns outside every lock. -/
inductive Hand
  | empty
  /-- `SignalQueueCharge::try_new` after the per-user charge -/
  | charging (info : SignalInfo) (realtime : info.signo.isRealtime = true)
      (charge : SignalQueueCharge)
  /-- both charges, before the node is allocated -/
  | charged (info : SignalInfo) (realtime : info.signo.isRealtime = true)
      (charge : SignalQueueCharge)
  /-- charges whose drop is under way -/
  | refunding (accounts : List Nat)
  | prepared (signal : PreparedSignal)
  | dequeued (source : QueueId) (signal : DequeuedSignal)
  | detached (nodes : List RealtimeSignalNode)
  /-- a section that published, before its `possibly_has_signal.store(true)` -/
  | raise (queue : QueueId)
  | admission (thread registration : Nat)
  | threadSend (thread registration : Nat)
  | processSend (process : Nat) (endpoints : List RetainedThreadEndpoint)
  | execUnshare (process replacement : Nat)
  | check (thread : Nat) (phase : CheckPhase)

/-- All signal state. -/
structure World where
  accounts : List SignalQueueAccount
  owners : List SignalActions
  processes : List ProcessSignalManager
  threads : List ThreadSignalManager
  registrations : List RegisteredThread
  hands : List Hand
  nextNode : Nat

/-- Before anything was created. -/
def World.empty : World where
  accounts := []
  owners := []
  processes := []
  threads := []
  registrations := []
  hands := []
  nextNode := 0

namespace World

/-! ## Reading and writing rows -/

def setHand (w : World) (h : Nat) (hand : Hand) : World := { w with hands := w.hands.set h hand }

def putHand (w : World) (hand : Hand) : World := { w with hands := w.hands ++ [hand] }

def setThread (w : World) (t : Nat) (m : ThreadSignalManager) : World :=
  { w with threads := w.threads.set t m }

def setProcess (w : World) (p : Nat) (m : ProcessSignalManager) : World :=
  { w with processes := w.processes.set p m }

def setRegistration (w : World) (r : Nat) (state : RegistrationState) : World :=
  { w with registrations := w.registrations.modify r fun entry => { entry with state } }

/-- The pending queue with the given name. -/
def queue (w : World) : QueueId → Option PendingSignals
  | .process p => w.processes[p]?.map (·.pending)
  | .thread t => w.threads[t]?.map (·.pending)

/-- Stores a pending queue; `flag` is what the section stores to
`possibly_has_signal`, if anything. -/
def storeQueue (w : World) (q : QueueId) (pending : PendingSignals) (flag : Option Bool) : World :=
  match q with
  | .process p => { w with processes := w.processes.modify p fun m =>
      { m with pending, possiblyHasSignal := flag.getD m.possiblyHasSignal } }
  | .thread t => { w with threads := w.threads.modify t fun m =>
      { m with pending, possiblyHasSignal := flag.getD m.possiblyHasSignal } }

/-- `if pending.set.is_empty() { possibly_has_signal.store(false) }`. -/
def clearIfEmpty (pending : PendingSignals) : Option Bool :=
  if pending.set == 0#64 then some false else none

end World

end LinuxAbi.Signal
