import LinuxAbi.Signal.Types
import LinuxAbi.Lib.Tally

/-!
# Queue accounts and pending queues

`crates/signal/src/pending.rs`.

Mirroring notes:
- A `RealtimeSignalNode` is a `Box`; `id` is its identity, which the source has as
  an address. An `Arc<SignalQueueAccount>` is the account's index in a table.
- The intrusive queue is the list of its nodes from `head` to `tail`.
- `standard` and the two real-time arrays are functions on their index.
- That a standard record carries a standard number, and a node a real-time one, is
  a field of the record: the source establishes it in the constructors and
  `replace_info` keeps it.
- The `expect` of `dequeue_signal` is the error of `PendingSignals.dequeueSignal`.
-/

namespace LinuxAbi.Signal

open Function

/-- The queue of a real-time number: `signo as usize - SIGRTMIN as usize`. -/
def Signo.rtIndex : (s : Signo) → s.isRealtime = true → Fin 33
  | .sigrt n, _ => n

theorem Signo.eq_sigrt : ∀ (s : Signo) (h : s.isRealtime = true), s = .sigrt (s.rtIndex h)
  | .sigrt _, _ => rfl

/-! ## Accounts -/

structure SignalQueueAccount where
  queued : Nat
  hardLimit : Nat

inductive SignalQueueAccountError
  | unbounded
  | noMemory
deriving DecidableEq

inductive SignalQueueError
  | limitExceeded
  | noMemory
deriving DecidableEq

namespace SignalQueueAccount

/-- `SignalQueueAccount::try_new`; `allocated` is the outcome of `Arc::try_new`. -/
def tryNew (allocated : Bool) (hardLimit : Nat) :
    Except SignalQueueAccountError SignalQueueAccount :=
  if hardLimit = 2 ^ 64 - 1 then .error .unbounded
  else if allocated then .ok { queued := 0, hardLimit }
  else .error .noMemory

def tryCharge (account : SignalQueueAccount) (limit : Nat) :
    Except SignalQueueError SignalQueueAccount :=
  let limit := min account.hardLimit limit
  if account.queued + 1 < 2 ^ 64 ∧ account.queued + 1 ≤ limit then
    .ok { account with queued := account.queued + 1 }
  else .error .limitExceeded

/-- `SingleSignalQueueCharge::drop`: a wrapping `fetch_sub`. -/
def refund (account : SignalQueueAccount) : SignalQueueAccount :=
  { account with queued := (account.queued + (2 ^ 64 - 1)) % 2 ^ 64 }

end SignalQueueAccount

/-- `SignalQueueCharge`: the two accounts a record is charged to. -/
structure SignalQueueCharge where
  perUser : Nat
  global : Nat
deriving DecidableEq

/-! ## Records -/

structure StandardSignal where
  info : SignalInfo
  generation : Option Nat
  standard : info.signo.isRealtime = false
deriving DecidableEq

structure RealtimeSignalNode where
  id : Nat
  info : SignalInfo
  generation : Option Nat
  charge : SignalQueueCharge
  realtime : info.signo.isRealtime = true
deriving DecidableEq

/-- The queue the node belongs to. -/
def RealtimeSignalNode.index (node : RealtimeSignalNode) : Fin 33 :=
  node.info.signo.rtIndex node.realtime

inductive PreparedSignalKind
  | standard (signal : StandardSignal)
  | realtime (node : RealtimeSignalNode)
  | realtimeFallback (info : SignalInfo) (realtime : info.signo.isRealtime = true)
deriving DecidableEq

structure PreparedSignal where
  kind : PreparedSignalKind
  generation : Option Nat
deriving DecidableEq

namespace PreparedSignal

/-- A prepared standard record, as both constructors build it. -/
def ofStandard (info : SignalInfo) (h : info.signo.isRealtime = false) : PreparedSignal :=
  { kind := .standard { info, generation := none, standard := h }, generation := none }

theorem standard_of {info : SignalInfo} (h : ¬info.signo.isRealtime = true) :
    info.signo.isRealtime = false := Bool.not_eq_true _ ▸ h

def unqueued (info : SignalInfo) : PreparedSignal :=
  if h : info.signo.isRealtime = true then
    { kind := .realtimeFallback info h, generation := none }
  else ofStandard info (standard_of h)

def info (prepared : PreparedSignal) : SignalInfo :=
  match prepared.kind with
  | .standard signal => signal.info
  | .realtime node => node.info
  | .realtimeFallback info _ => info

def signo (prepared : PreparedSignal) : Signo := prepared.info.signo

/-- `PreparedSignal::replace_info`; the old record is returned on success. -/
def replaceInfo (prepared : PreparedSignal) (info : SignalInfo) :
    Option SignalInfo × PreparedSignal :=
  if h : info.signo = prepared.signo then
    (some prepared.info,
      match prepared, h with
      | ⟨.standard signal, generation⟩, h =>
        { kind := .standard { signal with info, standard := h ▸ signal.standard }, generation }
      | ⟨.realtime node, generation⟩, h =>
        { kind := .realtime { node with info, realtime := h ▸ node.realtime }, generation }
      | ⟨.realtimeFallback _ realtime, generation⟩, h =>
        { kind := .realtimeFallback info (h ▸ realtime), generation })
  else (none, prepared)

def setGeneration (prepared : PreparedSignal) (generation : Nat) : PreparedSignal :=
  { prepared with generation := some generation }

def supportsGeneration (prepared : PreparedSignal) : Bool :=
  match prepared.kind with
  | .realtimeFallback _ _ => false
  | _ => true

end PreparedSignal

inductive DequeuedSignal
  | standard (signal : StandardSignal)
  | realtime (node : RealtimeSignalNode)
  | realtimeFallback (index : Fin 33) (publishEpoch : BitVec 64)
deriving DecidableEq

namespace DequeuedSignal

def signo : DequeuedSignal → Signo
  | standard signal => signal.info.signo
  | realtime node => node.info.signo
  | realtimeFallback index _ => .sigrt index

def generation : DequeuedSignal → Option Nat
  | standard signal => signal.generation
  | realtime node => node.generation
  | realtimeFallback _ _ => none

def intoInfo : DequeuedSignal → SignalInfo
  | standard signal => signal.info
  | realtime node => node.info
  | realtimeFallback index _ => SignalInfo.newUser (.sigrt index) 0 0 0

end DequeuedSignal

/-! ## The pending queue -/

structure PendingSignals where
  set : SignalSet
  standard : Signo → Option StandardSignal
  realtime : Fin 33 → List RealtimeSignalNode
  realtimePublishEpoch : Fin 33 → BitVec 64

/-- The `expect` of `PendingSignals::dequeue_signal`. -/
inductive PendingPanic
  | emptyStandardSlot
deriving DecidableEq

structure PublishOutcome where
  added : Bool
  unused : Option PreparedSignal

namespace PendingSignals

def default : PendingSignals where
  set := 0#64
  standard _ := none
  realtime _ := []
  realtimePublishEpoch _ := 0#64

variable (q : PendingSignals)

def publish (prepared : PreparedSignal) : PublishOutcome × PendingSignals :=
  match prepared.kind with
  | .standard signal =>
    let signo := signal.info.signo
    let signal := { signal with generation := prepared.generation }
    if q.set.has signo then
      ({ added := false, unused := some { prepared with kind := .standard signal } }, q)
    else
      ({ added := true, unused := none },
        { q with
          set := (q.set.add signo).2
          standard := update q.standard signo (some signal) })
  | .realtime node =>
    let node := { node with generation := prepared.generation }
    let index := node.index
    ({ added := true, unused := none },
      { q with
        realtimePublishEpoch := update q.realtimePublishEpoch index
          (q.realtimePublishEpoch index + 1#64)
        set := (q.set.add node.info.signo).2
        realtime := update q.realtime index (q.realtime index ++ [node]) })
  | .realtimeFallback info _ =>
    ({ added := (q.set.add info.signo).1, unused := none },
      { q with set := (q.set.add info.signo).2 })

def dequeueSignal (mask : SignalSet) :
    Except PendingPanic (Option DequeuedSignal) × PendingSignals :=
  match q.set.dequeue mask with
  | (none, set) => (.ok none, { q with set })
  | (some signo, set) =>
    let q := { q with set }
    match signo with
    | .sigrt index =>
      match q.realtime index with
      | node :: rest =>
        let q := { q with realtime := update q.realtime index rest }
        (.ok (some (.realtime node)),
          if rest.isEmpty then q else { q with set := (q.set.add (.sigrt index)).2 })
      | [] => (.ok (some (.realtimeFallback index (q.realtimePublishEpoch index))), q)
    | signo =>
      match q.standard signo with
      | some signal =>
        (.ok (some (.standard signal)),
          { q with standard := update q.standard signo none })
      | none => (.error .emptyStandardSlot, q)

/-- `PendingSignals::detach_signal_into`; the detached nodes are appended to
`detached`. -/
def detachSignalInto (signo : Signo) (detached : List RealtimeSignalNode) :
    List RealtimeSignalNode × PendingSignals :=
  match q.set.remove signo with
  | (false, _) => (detached, q)
  | (true, set) =>
    let q := { q with set }
    match signo with
    | .sigrt index =>
      (detached ++ q.realtime index, { q with realtime := update q.realtime index [] })
    | signo => (detached, { q with standard := update q.standard signo none })

/-- The nodes of a whole queue, in the order its drop releases them. -/
def nodes : List RealtimeSignalNode := (List.finRange 33).flatMap q.realtime

/-- `PendingSignals::take_all`: the queue starts over; what the old one owned is
what its drop will release. -/
def takeAll : List RealtimeSignalNode × PendingSignals := (q.nodes, default)

/-- `DequeuedSignal::requeue_front`. -/
def requeueFront : DequeuedSignal → PendingSignals
  | .standard signal =>
    { q with
      standard := update q.standard signal.info.signo (some signal)
      set := (q.set.add signal.info.signo).2 }
  | .realtime node =>
    { q with
      set := (q.set.add node.info.signo).2
      realtime := update q.realtime node.index (node :: q.realtime node.index) }
  | .realtimeFallback index publishEpoch =>
    if q.realtimePublishEpoch index = publishEpoch then
      { q with set := (q.set.add (.sigrt index)).2 }
    else q

end PendingSignals

end LinuxAbi.Signal
