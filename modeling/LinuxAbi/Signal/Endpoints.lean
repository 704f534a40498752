import LinuxAbi.Signal.World

/-!
# Endpoints, dispositions and masks

The sections that change an endpoint rather than send to it: flushes, lifecycle
changes, disposition changes, registration and the blocked mask.
-/

namespace LinuxAbi.Signal

namespace World

/-! ## Flushing and endpoint changes -/

variable (w : World)

/-- Takes a whole queue out and leaves its nodes to be dropped. -/
def takeQueue (q : QueueId) : World :=
  match w.queue q with
  | none => w
  | some pending =>
    (w.storeQueue q pending.takeAll.2 (some false)).putHand (.detached pending.takeAll.1)

/-- `flush_pending` of either manager. -/
def flushPending (q : QueueId) : Answer × World := (.of .done, w.takeQueue q)

/-- `flush_signal` of either manager. -/
def flushSignal (q : QueueId) (signo : Signo) : Answer × World :=
  let (w, detached) := detachSignalInto (w, []) q signo
  (.of .done, w.putHand (.detached detached))

/-- `ProcessSignalManager::retain_pending_only`. -/
def retainPendingOnly (p : Nat) : Answer × World :=
  match w.processes[p]? with
  | none => (.of .unknown, w)
  | some m =>
    (.of .done,
      if m.lifecycle = .active then w.setProcess p { m with lifecycle := .retained } else w)

/-- `ProcessSignalManager::retire_pending`. -/
def retirePending (p : Nat) : Answer × World :=
  match w.processes[p]? with
  | none => (.of .unknown, w)
  | some m =>
    if m.lifecycle = .cancelled then (.of .done, w)
    else
      (.of .done, (w.setProcess p { m with lifecycle := .cancelled }).takeQueue (.process p))

/-- `ProcessSignalManager::try_replace_action`; `snapshotted` is the outcome of the
registry snapshot. -/
def replaceAction (p : Nat) (signo : Signo) (action : SignalAction)
    (snapshotted : Bool) : Answer × World :=
  match w.processes[p]? with
  | none => (.of .unknown, w)
  | some m =>
    if SignalActions.isUncatchable signo then (.of (.actionError .uncatchableSignal), w)
    else if ¬ snapshotted then (.of (.actionError .noMemory), w)
    else
      match w.owners[m.actions]? with
      | none => (.of .unknown, w)
      | some actions =>
        match actions.replace signo action with
        | (.error error, _) => (.of (.actionError error), w)
        | (.ok old, actions) =>
          let w := { w with owners := w.owners.set m.actions actions }
          if actions.actionIgnored signo then
            let (w, detached) :=
              detachChildren (detachSignalInto (w, []) (.process p) signo) m.children [signo]
            (.of (.oldAction old), w.putHand (.detached detached))
          else (.of (.oldAction old), w)

/-! ## Action owners -/

/-- `SharedSignalActions::try_new` with a fresh table. -/
def newOwner (allocated : Bool) : Answer × World :=
  if allocated then (.of .done, { w with owners := w.owners ++ [.default] })
  else (.of .outOfMemory, w)

/-- Whether the owner is the replacement of an exec token: until the commit nothing
else has a handle on it. -/
def isReplacement (owner : Nat) : Bool :=
  w.hands.any fun
    | .execUnshare _ replacement => replacement == owner
    | _ => false

/-- `SharedSignalActions::try_snapshot`. -/
def snapshotOwner (owner : Nat) (allocated : Bool) : Answer × World :=
  match w.owners[owner]? with
  | none => (.of .unknown, w)
  | some actions =>
    if w.isReplacement owner then (.of .unknown, w)
    else if allocated then (.of .done, { w with owners := w.owners ++ [actions.snapshot] })
    else (.of .outOfMemory, w)

/-- `ProcessSignalManager::try_prepare_exec_unshare`. -/
def prepareExecUnshare (p : Nat) (allocated : Bool) : Answer × World :=
  match w.processes[p]?.bind fun m => w.owners[m.actions]? with
  | none => (.of .unknown, w)
  | some actions =>
    if allocated then
      (.of .done, putHand { w with owners := w.owners ++ [actions.execSnapshot] }
        (.execUnshare p w.owners.length))
    else (.of .outOfMemory, w)

/-- `PreparedExecUnshare::commit`. -/
def commitExecUnshare (h : Nat) : Answer × World :=
  match w.hands[h]? with
  | some (.execUnshare p replacement) =>
    match w.processes[p]? with
    | none => (.of .unknown, w)
    | some m =>
      match w.owners[m.actions]? with
      | none => (.of .unknown, w)
      | some actions =>
        (.of .done,
          setHand (setProcess { w with owners := w.owners.set replacement actions.execSnapshot } p
            { m with actions := replacement }) h .empty)
  | _ => (.of .unknown, w)

/-! ## Endpoint registration -/

/-- `ProcessSignalManager::with_validated_thread_limit`. -/
def newProcess (owner threadLimit : Nat) : Answer × World :=
  if threadLimit = 2 ^ 64 - 1 ∨ w.owners.length ≤ owner ∨ w.isReplacement owner then
    (.of .unknown, w)
  else
    (.of .done, { w with processes := w.processes ++
      [{ pending := .default, lifecycle := .active, actions := owner, children := [], threadLimit,
         possiblyHasSignal := false }] })

/-- `ThreadSignalManager::try_new`. -/
def newThread (p : Nat) (allocated : Bool) : Answer × World :=
  if w.processes.length ≤ p then (.of .unknown, w)
  else if allocated then (.of .done, { w with threads := w.threads ++ [.new p] })
  else (.of .outOfMemory, w)

/-- `ThreadSignalManager::try_register`; `allocated` covers the three allocations of
the entry and the replacement registry. -/
def tryRegister (t tid : Nat) (allocated : Bool) : Answer × World :=
  match w.threads[t]? with
  | none => (.of .unknown, w)
  | some thread =>
    match w.processes[thread.proc]? with
    | none => (.of .unknown, w)
    | some m =>
      if thread.registration.isSome then (.of (.registrationError .alreadyRegistered), w)
      else
        let live := m.children.filter fun r => w.registrations[r]?.any w.isLive
        if live.any fun r => w.registrations[r]?.any fun entry => entry.tid == tid then
          (.of (.registrationError .tidInUse), w)
        else if m.threadLimit ≤ live.length then (.of (.registrationError .capacity), w)
        else if ¬ allocated then (.of (.registrationError .noMemory), w)
        else
          let r := w.registrations.length
          let entry : RegisteredThread := { tid, thread := t, state := .pending }
          let w := { w with registrations := w.registrations ++ [entry] }
          let w := w.setThread t { thread with lifecycle := .pending, registration := some r }
          let w := w.setProcess thread.proc { m with children := live ++ [r] }
          (.of .done, w.putHand (.admission t r))

/-- `ThreadSignalRegistration::commit`; a refused token is still to be dropped. -/
def commitAdmission (h : Nat) : Answer × World :=
  match w.hands[h]? with
  | some (.admission t r) =>
    match w.threads[t]? with
    | none => (.of .unknown, w)
    | some thread =>
      if thread.registration = some r ∧ thread.lifecycle = .pending then
        (.of .done, ((w.setThread t { thread with lifecycle := .active }).setRegistration r
          .active).setHand h .empty)
      else (.of (.registrationError .cancelled), w)
  | _ => (.of .unknown, w)

/-- `ThreadSignalRegistration::drop` of a token that was not committed. -/
def dropAdmission (h : Nat) : Answer × World :=
  match w.hands[h]? with
  | some (.admission t r) =>
    match w.threads[t]? with
    | none => (.of .unknown, w)
    | some thread =>
      let w := (w.setRegistration r .cancelled).setHand h .empty
      if thread.registration = some r then
        (.of .done, (w.setThread t { thread with lifecycle := .cancelled, registration := none }).takeQueue
          (.thread t))
      else (.of .done, w)
  | _ => (.of .unknown, w)

/-- The registry entry is deactivated, if there is one. -/
def deactivate : Option Nat → World
  | some r => w.setRegistration r .cancelled
  | none => w

/-- `ThreadSignalManager::cancel_registration`. -/
def cancelRegistration (t : Nat) : Answer × World :=
  match w.threads[t]? with
  | none => (.of .unknown, w)
  | some thread =>
    let w := (w.deactivate thread.registration).setThread t
      { thread with lifecycle := .cancelled, registration := none }
    (.of (.cancelled thread.registration.isSome), w.takeQueue (.thread t))

/-- `ThreadSignalManager::retire_registration`. -/
def retireRegistration (t tid : Nat) (retain : Bool) : Answer × World :=
  match w.threads[t]? with
  | none => (.of .unknown, w)
  | some thread =>
    let children := (w.processes[thread.proc]?.map (·.children)).getD []
    match children.find? fun r => w.registrations[r]?.any fun entry =>
        entry.tid == tid && entry.thread == t with
    | none => (.of .done, w)
    | some r =>
      if thread.registration ≠ some r then (.of .done, w)
      else if retain then
        if thread.lifecycle = .pending ∨ thread.lifecycle = .active then
          (.of .done, (w.setRegistration r .retained).setThread t { thread with lifecycle := .retained })
        else (.of .done, w)
      else
        (.of .done, ((w.setRegistration r .cancelled).setThread t
          { thread with lifecycle := .cancelled, registration := none }).takeQueue (.thread t))

/-- `ThreadSignalManager::drop`. -/
def dropThread (t : Nat) : Answer × World :=
  match w.threads[t]? with
  | none => (.of .unknown, w)
  | some thread =>
    (.of .done, ((w.deactivate thread.registration).setThread t
      { thread with lifecycle := .cancelled, registration := none, dropped := true }).takeQueue
        (.thread t))

/-- Dropping a `ProcessSignalManager`: its queue goes. -/
def dropProcess (p : Nat) : Answer × World := (.of .done, w.takeQueue (.process p))

/-! ## Masks and signal return -/

/-- `ThreadSignalManager::set_blocked`. -/
def setBlocked (t : Nat) (set : SignalSet) : Answer × World :=
  match w.threads[t]? with
  | none => (.of .unknown, w)
  | some thread => (.of (.oldBlocked (thread.setBlocked set).1), w.setThread t (thread.setBlocked set).2)

/-- `ThreadSignalManager::set_real_blocked`. -/
def setRealBlocked (t : Nat) (realBlocked : Option SignalSet) : Answer × World :=
  match w.threads[t]? with
  | none => (.of .unknown, w)
  | some thread => (.of .done, w.setThread t { thread with realBlocked })

/-- `prepare_restore` and `commit_restore` of a frame with the given mask; `valid` is
the outcome of the context checks. -/
def restore (t : Nat) (sigmask : SignalSet) (valid : Bool) : Answer × World :=
  match w.threads[t]? with
  | none => (.of .unknown, w)
  | some thread =>
    if valid then (.of .done, w.setThread t (thread.commitRestore sigmask)) else (.of .done, w)

/-- The public `handle_signal` with an action of the caller's. -/
def handleSignal (t : Nat) (signo : Signo) (action : SignalAction)
    (hook framed : Bool) : Answer × World :=
  match w.threads[t]? with
  | none => (.of .unknown, w)
  | some thread =>
    if action.disposition.isHandler ∧ ¬ hook then (.of (.handled .hook), w)
    else
      let (os, thread) := thread.handleSignal signo action framed
      (.of (.handled (.action os)), w.setThread t thread)

end World

end LinuxAbi.Signal
