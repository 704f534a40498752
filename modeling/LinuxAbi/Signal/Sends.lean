import LinuxAbi.Signal.World

/-!
# Sending signals

A send is two sections around the preparation of its record: the first applies the
job-control effect of the signal and decides whether a record is needed at all, the
second decides again and publishes. A prepared send has the second only, and is
tied to the endpoints it was prepared for.
-/

namespace LinuxAbi.Signal

namespace World

/-! ## Process-directed sends -/

variable (w : World)

/-- First section of `ProcessSignalManager::try_send_signal_with`; `proceed` asks the
caller for a prepared record. -/
def processPreflight (p : Nat) (signo : Signo) : Answer × World :=
  match w.processes[p]? with
  | none => (.of .unknown, w)
  | some m =>
    if m.lifecycle ≠ .active then (.of (.processSent .inactive), w)
    else
      let (w, detached) := w.applyGenerationEffect p m signo
      let w := w.putHand (.detached detached)
      if w.actionIgnored m signo ∧ ¬ w.blockedByAnyThread m signo then
        (.of (.processSent .inactive), w)
      else if ¬ signo.isRealtime ∧ (w.queue (.process p)).any fun pending => pending.set.has signo then
        let wakeTid := w.wakeThreadFor m signo
        (.of (.processSent { published := false, wakeTid }),
          if wakeTid.isSome then w.putHand (.raise (.process p)) else w)
      else (.of .proceed, w)

/-- Second section of `ProcessSignalManager::try_send_signal_with`. -/
def processCommit (p h : Nat) : Answer × World :=
  match w.processes[p]?, w.hands[h]? with
  | some m, some (.prepared signal) =>
    if m.lifecycle ≠ .active then (.of (.processSent .inactive), w)
    else
      let signo := signal.signo
      let (w, detached) := w.applyGenerationEffect p m signo
      let w := w.putHand (.detached detached)
      if w.actionIgnored m signo ∧ ¬ w.blockedByAnyThread m signo then
        (.of (.processSent .inactive), w)
      else
        match w.queue (.process p) with
        | none => (.of .unknown, w)
        | some pending =>
          let wakeTid := w.wakeThreadFor m signo
          if signo.isRealtime ∨ ¬ pending.set.has signo then
            let (outcome, pending) := pending.publish signal
            (.of (.processSent { published := outcome.added, wakeTid }),
              (((w.storeQueue (.process p) pending none).setHand h (leftover outcome.unused)).putHand
                (.raise (.process p))))
          else
            (.of (.processSent { published := false, wakeTid }), w.putHand (.raise (.process p)))
  | _, _ => (.of .unknown, w)

/-- `ProcessSignalManager::try_prepare_signal_send`. -/
def prepareProcessSend (p : Nat) (allocated : Bool) : Answer × World :=
  match w.processes[p]? with
  | none => (.of .unknown, w)
  | some m =>
    if allocated then
      let endpoints := m.children.filterMap fun r =>
        (w.upgrade r).map fun (tid, thread) => { registration := r, tid, thread }
      (.of .done, w.putHand (.processSend p endpoints))
    else (.of .outOfMemory, w)

/-- `PreparedProcessSignalSend::publish`. -/
def publishProcessSend (send h : Nat) : Answer × World :=
  match w.hands[send]?, w.hands[h]? with
  | some (.processSend p endpoints), some (.prepared signal) =>
    match w.processes[p]? with
    | none => (.of .unknown, w)
    | some m =>
      let w := w.setHand send .empty
      if m.lifecycle ≠ .active then (.of (.processSent .inactive), w)
      else
        let signo := signal.signo
        let (w, detached) := w.applyGenerationEffect p m signo
        let w := w.putHand (.detached detached)
        let blockedByAnyThread := endpoints.any fun e => w.isActive e.registration &&
          w.threads[e.thread]?.any fun t => t.blocked.has signo || t.signalRealBlocked signo
        if w.actionIgnored m signo ∧ ¬ blockedByAnyThread then (.of (.processSent .inactive), w)
        else
          match w.queue (.process p) with
          | none => (.of .unknown, w)
          | some pending =>
            let (outcome, pending) := pending.publish signal
            let wakeTid := endpoints.findSome? fun e =>
              if w.isActive e.registration ∧ w.threads[e.thread]?.any (fun t => !t.blocked.has signo)
              then some e.tid else none
            (.of (.processSent { published := outcome.added, wakeTid }),
              (((w.storeQueue (.process p) pending none).setHand h (leftover outcome.unused)).putHand
                (.raise (.process p))))
  | _, _ => (.of .unknown, w)

/-! ## Thread-directed sends -/

/-- First section of `ThreadSignalManager::try_send_signal_for_endpoint`. -/
def threadPreflight (t : Nat) (mode : EndpointSendMode) (signo : Signo) :
    Answer × World :=
  match w.threads[t]? with
  | none => (.of .unknown, w)
  | some thread =>
    match w.processes[thread.proc]? with
    | none => (.of .unknown, w)
    | some m =>
      if ¬ mode.accepts thread.lifecycle then (.of (.threadSent .inactive), w)
      else
        let (w, detached) := w.applyGenerationEffect thread.proc m signo
        let w := w.putHand (.detached detached)
        let blocked := thread.blocked.has signo
        if w.actionIgnored m signo ∧ ¬ blocked ∧ ¬ thread.signalRealBlocked signo then
          (.of (.threadSent .inactive), w)
        else
          match w.queue (.thread t) with
          | none => (.of .unknown, w)
          | some pending =>
            if ¬ signo.isRealtime ∧ pending.set.has signo then
              let wake := mode.accepts .active && !blocked
              (.of (.threadSent { published := false, wake, generation := none }),
                w.storeQueue (.thread t) pending (some true))
            else (.of .proceed, w)

/-- Publication of a record into the thread queue, with the generation it is
assigned unless it coalesces; `none` when the generations are exhausted. -/
def publishThread (t h : Nat) (signal : PreparedSignal) (coalesced : Bool) :
    Option (Bool × Option Nat) × World :=
  match w.threads[t]? with
  | none => (none, w)
  | some thread =>
    match if coalesced then (some (none, signal), thread) else thread.assignGeneration signal with
    | (none, thread) => (none, w.setThread t thread)
    | (some (generation, signal), thread) =>
      let w := w.setThread t thread
      let (outcome, pending) := thread.pending.publish signal
      (some (outcome.added, if outcome.added then generation else none),
        (w.storeQueue (.thread t) pending none).setHand h (leftover outcome.unused))

/-- Second section of `ThreadSignalManager::try_send_signal_for_endpoint`. -/
def threadCommit (t : Nat) (mode : EndpointSendMode) (h : Nat) : Answer × World :=
  match w.threads[t]?, w.hands[h]? with
  | some thread, some (.prepared signal) =>
    match w.processes[thread.proc]? with
    | none => (.of .unknown, w)
    | some m =>
      if ¬ mode.accepts thread.lifecycle then (.of (.threadSent .inactive), w)
      else
        let signo := signal.signo
        let (w, detached) := w.applyGenerationEffect thread.proc m signo
        let w := w.putHand (.detached detached)
        let blocked := thread.blocked.has signo
        if w.actionIgnored m signo ∧ ¬ blocked ∧ ¬ thread.signalRealBlocked signo then
          (.of (.threadSent .inactive), w)
        else
          let wake := mode.accepts .active && !blocked
          -- a coalesced record takes no generation and stays with its sender
          if ¬ signo.isRealtime ∧ (w.queue (.thread t)).any fun pending => pending.set.has signo then
            (.of (.threadSent { published := false, wake, generation := none }),
              w.putHand (.raise (.thread t)))
          else
            match w.publishThread t h signal false with
            | (none, w) => (.of (.threadSent .inactive), w)
            | (some (published, generation), w) =>
              (.of (.threadSent { published, wake, generation }), w.putHand (.raise (.thread t)))
  | _, _ => (.of .unknown, w)

/-- `ThreadSignalManager::try_prepare_signal_send`. -/
def prepareThreadSend (t : Nat) : Answer × World :=
  match w.threads[t]? with
  | none => (.of .unknown, w)
  | some thread =>
    let children := (w.processes[thread.proc]?.map (·.children)).getD []
    match children.find? fun r => (w.upgrade r).any fun (_, thread) => thread == t with
    | some r => (.of .done, w.putHand (.threadSend t r))
    | none => (.of .notRegistered, w)

/-- `PreparedThreadSignalSend::publish`. -/
def publishThreadSend (send h : Nat) : Answer × World :=
  match w.hands[send]?, w.hands[h]? with
  | some (.threadSend t r), some (.prepared signal) =>
    match w.threads[t]? with
    | none => (.of .unknown, w)
    | some thread =>
      match w.processes[thread.proc]? with
      | none => (.of .unknown, w)
      | some m =>
        let w := w.setHand send .empty
        if ¬ (thread.lifecycle = .active ∧ w.isActive r ∧ thread.registration = some r) then
          (.of (.threadSent .inactive), w)
        else
          let signo := signal.signo
          let (w, detached) := w.applyGenerationEffect thread.proc m signo
          let w := w.putHand (.detached detached)
          let blocked := thread.blocked.has signo
          if w.actionIgnored m signo ∧ ¬ blocked ∧ ¬ thread.signalRealBlocked signo then
            (.of (.threadSent .inactive), w)
          else
            let coalesced := !signo.isRealtime &&
              (w.queue (.thread t)).any fun pending => pending.set.has signo
            match w.publishThread t h signal coalesced with
            | (none, w) => (.of (.threadSent .inactive), w)
            | (some (published, generation), w) =>
              (.of (.threadSent { published, wake := !blocked, generation }),
                w.putHand (.raise (.thread t)))
  | _, _ => (.of .unknown, w)

end World

end LinuxAbi.Signal
