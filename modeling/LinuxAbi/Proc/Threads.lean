import LinuxAbi.Proc.Registry

/-!
# Thread memberships

A membership is charged to the domain, linked into its process's thread group, and
made live by one of four publications; a refused or dropped one gives everything
back. Removing threads is here too, up to the reversible removal of the last one.
-/

namespace LinuxAbi.Proc

namespace Domain

variable {Z : Type}

/-! ## Preparation -/

variable (d : Domain Z)

/-- `ProcessDomain::prepare_thread` up to its registry check. -/
def prepareThread (p : Nat) (tid : Pid) : Answer × Domain Z :=
  if d.ensurePublished p then (.of .done, d.putHand (.threadChecked p tid .domain))
  else (.of (.failed .notPublished), d)

/-- `ProcessAdmission::prepare_thread`: the admission stays where it is. -/
def prepareAdmissionThread (h : Nat) (tid : Pid) : Answer × Domain Z :=
  match d.hands[h]? with
  | some (.admission p) => (.of .done, d.putHand (.threadChecked p tid .admission))
  | _ => (.of .unknown, d)

/-- `prepare_initial_thread` of either admission. -/
def prepareInitialThread (h : Nat) (tid : Pid) : Answer × Domain Z :=
  match d.hands[h]? with
  | some (.admission p) => (.of .done, d.setHand h (.threadChecked p tid .initial))
  | some (.scopedAdmission p scope outer) =>
    (.of .done, d.setHand h (.threadChecked p tid (.scopedInitial scope outer)))
  | _ => (.of .unknown, d)

/-- What a failed preparation drops along with the thread. -/
def ownerReleases (p : Nat) : ThreadOwner → List Release
  | .domain | .admission => []
  | .initial | .scopedInitial .. => [.unlinkProcess p]

/-- The token of a successful preparation. -/
def threadToken (p node : Nat) : ThreadOwner → Hand
  | .domain | .admission => .threadAdmission p node
  | .initial => .initialAdmission p node
  | .scopedInitial scope outer => .scopedInitial p node scope outer

/-- The node allocation and the domain charge of `prepare_thread_in`. -/
def reserveThread (h : Nat) (allocated : Bool) : Answer × Domain Z :=
  match d.hands[h]? with
  | some (.threadChecked p tid owner) =>
    if ¬ allocated then
      (.of (.failed .noMemory), d.setHand h (.releasing (ownerReleases p owner)))
    else
      match reserveBoundedCounter d.threadMemberships d.membershipLimit with
      | .error error => (.of (.failed error), d.setHand h (.releasing (ownerReleases p owner)))
      | .ok threadMemberships =>
        (.of .done, setHand { d with threadMemberships } h (.threadReserved p tid owner))
  | _ => (.of .unknown, d)

/-- Whether `prepare_thread_in` links the thread. -/
def threadRefusal (p : Nat) (process : Process Z) (tid : Pid) (owner : ThreadOwner) :
    Option ProcessError :=
  if process.isZombie ∨ process.reaped then some .notLive
  else if process.tg.exitPrepared ∨ process.tg.groupExited then some .notLive
  else if owner = .domain ∧ (¬ process.published ∨ ¬ d.currentProcessLocked p) then some .notPublished
  else if d.membershipLimit ≤ process.tg.memberships then some .capacity
  else if (process.tg.find tid).isSome then some .alreadyExists
  else none

/-- The thread-group section of `prepare_thread_in`. -/
def linkThread (h : Nat) : Answer × Domain Z :=
  match d.hands[h]? with
  | some (.threadReserved p tid owner) =>
    match d.processes[p]? with
    | none => (.of .unknown, d)
    | some process =>
      match d.threadRefusal p process tid owner with
      | some error =>
        (.of (.failed error), d.setHand h (.releasing (.threadMember :: ownerReleases p owner)))
      | none =>
        let tg := { process.tg with
          threads := process.tg.threads ++ [{ node := d.nextNode, tid, live := false }]
          memberships := process.tg.memberships + 1 }
        (.of .done, setHand { d.setTg p tg with nextNode := d.nextNode + 1 } h
          (threadToken p d.nextNode owner))
  | _ => (.of .unknown, d)

/-! ## Publication -/

def publishLockedInfallible (tg : ThreadGroup) (node : Nat) :
    (ThreadPublicationOutcome × List ProcessEvent) × ThreadGroup :=
  let live := tg.threads.any fun t => t.node == node && t.live
  ((if tg.groupExited then .groupExited else .live,
      debugAssert (!live && decide (tg.liveThreads + 1 ≤ tg.memberships)) .threadNode),
    { tg.setLive node with liveThreads := tg.liveThreads + 1 })

def publishLocked (p : Nat) (process : Process Z) (node : Nat)
    (allowUnpublished : Bool) : Except ProcessError ThreadGroup :=
  let tg := process.tg
  if ¬ tg.isLinked node then .error .notPublished
  else if process.isZombie ∨ process.reaped ∨ tg.groupExited ∨ tg.exitPrepared then .error .notLive
  else if ¬ allowUnpublished ∧ (¬ process.published ∨ ¬ d.currentProcessLocked p) then
    .error .notPublished
  else if tg.threads.any fun t => t.node == node && t.live then .ok tg
  else if tg.liveThreads + 1 ≤ tg.memberships then
    .ok { tg.setLive node with liveThreads := tg.liveThreads + 1 }
  else .error .capacity

/-- `ThreadAdmission::commit`. -/
def commitThread (h : Nat) : Answer × Domain Z :=
  match d.hands[h]? with
  | some (.threadAdmission p node) =>
    match d.processes[p]? with
    | none => (.of .unknown, d)
    | some process =>
      match d.publishLocked p process node false with
      | .error error => (.of (.failed error), d.setHand h (.releasing [.detachThread p node]))
      | .ok tg => (.of .done, (d.setTg p tg).setHand h .empty)
  | _ => (.of .unknown, d)

/-- `ThreadAdmission::commit_infallible`. -/
def commitThreadInfallible (h : Nat) : Answer × Domain Z :=
  match d.hands[h]? with
  | some (.threadAdmission p node) =>
    match d.processes[p]? with
    | none => (.of .unknown, d)
    | some process =>
      let ((outcome, events), tg) := publishLockedInfallible process.tg node
      ({ reply := .threadPublished outcome, events }, (d.setTg p tg).setHand h .empty)
  | _ => (.of .unknown, d)

/-! ## Removal -/

/-- The exit code is the group's once the group has exited. -/
def withExitCode (tg : ThreadGroup) (exitCode : Int) : ThreadGroup :=
  if tg.groupExited then tg else { tg with exitCode }

/-- `ProcessDomain::exit_thread` up to the topology lock. -/
def exitThread (p : Nat) (tid : Pid) (exitCode : Int) : Answer × Domain Z :=
  if ¬ d.ensurePublished p then (.of (.failed .notPublished), d)
  else if (d.initProcess 0).isNone then (.of (.failed .notInitialized), d)
  else (.of .done, d.putHand (.exitThreadChecked p tid exitCode))

/-- The topology and thread-group section of `ProcessDomain::exit_thread`. -/
def exitThreadLocked (h : Nat) : Answer × Domain Z :=
  match d.hands[h]? with
  | some (.exitThreadChecked p tid exitCode) =>
    if d.topology.isSome then (.of .blocked, d)
    else
      match d.processes[p]? with
      | none => (.of .unknown, d)
      | some process =>
        match process.tg.findLive tid with
        | none => (.of (.threadExit .notFound), d.setHand h .empty)
        | some thread =>
          -- a reserved membership may still become live
          if process.tg.liveThreads = 1 ∧ process.tg.memberships ≠ 1 then
            (.of (.failed .busy), d.setHand h .empty)
          else if process.tg.liveThreads ≠ 1 then
            let tg := ((withExitCode process.tg exitCode).detachThreadLocked thread.node).2
            (.of (.threadExit .liveThreadsRemain),
              (d.setTg p tg).setHand h (.releasing [.threadMember]))
          else if process.init ∨ process.isZombie then (.of (.failed .notLive), d.setHand h .empty)
          else if process.tg.exitPrepared then (.of (.failed .busy), d.setHand h .empty)
          else
            let (departing, tg) := (withExitCode process.tg exitCode).detachThreadLocked thread.node
            (.of (.threadExit .finalThread),
              (d.setTg p { tg with exitPrepared := true }).setHand h (.exitAdmission p departing))
  | _ => (.of .unknown, d)

/-- `Process::exit_thread`; without an exit code, `Process::remove_thread`. -/
def removeThread (p : Nat) (tid : Pid) (exitCode : Option Int) : Answer × Domain Z :=
  if d.topology.isSome then (.of .blocked, d)
  else
    match d.processes[p]? with
    | none => (.of .unknown, d)
    | some process =>
      match process.tg.findLive tid with
      | none => (.of (.threadExit .notFound), d)
      | some thread =>
        let tg := match exitCode with
          | some exitCode => withExitCode process.tg exitCode
          | none => process.tg
        let tg := (tg.detachThreadLocked thread.node).2
        (.of (.threadExit (if tg.liveThreads = 0 then .finalThread else .liveThreadsRemain)),
          (d.setTg p tg).putHand (.releasing [.threadMember]))

/-- `Process::group_exit`. -/
def groupExit (p : Nat) (exitCode : Int) : Answer × Domain Z :=
  match d.processes[p]? with
  | none => (.of .unknown, d)
  | some process =>
    if process.tg.groupExited then (.of (.flag false), d)
    else (.of (.flag true), d.setTg p { process.tg with exitCode, groupExited := true })

end Domain

end LinuxAbi.Proc
