import LinuxAbi.Proc.Fork
import LinuxAbi.Proc.Jobs
import LinuxAbi.Lib.Run

/-!
# Exit, reparenting, and one call of any kind

`ProcessExitAdmission::commit_with_reparent_handoff`, cut into the zombie transition,
the release of the departing thread, the cursor, the topology sections and the
callbacks between them. Inside a topology section every scanned process is a step of
its own, so that what needs other locks only (subreaper toggles, thread and process
publication) can run between two of them.

The comparison of the parent pointer before the selection and the one inside
`reparent_if_owned` are both here; parent pointers change under the topology lock
only.
-/

namespace LinuxAbi.Proc

/-! ## The reaper of a child -/

/-- What the loop of `select_reaper_for_exit_locked` asks of a candidate. -/
def Process.isReaper {Z : Type} (process : Process Z) (scope : Nat) : Bool :=
  process.reaperScope == scope && process.childSubreaper && process.tg.liveThreads != 0 &&
    !process.tg.exitPrepared && !process.isZombie

/-- What `select_reaper_for_exit_locked` comes to. -/
inductive ReaperSelection
  | reaper (r : Nat)
  | panic (cause : Panic)
  | endless

namespace Domain

variable {Z : Type} (d : Domain Z)

/-- The loop of `select_reaper_for_exit_locked`, for at most `fuel` candidates: the
reaper it finds, if any, or `none` if it is not over yet. -/
def walkAncestors (d : Domain Z) (scope : Nat) : Nat → Nat → Option (Option Nat)
  | 0, _ => none
  | fuel + 1, candidate =>
    match d.processes[candidate]? with
    | none => some none
    | some process =>
      if process.isReaper scope then some (some candidate)
      else if process.reaperScope ≠ scope then some none
      else
        match d.upgrade process.parent with
        | none => some none
        | some next => d.walkAncestors scope fuel next

/-- The fallback of `select_reaper_for_exit_locked`: the init of the scope, or of the
outer scope for the init itself. -/
def fallbackReaper (child scope : Nat) : Except Panic Nat :=
  match d.initProcess scope with
  | none => .error .noScopeInit
  | some init =>
    if init = child then
      match (d.scopes[scope]?.bind (·.outerScope)).bind d.initProcess with
      | none => .error .noOuterInit
      | some outer => .ok outer
    else .ok init

/-- The parent pointer of a row. -/
def parentOf (p : Nat) : Option Nat := d.processes[p]?.bind (·.parent)

def selectReaperForExitLocked (exiting child scope : Nat) : ReaperSelection :=
  match d.fallbackReaper child scope with
  | .error cause => .panic cause
  | .ok fallback =>
    match d.upgrade (d.parentOf exiting) with
    | none => .reaper fallback
    | some first =>
      match d.walkAncestors scope d.processes.length first with
      | none => .endless
      | some reaper => .reaper (reaper.getD fallback)

def reparentIfOwned (child expectedParent replacement : Nat) : Option (Domain Z) :=
  if d.parentOf child = some expectedParent then
    some (d.modifyProcess child fun process => { process with parent := some replacement })
  else none

/-! ## Reservation -/

/-- The checks of `prepare_exit`. -/
def prepareExit (p : Nat) : Answer × Domain Z :=
  if ¬ d.ensurePublished p then (.of (.failed .notPublished), d)
  else if d.processes[p]?.any (fun process => process.init || process.isZombie) then
    (.of (.failed .notLive), d)
  else if (d.initProcess 0).isNone then (.of (.failed .notInitialized), d)
  else (.of .done, d.putHand (.exitChecked p))

/-- The topology and thread-group section of `prepare_exit`. -/
def reserveExit (h : Nat) : Answer × Domain Z :=
  match d.hands[h]? with
  | some (.exitChecked p) =>
    if d.topology.isSome then (.of .blocked, d)
    else
      match d.processes[p]? with
      | none => (.of .unknown, d)
      | some process =>
        if process.tg.memberships ≠ 0 then (.of (.failed .notLive), d.setHand h .empty)
        else if process.tg.exitPrepared then (.of (.failed .busy), d.setHand h .empty)
        else if process.zombiePayload.isSome then (.of (.failed .notLive), d.setHand h .empty)
        else
          (.of .done, (d.setTg p { process.tg with exitPrepared := true }).setHand h
            (.exitAdmission p none))
  | _ => (.of .unknown, d)

/-- `ProcessExitAdmission::drop` of a token that was not committed. -/
def dropExit (h : Nat) : Answer × Domain Z :=
  match d.hands[h]? with
  | some (.exitAdmission p departing) =>
    match d.processes[p]? with
    | none => (.of .unknown, d)
    | some process =>
      match departing with
      | none => (.of .done, (d.setTg p { process.tg with exitPrepared := false }).setHand h .empty)
      | some thread =>
        ({ reply := .done
           events := debugAssert (!process.tg.isLinked thread.node && !thread.live) .threadNode },
          (d.setTg p { process.tg with
            threads := process.tg.threads ++ [{ thread with live := true }]
            memberships := process.tg.memberships + 1
            liveThreads := process.tg.liveThreads + 1
            exitPrepared := false }).setHand h .empty)
  | _ => (.of .unknown, d)

/-! ## The commit -/

/-- The zombie transition. -/
def publishZombie (h : Nat) (payload : Z) : Answer × Domain Z :=
  match d.hands[h]? with
  | some (.exitAdmission p departing) =>
    if d.topology.isSome then (.of .blocked, d)
    else
      match d.processes[p]? with
      | none => (.of .unknown, d)
      | some process =>
        let notificationParent := d.upgrade process.parent
        ({ reply := .done
           events := debugAssert (process.tg.exitPrepared && process.tg.memberships == 0)
               .exitNotPrepared
             ++ debugAssert process.zombiePayload.isNone .payloadPublished
             ++ [.zombie p notificationParent] },
          (d.modifyProcess p fun process => { process with
            zombiePayload := some payload
            isZombie := true
            tg := { process.tg with exitPrepared := false } }).setHand h
              (.exiting p notificationParent (.zombie departing)))
  | _ => (.of .unknown, d)

/-- The departing thread's charge. -/
def releaseDeparting (h : Nat) : Answer × Domain Z :=
  match d.hands[h]? with
  | some (.exiting p notificationParent (.zombie departing)) =>
    let d := match departing with
      | some _ => { d with threadMemberships := (releaseCounter d.threadMemberships).2 }
      | none => d
    (.of .done, d.setHand h (.exiting p notificationParent .released))
  | _ => (.of .unknown, d)

/-- `processes_through_current_max` and the other loop variables. -/
def startScan (h : Nat) : Answer × Domain Z :=
  match d.hands[h]? with
  | some (.exiting p notificationParent .released) =>
    (.of .done, d.setHand h (.exiting p notificationParent (.outside
      { children := d.processesThroughCurrentMax, deferredChild := none, finished := false })))
  | _ => (.of .unknown, d)

/-- The start of a topology section. -/
def lockSection (h : Nat) : Answer × Domain Z :=
  match d.hands[h]? with
  | some (.exiting p notificationParent (.outside scan)) =>
    if d.topology.isSome then (.of .blocked, d)
    else
      (.of .done, setHand { d with topology := some h } h (.exiting p notificationParent
        (.locked scan { batchReaper := none, reparented := [], batchLen := 0 })))
  | _ => (.of .unknown, d)

/-- The deferred child, or what the cursor gives. -/
def nextChild (scan : ExitScan) : ProcessCursorStep × ExitScan :=
  match scan.deferredChild with
  | some child => (.process child, { scan with deferredChild := none })
  | none => ((d.nextRaw scan.children).1, { scan with children := (d.nextRaw scan.children).2 })

/-- The end of one round of the outer loop: the commit returns or goes on. -/
def nextRound (h p : Nat) (notificationParent : Option Nat) (scan : ExitScan) :
    List ProcessEvent × Domain Z :=
  if scan.finished then ([.returned h p notificationParent], d.setHand h .empty)
  else ([], d.setHand h (.exiting p notificationParent (.outside scan)))

/-- The end of a topology section: a batch to hand out, or nothing was moved. -/
def unlockSection (h p : Nat) (notificationParent : Option Nat) (scan : ExitScan)
    (current : ReparentSection) : List ProcessEvent × Domain Z :=
  let d := { d with topology := none }
  if current.reparented.isEmpty then d.nextRound h p notificationParent scan
  else
    match current.batchReaper with
    | none => ([.panicked .noBatchReaper], d.setHand h .empty)
    | some reaper =>
      ([], d.setHand h (.exiting p notificationParent
        (.batch scan { reaper, reparented := current.reparented })))

/-- The inner loop goes on while fewer than `REPARENT_BATCH_LIMIT` were scanned. -/
def continueSection (h p : Nat) (notificationParent : Option Nat) (scan : ExitScan)
    (current : ReparentSection) : List ProcessEvent × Domain Z :=
  if current.batchLen < reparentBatchLimit then
    ([], d.setHand h (.exiting p notificationParent (.locked scan current)))
  else d.unlockSection h p notificationParent scan current

/-- One scanned process of a topology section. -/
def scanChild (h p : Nat) (notificationParent : Option Nat) (scan : ExitScan)
    (current : ReparentSection) (child : Nat) (process : Process Z) :
    List ProcessEvent × Domain Z :=
  let current := { current with batchLen := current.batchLen + 1 }
  if ¬ process.published ∨ process.parent ≠ some p then
    d.continueSection h p notificationParent scan current
  else
    match d.selectReaperForExitLocked p child process.reaperScope with
    | .panic cause =>
      ([.panicked cause], setHand { d with topology := none } h .empty)
    | .endless => ([.endless], d)
    | .reaper reaper =>
      if current.batchReaper.any (· != reaper) then
        -- another reaper: the child starts the next section
        d.unlockSection h p notificationParent { scan with deferredChild := some child } current
      else
        match d.reparentIfOwned child p reaper with
        | none => d.continueSection h p notificationParent scan current
        | some d =>
          let moved : ReparentedProcess := { child, wasZombie := process.isZombie }
          let current := { current with
            batchReaper := some reaper
            reparented := current.reparented ++ [moved] }
          -- a moved zombie is reported at once
          let (events, d) :=
            if process.isZombie then d.unlockSection h p notificationParent scan current
            else d.continueSection h p notificationParent scan current
          (.moved h p child reaper process.isZombie :: events, d)

/-- One round of the inner loop. -/
def scan (d : Domain Z) (h : Nat) : Answer × Domain Z :=
  match d.hands[h]? with
  | some (.exiting p notificationParent (.locked scan current)) =>
    match d.nextChild scan with
    | (.finished _, scan) =>
      let (events, d) :=
        d.unlockSection h p notificationParent { scan with finished := true } current
      ({ reply := .done, events }, d)
    | (.process child, scan) =>
      match d.processes[child]? with
      | none => (.of .unknown, d)
      | some process =>
        let (events, d) := d.scanChild h p notificationParent scan current child process
        ({ reply := .done, events }, d)
  | _ => (.of .unknown, d)

/-- The `reparent_batch` callback. -/
def reparentBatch (h : Nat) : Answer × Domain Z :=
  match d.hands[h]? with
  | some (.exiting p notificationParent (.batch scan handed)) =>
    ({ reply := .done, events := [.batch h p handed] },
      d.setHand h (.exiting p notificationParent (.inherited scan handed
        ((handed.reparented.filter (·.wasZombie)).map (·.child)))))
  | _ => (.of .unknown, d)

/-- The next `inherited_zombie` callback, or the end of the round. -/
def inheritedZombie (h : Nat) : Answer × Domain Z :=
  match d.hands[h]? with
  | some (.exiting p notificationParent (.inherited scan handed (child :: zombies))) =>
    ({ reply := .done, events := [.inherited h p child] },
      d.setHand h (.exiting p notificationParent (.inherited scan handed zombies)))
  | some (.exiting p notificationParent (.inherited scan _ [])) =>
    let (events, d) := d.nextRound h p notificationParent scan
    ({ reply := .done, events }, d)
  | _ => (.of .unknown, d)

end Domain

/-! ## Calls -/

/-- One section, with the outcomes it does not decide itself. -/
inductive ProcessCall (Z : Type)
  | newReaperScope (allocated : Bool)
  | retain (p : Nat) (retained : Bool)
  | setChildSubreaper (p : Nat) (enabled : Bool)
  | newInit (scope : Nat) (pid : Pid) (allocated : Bool)
  | admitInit (h : Nat) (allocated : Bool)
  | bindInit (h : Nat)
  | prepareFork (parent scope : Nat) (pid : Pid)
  | prepareForkInit (parent scope : Nat) (pid : Pid)
  | allocateFork (h : Nat) (allocated : Bool)
  | admitFork (h : Nat)
  | commitProcess (h : Nat)
  | commitWithThread (h ht : Nat)
  | commitInitial (h : Nat)
  | bindScope (h : Nat)
  | bindOuter (h : Nat)
  | commitScoped (h : Nat)
  | dropToken (h : Nat)
  | releaseNext (h : Nat)
  | prepareThread (p : Nat) (tid : Pid)
  | prepareAdmissionThread (h : Nat) (tid : Pid)
  | prepareInitialThread (h : Nat) (tid : Pid)
  | reserveThread (h : Nat) (allocated : Bool)
  | linkThread (h : Nat)
  | commitThread (h : Nat)
  | commitThreadInfallible (h : Nat)
  | exitThread (p : Nat) (tid : Pid) (exitCode : Int)
  | exitThreadLocked (h : Nat)
  | removeThread (p : Nat) (tid : Pid) (exitCode : Option Int)
  | groupExit (p : Nat) (exitCode : Int)
  | createJob (p : Nat) (kind : JobKind)
  | readJob (h : Nat)
  | admitJob (h : Nat) (allocated : Bool)
  | reserveJob (h : Nat)
  | commitJob (h : Nat)
  | moveToGroup (p g : Nat)
  | moveGroupLive (h : Nat)
  | moveCompare (h : Nat)
  | reserveMove (h : Nat)
  | commitMove (h : Nat)
  | reap (p : Nat)
  | prepareExit (p : Nat)
  | reserveExit (h : Nat)
  | dropExit (h : Nat)
  | publishZombie (h : Nat) (payload : Z)
  | releaseDeparting (h : Nat)
  | startScan (h : Nat)
  | lockSection (h : Nat)
  | scan (h : Nat)
  | reparentBatch (h : Nat)
  | inheritedZombie (h : Nat)

/-- Runs one section. -/
def Domain.call {Z : Type} (d : Domain Z) : ProcessCall Z → Answer × Domain Z
  | .newReaperScope allocated => d.newReaperScope allocated
  | .retain p retained => d.retain p retained
  | .setChildSubreaper p enabled => d.setChildSubreaper p enabled
  | .newInit scope pid allocated => d.newInit scope pid allocated
  | .admitInit h allocated => d.admitInit h allocated
  | .bindInit h => d.bindInit h
  | .prepareFork parent scope pid => d.prepareFork parent scope pid
  | .prepareForkInit parent scope pid => d.prepareForkInit parent scope pid
  | .allocateFork h allocated => d.allocateFork h allocated
  | .admitFork h => d.admitFork h
  | .commitProcess h => d.commitProcess h
  | .commitWithThread h ht => d.commitWithThread h ht
  | .commitInitial h => d.commitInitial h
  | .bindScope h => d.bindScope h
  | .bindOuter h => d.bindOuter h
  | .commitScoped h => d.commitScoped h
  | .dropToken h => d.dropToken h
  | .releaseNext h => d.releaseNext h
  | .prepareThread p tid => d.prepareThread p tid
  | .prepareAdmissionThread h tid => d.prepareAdmissionThread h tid
  | .prepareInitialThread h tid => d.prepareInitialThread h tid
  | .reserveThread h allocated => d.reserveThread h allocated
  | .linkThread h => d.linkThread h
  | .commitThread h => d.commitThread h
  | .commitThreadInfallible h => d.commitThreadInfallible h
  | .exitThread p tid exitCode => d.exitThread p tid exitCode
  | .exitThreadLocked h => d.exitThreadLocked h
  | .removeThread p tid exitCode => d.removeThread p tid exitCode
  | .groupExit p exitCode => d.groupExit p exitCode
  | .createJob p kind => d.createJob p kind
  | .readJob h => d.readJob h
  | .admitJob h allocated => d.admitJob h allocated
  | .reserveJob h => d.reserveJob h
  | .commitJob h => d.commitJob h
  | .moveToGroup p g => d.moveToGroup p g
  | .moveGroupLive h => d.moveGroupLive h
  | .moveCompare h => d.moveCompare h
  | .reserveMove h => d.reserveMove h
  | .commitMove h => d.commitMove h
  | .reap p => d.reap p
  | .prepareExit p => d.prepareExit p
  | .reserveExit h => d.reserveExit h
  | .dropExit h => d.dropExit h
  | .publishZombie h payload => d.publishZombie h payload
  | .releaseDeparting h => d.releaseDeparting h
  | .startScan h => d.startScan h
  | .lockSection h => d.lockSection h
  | .scan h => d.scan h
  | .reparentBatch h => d.reparentBatch h
  | .inheritedZombie h => d.inheritedZombie h

/-- What happens in one call. -/
def processEvents {Z : Type} (_ : ProcessCall Z) (answer : Answer) : List ProcessEvent :=
  answer.events

end LinuxAbi.Proc
