import Mathlib.Data.List.MinMax

/-!
# Processes, groups, sessions and reaper scopes

The state of one `ProcessDomain` of `crates/process/src/process.rs`.

Every object the source shares through an `Arc` is a row of a table and is named by
its index, so two names are equal exactly when the pointers are; a row is never
reused. What running code owns outside every lock (an admission token, the position
of an exit commit, releases that a drop still has to make) is a row of the table
`hands`.

Mirroring notes:
- `linked` is the row's `registry_link`: a registered process, group or session.
- `retained` says that the adapter holds an `Arc` of the process. Together with the
  registry, the scopes and the hands this decides whether a `Weak` can be upgraded.
- A bound reaper scope and its init keep each other alive, so the `Weak` to an outer
  scope always upgrades and is a plain index.
- Objects of another domain are refused with `WrongDomain` before any effect; there
  is one domain here.
- `identity`, `exit_signal` and the session's terminal are not used by the lifecycle.
-/

namespace LinuxAbi.Proc

abbrev Pid := Nat

def processMembershipLimit : Nat := 65536

def reparentBatchLimit : Nat := 64

inductive ProcessError
  | noMemory
  | alreadyExists
  | capacity
  | wrongDomain
  | notPublished
  | notLive
  | busy
  | notInitialized
deriving DecidableEq

inductive ThreadExitOutcome
  | notFound
  | liveThreadsRemain
  | finalThread
deriving DecidableEq

inductive ThreadPublicationOutcome
  | live
  | groupExited
deriving DecidableEq

/-! ## Counters -/

def reserveBoundedCounter (counter limit : Nat) : Except ProcessError Nat :=
  if counter + 1 ≤ limit then .ok (counter + 1) else .error .capacity

/-- `release_counter`: the value before, unless it was zero already. -/
def releaseCounter (counter : Nat) : Option Nat × Nat :=
  if counter = 0 then (none, 0) else (some counter, counter - 1)

/-! ## Thread groups -/

/-- `ThreadNode`; `node` is its address. -/
structure ThreadNode where
  node : Nat
  tid : Pid
  live : Bool
deriving DecidableEq

structure ThreadGroup where
  threads : List ThreadNode
  memberships : Nat
  liveThreads : Nat
  exitCode : Int
  groupExited : Bool
  exitPrepared : Bool

namespace ThreadGroup

def new : ThreadGroup where
  threads := []
  memberships := 0
  liveThreads := 0
  exitCode := 0
  groupExited := false
  exitPrepared := false

/-- `threads.find(&tid)`. -/
def find (tg : ThreadGroup) (tid : Pid) : Option ThreadNode := tg.threads.find? (·.tid == tid)

/-- The live thread with the given TID. -/
def findLive (tg : ThreadGroup) (tid : Pid) : Option ThreadNode := (tg.find tid).filter (·.live)

/-- `node.link.is_linked()`. -/
def isLinked (tg : ThreadGroup) (node : Nat) : Bool := tg.threads.any (·.node == node)

/-- `Process::detach_thread_locked`. -/
def detachThreadLocked (tg : ThreadGroup) (node : Nat) : Option ThreadNode × ThreadGroup :=
  match tg.threads.find? (·.node == node) with
  | none => (none, tg)
  | some thread =>
    (some { thread with live := false },
      { tg with
        threads := tg.threads.filter (·.node != node)
        memberships := tg.memberships - 1
        liveThreads := if thread.live then tg.liveThreads - 1 else tg.liveThreads })

/-- Marks a linked thread live. -/
def setLive (tg : ThreadGroup) (node : Nat) : ThreadGroup :=
  { tg with threads := tg.threads.map fun t => if t.node = node then { t with live := true } else t }

end ThreadGroup

/-! ## Objects -/

/-- `Process`, with the caller's zombie payload `Z`. -/
structure Process (Z : Type) where
  pid : Pid
  reaperScope : Nat
  init : Bool
  linked : Bool
  published : Bool
  isZombie : Bool
  reaped : Bool
  tg : ThreadGroup
  zombiePayload : Option Z
  childSubreaper : Bool
  parent : Option Nat
  group : Nat
  retained : Bool

structure ProcessGroup where
  pgid : Pid
  linked : Bool
  published : Bool
  memberships : Nat
  session : Nat

structure Session where
  sid : Pid
  linked : Bool
  published : Bool
  groups : Nat

structure ReaperScope where
  init : Option Nat
  outerScope : Option Nat

def Process.isLive {Z : Type} (process : Process Z) : Bool :=
  !process.isZombie && process.tg.liveThreads != 0

/-! ## What running code owns -/

/-- What `try_allocate` is given. -/
structure NewProcess where
  pid : Pid
  init : Bool
  parent : Option Nat
  group : Nat
  scope : Nat

/-- A release that a drop still has to make. -/
inductive Release
  /-- `ProcessAdmission::drop` -/
  | unlinkProcess (p : Nat)
  /-- `release_group_member` -/
  | groupMember (g : Nat)
  /-- `remove_empty_group` -/
  | emptyGroup (g : Nat)
  /-- `ThreadAdmission::drop` -/
  | detachThread (p node : Nat)
  /-- `release_thread_member` -/
  | threadMember
deriving DecidableEq

/-- Whom a thread membership is prepared for. -/
inductive ThreadOwner
  /-- a published process: `ProcessDomain::prepare_thread` -/
  | domain
  /-- an admission that stays with the caller: `ProcessAdmission::prepare_thread` -/
  | admission
  /-- an admission that is consumed: `ProcessAdmission::prepare_initial_thread` -/
  | initial
  /-- the same of a scope init -/
  | scopedInitial (scope outer : Nat)
deriving DecidableEq

/-- `try_create_session` or `try_create_group`. -/
inductive JobKind
  | session
  | group
deriving DecidableEq

structure ProcessesThroughCurrentMax where
  after : Option Pid
  upperBound : Option Pid
  finished : Bool

inductive ProcessCursorStep
  | process (p : Nat)
  | finished (retired : Option Nat)

structure ReparentedProcess where
  child : Nat
  wasZombie : Bool
deriving DecidableEq

structure ProcessReparentBatch where
  reaper : Nat
  reparented : List ReparentedProcess
deriving DecidableEq

/-- The loop variables of the reparenting loop of an exit commit. -/
structure ExitScan where
  children : ProcessesThroughCurrentMax
  deferredChild : Option Nat
  finished : Bool

/-- The variables of one topology section of that loop. -/
structure ReparentSection where
  batchReaper : Option Nat
  reparented : List ReparentedProcess
  batchLen : Nat

/-- Where an exit commit stands after the zombie transition. -/
inductive ExitStage
  /-- the departing thread's charge is still to be released -/
  | zombie (departing : Option ThreadNode)
  /-- before the cursor is made -/
  | released
  /-- before the next topology section -/
  | outside (scan : ExitScan)
  /-- inside a topology section -/
  | locked (scan : ExitScan) (current : ReparentSection)
  /-- before the `reparent_batch` callback -/
  | batch (scan : ExitScan) (handed : ProcessReparentBatch)
  /-- the `inherited_zombie` callbacks still to be made -/
  | inherited (scan : ExitScan) (handed : ProcessReparentBatch) (zombies : List Nat)

/-- A value that running code owns outside every lock. -/
inductive Hand
  | empty
  | releasing (todo : List Release)
  /-- an init whose session and group are admitted -/
  | initGroup (scope : Nat) (pid : Pid) (group : Nat)
  /-- an init that is admitted and not yet bound to its scope -/
  | initAdmission (scope p group : Nat)
  /-- a fork whose checks passed -/
  | forkChecked (parent scope : Nat) (pid : Pid) (init : Bool)
  /-- a fork whose process object is allocated -/
  | forkAllocated (new : NewProcess)
  /-- `ProcessAdmission` -/
  | admission (p : Nat)
  /-- `ScopedInitProcessAdmission` -/
  | scopedAdmission (p scope outer : Nat)
  /-- `InitialProcessAdmission` -/
  | initialAdmission (p node : Nat)
  /-- `ScopedInitialProcessAdmission` -/
  | scopedInitial (p node scope outer : Nat)
  /-- a scope init that is bound, before its outer scope is recorded -/
  | scopedBinding (p : Nat) (node : Option Nat) (scope outer : Nat)
  /-- a scope init before its publication -/
  | scopedBound (p : Nat) (node : Option Nat)
  /-- a thread membership before its domain charge -/
  | threadChecked (p : Nat) (tid : Pid) (owner : ThreadOwner)
  /-- a thread membership that is charged and not yet linked -/
  | threadReserved (p : Nat) (tid : Pid) (owner : ThreadOwner)
  /-- `ThreadAdmission` -/
  | threadAdmission (p node : Nat)
  | jobChecked (p : Nat) (kind : JobKind)
  | jobPlanned (p : Nat) (kind : JobKind) (session : Option Nat)
  /-- `JobControlAdmission` -/
  | jobAdmitted (p : Nat) (kind : JobKind) (group : Nat)
  | jobReserved (p : Nat) (kind : JobKind) (group : Nat)
  | moveChecked (p group : Nat)
  | moveLive (p group : Nat)
  | moveCompared (p group : Nat)
  | moveReserved (p group : Nat)
  | exitThreadChecked (p : Nat) (tid : Pid) (exitCode : Int)
  | exitChecked (p : Nat)
  /-- `ProcessExitAdmission` -/
  | exitAdmission (p : Nat) (departing : Option ThreadNode)
  /-- `commit_with_reparent_handoff` after the zombie transition -/
  | exiting (p : Nat) (notificationParent : Option Nat) (stage : ExitStage)

/-- The processes a stage keeps alive. -/
def ExitStage.holds : ExitStage → List Nat
  | .zombie _ => []
  | .released => []
  | .outside scan => scan.deferredChild.toList
  | .locked scan current => scan.deferredChild.toList ++ current.batchReaper.toList
      ++ current.reparented.map (·.child)
  | .batch scan handed =>
      scan.deferredChild.toList ++ handed.reaper :: handed.reparented.map (·.child)
  | .inherited scan handed _ =>
      scan.deferredChild.toList ++ handed.reaper :: handed.reparented.map (·.child)

/-- The processes a hand keeps alive. -/
def Hand.holds : Hand → List Nat
  | .empty | .releasing _ | .initGroup .. => []
  | .initAdmission _ p _ => [p]
  | .forkChecked parent .. => [parent]
  | .forkAllocated new => new.parent.toList
  | .admission p | .scopedAdmission p .. | .initialAdmission p _ | .scopedInitial p .. => [p]
  | .scopedBinding p .. | .scopedBound p _ => [p]
  | .threadChecked p .. | .threadReserved p .. | .threadAdmission p _ => [p]
  | .jobChecked p _ | .jobPlanned p .. | .jobAdmitted p .. | .jobReserved p .. => [p]
  | .moveChecked p _ | .moveLive p _ | .moveCompared p _ | .moveReserved p _ => [p]
  | .exitThreadChecked p .. | .exitChecked p | .exitAdmission p _ => [p]
  | .exiting p notificationParent stage => p :: notificationParent.toList ++ stage.holds

/-! ## The domain -/

/-- `ProcessDomain` with its `ProcessRegistry`. `topology` is the hand that keeps the
topology lock from one step to the next. -/
structure Domain (Z : Type) where
  membershipLimit : Nat
  processes : List (Process Z)
  memberships : Nat
  groups : List ProcessGroup
  groupCount : Nat
  sessions : List Session
  sessionCount : Nat
  scopes : List ReaperScope
  threadMemberships : Nat
  nextNode : Nat
  topology : Option Nat
  hands : List Hand

namespace Domain

variable {Z : Type}

/-- `ProcessDomain::try_with_membership_limit`; the root scope is row 0. -/
def new (Z : Type) (limit : Nat) : Domain Z where
  membershipLimit := min limit processMembershipLimit
  processes := []
  memberships := 0
  groups := []
  groupCount := 0
  sessions := []
  sessionCount := 0
  scopes := [{ init := none, outerScope := none }]
  threadMemberships := 0
  nextNode := 0
  topology := none
  hands := []

variable (d : Domain Z)

def setHand (h : Nat) (hand : Hand) : Domain Z := { d with hands := d.hands.set h hand }

def putHand (hand : Hand) : Domain Z := { d with hands := d.hands ++ [hand] }

def modifyProcess (p : Nat) (f : Process Z → Process Z) : Domain Z :=
  { d with processes := d.processes.modify p f }

/-- Stores a thread group. -/
def setTg (p : Nat) (tg : ThreadGroup) : Domain Z :=
  d.modifyProcess p fun process => { process with tg }

/-- `ReaperScope::init_process`. -/
def initProcess (scope : Nat) : Option Nat := d.scopes[scope]?.bind (·.init)

/-- Whether some `Arc` of the process exists. -/
def alive (p : Nat) : Bool :=
  d.processes[p]?.any (fun process => process.linked || process.retained) ||
    d.scopes.any (fun scope => scope.init == some p) ||
    d.hands.any fun hand => hand.holds.contains p

/-- `Weak::upgrade` of a parent pointer. -/
def upgrade (parent : Option Nat) : Option Nat := parent.filter fun p => d.alive p

end Domain

end LinuxAbi.Proc
