import LinuxAbi.Proc.Types

/-!
# The registry

The sections of `ProcessRegistry`: identities of processes, groups and sessions, the
counters of groups and sessions, the PID cursor, and the releases that dropped tokens
make one after the other.

A section that is called with the index of a missing row, or with a hand that does not
hold what the section takes, does not exist in the source; it answers `unknown` and
changes nothing. A section that needs the topology lock while an exit commit holds it
answers `blocked` and changes nothing.
-/

namespace LinuxAbi.Proc

/-! ## Answers -/

/-- An assertion of the crate. -/
inductive Panic
  /-- `expect("every published process has a bound reaper-scope init")` -/
  | noScopeInit
  /-- `expect("a non-root scope init has an outer-scope init")` -/
  | noOuterInit
  /-- `expect("reparented batch has a selected reaper")` -/
  | noBatchReaper
  /-- `assert!(init.is_none())` of `ScopedInitProcessAdmission::bind` -/
  | scopeBound
  /-- a `debug_assert` on the thread group at the zombie transition -/
  | exitNotPrepared
  /-- the `debug_assert` on the payload at the zombie transition -/
  | payloadPublished
  /-- a `debug_assert` on the node of a thread that is published or put back -/
  | threadNode
  /-- the `debug_assert` on the outcome of an initial thread -/
  | initialGroupExited
deriving DecidableEq

/-- What a section answers. -/
inductive ProcessReply
  | unknown
  | blocked
  | done
  | nothing
  | failed (error : ProcessError)
  | flag (value : Bool)
  | threadExit (outcome : ThreadExitOutcome)
  | threadPublished (outcome : ThreadPublicationOutcome)
  | panic (cause : Panic)
  /-- a walk over the ancestors that does not end -/
  | endless
deriving DecidableEq

/-- What an adapter sees of exits, and the parent changes behind it. `h` is the hand of
the exit commit, and `p` the exiting process. -/
inductive ProcessEvent
  /-- a zombie transition with the notification parent it captured -/
  | zombie (p : Nat) (notificationParent : Option Nat)
  /-- one changed parent pointer -/
  | moved (h p child reaper : Nat) (wasZombie : Bool)
  /-- `reparent_batch` -/
  | batch (h p : Nat) (handed : ProcessReparentBatch)
  /-- `inherited_zombie` -/
  | inherited (h p child : Nat)
  /-- a commit returned -/
  | returned (h p : Nat) (notificationParent : Option Nat)
  | panicked (cause : Panic)
  | endless
deriving DecidableEq

/-- An answer with what happened. -/
structure Answer where
  reply : ProcessReply
  events : List ProcessEvent

/-- An answer without events. -/
def Answer.of (reply : ProcessReply) : Answer := { reply, events := [] }

/-- The answer of an assertion that fires. -/
def Answer.panic (cause : Panic) : Answer := { reply := .panic cause, events := [.panicked cause] }

/-- A `debug_assert`: the section goes on. -/
def debugAssert (condition : Bool) (cause : Panic) : List ProcessEvent :=
  if condition then [] else [.panicked cause]

namespace Domain

variable {Z : Type}

/-! ## Identities -/

variable (d : Domain Z)

/-- The registered processes. -/
def entries : List Nat :=
  (List.range d.processes.length).filter fun i => d.processes[i]?.any (·.linked)

/-- The PID of a row. -/
def pidOf (p : Nat) : Pid := (d.processes[p]?.map (·.pid)).getD 0

/-- `entries.find(&pid)`. -/
def findProcess (pid : Pid) : Option Nat := d.entries.find? fun i => d.pidOf i == pid

/-- `groups.find(&pgid)`. -/
def findGroup (pgid : Pid) : Option Nat :=
  d.groups.findIdx? fun group => group.linked && group.pgid == pgid

/-- `sessions.find(&sid)`. -/
def findSession (sid : Pid) : Option Nat :=
  d.sessions.findIdx? fun session => session.linked && session.sid == sid

/-- `ProcessRegistry::current_process_locked`. -/
def currentProcessLocked (p : Nat) : Bool :=
  d.processes[p]?.any fun process => d.findProcess process.pid == some p

/-- `ProcessRegistry::ensure_published`. -/
def ensurePublished (p : Nat) : Bool :=
  d.processes[p]?.any (fun process => process.published) && d.currentProcessLocked p

/-- `ProcessRegistry::current_group_locked`. -/
def currentGroupLocked (g : Nat) : Bool :=
  d.groups[g]?.any fun group => d.findGroup group.pgid == some g

/-- `ProcessRegistry::current_session_locked`. -/
def currentSessionLocked (s : Nat) : Bool :=
  d.sessions[s]?.any fun session => d.findSession session.sid == some s

/-- `ProcessRegistry::ensure_group_live`. -/
def ensureGroupLive (g : Nat) : Bool :=
  d.currentGroupLocked g && d.groups[g]?.any fun group => group.published

/-- The session of a process's group. -/
def sessionOf (group : Nat) : Option Nat := d.groups[group]?.map (·.session)

/-! ## Admission -/

/-- `admit_session_group` of a new group, in a new session when `session` is `none`
(its SID is the group's PGID); the new group. -/
def admitSessionGroup (pgid : Pid) (session : Option Nat) : Except ProcessError (Nat × Domain Z) :=
  if d.membershipLimit ≤ d.groupCount ∨ (session.isNone ∧ d.membershipLimit ≤ d.sessionCount) then
    .error .capacity
  else if (d.findGroup pgid).isSome then .error .alreadyExists
  else
    let g := d.groups.length
    match session with
    | none =>
      if (d.findSession pgid).isSome then .error .alreadyExists
      else
        match reserveBoundedCounter 0 d.membershipLimit with
        | .error error => .error error
        | .ok groups =>
          .ok (g, { d with
            sessions := d.sessions ++ [{ sid := pgid, linked := true, published := false, groups }]
            sessionCount := d.sessionCount + 1
            groups := d.groups ++ [{ pgid, linked := true, published := false, memberships := 0,
                                     session := d.sessions.length }]
            groupCount := d.groupCount + 1 })
    | some s =>
      match d.sessions[s]? with
      | none => .error .wrongDomain
      | some entry =>
        if ¬ d.currentSessionLocked s ∨ ¬ entry.published then .error .notPublished
        else
          match reserveBoundedCounter entry.groups d.membershipLimit with
          | .error error => .error error
          | .ok groups =>
            .ok (g, { d with
              sessions := d.sessions.set s { entry with groups }
              groups := d.groups ++ [{ pgid, linked := true, published := false, memberships := 0,
                                       session := s }]
              groupCount := d.groupCount + 1 })

/-- `JobControlAdmission::commit`. -/
def publishGroup (g : Nat) (newSession : Bool) : Domain Z :=
  let d := { d with groups := d.groups.modify g fun group => { group with published := true } }
  match newSession, d.sessionOf g with
  | true, some s =>
    { d with sessions := d.sessions.modify s fun session => { session with published := true } }
  | _, _ => d

def reserveGroupMember (g : Nat) (allowUnpublished : Bool) : Except ProcessError (Domain Z) :=
  match d.groups[g]? with
  | none => .error .wrongDomain
  | some group =>
    if ¬ d.currentGroupLocked g ∨ (¬ allowUnpublished ∧ ¬ group.published) then .error .notPublished
    else
      match reserveBoundedCounter group.memberships d.membershipLimit with
      | .error error => .error error
      | .ok memberships => .ok { d with groups := d.groups.set g { group with memberships } }

/-- `Process::try_allocate`: what a new row starts with, apart from the registration. -/
def allocate (new : NewProcess) : Process Z where
  pid := new.pid
  reaperScope := new.scope
  init := new.init
  linked := true
  published := false
  isZombie := false
  reaped := false
  tg := .new
  zombiePayload := none
  childSubreaper := false
  parent := new.parent
  group := new.group
  retained := true

/-- `ProcessRegistry::admit`; the new process. -/
def admitProcess (new : NewProcess) : Except ProcessError (Nat × Domain Z) :=
  if d.membershipLimit ≤ d.memberships then .error .capacity
  else if (d.findProcess new.pid).isSome then .error .alreadyExists
  else if ¬ d.currentGroupLocked new.group then .error .notPublished
  else
    match d.groups[new.group]? with
    | none => .error .notPublished
    | some group =>
      match reserveBoundedCounter group.memberships d.membershipLimit with
      | .error error => .error error
      | .ok memberships =>
        .ok (d.processes.length, { d with
          groups := d.groups.set new.group { group with memberships }
          processes := d.processes ++ [allocate new]
          memberships := d.memberships + 1 })

/-! ## Release -/

def removeEmptyGroup (g : Nat) : Domain Z :=
  match d.groups[g]? with
  | none => d
  | some group =>
    if group.memberships ≠ 0 ∨ ¬ d.currentGroupLocked g then d
    else
      let d := { d with
        groups := d.groups.set g { group with published := false, linked := false }
        groupCount := d.groupCount - 1 }
      match d.sessions[group.session]? with
      | none => d
      | some session =>
        let (before, groups) := releaseCounter session.groups
        if before = some 1 ∧ d.currentSessionLocked group.session then
          { d with
            sessions := d.sessions.set group.session
              { session with groups, published := false, linked := false }
            sessionCount := d.sessionCount - 1 }
        else { d with sessions := d.sessions.set group.session { session with groups } }

/-- One release; what it leads to comes first. -/
def release : Release → List Release × Domain Z
  | .unlinkProcess p =>
    match d.processes[p]? with
    | none => ([], d)
    | some process =>
      if process.linked then
        ([.groupMember process.group],
          { d.modifyProcess p fun process => { process with linked := false } with
            memberships := d.memberships - 1 })
      else ([], d)
  | .groupMember g =>
    match d.groups[g]? with
    | none => ([], d)
    | some group =>
      let (before, memberships) := releaseCounter group.memberships
      (if before = some 1 then [.emptyGroup g] else [],
        { d with groups := d.groups.set g { group with memberships } })
  | .emptyGroup g => ([], d.removeEmptyGroup g)
  | .detachThread p node =>
    match d.processes[p]? with
    | none => ([], d)
    | some process =>
      match process.tg.detachThreadLocked node with
      | (none, _) => ([], d)
      | (some _, tg) => ([.threadMember], d.setTg p tg)
  | .threadMember => ([], { d with threadMemberships := (releaseCounter d.threadMemberships).2 })

/-- The next release of a drop. -/
def releaseNext (h : Nat) : Answer × Domain Z :=
  match d.hands[h]? with
  | some (.releasing (next :: todo)) =>
    let (more, d) := d.release next
    (.of .done, d.setHand h (.releasing (more ++ todo)))
  | some (.releasing []) => (.of .done, d.setHand h .empty)
  | _ => (.of .unknown, d)

/-! ## The PID cursor -/

/-- `entries.lower_bound(Bound::Excluded(after))`, or the front. -/
def lowerBound (after : Option Pid) : Option Nat :=
  (d.entries.filter fun i => after.all fun pid => decide (pid < d.pidOf i)).argmin d.pidOf

def processesThroughCurrentMax : ProcessesThroughCurrentMax :=
  let upperBound := (d.entries.argmax d.pidOf).map d.pidOf
  { after := none, upperBound, finished := upperBound.isNone }

/-- `ProcessesThroughCurrentMax::next_raw`. -/
def nextRaw (children : ProcessesThroughCurrentMax) :
    ProcessCursorStep × ProcessesThroughCurrentMax :=
  match children.upperBound with
  | none => (.finished none, { children with finished := true })
  | some upperBound =>
    if children.finished then (.finished none, children)
    else
      match d.lowerBound children.after with
      | none => (.finished none, { children with finished := true })
      | some next =>
        if upperBound < d.pidOf next then (.finished (some next), { children with finished := true })
        else (.process next, { children with after := some (d.pidOf next) })

end Domain

end LinuxAbi.Proc
