import LinuxAbi.Proc.Registry

/-!
# Sessions, groups and reaping

The operations that change which group a process belongs to, cut at their locks, and
the removal of a zombie from the registry.
-/

namespace LinuxAbi.Proc

namespace Domain

variable {Z : Type} (d : Domain Z)

/-- `Process::replace_group`. -/
def replaceGroup (p g : Nat) : Domain Z :=
  d.modifyProcess p fun process => { process with group := g }

/-! ## New sessions and groups -/

/-- The first checks of `try_create_session` and `try_create_group`. -/
def createJob (p : Nat) (kind : JobKind) : Answer × Domain Z :=
  if ¬ d.ensurePublished p then (.of (.failed .notPublished), d)
  else if ¬ d.processes[p]?.any (·.isLive) then (.of (.failed .notLive), d)
  else (.of .done, d.putHand (.jobChecked p kind))

/-- Whether the process already leads what it is about to create. -/
def leads (process : Process Z) : JobKind → Bool
  | .session => (d.sessionOf process.group).any fun s =>
      d.sessions[s]?.any fun session => session.sid == process.pid
  | .group => d.groups[process.group]?.any fun group => group.pgid == process.pid

/-- The read of the old group. -/
def readJob (h : Nat) : Answer × Domain Z :=
  match d.hands[h]? with
  | some (.jobChecked p kind) =>
    match d.processes[p]? with
    | none => (.of .unknown, d)
    | some process =>
      if d.leads process kind then (.of .nothing, d.setHand h .empty)
      else
        (.of .done, d.setHand h (.jobPlanned p kind
          (match kind with
            | .session => none
            | .group => d.sessionOf process.group)))
  | _ => (.of .unknown, d)

/-- The new identities. -/
def admitJob (h : Nat) (allocated : Bool) : Answer × Domain Z :=
  match d.hands[h]? with
  | some (.jobPlanned p kind session) =>
    if ¬ allocated then (.of (.failed .noMemory), d.setHand h .empty)
    else
      match d.admitSessionGroup (d.pidOf p) session with
      | .error error => (.of (.failed error), d.setHand h .empty)
      | .ok (g, d) => (.of .done, d.setHand h (.jobAdmitted p kind g))
  | _ => (.of .unknown, d)

/-- The membership in the new group. -/
def reserveJob (h : Nat) : Answer × Domain Z :=
  match d.hands[h]? with
  | some (.jobAdmitted p kind g) =>
    match d.reserveGroupMember g true with
    | .error error => (.of (.failed error), d.setHand h (.releasing [.emptyGroup g]))
    | .ok d => (.of .done, d.setHand h (.jobReserved p kind g))
  | _ => (.of .unknown, d)

/-- The topology section. -/
def commitJob (h : Nat) : Answer × Domain Z :=
  match d.hands[h]? with
  | some (.jobReserved p kind g) =>
    if d.topology.isSome then (.of .blocked, d)
    else
      match d.processes[p]? with
      | none => (.of .unknown, d)
      | some process =>
        let undo := Hand.releasing [.groupMember g, .emptyGroup g]
        if ¬ process.isLive then (.of (.failed .notLive), d.setHand h undo)
        else if d.leads process kind then (.of .nothing, d.setHand h undo)
        else if kind = .group ∧ d.sessionOf process.group ≠ d.sessionOf g then
          (.of (.failed .busy), d.setHand h undo)
        else
          (.of .done, ((d.replaceGroup p g).publishGroup g (kind == .session)).setHand h
            (.releasing [.groupMember process.group]))
  | _ => (.of .unknown, d)

/-! ## Moving between groups -/

/-- The first checks of `move_to_group`. -/
def moveToGroup (p g : Nat) : Answer × Domain Z :=
  if ¬ d.ensurePublished p then (.of (.failed .notPublished), d)
  else if ¬ d.processes[p]?.any (·.isLive) then (.of (.failed .notLive), d)
  else (.of .done, d.putHand (.moveChecked p g))

/-- Its check of the target group. -/
def moveGroupLive (h : Nat) : Answer × Domain Z :=
  match d.hands[h]? with
  | some (.moveChecked p g) =>
    if d.ensureGroupLive g then (.of .done, d.setHand h (.moveLive p g))
    else (.of (.failed .notPublished), d.setHand h .empty)
  | _ => (.of .unknown, d)

/-- Its comparison with the current group. -/
def moveCompare (h : Nat) : Answer × Domain Z :=
  match d.hands[h]? with
  | some (.moveLive p g) =>
    match d.processes[p]? with
    | none => (.of .unknown, d)
    | some process =>
      if process.group = g then (.of (.flag true), d.setHand h .empty)
      else if d.sessionOf process.group ≠ d.sessionOf g then (.of (.flag false), d.setHand h .empty)
      else (.of .done, d.setHand h (.moveCompared p g))
  | _ => (.of .unknown, d)

/-- The membership in the target group. -/
def reserveMove (h : Nat) : Answer × Domain Z :=
  match d.hands[h]? with
  | some (.moveCompared p g) =>
    match d.reserveGroupMember g false with
    | .error error => (.of (.failed error), d.setHand h .empty)
    | .ok d => (.of .done, d.setHand h (.moveReserved p g))
  | _ => (.of .unknown, d)

/-- The topology section of `move_to_group`. -/
def commitMove (h : Nat) : Answer × Domain Z :=
  match d.hands[h]? with
  | some (.moveReserved p g) =>
    if d.topology.isSome then (.of .blocked, d)
    else
      match d.processes[p]? with
      | none => (.of .unknown, d)
      | some process =>
        let undo := Hand.releasing [.groupMember g]
        if ¬ process.isLive ∨ ¬ d.ensureGroupLive g then (.of (.failed .notLive), d.setHand h undo)
        else if process.group = g then (.of (.flag true), d.setHand h undo)
        else if d.sessionOf process.group ≠ d.sessionOf g then (.of (.flag false), d.setHand h undo)
        else
          (.of (.flag true),
            (d.replaceGroup p g).setHand h (.releasing [.groupMember process.group]))
  | _ => (.of .unknown, d)

/-! ## Reaping -/

/-- `ProcessDomain::reap`. -/
def reap (p : Nat) : Answer × Domain Z :=
  if d.topology.isSome then (.of .blocked, d)
  else
    match d.processes[p]? with
    | none => (.of .unknown, d)
    | some process =>
      if process.reaped then (.of (.flag false), d)
      else if ¬ d.ensurePublished p then (.of (.failed .notPublished), d)
      else if process.tg.memberships ≠ 0 then (.of (.failed .notLive), d)
      else if ¬ process.isZombie then (.of (.flag false), d)
      else
        (.of (.flag true),
          putHand { d.modifyProcess p fun process => { process with reaped := true, linked := false }
              with memberships := d.memberships - 1 }
            (.releasing [.groupMember process.group]))

end Domain

end LinuxAbi.Proc
