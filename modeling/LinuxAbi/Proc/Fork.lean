import LinuxAbi.Proc.Threads

/-!
# Creating processes

Init processes, forks and scope inits: each is checked, admitted to the registry
unpublished, and published by consuming its token.
-/

namespace LinuxAbi.Proc

namespace Domain

variable {Z : Type} (d : Domain Z)

/-- Publication of a process, alone. -/
def publishProcess (p : Nat) : Domain Z :=
  d.modifyProcess p fun process => { process with published := true }

/-- `scope.init.lock() = Some(process)`. -/
def setScopeInit (scope p : Nat) : Domain Z :=
  { d with scopes := d.scopes.modify scope fun entry => { entry with init := some p } }

/-! ## Scopes and references -/

/-- `ProcessDomain::try_new_reaper_scope`. -/
def newReaperScope (allocated : Bool) : Answer × Domain Z :=
  if allocated then
    (.of .done, { d with scopes := d.scopes ++ [{ init := none, outerScope := none }] })
  else (.of (.failed .noMemory), d)

/-- The adapter takes an `Arc` of a process it can still reach, or drops its last one. -/
def retain (p : Nat) (retained : Bool) : Answer × Domain Z :=
  if retained ∧ ¬ d.alive p then (.of .unknown, d)
  else (.of .done, d.modifyProcess p fun process => { process with retained })

/-- `Process::set_child_subreaper`. -/
def setChildSubreaper (p : Nat) (childSubreaper : Bool) : Answer × Domain Z :=
  (.of .done, d.modifyProcess p fun process => { process with childSubreaper })

/-! ## Init processes -/

/-- `try_new_init_in_reaper_scope_with_identity` up to its session and group. -/
def newInit (scope : Nat) (pid : Pid) (allocated : Bool) : Answer × Domain Z :=
  if d.scopes.length ≤ scope then (.of .unknown, d)
  else if ¬ allocated then (.of (.failed .noMemory), d)
  else
    match d.admitSessionGroup pid none with
    | .error error => (.of (.failed error), d)
    | .ok (g, d) => (.of .done, d.putHand (.initGroup scope pid g))

/-- Its process. -/
def admitInit (h : Nat) (allocated : Bool) : Answer × Domain Z :=
  match d.hands[h]? with
  | some (.initGroup scope pid g) =>
    if ¬ allocated then (.of (.failed .noMemory), d.setHand h (.releasing [.emptyGroup g]))
    else
      match d.admitProcess { pid, init := true, parent := none, group := g, scope } with
      | .error error => (.of (.failed error), d.setHand h (.releasing [.emptyGroup g]))
      | .ok (p, d) => (.of .done, d.setHand h (.initAdmission scope p g))
  | _ => (.of .unknown, d)

/-- Its publication, under the lock of the scope's init. -/
def bindInit (h : Nat) : Answer × Domain Z :=
  match d.hands[h]? with
  | some (.initAdmission scope p g) =>
    if (d.initProcess scope).isSome then
      (.of (.failed .alreadyExists), d.setHand h (.releasing [.unlinkProcess p, .emptyGroup g]))
    else
      (.of .done, (((d.publishGroup g true).publishProcess p).setScopeInit scope p).setHand h .empty)
  | _ => (.of .unknown, d)

/-! ## Forks -/

/-- The checks of `prepare_fork_in_reaper_scope_with_identity`; `prepare_fork` passes
the parent's scope. -/
def prepareFork (parent scope : Nat) (pid : Pid) : Answer × Domain Z :=
  if ¬ d.ensurePublished parent then (.of (.failed .notPublished), d)
  else if (d.initProcess scope).isNone then (.of (.failed .notInitialized), d)
  else if d.processes[parent]?.any (·.isZombie) then (.of (.failed .notLive), d)
  else (.of .done, d.putHand (.forkChecked parent scope pid false))

/-- The checks of `prepare_fork_as_reaper_scope_init_with_identity`. -/
def prepareForkInit (parent scope : Nat) (pid : Pid) : Answer × Domain Z :=
  if d.scopes.length ≤ scope then (.of .unknown, d)
  else if ¬ d.ensurePublished parent then (.of (.failed .notPublished), d)
  else if d.processes[parent]?.any (·.isZombie) ∨ (d.initProcess scope).isSome then
    (.of (.failed .notLive), d)
  else (.of .done, d.putHand (.forkChecked parent scope pid true))

/-- The allocations, with the parent's group as it is now. -/
def allocateFork (h : Nat) (allocated : Bool) : Answer × Domain Z :=
  match d.hands[h]? with
  | some (.forkChecked parent scope pid init) =>
    match d.processes[parent]? with
    | none => (.of .unknown, d)
    | some process =>
      if allocated then
        (.of .done, d.setHand h
          (.forkAllocated { pid, init, parent := some parent, group := process.group, scope }))
      else (.of (.failed .noMemory), d.setHand h .empty)
  | _ => (.of .unknown, d)

/-- The token of an admitted fork. -/
def forkToken (new : NewProcess) (p : Nat) : Hand :=
  if new.init then
    .scopedAdmission p new.scope
      (((new.parent.bind fun parent => d.processes[parent]?).map (·.reaperScope)).getD 0)
  else .admission p

/-- `ProcessRegistry::admit` of a fork. -/
def admitFork (h : Nat) : Answer × Domain Z :=
  match d.hands[h]? with
  | some (.forkAllocated new) =>
    match d.admitProcess new with
    | .error error => (.of (.failed error), d.setHand h .empty)
    | .ok (p, d') => (.of .done, d'.setHand h (d.forkToken new p))
  | _ => (.of .unknown, d)

/-! ## Publication -/

/-- `ProcessAdmission::commit`. -/
def commitProcess (h : Nat) : Answer × Domain Z :=
  match d.hands[h]? with
  | some (.admission p) => (.of .done, (d.publishProcess p).setHand h .empty)
  | _ => (.of .unknown, d)

/-- What `commit_with_thread` refuses. -/
def commitRefusal (p q node : Nat) (process : Process Z) : Except ProcessError ThreadGroup :=
  if p ≠ q then .error .wrongDomain
  else if process.published ∨ ¬ d.currentProcessLocked p then .error .notPublished
  else if process.isZombie ∨ process.reaped then .error .notLive
  else d.publishLocked p process node true

/-- `ProcessAdmission::commit_with_thread`. -/
def commitWithThread (h ht : Nat) : Answer × Domain Z :=
  match d.hands[h]?, d.hands[ht]? with
  | some (.admission p), some (.threadAdmission q node) =>
    match d.processes[p]? with
    | none => (.of .unknown, d)
    | some process =>
      match d.commitRefusal p q node process with
      | .error error =>
        (.of (.failed error), (d.setHand ht (.releasing [.detachThread q node])).setHand h
          (.releasing [.unlinkProcess p]))
      | .ok tg => (.of .done, (((d.setTg p tg).publishProcess p).setHand ht .empty).setHand h .empty)
  | _, _ => (.of .unknown, d)

/-- Publication of a process together with its initial thread. -/
def publishWithThread (p node : Nat) : List ProcessEvent × Domain Z :=
  match d.processes[p]? with
  | none => ([], d)
  | some process =>
    let ((outcome, events), tg) := publishLockedInfallible process.tg node
    (events ++ debugAssert (outcome == .live) .initialGroupExited, (d.setTg p tg).publishProcess p)

/-- `InitialProcessAdmission::commit`. -/
def commitInitial (h : Nat) : Answer × Domain Z :=
  match d.hands[h]? with
  | some (.initialAdmission p node) =>
    let (events, d) := d.publishWithThread p node
    ({ reply := .done, events }, d.setHand h .empty)
  | _ => (.of .unknown, d)

/-- The binding of a scope init to its scope: the assertion of
`ScopedInitProcessAdmission::bind`, the check of `ScopedInitialProcessAdmission::commit`. -/
def bindScope (h : Nat) : Answer × Domain Z :=
  match d.hands[h]? with
  | some (.scopedAdmission p scope outer) =>
    if (d.initProcess scope).isSome then
      (.panic .scopeBound, d.setHand h (.releasing [.unlinkProcess p]))
    else
      (.of .done, (d.setScopeInit scope p).setHand h (.scopedBinding p none scope outer))
  | some (.scopedInitial p node scope outer) =>
    if (d.initProcess scope).isSome then
      (.of (.failed .alreadyExists),
        d.setHand h (.releasing [.unlinkProcess p, .detachThread p node]))
    else
      (.of .done, (d.setScopeInit scope p).setHand h (.scopedBinding p (some node) scope outer))
  | _ => (.of .unknown, d)

/-- `*self.scope.outer_scope.lock() = ...`. -/
def bindOuter (h : Nat) : Answer × Domain Z :=
  match d.hands[h]? with
  | some (.scopedBinding p node scope outer) =>
    (.of .done, setHand { d with scopes := d.scopes.modify scope fun entry =>
      { entry with outerScope := some outer } } h (.scopedBound p node))
  | _ => (.of .unknown, d)

/-- The publication of a bound scope init. -/
def commitScoped (h : Nat) : Answer × Domain Z :=
  match d.hands[h]? with
  | some (.scopedBound p none) => (.of .done, (d.publishProcess p).setHand h .empty)
  | some (.scopedBound p (some node)) =>
    let (events, d) := d.publishWithThread p node
    ({ reply := .done, events }, d.setHand h .empty)
  | _ => (.of .unknown, d)

/-- Dropping a token that was not committed. -/
def dropToken (h : Nat) : Answer × Domain Z :=
  match d.hands[h]? with
  | some (.admission p) => (.of .done, d.setHand h (.releasing [.unlinkProcess p]))
  | some (.scopedAdmission p _ _) => (.of .done, d.setHand h (.releasing [.unlinkProcess p]))
  | some (.initialAdmission p node) =>
    (.of .done, d.setHand h (.releasing [.unlinkProcess p, .detachThread p node]))
  | some (.scopedInitial p node _ _) =>
    (.of .done, d.setHand h (.releasing [.unlinkProcess p, .detachThread p node]))
  | some (.threadAdmission p node) => (.of .done, d.setHand h (.releasing [.detachThread p node]))
  | _ => (.of .unknown, d)

end Domain

end LinuxAbi.Proc
