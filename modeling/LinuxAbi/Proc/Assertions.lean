import LinuxAbi.Proc.Forest
import LinuxAbi.Proc.RegistryAccounts

/-!
# Assertions

Which assertions of the crate can fire. All but two are kept by the invariants of the
registry and the thread groups. The two are checks made by an earlier call:

* `prepare_fork_as_reaper_scope_init_with_identity` checks that the scope has no init, but any
  number of admissions can pass that check before the first of them is committed, and
  `ScopedInitProcessAdmission::commit` asserts it;
* `InitialProcessAdmission::commit` asserts that its thread starts in a group that has not
  exited, since "an unpublished process cannot concurrently exit"; but `group_exit` takes any
  process, published or not.
-/

namespace LinuxAbi.Proc

open Option
open List
open Lib (run Respects)

namespace Domain

variable {Z : Type} {d d' : Domain Z}

/-! ## The rules -/

/-- The processes whose group exits in a call; only `group_exit` does that. -/
def groupExits (d : Domain Z) (call : ProcessCall Z) : List Nat :=
  (List.range (d.call call).2.processes.length).filter fun q =>
    !d.processes[q]?.any (·.tg.groupExited) && (d.call call).2.processes[q]?.any (·.tg.groupExited)

/-- Whether a call commits the admission of a scope init, without an initial thread, to a
scope that already has an init. -/
def bindsTwice (d : Domain Z) : ProcessCall Z → Bool
  | .bindScope h =>
    match d.hands[h]? with
    | some (.scopedAdmission _ scope _) => (d.initProcess scope).isSome
    | _ => false
  | _ => false

/-- The callers' part: one init for each scope, and no group exit of a process that is not
published. -/
def Careful (d : Domain Z) (call : ProcessCall Z) : Prop :=
  d.bindsTwice call = false ∧ ∀ q ∈ d.groupExits call, d.processes[q]?.any (·.published) = true

instance (d : Domain Z) (call : ProcessCall Z) : Decidable (d.Careful call) :=
  inferInstanceAs (Decidable (_ ∧ ∀ q ∈ d.groupExits call, d.processes[q]?.any (·.published) = true))

/-- A group that has exited is that of a published process. -/
def ExitedSeen (d : Domain Z) : Prop :=
  ∀ (p : Nat) (process : Process Z), d.processes[p]? = some process →
    process.tg.groupExited = true → process.published = true

theorem ExitedSeen.call (h : d.ExitedSeen) (hwf : d.WF) {call : ProcessCall Z}
    (hrule : d.Careful call) : (d.call call).2.ExitedSeen := by
  intro p process' hp' hexited
  -- either way the process was published before, and it stays so
  have hbef : d.Seen p := by
    by_cases hold : d.processes[p]?.any (·.tg.groupExited) = true
    · obtain ⟨process, hp, hexited⟩ := (any_eq_true _ _).mp hold
      exact ⟨process, hp, h p process hp hexited⟩
    refine (any_eq_true _ _).mp (hrule.2 p (List.mem_filter.mpr ⟨?_, ?_⟩))
    · exact List.mem_range.mpr (Lib.lt_of_getElem? hp')
    · rw [Bool.eq_false_iff.mpr hold, hp', any_some, hexited]
      rfl
  obtain ⟨b, hb, hpub⟩ := seen_call hwf call hbef
  obtain rfl := some.inj (hp'.symm.trans hb)
  exact hpub

/-! ## No assertion fires -/

variable {h p : Nat} {hand : Hand} {process : Process Z}

/-- The thread of a token is linked and not live, and its group has room for it. -/
theorem threadNode_holds (hv : d.threads.WF) (hh : d.hands[h]? = some hand)
    (hcls : hand.threadClaims = {.token p node}) (hp : d.processes[p]? = some process) :
    (!(process.tg.threads.any fun t => t.node == node && t.live) &&
      decide (process.tg.liveThreads + 1 ≤ process.tg.memberships)) = true := by
  obtain ⟨process', t, hp', hfind, hdead, -, -⟩ :=
    thread_of_token hv hh (hcls.trans (add_zero _).symm)
  obtain rfl := some.inj (hp.symm.trans hp')
  have hcnt := (hv.rows p process.threadRow (threadRow_at hp)).counted
  have hroom : process.tg.liveThreads + 1 ≤ process.tg.memberships := by
    have hlive : process.tg.liveThreads = process.tg.threads.countP (·.live) := hcnt.live
    have hall : process.tg.memberships = process.tg.threads.length := hcnt.memberships
    -- at least this thread is not live
    have hlt : process.tg.threads.countP (·.live) < process.tg.threads.length := by
      refine countP_lt_length_iff.mpr ⟨t, mem_of_find?_eq_some hfind, ?_⟩
      exact hdead
    omega
  have hnot : (process.tg.threads.any fun t => t.node == node && t.live) = false :=
    any_live_eq_false hcnt.nodes hfind hdead
  rw [hnot, decide_eq_true hroom]
  rfl

/-- A departing thread is out of its group, and not live. -/
theorem departing_holds (hv : d.threads.WF)
    (hh : d.hands[h]? = some (.exitAdmission p (some thread)))
    (hp : d.processes[p]? = some process) :
    (!process.tg.isLinked thread.node && !thread.live) = true := by
  have hrow := hv.rows p process.threadRow (threadRow_at hp)
  have hemp : process.tg.threads = [] := (hrow.prepared (exitPrepared_of_hand hv hh hp)).1
  have hmem : some thread ∈ exits p d.threads.claims := by
    obtain ⟨rest, hcls⟩ := claims_of_hand hh
    rw [hcls, exits_add]
    refine Multiset.mem_add.mpr (.inl ?_)
    change some thread ∈ exits p {.exit p (some thread)}
    rw [exits_exit, if_pos rfl]
    exact Multiset.mem_singleton_self _
  have hdead := (hrow.departing thread hmem).1
  unfold ThreadGroup.isLinked
  rw [hemp, hdead]
  rfl

/-- The process of an initial admission is not published yet, so its group has not exited. -/
theorem not_groupExited (hwf : d.WF) (hexited : d.ExitedSeen) (hh : d.hands[h]? = some hand)
    (hclaim : claim ∈ hand.claims) (howns : claim = .fresh p ∨ claim = .bound p)
    (hp : d.processes[p]? = some process) : process.tg.groupExited = false := by
  have hunpub : process.published = false := by
    have hok := hwf.claim hh hclaim
    rcases howns with rfl | rfl
    all_goals
      obtain ⟨a, ⟨ha, hunseen, -⟩, -⟩ := hok
      obtain rfl := some.inj ((getElem?_tree hp).symm.trans ha)
      exact hunseen
  cases hgroup : process.tg.groupExited with
  | false => rfl
  | true => exact absurd (hexited p process hp hgroup) (Bool.eq_false_iff.mp hunpub)

/-- A call by the rules fires no assertion. -/
theorem call_quiet (hwf : d.WF) (hv : d.threads.WF) (hexited : d.ExitedSeen) {call : ProcessCall Z}
    (hrule : d.Careful call) (cause : Panic) :
    ProcessEvent.panicked cause ∉ (d.call call).1.events := by
  intro he
  have hsrc : PanicSource d call cause := event_source he
  cases hsrc with
  | prepared hand row fires =>
    have hprep := exitPrepared_of_hand hv hand row
    obtain ⟨hclosed, -⟩ := (exitExclusive_of_wf hv).prepared _ _ row hprep
    rw [hprep, hclosed.memberships] at fires
    cases fires
  | payload hand row fires =>
    have hprep := exitPrepared_of_hand hv hand row
    obtain ⟨-, halive⟩ := (exitExclusive_of_wf hv).prepared _ _ row hprep
    have hnone := (exitExclusive_of_wf hv).payload _ _ row
    rw [halive, isSome_eq_false_iff] at hnone
    cases hnone.symm.trans fires
  | published at_ token row fires =>
    rcases token with ⟨-, rfl⟩ | ⟨-, rfl⟩ | ⟨-, rfl⟩
    · cases (threadNode_holds hv at_ rfl row).symm.trans fires
    · cases (threadNode_holds hv at_ rfl row).symm.trans fires
    · cases (threadNode_holds hv at_ rfl row).symm.trans fires
  | groupExited at_ token row fires =>
    rcases token with ⟨-, rfl⟩ | ⟨-, rfl⟩
    · cases (not_groupExited hwf hexited at_ (Multiset.mem_singleton_self _) (.inl rfl)
        row).symm.trans fires
    · cases (not_groupExited hwf hexited at_ (Multiset.mem_singleton_self _) (.inr rfl)
        row).symm.trans fires
  | restored hand row fires => cases (departing_holds hv hand row).symm.trans fires
  | bound hand fires =>
    have hbinds := hrule.1
    unfold bindsTwice at hbinds
    dsimp only at hbinds
    rw [hand] at hbinds
    cases hbinds.symm.trans fires
  | scanned loop =>
    -- the loop finds the inits it looks for
    rcases (call_move hwf _).event_cases he with hdull | ⟨_, _, heq⟩ | ⟨_, _, _, _, _, heq⟩
      | ⟨_, _, _, _, heq, -⟩ | ⟨_, _, _, _, _, heq, -⟩ | ⟨_, _, _, _, _, _, _, heq, -⟩
    · cases cause with
      | noScopeInit | noOuterInit | noBatchReaper => cases hdull
      | _ => cases loop
    all_goals cases heq

/-! ## Refusals -/

/-- A refused request has written nothing but its own hand. -/
theorem refused_hands {call : ProcessCall Z}
    (h : (d.call call).1.reply = .failed error) : ∃ hands, (d.call call).2 = { d with hands } := by
  cases call
  all_goals
    revert h
    simp only [call, newReaperScope, retain, setChildSubreaper, newInit, admitInit, bindInit,
      prepareFork, prepareForkInit, allocateFork, admitFork, commitProcess, commitWithThread,
      commitInitial, bindScope, bindOuter, commitScoped, dropToken, releaseNext, prepareThread,
      prepareAdmissionThread, prepareInitialThread, reserveThread, linkThread, commitThread,
      commitThreadInfallible, exitThread, exitThreadLocked, removeThread, groupExit, createJob,
      readJob, admitJob, reserveJob, commitJob, moveToGroup, moveGroupLive, moveCompare,
      reserveMove, commitMove, reap, prepareExit, reserveExit, dropExit, publishZombie,
      releaseDeparting, startScan, lockSection, scan, reparentBatch, inheritedZombie]
    (repeat' split) <;> intro hreply <;> first
      | exact ⟨_, rfl⟩
      | cases hreply

/-- The process is out of the registry again, and nothing else has changed there. -/
structure RolledBack (d : Domain Z) (p : Nat) (d' : Domain Z) : Prop where
  scopes : d'.scopes = d.scopes
  gone : ∃ process, d'.processes[p]? = some process ∧ process.linked = false
  others : ∀ q, q ≠ p → d'.processes[q]? = d.processes[q]?
  memberships : d'.memberships + 1 = d.memberships
  counts : d'.groupCount = d.groupCount ∧ d'.sessionCount = d.sessionCount

/-- The first release of a refused admission takes its process out of the registry. -/
theorem rolledBack_release (hj : d.JobsOK) (todo : List Release) (hh : d.hands[h]? = some old)
    (hp : d.processes[p]? = some process) (hlink : process.linked = true) :
    d.RolledBack p ((d.setHand h (.releasing (.unlinkProcess p :: todo))).releaseNext h).2 := by
  have hpos : 0 < d.memberships := hj.accounts.processRemoval p process hp hlink
  have hhere : (d.hands.set h (.releasing (.unlinkProcess p :: todo)))[h]?
      = some (.releasing (.unlinkProcess p :: todo)) :=
    Lib.getElem?_set_of_some hh
  unfold releaseNext setHand
  rw [hhere]
  dsimp only [release]
  rw [hp]
  dsimp only
  rw [if_pos hlink]
  refine ⟨rfl, ⟨{ process with linked := false }, ?_, rfl⟩, ?_, ?_, rfl, rfl⟩
  · change (d.processes.modify p _)[p]? = _
    rw [List.getElem?_modify_eq, hp]
    rfl
  · intro q hne
    exact List.getElem?_modify_ne _ _ (Ne.symm hne)
  · exact Nat.sub_add_cancel hpos

/-- An unpublished process that somebody owns is registered. -/
theorem linked_of_owned (hwf : d.WF) (hh : d.hands[h]? = some hand) (hclaim : claim ∈ hand.claims)
    (howns : (∃ scope outer, claim = .scopeInit p scope outer) ∨ ∃ scope, claim = .root scope p) :
    ∃ process, d.processes[p]? = some process ∧ process.linked = true := by
  have hok := hwf.claim hh hclaim
  rcases howns with ⟨scope, outer, rfl⟩ | ⟨scope, rfl⟩
  all_goals
    obtain ⟨a, ⟨ha, -, hlink⟩, -⟩ := hok
    obtain ⟨process, hp, rfl⟩ := of_getElem?_tree ha
    exact ⟨process, hp, hlink⟩

/-- No assertion has fired, no walk has run without end, and refusals undo themselves. -/
structure PanicFree (past : List ProcessEvent) (d : Domain Z) : Prop where
  panics : ∀ cause, ProcessEvent.panicked cause ∉ past
  endless : ProcessEvent.endless ∉ past
  /-- a refused request leaves the registry, its counts and every scope alone -/
  refused : ∀ (call : ProcessCall Z) (error : ProcessError),
    (d.call call).1.reply = .failed error → ∃ hands, (d.call call).2 = { d with hands }
  /-- a second init of a scope is refused, and its process leaves the registry -/
  scopeInit : ∀ (h p node scope outer : Nat),
    d.hands[h]? = some (.scopedInitial p node scope outer) → (d.initProcess scope).isSome = true →
    (d.call (.bindScope h)).1.reply = .failed .alreadyExists ∧
      d.RolledBack p (run Domain.call d [.bindScope h, .releaseNext h])
  rootInit : ∀ (h scope p g : Nat), d.hands[h]? = some (.initAdmission scope p g) →
    (d.initProcess scope).isSome = true →
    (d.call (.bindInit h)).1.reply = .failed .alreadyExists ∧
      d.RolledBack p (run Domain.call d [.bindInit h, .releaseNext h])

theorem JobsOK.panicFree (hj : d.JobsOK)
    (panics : ∀ cause, ProcessEvent.panicked cause ∉ past) (endless : ProcessEvent.endless ∉ past) :
    PanicFree past d where
  panics := panics
  endless := endless
  refused := fun _ _ hreply => refused_hands hreply
  scopeInit := by
    intro h p node scope outer hh hbound
    obtain ⟨process, hp, hlink⟩ :=
      linked_of_owned hj.wf hh (Multiset.mem_singleton_self _) (.inl ⟨scope, outer, rfl⟩)
    have href : d.call (.bindScope h) = (.of (.failed .alreadyExists),
        d.setHand h (.releasing [.unlinkProcess p, .detachThread p node])) := by
      change d.bindScope h = _
      unfold bindScope
      rw [hh]
      exact if_pos hbound
    refine ⟨by rw [href]; rfl, ?_⟩
    change d.RolledBack p ((d.call (.bindScope h)).2.releaseNext h).2
    rw [href]
    exact rolledBack_release hj _ hh hp hlink
  rootInit := by
    intro h scope p g hh hbound
    obtain ⟨process, hp, hlink⟩ :=
      linked_of_owned hj.wf hh (Multiset.mem_singleton_self _) (.inr ⟨scope, rfl⟩)
    have href : d.call (.bindInit h) = (.of (.failed .alreadyExists),
        d.setHand h (.releasing [.unlinkProcess p, .emptyGroup g])) := by
      change d.bindInit h = _
      unfold bindInit
      rw [hh]
      exact if_pos hbound
    refine ⟨by rw [href]; rfl, ?_⟩
    change d.RolledBack p ((d.call (.bindInit h)).2.releaseNext h).2
    rw [href]
    exact rolledBack_release hj _ hh hp hlink

/-! ## Every run by the rules -/

/-- What holds along a run by the rules. -/
structure CarefulRun (past : List ProcessEvent) (d : Domain Z) : Prop where
  jobs : d.JobsOK
  exited : d.ExitedSeen
  panics : ∀ cause, ProcessEvent.panicked cause ∉ past
  endless : ProcessEvent.endless ∉ past

theorem CarefulRun.call (h : CarefulRun past d) (call : ProcessCall Z) (hrule : d.Careful call) :
    CarefulRun (past ++ processEvents call (d.call call).1) (d.call call).2 where
  jobs := h.jobs.call call
  exited := h.exited.call h.jobs.wf hrule
  panics := by
    intro cause he
    rcases mem_append.mp he with hbef | hnow
    · exact h.panics cause hbef
    · exact call_quiet h.jobs.wf h.jobs.threads h.exited hrule cause hnow
  endless := by
    intro he
    rcases mem_append.mp he with hbef | hnow
    · exact h.endless hbef
    · exact (call_move h.jobs.wf call).not_endless hnow

theorem run_panic_free (limit : Nat) (calls : List (ProcessCall Z))
    (hrule : Respects Domain.call Domain.Careful (Domain.new Z limit) calls) :
    PanicFree (Lib.events Domain.call processEvents (Domain.new Z limit) calls)
      (run Domain.call (Domain.new Z limit) calls) := by
  have hnew : CarefulRun [] (Domain.new Z limit) := by
    refine ⟨jobsOK_new Z limit, ?_, fun _ => not_mem_nil, not_mem_nil⟩
    intro p process hp
    cases hp
  have hstep : ∀ (past : List ProcessEvent) (d : Domain Z) (call : ProcessCall Z),
      CarefulRun past d → d.Careful call →
      CarefulRun (past ++ processEvents call (d.call call).1) (d.call call).2 :=
    fun _ _ call h => h.call call
  have hrun := Lib.run_respects hstep hnew calls hrule
  exact hrun.jobs.panicFree hrun.panics hrun.endless

/-- An init, a new scope, and two processes admitted as its init. -/
def twoScopeInits : List (ProcessCall Unit) :=
  [.newInit 0 1 true, .admitInit 0 true, .bindInit 0, .newReaperScope true,
   .prepareForkInit 0 1 2, .allocateFork 1 true, .admitFork 1,
   .prepareForkInit 0 1 3, .allocateFork 2 true, .admitFork 2]

/-- The first is committed, the second with its initial thread. -/
def refusedScopeInit : List (ProcessCall Unit) :=
  twoScopeInits ++ [.bindScope 1, .bindOuter 1, .commitScoped 1, .groupExit 1 7,
    .prepareInitialThread 2 3, .reserveThread 2 true, .linkThread 2, .bindScope 2]

theorem run_panic_free_scope_init :
    (∀ cause, ProcessEvent.panicked cause ∉
      Lib.events Domain.call processEvents (Domain.new Unit 8) refusedScopeInit) ∧
      (run Domain.call (Domain.new Unit 8) refusedScopeInit).initProcess 1 = some 1 :=
  ⟨(run_panic_free 8 refusedScopeInit (by decide +kernel)).panics, by decide +kernel⟩

/-- Both admissions are committed without a thread: the second commit panics. And a group
exit of a process that is not published makes the commit of its admission panic. -/
theorem assertions_fire :
    ProcessEvent.panicked .scopeBound ∈ Lib.events Domain.call processEvents
      (Domain.new Unit 8)
      (twoScopeInits ++ [.bindScope 1, .bindOuter 1, .commitScoped 1, .bindScope 2]) ∧
    ProcessEvent.panicked .initialGroupExited ∈ Lib.events Domain.call processEvents
      (Domain.new Unit 8)
      [.newInit 0 1 true, .admitInit 0 true, .bindInit 0,
       .prepareFork 0 0 2, .allocateFork 1 true, .admitFork 1,
       .prepareInitialThread 1 2, .reserveThread 1 true, .linkThread 1, .groupExit 1 7,
       .commitInitial 1] := by
  decide +kernel

end Domain

end LinuxAbi.Proc
