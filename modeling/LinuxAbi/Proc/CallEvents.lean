import LinuxAbi.Proc.Exit
import LinuxAbi.Lib.Tally

/-!
# Which call an event comes from

All but a few calls only answer. A zombie transition is reported by the section that makes
it, and an assertion fires in the section that holds it. The reparenting loop is gone through
once, for what it reports and for what it writes (`ScanOnly`).
-/

namespace LinuxAbi.Proc

open List

/-- What the reparenting loop and its callbacks report. -/
def ProcessEvent.ofScan : ProcessEvent → Bool
  | .panicked .noScopeInit | .panicked .noOuterInit | .panicked .noBatchReaper => true
  | .panicked _ | .zombie .. => false
  | _ => true

/-- Nothing, or an exit commit past its departing thread. -/
def Hand.scanning : Hand → Bool
  | .empty => true
  | .exiting _ _ (.zombie _) => false
  | .exiting .. => true
  | _ => false

/-- Where an assertion fires. -/
inductive PanicSource {Z : Type} (d : Domain Z) : ProcessCall Z → Panic → Prop
  | prepared (hand : d.hands[h]? = some (.exitAdmission p departing))
      (row : d.processes[p]? = some process)
      (fires : (process.tg.exitPrepared && process.tg.memberships == 0) = false) :
      PanicSource d (.publishZombie h payload) .exitNotPrepared
  | payload (hand : d.hands[h]? = some (.exitAdmission p departing))
      (row : d.processes[p]? = some process) (fires : process.zombiePayload.isNone = false) :
      PanicSource d (.publishZombie h payload) .payloadPublished
  | published (at_ : d.hands[h]? = some hand)
      (token : (call = .commitThreadInfallible h ∧ hand = .threadAdmission p node) ∨
        (call = .commitInitial h ∧ hand = .initialAdmission p node) ∨
        (call = .commitScoped h ∧ hand = .scopedBound p (some node)))
      (row : d.processes[p]? = some process)
      (fires : (!(process.tg.threads.any fun t => t.node == node && t.live) &&
        decide (process.tg.liveThreads + 1 ≤ process.tg.memberships)) = false) :
      PanicSource d call .threadNode
  | groupExited (at_ : d.hands[h]? = some hand)
      (token : (call = .commitInitial h ∧ hand = .initialAdmission p node) ∨
        (call = .commitScoped h ∧ hand = .scopedBound p (some node)))
      (row : d.processes[p]? = some process) (fires : process.tg.groupExited = true) :
      PanicSource d call .initialGroupExited
  | restored (hand : d.hands[h]? = some (.exitAdmission p (some thread)))
      (row : d.processes[p]? = some process)
      (fires : (!process.tg.isLinked thread.node && !thread.live) = false) :
      PanicSource d (.dropExit h) .threadNode
  | bound (hand : d.hands[h]? = some (.scopedAdmission p scope outer))
      (fires : (d.initProcess scope).isSome = true) : PanicSource d (.bindScope h) .scopeBound
  | scanned (loop : (ProcessEvent.panicked cause).ofScan = true) : PanicSource d call cause

namespace Domain

variable {Z : Type} {d : Domain Z}

/-! ## The reparenting loop -/

/-- Nothing is written but parents, the lock and the hand of an exit commit. -/
structure ScanOnly (d : Domain Z) (r : List ProcessEvent × Domain Z) : Prop where
  reports : ∀ e ∈ r.1, e.ofScan = true
  processes : r.2.processes.map (fun process => { process with parent := none })
    = d.processes.map fun process => { process with parent := none }
  hands : r.2.hands = d.hands ∨ ∃ h old new, d.hands[h]? = some old ∧ old.scanning = true ∧
    new.scanning = true ∧ r.2.hands = d.hands.set h new
  rest : r.2 = { d with
    processes := r.2.processes, topology := r.2.topology, hands := r.2.hands }

theorem ScanOnly.refl : ScanOnly d ([], d) := ⟨nofun, rfl, .inl rfl, rfl⟩

/-- The lock is given up first. -/
theorem ScanOnly.of_unlocked (h : ScanOnly { d with topology := none } r) : ScanOnly d r :=
  ⟨h.reports, h.processes, h.hands, h.rest⟩

/-- A child is moved first, which is reported. -/
theorem ScanOnly.of_reparented (hmoved : d.reparentIfOwned child p reaper = some d₁)
    (h : d₁.hands = d.hands → ScanOnly d₁ r) :
    ScanOnly d (.moved k p child reaper zombie :: r.1, r.2) := by
  unfold reparentIfOwned at hmoved
  split at hmoved
  · cases hmoved
    have hparents := Lib.map_modify_of_eq
      (g := fun process : Process Z => { process with parent := none })
      (f := fun process => { process with parent := some reaper }) (fun _ => rfl) d.processes child
    exact ⟨forall_mem_cons.mpr ⟨rfl, (h rfl).reports⟩, (h rfl).processes.trans hparents,
      (h rfl).hands, (h rfl).rest⟩
  · cases hmoved

/-- The selection panics only for want of an init. -/
theorem ofScan_selection (hpanic : d.selectReaperForExitLocked p child scope = .panic cause) :
    (ProcessEvent.panicked cause).ofScan = true := by
  unfold selectReaperForExitLocked at hpanic
  split at hpanic
  · next hfall =>
    cases hpanic
    unfold fallbackReaper at hfall
    split at hfall
    · cases hfall
      rfl
    split at hfall
    · split at hfall
      · cases hfall
        rfl
      · cases hfall
    · cases hfall
  split at hpanic
  · cases hpanic
  split at hpanic
  · cases hpanic
  · cases hpanic

section Scan

variable {h : Nat} {old new : Hand} (hh : d.hands[h]? = some old) (hold : old.scanning = true)
  (p : Nat) (np : Option Nat) (scan : ExitScan) (current : ReparentSection)

include hh hold

/-- The commit goes to its next stage. -/
theorem ScanOnly.setHand (hnew : new.scanning = true) (hev : ∀ e ∈ events, e.ofScan = true) :
    ScanOnly d (events, d.setHand h new) :=
  ⟨hev, rfl, .inr ⟨h, old, new, hh, hold, hnew, rfl⟩, rfl⟩

theorem nextRound_scanOnly : ScanOnly d (d.nextRound h p np scan) := by
  unfold nextRound
  split
  · exact .setHand hh hold rfl (forall_mem_singleton.mpr rfl)
  · exact .setHand hh hold rfl nofun

theorem unlockSection_scanOnly : ScanOnly d (d.unlockSection h p np scan current) := by
  unfold unlockSection
  refine .of_unlocked ?_
  split
  · exact nextRound_scanOnly (d := { d with topology := none }) hh hold ..
  split
  · exact .setHand (d := { d with topology := none }) hh hold rfl (forall_mem_singleton.mpr rfl)
  · exact .setHand (d := { d with topology := none }) hh hold rfl nofun

theorem continueSection_scanOnly : ScanOnly d (d.continueSection h p np scan current) := by
  unfold continueSection
  split
  · exact .setHand hh hold rfl nofun
  · exact unlockSection_scanOnly hh hold ..

/-- One child of the loop. -/
theorem scanChild_scanOnly (child : Nat) (process : Process Z) :
    ScanOnly d (d.scanChild h p np scan current child process) := by
  unfold scanChild
  dsimp only
  split
  · exact continueSection_scanOnly hh hold ..
  split
  · next hpanic =>
    exact .of_unlocked (.setHand (d := { d with topology := none }) hh hold rfl
      (forall_mem_singleton.mpr (ofScan_selection hpanic)))
  · exact ⟨forall_mem_singleton.mpr rfl, rfl, .inl rfl, rfl⟩
  split
  · exact unlockSection_scanOnly hh hold ..
  split
  · exact continueSection_scanOnly hh hold ..
  next d' hmoved =>
  refine .of_reparented hmoved fun hhands => ?_
  rw [← hhands] at hh
  split
  · exact unlockSection_scanOnly hh hold ..
  · exact continueSection_scanOnly hh hold ..

end Scan

/-- One turn of the loop. -/
theorem scan_scanOnly (h : Nat) : ScanOnly d ((d.scan h).1.events, (d.scan h).2) := by
  unfold scan
  split
  · next hh =>
    split
    · exact unlockSection_scanOnly hh rfl ..
    split
    · exact .refl
    · exact scanChild_scanOnly hh rfl ..
  · exact .refl

/-- The callback of a section. -/
theorem reparentBatch_scanOnly (h : Nat) :
    ScanOnly d ((d.reparentBatch h).1.events, (d.reparentBatch h).2) := by
  unfold reparentBatch
  split
  · next hh => exact .setHand hh rfl rfl (forall_mem_singleton.mpr rfl)
  · exact .refl

/-- The callback of an inherited zombie. -/
theorem inheritedZombie_scanOnly (h : Nat) :
    ScanOnly d ((d.inheritedZombie h).1.events, (d.inheritedZombie h).2) := by
  unfold inheritedZombie
  split
  · next hh => exact .setHand hh rfl rfl (forall_mem_singleton.mpr rfl)
  · next hh => exact nextRound_scanOnly hh rfl ..
  · exact .refl

/-! ## Zombie transitions and assertions -/

variable {e : ProcessEvent}

/-- An assertion reports when it fails. -/
theorem mem_debugAssert
    (h : e ∈ debugAssert condition cause) : condition = false ∧ e = .panicked cause := by
  unfold debugAssert at h
  split at h
  · cases h
  · next hfalse => exact ⟨Bool.eq_false_iff.mpr hfalse, mem_singleton.mp h⟩

/-- The two assertions of a commit with a thread. -/
theorem publishWithThread_events
    (he : e ∈ (d.publishWithThread p node).1) : ∃ process, d.processes[p]? = some process ∧
      ((e = .panicked .threadNode ∧
          (!(process.tg.threads.any fun t => t.node == node && t.live) &&
            decide (process.tg.liveThreads + 1 ≤ process.tg.memberships)) = false) ∨
        (e = .panicked .initialGroupExited ∧ process.tg.groupExited = true)) := by
  unfold publishWithThread at he
  split at he
  · cases he
  next process hp =>
  refine ⟨process, hp, ?_⟩
  rcases mem_append.mp he with hnode | hgroup
  · obtain ⟨hfires, rfl⟩ := mem_debugAssert hnode
    exact .inl ⟨rfl, hfires⟩
  obtain ⟨hfires, rfl⟩ := mem_debugAssert hgroup
  refine .inr ⟨rfl, ?_⟩
  cases hexited : process.tg.groupExited with
  | true => rfl
  | false =>
    unfold publishLockedInfallible at hfires
    rw [hexited] at hfires
    cases hfires

/-- An assertion comes from the section that has it, and a zombie transition from the
commit of an exit admission. -/
def SourceOf (d : Domain Z) (call : ProcessCall Z) : ProcessEvent → Prop
  | .zombie p _ => ∃ h payload departing, call = .publishZombie h payload ∧
      d.hands[h]? = some (.exitAdmission p departing)
  | .panicked cause => PanicSource d call cause
  | _ => True

theorem sourceOf_publishZombie (h : Nat) (payload : Z)
    (he : e ∈ (d.publishZombie h payload).1.events) : d.SourceOf (.publishZombie h payload) e := by
  unfold publishZombie at he
  split at he
  · next p departing hh =>
    split at he
    · cases he
    split at he
    · cases he
    next process hp =>
    rcases mem_append.mp he with hasserts | hzombie
    · rcases mem_append.mp hasserts with hprep | hpayload
      · obtain ⟨hfires, rfl⟩ := mem_debugAssert hprep
        exact .prepared hh hp hfires
      · obtain ⟨hfires, rfl⟩ := mem_debugAssert hpayload
        exact .payload hh hp hfires
    · rw [mem_singleton.mp hzombie]
      exact ⟨h, payload, departing, rfl, hh⟩
  · cases he

theorem sourceOf_dropExit (h : Nat) (he : e ∈ (d.dropExit h).1.events) :
    d.SourceOf (.dropExit h) e := by
  unfold dropExit at he
  split at he
  · next p departing hh =>
    split at he
    · cases he
    next process hp =>
    cases departing with
    | none => cases he
    | some thread =>
      obtain ⟨hfires, rfl⟩ := mem_debugAssert he
      exact .restored hh hp hfires
  · cases he

theorem sourceOf_commitThreadInfallible (h : Nat) (he : e ∈ (d.commitThreadInfallible h).1.events) :
    d.SourceOf (.commitThreadInfallible h) e := by
  unfold commitThreadInfallible at he
  split at he
  · next p node hh =>
    split at he
    · cases he
    next process hp =>
    obtain ⟨hfires, rfl⟩ := mem_debugAssert he
    exact .published hh (.inl ⟨rfl, rfl⟩) hp hfires
  · cases he

theorem sourceOf_commitInitial (h : Nat)
    (he : e ∈ (d.commitInitial h).1.events) : d.SourceOf (.commitInitial h) e := by
  unfold commitInitial at he
  split at he
  · next p node hh =>
    obtain ⟨process, hp, ⟨rfl, hfires⟩ | ⟨rfl, hfires⟩⟩ := publishWithThread_events he
    · exact .published hh (.inr (.inl ⟨rfl, rfl⟩)) hp hfires
    · exact .groupExited hh (.inl ⟨rfl, rfl⟩) hp hfires
  · cases he

theorem sourceOf_commitScoped (h : Nat)
    (he : e ∈ (d.commitScoped h).1.events) : d.SourceOf (.commitScoped h) e := by
  unfold commitScoped at he
  split at he
  · cases he
  · next p node hh =>
    obtain ⟨process, hp, ⟨rfl, hfires⟩ | ⟨rfl, hfires⟩⟩ := publishWithThread_events he
    · exact .published hh (.inr (.inr ⟨rfl, rfl⟩)) hp hfires
    · exact .groupExited hh (.inr ⟨rfl, rfl⟩) hp hfires
  · cases he

theorem sourceOf_bindScope (h : Nat) (he : e ∈ (d.bindScope h).1.events) :
    d.SourceOf (.bindScope h) e := by
  unfold bindScope at he
  split at he
  · next p scope outer hh =>
    split at he
    · next hbound =>
      rw [mem_singleton.mp he]
      exact .bound hh hbound
    · cases he
  · split at he
    · cases he
    · cases he
  · cases he

/-- The loop has its assertions, and makes no zombie. -/
theorem ScanOnly.source {call : ProcessCall Z} (h : ScanOnly d r) (he : e ∈ r.1) :
    d.SourceOf call e := by
  have hscan := h.reports e he
  cases e with
  | zombie => cases hscan
  | panicked cause => exact .scanned hscan
  | _ => trivial

/-- Every event comes from a section that reports it. -/
theorem event_source {call : ProcessCall Z} (he : e ∈ (d.call call).1.events) :
    d.SourceOf call e := by
  cases call with
  | publishZombie h payload => exact sourceOf_publishZombie h payload he
  | dropExit h => exact sourceOf_dropExit h he
  | commitThreadInfallible h => exact sourceOf_commitThreadInfallible h he
  | commitInitial h => exact sourceOf_commitInitial h he
  | commitScoped h => exact sourceOf_commitScoped h he
  | bindScope h => exact sourceOf_bindScope h he
  | reparentBatch h => exact (reparentBatch_scanOnly h).source he
  | inheritedZombie h => exact (inheritedZombie_scanOnly h).source he
  | scan h => exact (scan_scanOnly h).source he
  | _ =>
    -- the other calls only answer
    refine absurd he (List.eq_nil_iff_forall_not_mem.mp ?_ e)
    simp only [call, newReaperScope, retain, setChildSubreaper, newInit, admitInit, bindInit,
      prepareFork, prepareForkInit, allocateFork, admitFork, commitProcess, commitWithThread,
      bindOuter, dropToken, releaseNext, prepareThread, prepareAdmissionThread,
      prepareInitialThread, reserveThread, linkThread, commitThread, exitThread, exitThreadLocked,
      removeThread, groupExit, createJob, readJob, admitJob, reserveJob, commitJob, moveToGroup,
      moveGroupLive, moveCompare, reserveMove, commitMove, reap, prepareExit, reserveExit,
      releaseDeparting, startScan, lockSection]
    (repeat' split) <;> rfl

end Domain

end LinuxAbi.Proc
