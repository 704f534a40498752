import LinuxAbi.Proc.Announce
import LinuxAbi.Proc.RegistryAccounts

/-!
# Parents are registered

The walk over the ancestors in `select_reaper_for_exit_locked` follows parent pointers
without holding references, because "final exit reparents children before reap". But a
process is a zombie from the first section of its exit commit on, and that is all that
`reap` asks for: a reap in the middle of the commit takes a process out of the registry
that is still somebody's parent. If a process is reaped only after its exit commit has
returned, every parent pointer names a registered process.
-/

namespace LinuxAbi.Proc

open Lib (run Respects)

namespace Domain

variable {Z : Type} {d d' : Domain Z}

/-- A process is reaped after its exit commit has returned. -/
def ReapsDone (d : Domain Z) (call : ProcessCall Z) : Prop :=
  ∀ p ∈ call.reaps, d.exiting p = false

instance (d : Domain Z) (call : ProcessCall Z) : Decidable (d.ReapsDone call) :=
  inferInstanceAs (Decidable (∀ p ∈ call.reaps, d.exiting p = false))

/-- Children are published and processes reaped apart from exits of the process. -/
def ApartFromExit (d : Domain Z) (call : ProcessCall Z) : Prop := d.Serialized call ∧ d.ReapsDone call

instance (d : Domain Z) (call : ProcessCall Z) : Decidable (d.ApartFromExit call) :=
  inferInstanceAs (Decidable (d.Serialized call ∧ d.ReapsDone call))

/-- Whatever is exiting is registered. -/
def ExitsRegistered (d : Domain Z) : Prop :=
  ∀ p, d.exiting p = true → ∃ process, d.processes[p]? = some process ∧ process.linked = true

variable {p : Nat}

/-- A published process stays registered until it is reaped. -/
theorem linked_call (hj : d.JobsOK) (call : ProcessCall Z)
    (hp : d.processes[p]? = some process) (hpub : process.published = true)
    (hlink : process.linked = true) (hreaps : call.reaps ≠ some p) :
    ∃ process', (d.call call).2.processes[p]? = some process' ∧ process'.linked = true := by
  have hrow : process.jobRow.isSome = true := (isSome_jobRow process).trans hlink
  obtain ⟨row, hrow', hstays⟩ := (call_jobs hj call).stays (jobRow_at hp) hrow
    ⟨process, hp, hpub⟩ hreaps
  obtain ⟨process', hp', rfl⟩ := Lib.of_getElem?_map hrow'
  exact ⟨process', hp', (isSome_jobRow process').symm.trans hstays⟩

/-- A zombie transition is one of a registered process. -/
theorem linked_of_exitAdmission (hj : d.JobsOK) {h : Nat} {departing : Option ThreadNode}
    (hh : d.hands[h]? = some (.exitAdmission p departing)) :
    ∃ process, d.processes[p]? = some process ∧ process.published = true ∧
      process.linked = true := by
  obtain ⟨a, ha, hpub, -⟩ := hj.wf.claim hh (c := .exit p) (Multiset.mem_singleton_self _)
  obtain ⟨process, hp, rfl⟩ := of_getElem?_tree ha
  have halive := ((exitExclusive_of_wf hj.threads).prepared p process hp
    (exitPrepared_of_hand hj.threads hh hp)).2
  exact ⟨process, hp, hpub,
    (hj.threads.rows p process.threadRow (threadRow_at hp)).linked_of_alive halive hpub⟩

/-- An exit commit begins with a zombie transition. -/
theorem Move.exit_begins {events : List ProcessEvent} (h : Move d events d') {k : Nat}
    {np : Option Nat} {stage : ExitStage} (hexit : d'.exitAt k = some (p, np, stage)) :
    d.exiting p = true ∨ ProcessEvent.zombie p np ∈ events := by
  rcases h.exit_origin hexit with ⟨stage₀, hold⟩ | ⟨-, -, -, hevent⟩
  · exact .inl (exiting_of_exitAt hold)
  · exact .inr hevent

theorem ExitsRegistered.call (h : d.ExitsRegistered) (hj : d.JobsOK) (hz : d.ZombiesPublished)
    (call : ProcessCall Z) (hrule : d.ReapsDone call) : (d.call call).2.ExitsRegistered := by
  intro p hexiting
  obtain ⟨k, np, stage, hexit⟩ := exists_exitAt_of_exiting hexiting
  rcases (call_move hj.wf call).exit_begins hexit with hbef | hevent
  · -- the commit was going on, so this is no reap of the process
    obtain ⟨process, hp, hlink⟩ := h p hbef
    obtain ⟨k', np', stage', hexit'⟩ := exists_exitAt_of_exiting hbef
    obtain ⟨a, ha, hzombie, -⟩ := hj.wf.exits k' p np' stage' hexit'
    obtain rfl := Option.some.inj ((getElem?_tree hp).symm.trans ha)
    have hpub : process.published = true := hz p process.row (getElem?_tree hp) hzombie
    refine linked_call hj call hp hpub hlink ?_
    intro hreaps
    cases (hrule p hreaps).symm.trans hbef
  · -- the process has just become a zombie
    obtain ⟨h', payload, departing, rfl, hh⟩ := event_source hevent
    obtain ⟨process, hp, hpub, hlink⟩ := linked_of_exitAdmission hj hh
    exact linked_call hj _ hp hpub hlink nofun

/-- Every parent is registered, and nobody's parent can be reaped. -/
structure ParentsRegistered (d : Domain Z) : Prop where
  parents : ∀ (c p : Nat) (process : Process Z), d.processes[c]? = some process →
    process.published = true → process.linked = true → process.parent = some p →
    ∃ parent, d.processes[p]? = some parent ∧ parent.linked = true
  reaps : ∀ p, d.exiting p = false → (d.reap p).1.reply = .flag true →
    ∀ (c : Nat) (process : Process Z), d.processes[c]? = some process →
      process.published = true → process.linked = true → process.parent ≠ some p

/-- The invariants of a run that keeps forks and reaps apart from exits. -/
structure Apart (past : List ProcessEvent) (d : Domain Z) : Prop where
  announced : Announced past d
  jobs : d.JobsOK
  exits : d.ExitsRegistered

theorem Apart.call (h : Apart past d) (call : ProcessCall Z) (hrule : d.ApartFromExit call) :
    Apart (past ++ processEvents call (d.call call).1) (d.call call).2 where
  announced := h.announced.move (call_move h.jobs.wf call) hrule.1.move
  jobs := h.jobs.call call
  exits := h.exits.call h.jobs h.announced.zombies call hrule.2

theorem Apart.parents (h : Apart past d) : d.ParentsRegistered where
  parents := by
    intro c p process hc hpub hlink hpar
    have hchild : d.tree.IsChild p c process.row := ⟨getElem?_tree hc, hpub, hlink, hpar⟩
    rcases h.announced.settled.parent h.jobs.wf hchild with ⟨b, hb, hreg⟩ | hexiting
    · obtain ⟨parent, hp, rfl⟩ := of_getElem?_tree hb
      exact ⟨parent, hp, hreg⟩
    · exact h.exits p hexiting
  reaps := by
    intro p hdone hreply c process hc hpub hlink hpar
    obtain ⟨a, -, ha, hzombie, -⟩ := reap_spec hreply
    -- a zombie whose commit is over has no children left
    rcases h.announced.settled p a.row (getElem?_tree ha) hzombie with hexiting | hnone
    · cases hdone.symm.trans hexiting
    · exact hnone c process.row ⟨getElem?_tree hc, hpub, hlink, hpar⟩

/-- Over every run that keeps forks and reaps apart from exits. -/
theorem run_parents_registered (limit : Nat) (calls : List (ProcessCall Z))
    (hrule : Respects Domain.call Domain.ApartFromExit (Domain.new Z limit) calls) :
    (run Domain.call (Domain.new Z limit) calls).ParentsRegistered := by
  have hnew : Apart [] (Domain.new Z limit) := by
    refine ⟨announced_new Z limit, jobsOK_new Z limit, ?_⟩
    intro p hexiting
    cases hexiting
  have hstep : ∀ (past : List ProcessEvent) (d : Domain Z) (call : ProcessCall Z), Apart past d →
      d.ApartFromExit call → Apart (past ++ processEvents call (d.call call).1) (d.call call).2 :=
    fun _ _ call h => h.call call
  exact (Lib.run_respects hstep hnew calls hrule).parents

/-- The child 1 of the init exits, its child 2 goes to the init, and it is reaped. -/
def afterReap : Domain Unit :=
  run Domain.call (Domain.new Unit 8)
    (threeGenerations ++ exitOfChild ++ [.inheritedZombie 3, .reap 1])

theorem run_parents_registered_after_reap :
    afterReap.processes[1]?.map (·.linked) = some false ∧
      ∃ parent, afterReap.processes[0]? = some parent ∧ parent.linked = true := by
  have hparents : afterReap.ParentsRegistered := by
    exact run_parents_registered 8 _ (by decide +kernel)
  have hchild : (afterReap.processes[2]?.any fun child =>
      child.published && child.linked && child.parent == some 0) = true := by decide +kernel
  refine ⟨by decide +kernel, ?_⟩
  obtain ⟨child, hc, hflags⟩ := (Option.any_eq_true _ _).mp hchild
  rw [Bool.and_eq_true, Bool.and_eq_true, beq_iff_eq] at hflags
  obtain ⟨⟨hpublished, hlinked⟩, hparent⟩ := hflags
  exact hparents.parents 2 0 child hc hpublished hlinked hparent

/-- The reap of the child comes between its zombie transition and the first section that
moves its child: it succeeds, and the child 2 is left with a parent that is not registered.
Forks are serialized against exits all along. -/
def reapDuringExit : List (ProcessCall Unit) :=
  threeGenerations ++ [.prepareExit 1, .reserveExit 3, .publishZombie 3 (), .reap 1]

theorem reaped_parent :
    let d := run Domain.call (Domain.new Unit 8) reapDuringExit
    Respects Domain.call Domain.Serialized (Domain.new Unit 8) reapDuringExit ∧
      d.processes[2]?.map (fun child => (child.published, child.linked, child.parent))
        = some (true, true, some 1) ∧
      d.processes[1]?.map (·.linked) = some false := by
  decide +kernel

end Domain

end LinuxAbi.Proc
