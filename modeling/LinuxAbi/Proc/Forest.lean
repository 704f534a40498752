import LinuxAbi.Proc.Reports

/-!
# Ancestry is a forest

A parent pointer is a raw pointer that outlives what it points to, and reparenting sets it
to processes that were no ancestors before: a subreaper, the init of the scope, the init of
the outer scope. All of them are older than the child (`Tree.WF.rank`), and that is enough:
the line of a process upwards is strictly decreasing in the order of creation.
-/

namespace LinuxAbi.Proc

open List

namespace Domain

variable {Z : Type} {d d' : Domain Z} {events : List ProcessEvent}

/-- A process and its ancestors by parent pointers, whether or not they can still be
upgraded, up to a process without a parent. -/
inductive Lineage (d : Domain Z) : Nat → List Nat → Prop
  | root {i : Nat} {process : Process Z} : d.processes[i]? = some process →
      process.parent = none → Lineage d i [i]
  | step {i j : Nat} {process : Process Z} {line : List Nat} : d.processes[i]? = some process →
      process.parent = some j → Lineage d j line → Lineage d i (i :: line)

variable {i : Nat}

section

variable (hwf : d.tree.WF)
include hwf

/-- A parent has a row, and an older one. -/
theorem exists_parent (hi : d.processes[i]? = some process)
    (hj : process.parent = some j) : j < i ∧ ∃ parent, d.processes[j]? = some parent := by
  have hrow := getElem?_tree hi
  obtain ⟨b, hb, -⟩ := hwf.parents i process.row j hrow hj
  obtain ⟨parent, hpar, -⟩ := of_getElem?_tree hb
  exact ⟨hwf.rank i process.row j hrow hj, parent, hpar⟩

theorem exists_lineage (i : Nat) (hi : d.processes[i]? = some process) :
    ∃ line, d.Lineage i line := by
  -- parents are older, so this is an induction on the creation index
  induction i using Nat.strong_induction_on generalizing process with
  | _ i ih =>
    cases hpar : process.parent with
    | none => exact ⟨[i], .root hi hpar⟩
    | some j =>
      obtain ⟨hlt, parent, hj⟩ := exists_parent hwf hi hpar
      obtain ⟨line, hline⟩ := ih j hlt hj
      exact ⟨i :: line, .step hi hpar hline⟩

/-- What follows a process in its line is older. -/
theorem Lineage.le (h : d.Lineage i line) : ∀ g ∈ line, g ≤ i := by
  induction h with
  | root =>
    intro g hg
    rw [mem_singleton.mp hg]
  | @step i j process line hi hj _ ih =>
    intro g hg
    obtain ⟨hlt, -⟩ := exists_parent hwf hi hj
    rcases mem_cons.mp hg with rfl | hg
    · exact Nat.le_refl g
    · have := ih g hg
      omega

theorem Lineage.nodup (h : d.Lineage i line) : line.Nodup := by
  induction h with
  | root => exact nodup_singleton _
  | @step i j process line hi hj hline ih =>
    refine nodup_cons.mpr ⟨?_, ih⟩
    intro hmem
    obtain ⟨hlt, -⟩ := exists_parent hwf hi hj
    have hle := hline.le hwf i hmem
    omega

/-- The loop of `select_reaper_for_exit_locked` ends, and more rounds than there are
processes make no difference. -/
theorem walkAncestors_ends (scope : Nat) (hfirst : first < d.processes.length) :
    ∃ found, ∀ fuel, d.processes.length ≤ fuel → d.walkAncestors scope fuel first = some found := by
  obtain ⟨ancestors, hanc, hlen⟩ := exists_ancestry hwf first
  refine ⟨_, fun fuel hfuel => walkAncestors_eq scope hanc fuel ?_⟩
  omega

theorem selectReaper_ends (exiting child scope : Nat) :
    d.selectReaperForExitLocked exiting child scope ≠ .endless := by
  unfold selectReaperForExitLocked
  split
  · exact nofun
  split
  · exact nofun
  next first hup =>
  obtain ⟨a, ha, hpar⟩ := Ancestry.parent hup
  obtain ⟨process, hi, rfl⟩ := of_getElem?_tree ha
  obtain ⟨-, parent, hj⟩ := exists_parent hwf hi hpar
  obtain ⟨found, hfound⟩ := walkAncestors_ends hwf scope (Lib.lt_of_getElem? hj)
  rw [hfound _ (Nat.le_refl _)]
  exact nofun

end

/-- No call reports a walk that does not end. -/
theorem Move.not_endless (h : Move d events d') : ProcessEvent.endless ∉ events := by
  intro he
  rcases h.event_cases he with hdull | ⟨_, _, heq⟩ | ⟨_, _, _, _, _, heq⟩ | ⟨_, _, _, _, heq, -⟩
    | ⟨_, _, _, _, _, heq, -⟩ | ⟨_, _, _, _, _, _, _, heq, -⟩
  · cases hdull
  all_goals cases heq

/-- What a forest of parent pointers gives. -/
structure Forest (d : Domain Z) : Prop where
  /-- every line of parent pointers ends at a process without a parent -/
  ends : ∀ p process, d.processes[p]? = some process → ∃ line, d.Lineage p line
  /-- and visits no process twice -/
  nodup : ∀ p line, d.Lineage p line → line.Nodup
  /-- the loop of the reaper selection ends after so many rounds -/
  walk : ∀ scope first, first < d.processes.length → ∃ found, ∀ fuel, d.processes.length ≤ fuel →
    d.walkAncestors scope fuel first = some found
  selects : ∀ exiting child scope, d.selectReaperForExitLocked exiting child scope ≠ .endless

theorem WF.forest (hwf : d.WF) : d.Forest where
  ends := fun p _ hp => exists_lineage hwf.tree p hp
  nodup := fun _ _ hline => hline.nodup hwf.tree
  walk := fun scope _ hfirst => walkAncestors_ends hwf.tree scope hfirst
  selects := selectReaper_ends hwf.tree

/-- In every reachable state the parent pointers are a forest, and no walk over ancestors
ran without end on the way there. -/
theorem run_forest (limit : Nat) (calls : List (ProcessCall Z)) :
    (Lib.run Domain.call (Domain.new Z limit) calls).Forest ∧
      ProcessEvent.endless ∉
        Lib.events Domain.call processEvents (Domain.new Z limit) calls := by
  have hstep : ∀ (past : List ProcessEvent) (d : Domain Z) (call : ProcessCall Z),
      d.WF ∧ ProcessEvent.endless ∉ past →
      (d.call call).2.WF ∧ ProcessEvent.endless ∉ past ++ processEvents call (d.call call).1 := by
    rintro past d call ⟨hwf, hpast⟩
    refine ⟨hwf.call call, ?_⟩
    intro he
    rcases mem_append.mp he with hbefore | hnow
    · exact hpast hbefore
    · exact (call_move hwf call).not_endless hnow
  have hrun := Lib.run_invariant hstep calls [] (Domain.new Z limit)
    ⟨wf_new Z limit, not_mem_nil⟩
  exact ⟨hrun.1.forest, hrun.2⟩

end Domain

end LinuxAbi.Proc
