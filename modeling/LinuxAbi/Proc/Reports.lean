import LinuxAbi.Proc.Sweep

/-!
# What is moved is reported

Each changed parent pointer is owed to the adapter until the batch of its section is
handed out. Over a run the moves of a commit are its reports followed by what it still
owes, in the same order, and no process is ever moved twice from the same parent: a
parent that gives up a child is a zombie, and a zombie is never given one.
-/

namespace LinuxAbi.Proc

open Option
open List
open Lib (run Respects)

/-- One changed parent pointer: the exiting process, its child, and the child's new
parent. -/
structure Handoff where
  p : Nat
  child : Nat
  reaper : Nat
  wasZombie : Bool
deriving DecidableEq

/-- The pointers a batch reports. -/
def ProcessReparentBatch.handoffs (p : Nat) (handed : ProcessReparentBatch) : List Handoff :=
  handed.reparented.map fun moved =>
    { p, child := moved.child, reaper := handed.reaper, wasZombie := moved.wasZombie }

/-- The pointer changed by a commit in one event. -/
def ProcessEvent.movedBy (h : Nat) : ProcessEvent → Option Handoff
  | .moved h' p child reaper wasZombie =>
    if h' = h then some { p, child, reaper, wasZombie } else none
  | _ => none

/-- The pointers reported by a commit in one event. -/
def ProcessEvent.reportedBy (h : Nat) : ProcessEvent → List Handoff
  | .batch h' p handed => if h' = h then handed.handoffs p else []
  | _ => []

/-- The pointers a commit has changed. -/
def moves (h : Nat) (past : List ProcessEvent) : List Handoff := past.filterMap (·.movedBy h)

/-- The pointers a commit has reported. -/
def reports (h : Nat) (past : List ProcessEvent) : List Handoff := past.flatMap (·.reportedBy h)

/-- Every pair of a process and a child that was taken from it. -/
def takenFrom (past : List ProcessEvent) : List (Nat × Nat) :=
  past.filterMap fun
    | .moved _ p child _ _ => some (p, child)
    | _ => none

/-- What a section has to hand out. -/
def ReparentSection.owed (p : Nat) (current : ReparentSection) : List Handoff :=
  match current.batchReaper with
  | some reaper => ProcessReparentBatch.handoffs p { reaper, reparented := current.reparented }
  | none => []

/-- What an exit commit still has to report. -/
def ExitStage.owed (p : Nat) : ExitStage → List Handoff
  | .locked _ current => current.owed p
  | .batch _ handed => handed.handoffs p
  | .zombie _ | .released | .outside _ | .inherited _ _ _ => []

/-- What the commit at a hand still has to report. -/
def Domain.owed {Z : Type} (d : Domain Z) (h : Nat) : List Handoff :=
  match d.exitAt h with
  | some (p, _, stage) => stage.owed p
  | none => []

theorem moves_append (h : Nat) (past past' : List ProcessEvent) :
    moves h (past ++ past') = moves h past ++ moves h past' :=
  filterMap_append

theorem reports_append (h : Nat) (past past' : List ProcessEvent) :
    reports h (past ++ past') = reports h past ++ reports h past' :=
  flatMap_append

theorem takenFrom_append (past past' : List ProcessEvent) :
    takenFrom (past ++ past') = takenFrom past ++ takenFrom past' :=
  filterMap_append

theorem moves_moved_self (h p child reaper : Nat) (z : Bool) (tail : List ProcessEvent) :
    moves h (.moved h p child reaper z :: tail)
      = { p, child, reaper, wasZombie := z } :: moves h tail := by
  simp [moves, ProcessEvent.movedBy]

theorem moves_moved_ne (hne : k ≠ h) (p child reaper : Nat) (z : Bool)
    (tail : List ProcessEvent) : moves k (.moved h p child reaper z :: tail) = moves k tail := by
  simp [moves, ProcessEvent.movedBy, Ne.symm hne]

theorem mem_takenFrom :
    (p, child) ∈ takenFrom past ↔ ∃ h reaper z, ProcessEvent.moved h p child reaper z ∈ past := by
  constructor
  · intro hmem
    obtain ⟨e, he, heq⟩ := mem_filterMap.mp hmem
    cases e with
    | moved h q c reaper z =>
      cases heq
      exact ⟨h, reaper, z, he⟩
    | _ => cases heq
  · intro hmem
    obtain ⟨h, reaper, z, he⟩ := hmem
    exact mem_filterMap.mpr ⟨_, he, rfl⟩

theorem Unheard.moves (h : Unheard k events) : moves k events = [] := by
  refine filterMap_eq_nil_iff.mpr ?_
  intro e he
  cases e with
  | moved => exact if_neg fun heq => h _ he (congrArg some heq)
  | _ => rfl

theorem Unheard.reports (h : Unheard k events) : reports k events = [] := by
  refine flatMap_eq_nil_iff.mpr ?_
  intro e he
  cases e with
  | batch => exact if_neg fun heq => h _ he (congrArg some heq)
  | _ => rfl

namespace Domain

variable {Z : Type} {d d' : Domain Z} {events : List ProcessEvent}

/-! ## Nothing is lost on the way -/

variable {h p : Nat} {past : List ProcessEvent}

theorem owed_of_exitAt (hexit : d.exitAt h = some (p, np, stage)) : d.owed h = stage.owed p := by
  unfold owed
  rw [hexit]

theorem owed_of_none (hexit : d.exitAt h = none) : d.owed h = [] := by
  unfold owed
  rw [hexit]

theorem owed_congr (hexit : d'.exitAt h = d.exitAt h) : d'.owed h = d.owed h := by
  unfold owed
  rw [hexit]

section Stage

variable {h p : Nat} {np : Option Nat} {scan : ExitScan}
  {current : ReparentSection} {stage : ExitStage} {stage' : Option ExitStage}
  {topology : Option Nat}

/-- What a stage owes, if there is one. -/
def stageOwed (p : Nat) (stage : Option ExitStage) : List Handoff :=
  match stage with
  | some stage => stage.owed p
  | none => []

theorem owed_of_map (hexit : d.exitAt h = stage'.map (p, np, ·)) :
    d.owed h = stageOwed p stage' := by
  unfold owed
  rw [hexit]
  cases stage' with
  | none | some => rfl

/-- A round has nothing to hand out. -/
theorem Round.quiet (hr : Round h p np scan events stage') (k : Nat) :
    moves k events = [] ∧ reports k events = [] ∧ stageOwed p stage' = [] := by
  rcases hr.spec with ⟨-, rfl, rfl⟩ | ⟨-, rfl, rfl⟩
  · exact ⟨rfl, rfl, rfl⟩
  · exact ⟨rfl, rfl, rfl⟩

theorem owed_of_nil (hemp : current.reparented = []) : current.owed p = [] := by
  unfold ReparentSection.owed
  rw [hemp]
  cases current.batchReaper with
  | none | some => rfl

theorem Unlocked.owed (hu : Unlocked h p np scan current events stage') (k : Nat) :
    moves k events = [] ∧ reports k events = [] ∧ stageOwed p stage' = current.owed p := by
  cases hu with
  | handed reaper hreap _ =>
    refine ⟨rfl, rfl, ?_⟩
    unfold ReparentSection.owed
    rw [hreap]
    rfl
  | round hemp hround =>
    obtain ⟨hmoves, hrep, howed⟩ := hround.quiet k
    exact ⟨hmoves, hrep, howed.trans (owed_of_nil hemp).symm⟩

theorem Scanned.owed (hs : Scanned h p np scan current events stage' topology) (k : Nat) :
    moves k events = [] ∧ reports k events = [] ∧ stageOwed p stage' = current.owed p := by
  cases hs with
  | goOn _ => exact ⟨rfl, rfl, rfl⟩
  | ended hover => exact hover.owed k

/-- A step of the commit itself moves nothing: what it owed, it owes or has reported. -/
theorem StageStep.owed (hs : StageStep d h p np stage events stage' topology) :
    moves h events = [] ∧ stage.owed p = reports h events ++ stageOwed p stage' := by
  cases hs with
  | release | start | lock | inherit => exact ⟨rfl, rfl⟩
  | finish _ hover | defer _ _ hover =>
    obtain ⟨hmoves, hrep, howed⟩ := hover.owed h
    exact ⟨hmoves, by rw [hrep, howed]; rfl⟩
  | skip _ _ _ hscan =>
    obtain ⟨hmoves, hrep, howed⟩ := hscan.owed h
    exact ⟨hmoves, by rw [hrep, howed]; rfl⟩
  | batch scan handed =>
    refine ⟨rfl, ?_⟩
    change handed.handoffs p = ((if h = h then handed.handoffs p else []) ++ []) ++ []
    rw [if_pos rfl, append_nil, append_nil]
  | round _ _ hround =>
    obtain ⟨hmoves, hrep, howed⟩ := hround.quiet h
    exact ⟨hmoves, by rw [hrep, howed]; rfl⟩

end Stage

/-- One move: what was owed and what is moved now is reported or owed. -/
theorem Move.owed (hwf : d.WF) (h : Move d events d') (k : Nat) :
    d.owed k ++ moves k events = reports k events ++ d'.owed k := by
  cases h.exit_move k with
  | same exit unheard =>
    rw [unheard.moves, unheard.reports, owed_congr exit]
    exact append_nil _
  | begins p departing old _ _ _ exit unheard =>
    rw [unheard.moves, unheard.reports, owed_of_exitAt exit, owed_of_none old]
    rfl
  | stage p np old step _ exit =>
    obtain ⟨hmoves, howed⟩ := step.owed
    rw [owed_of_exitAt old, owed_of_map exit, hmoves, append_nil]
    exact howed
  | @moved child reaper _ p np scan scan' current a stage' old _ batch step exit =>
    obtain ⟨-, -, howed⟩ := step.owed k
    rw [moves_moved_self, owed_of_exitAt old, owed_of_map exit, howed]
    -- the section had no reaper yet, and so no child, or had the same one
    change current.owed p ++ _
      = ProcessReparentBatch.handoffs p { reaper, reparented := current.reparented ++ _ }
    rw [ProcessReparentBatch.handoffs, map_append]
    rcases batch with hnone | hsome
    · obtain ⟨-, hreap⟩ := hwf.locked k p np scan current old
      have hemp : current.reparented = [] := by
        by_contra hne
        exact hreap hne hnone
      rw [owed_of_nil hemp, hemp]
      rfl
    · unfold ReparentSection.owed
      rw [hsome]
      rfl

/-! ## No child is taken twice -/

/-- A child that was taken from a process is not its child any more, and the process is a
zombie. -/
def Taken (t : Tree) (p child : Nat) : Prop :=
  (∃ a, t.rows[p]? = some a ∧ a.zombie = true) ∧
    ∃ b, t.rows[child]? = some b ∧ b.published = true ∧ b.parent ≠ some p

/-- A zombie is not fit to be given a child. -/
theorem FitReaper.ne_zombie (h : FitReaper t child reaper)
    (ha : t.rows[p]? = some a) (hzombie : a.zombie = true) : reaper ≠ p := by
  rintro rfl
  obtain ⟨b, hb, -, hlive, -⟩ := h.row
  obtain rfl := some.inj (ha.symm.trans hb)
  rw [hzombie] at hlive
  cases hlive

theorem Taken.move (ht : Taken d.tree p child) (h : Move d events d') : Taken d'.tree p child := by
  obtain ⟨⟨a, ha, hzombie⟩, b, hb, hpub, hpar⟩ := ht
  obtain ⟨a', ha', haa⟩ := h.row_step ha
  obtain ⟨b', hb', hbb⟩ := h.row_step hb
  refine ⟨⟨a', ha', haa.later.zombie hzombie⟩, b', hb', hbb.later.published hpub, ?_⟩
  rcases hbb.parent with ⟨hsame, -⟩ | ⟨k, q, r, -, -, -, hnew, hfit⟩
  · rw [hsame]
    exact hpar
  rw [hnew]
  intro heq
  exact hfit.ne_zombie ha hzombie (some.inj heq)

/-- What one move takes: at most one child, from an exiting process that still has it. -/
theorem Move.takes (hwf : d.WF) (h : Move d events d') :
    takenFrom events = [] ∨ ∃ p child, takenFrom events = [(p, child)] ∧
      Taken d'.tree p child ∧ ∃ a, d.tree.rows[child]? = some a ∧ a.parent = some p := by
  have hnone : (∀ k q c r z, ProcessEvent.moved k q c r z ∉ events) → takenFrom events = [] := by
    intro hmoved
    refine eq_nil_iff_forall_not_mem.mpr ?_
    intro pair hmem
    obtain ⟨k, r, z, he⟩ := mem_takenFrom.mp hmem
    exact hmoved k pair.1 pair.2 r z he
  cases h with
  | quiet _ _ _ dull => exact .inl (hnone fun _ _ _ _ _ => dull.not_moved)
  | zombie _ _ _ dull => exact .inl (hnone fun _ _ _ _ _ => dull.not_moved_zombie)
  | stage _ _ _ _ step => exact .inl (hnone fun _ _ _ _ _ => step.not_moved)
  | @moved _ h p np scan scan' current child reaper a stage' old next row
      published parent due fit batch step tree exits claims =>
    refine .inr ⟨p, child, rfl, ?_, a, row, parent⟩
    obtain ⟨g, hg, hzombie, -⟩ := hwf.exits h p np _ old
    have hmove := Move.moved h p np old next row published parent due fit batch
      step tree exits claims
    obtain ⟨g', hg', hgg⟩ := hmove.row_step hg
    rw [tree] at hg' ⊢
    refine ⟨⟨g', hg', hgg.later.zombie hzombie⟩, _, Tree.getElem?_modify_self row, published, ?_⟩
    intro heq
    exact fit.ne_zombie hg hzombie (some.inj heq)

/-- No pair of a process and its child occurs twice, over any history. -/
structure TakenOnce (past : List ProcessEvent) (d : Domain Z) : Prop where
  taken : ∀ p child, (p, child) ∈ takenFrom past → Taken d.tree p child
  nodup : (takenFrom past).Nodup

theorem TakenOnce.move (ht : TakenOnce past d) (hwf : d.WF)
    (h : Move d events d') : TakenOnce (past ++ events) d' := by
  have hkept : ∀ p child, (p, child) ∈ takenFrom past → Taken d'.tree p child :=
    fun p child hmem => (ht.taken p child hmem).move h
  rcases h.takes hwf with hnil | ⟨p, child, hone, htaken, a, ha, hpar⟩
  · constructor
    · intro p child hmem
      rw [takenFrom_append, hnil, append_nil] at hmem
      exact hkept p child hmem
    · rw [takenFrom_append, hnil, append_nil]
      exact ht.nodup
  · constructor
    · intro q c hmem
      rw [takenFrom_append, hone] at hmem
      rcases Lib.mem_concat_cases hmem with hold | ⟨⟨⟩⟩
      · exact hkept q c hold
      · exact htaken
    · rw [takenFrom_append, hone]
      refine nodup_append.mpr ⟨ht.nodup, nodup_singleton _, ?_⟩
      -- the child still had its parent, so it was not taken from it before
      rintro pair hpair pair' hpair' rfl
      rw [mem_singleton.mp hpair'] at hpair
      obtain ⟨-, b, hb, -, hne⟩ := ht.taken p child hpair
      obtain rfl := some.inj (ha.symm.trans hb)
      exact hne hpar

/-! ## Bounded sections -/

/-- No more than `REPARENT_BATCH_LIMIT` processes are moved in a section. -/
def StageBounded : ExitStage → Prop
  | .locked _ current => current.reparented.length ≤ current.batchLen ∧
      current.batchLen < reparentBatchLimit
  | .batch _ handed | .inherited _ handed _ => handed.reparented.length ≤ reparentBatchLimit
  | .zombie _ | .released | .outside _ => True

section Bounded

variable {h p : Nat} {np : Option Nat} {scan : ExitScan}
  {current : ReparentSection} {stage stage' : ExitStage} {topology : Option Nat}

theorem Round.bounded (hr : Round h p np scan events (some stage')) : StageBounded stage' := by
  cases hr with
  | again _ => trivial

theorem Unlocked.bounded (hu : Unlocked h p np scan current events (some stage'))
    (hlen : current.reparented.length ≤ reparentBatchLimit) : StageBounded stage' := by
  cases hu with
  | handed reaper _ _ => exact hlen
  | round _ hround => exact hround.bounded

theorem Scanned.bounded (hs : Scanned h p np scan current events (some stage') topology)
    (hlen : current.reparented.length ≤ current.batchLen)
    (hlimit : current.batchLen ≤ reparentBatchLimit) : StageBounded stage' := by
  cases hs with
  | goOn hlt => exact ⟨hlen, hlt⟩
  | ended hover => exact hover.bounded (Nat.le_trans hlen hlimit)

theorem StageStep.bounded (hs : StageStep d h p np stage events (some stage') topology)
    (hb : StageBounded stage) : StageBounded stage' := by
  cases hs with
  | release | start => trivial
  | lock scan => exact ⟨Nat.le_refl 0, by decide⟩
  | finish _ hover | defer _ _ hover =>
    exact hover.bounded (Nat.le_of_lt (Nat.lt_of_le_of_lt hb.1 hb.2))
  | skip _ _ _ hscan => exact hscan.bounded (Nat.le_succ_of_le hb.1) hb.2
  | batch | inherit => exact hb
  | round _ _ hround => exact hround.bounded

end Bounded

/-- Every commit keeps to the limit. -/
def Bounded (d : Domain Z) : Prop :=
  ∀ h p notificationParent stage, d.exitAt h = some (p, notificationParent, stage) →
    StageBounded stage

theorem Bounded.move (hb : d.Bounded) (h : Move d events d') : d'.Bounded := by
  intro k p np stage hexit
  cases h.exit_move k with
  | same exit => exact hb k p np stage (exit.symm.trans hexit)
  | begins q departing _ _ _ _ exit =>
    rw [exit] at hexit
    cases hexit
    trivial
  | stage q np' old step _ exit =>
    rw [exit] at hexit
    obtain ⟨stage', hstage', hstage⟩ := map_eq_some_iff.mp hexit
    cases hstage
    rw [hstage'] at step
    exact step.bounded (hb _ _ _ _ old)
  | moved q np' old _ _ step exit =>
    rw [exit] at hexit
    obtain ⟨stage', hstage', hstage⟩ := map_eq_some_iff.mp hexit
    cases hstage
    rw [hstage'] at step
    obtain ⟨hlen, hlimit⟩ := hb _ _ _ _ old
    refine step.bounded ?_ hlimit
    show (_ ++ [_]).length ≤ _ + 1
    rw [length_append, length_singleton]
    exact Nat.succ_le_succ hlen

/-! ## Events -/

/-- The events of a move. -/
theorem Move.event_cases (h : Move d events d') (he : e ∈ events) :
    e.isDull = true ∨ (∃ p np, e = .zombie p np) ∨ (∃ k p c r z, e = .moved k p c r z) ∨
      (∃ k p np stage, e = .returned k p np ∧ d.exitAt k = some (p, np, stage) ∧
        d'.exitAt k = none) ∨
      (∃ k p np scan handed, e = .batch k p handed ∧
        d.exitAt k = some (p, np, .batch scan handed)) ∨
      ∃ k p np scan handed child zombies, e = .inherited k p child ∧
        d.exitAt k = some (p, np, .inherited scan handed (child :: zombies)) := by
  cases h with
  | quiet _ _ _ dull => exact .inl (dull e he)
  | zombie h p departing dull =>
    rcases Lib.mem_concat_cases he with hl | heq
    · exact .inl (dull e hl)
    · exact .inr (.inl ⟨_, _, heq⟩)
  | stage k p np old step _ exits =>
    refine .inr (.inr (.inr ?_))
    have hexit := exits k
    rw [if_pos rfl] at hexit
    rcases step.event_cases he with ⟨rfl, rfl⟩ | ⟨scan, handed, rfl, rfl⟩
      | ⟨scan, handed, child, zombies, rfl, rfl⟩
    · exact .inl ⟨k, p, np, _, rfl, old, hexit⟩
    · exact .inr (.inl ⟨k, p, np, scan, handed, rfl, old⟩)
    · exact .inr (.inr ⟨k, p, np, scan, handed, child, zombies, rfl, old⟩)
  | moved k p np old _ _ _ _ _ _ _ step _ exits =>
    exact .inr (.inr (.inl ⟨k, p, _, _, _, mem_singleton.mp he⟩))

/-- A changed parent pointer, with what held when it was changed. -/
theorem Move.moved_spec (hwf : d.WF) (h : Move d events d')
    (he : ProcessEvent.moved k p c r z ∈ events) :
    d.topology = some k ∧ d.ReaperOf p c r ∧
      (∃ a, d.tree.rows[c]? = some a ∧ a.published = true ∧ a.parent = some p ∧ a.zombie = z) ∧
      ∃ b, d'.tree.rows[c]? = some b ∧ b.parent = some r := by
  cases h with
  | quiet _ _ _ dull => exact absurd he dull.not_moved
  | zombie _ _ _ dull => exact absurd he dull.not_moved_zombie
  | stage _ _ _ _ step => exact absurd he step.not_moved
  | moved h q np old next row published parent due fit batch step tree =>
    cases mem_singleton.mp he
    refine ⟨(hwf.locked k p np _ _ old).1, due, ⟨_, row, published, parent, rfl⟩, ?_⟩
    rw [tree]
    exact ⟨_, Tree.getElem?_modify_self row, rfl⟩

/-! ## Exits of an orderly run -/

/-- What holds along an orderly run, with its history. -/
structure Orderliness (past : List ProcessEvent) (d : Domain Z) : Prop where
  wf : d.WF
  scans : d.Scans
  bounded : d.Bounded
  once : TakenOnce past d
  reported : ∀ h, moves h past = reports h past ++ d.owed h

theorem Orderliness.move (ho : Orderliness past d) (h : Move d events d')
    (hrule : OrderlyMove d d') : Orderliness (past ++ events) d' where
  wf := h.wf ho.wf
  scans := h.scans ho.wf ho.scans hrule
  bounded := ho.bounded.move h
  once := ho.once.move ho.wf h
  reported := by
    intro k
    calc moves k (past ++ events)
        = reports k past ++ (d.owed k ++ moves k events) := by
          rw [moves_append, ho.reported, append_assoc]
      _ = reports k past ++ (reports k events ++ d'.owed k) := by rw [h.owed ho.wf]
      _ = reports k (past ++ events) ++ d'.owed k := by rw [reports_append, append_assoc]

theorem orderliness_new (Z : Type) (limit : Nat) : Orderliness [] (Domain.new Z limit) where
  wf := wf_new Z limit
  scans := by
    intro h p np stage scan hexit
    cases hexit
  bounded := by
    intro h p np stage hexit
    cases hexit
  once := ⟨(fun _ _ hmem => by cases hmem), nodup_nil⟩
  reported := fun _ => rfl

theorem run_orderly (limit : Nat) (calls : List (ProcessCall Z))
    (hrule : Respects Domain.call Domain.Orderly (Domain.new Z limit) calls) :
    Orderliness (Lib.events Domain.call processEvents (Domain.new Z limit) calls)
      (run Domain.call (Domain.new Z limit) calls) := by
  refine Lib.run_respects (I := Orderliness) ?_ (orderliness_new Z limit) calls hrule
  intro past d call ho hcall
  exact ho.move (call_move ho.wf call) hcall.move

/-- The moves of one commit are among the pairs of the history. -/
theorem moves_pairs_sublist (h : Nat) (past : List ProcessEvent) :
    ((moves h past).map fun moved => (moved.p, moved.child)).Sublist (takenFrom past) := by
  induction past with
  | nil => exact List.Sublist.slnil
  | cons e past ih =>
    cases e with
    | moved k p child reaper z =>
      by_cases heq : h = k
      · subst heq
        rw [moves_moved_self]
        exact ih.cons_cons _
      · rw [moves_moved_ne heq]
        exact ih.cons _
    | _ => exact ih

theorem TakenOnce.moves_nodup (h : TakenOnce past d) (k : Nat) : (moves k past).Nodup :=
  List.Nodup.of_map _ (h.nodup.sublist (moves_pairs_sublist k past))

/-- What one call of an orderly run does to parent pointers, and what has been reported
by then. -/
structure ReparentStep (past : List ProcessEvent) (d : Domain Z) (events : List ProcessEvent)
    (d' : Domain Z) : Prop where
  /-- a commit returns with no child left and everything reported -/
  returned : ∀ h p notificationParent, ProcessEvent.returned h p notificationParent ∈ events →
    (∀ c b, ¬ d'.tree.IsChild p c b) ∧ moves h past = reports h past
  /-- a child is moved in a section of the commit, to the reaper it is due -/
  moved : ∀ h p c r z, ProcessEvent.moved h p c r z ∈ events →
    d.topology = some h ∧ d.ReaperOf p c r ∧
      (∃ a, d.tree.rows[c]? = some a ∧ a.published = true ∧ a.parent = some p ∧ a.zombie = z) ∧
      ∃ b, d'.tree.rows[c]? = some b ∧ b.parent = some r
  /-- parent pointers change in no other way -/
  changed : ∀ c a b, d.tree.rows[c]? = some a → d'.tree.rows[c]? = some b → b.parent ≠ a.parent →
    ∃ h p r z, ProcessEvent.moved h p c r z ∈ events
  /-- what is moved and no longer owed was reported, once, with its new parent -/
  reported : ∀ h p c r z, ProcessEvent.moved h p c r z ∈ past →
    ({ p, child := c, reaper := r, wasZombie := z } : Handoff) ∉ d'.owed h →
    (reports h past).count { p, child := c, reaper := r, wasZombie := z } = 1
  /-- no child is taken from a process twice, by whichever commit -/
  once : (takenFrom past).Nodup
  sections : ∀ h p handed, ProcessEvent.batch h p handed ∈ events →
    handed.reparented.length ≤ reparentBatchLimit
  /-- no assertion about reapers fires, and every walk ends -/
  safe : ∀ e ∈ events, e ≠ .endless ∧ e ≠ .panicked .noScopeInit ∧ e ≠ .panicked .noOuterInit ∧
    e ≠ .panicked .noBatchReaper

theorem mem_moves (he : ProcessEvent.moved h p c r z ∈ past) :
    ({ p, child := c, reaper := r, wasZombie := z } : Handoff) ∈ moves h past := by
  refine mem_filterMap.mpr ⟨_, he, ?_⟩
  simp [ProcessEvent.movedBy]

theorem Orderliness.step (ho : Orderliness past d) (h : Move d events d')
    (hrule : OrderlyMove d d') : ReparentStep (past ++ events) d events d' where
  returned := by
    intro k p np he
    have hafter := ho.move h hrule
    rcases h.event_cases he with hdull | ⟨_, _, heq⟩ | ⟨_, _, _, _, _, heq⟩
      | ⟨k', p', np', stage, heq, hold, hnew⟩ | ⟨_, _, _, _, _, heq, -⟩
      | ⟨_, _, _, _, _, _, _, heq, -⟩
    · cases hdull
    · cases heq
    · cases heq
    · cases heq
      refine ⟨fun c b => h.closed ho.scans hold hnew, ?_⟩
      rw [hafter.reported, owed_of_none hnew, append_nil]
    · cases heq
    · cases heq
  moved := fun _ _ _ _ _ he => h.moved_spec ho.wf he
  changed := by
    intro c a b ha hb hne
    obtain ⟨b', hb', hab⟩ := h.row_step ha
    obtain rfl := some.inj (hb.symm.trans hb')
    rcases hab.parent with ⟨hsame, -⟩ | ⟨k, q, r, he, -⟩
    · exact absurd hsame hne
    · exact ⟨k, q, r, _, he⟩
  reported := by
    intro k p c r z he howed
    have hafter := ho.move h hrule
    have hnodup := hafter.once.moves_nodup k
    have hmem := mem_moves he
    rw [hafter.reported] at hnodup hmem
    rcases mem_append.mp hmem with hreport | hpend
    · exact count_eq_one_of_mem (nodup_append.mp hnodup).1 hreport
    · exact absurd hpend howed
  once := (ho.move h hrule).once.nodup
  sections := by
    intro k p handed he
    rcases h.event_cases he with hdull | ⟨_, _, heq⟩ | ⟨_, _, _, _, _, heq⟩
      | ⟨_, _, _, _, heq, -⟩ | ⟨k', p', np', scan, handed', heq, hold⟩
      | ⟨_, _, _, _, _, _, _, heq, -⟩
    · cases hdull
    · cases heq
    · cases heq
    · cases heq
    · cases heq
      have hbounded := ho.bounded _ _ _ _ hold
      exact hbounded
    · cases heq
  safe := by
    intro e he
    rcases h.event_cases he with hdull | ⟨_, _, rfl⟩ | ⟨_, _, _, _, _, rfl⟩
      | ⟨_, _, _, _, rfl, -⟩ | ⟨_, _, _, _, _, rfl, -⟩ | ⟨_, _, _, _, _, _, _, rfl, -⟩
    · refine ⟨?_, ?_, ?_, ?_⟩ <;> rintro rfl <;> cases hdull
    all_goals simp

/-- Over every run that keeps the rule, and whatever the call does next: an exit commit
returns with no child left, each child went to its reaper inside a section of the
commit, and was reported once. -/
theorem run_reparents (limit : Nat) (calls : List (ProcessCall Z)) (call : ProcessCall Z)
    (hrule : Respects Domain.call Domain.Orderly (Domain.new Z limit) (calls ++ [call])) :
    ReparentStep
      (Lib.events Domain.call processEvents (Domain.new Z limit) (calls ++ [call]))
      (run Domain.call (Domain.new Z limit) calls)
      ((run Domain.call (Domain.new Z limit) calls).call call).1.events
      ((run Domain.call (Domain.new Z limit) calls).call call).2 := by
  obtain ⟨hbefore, hlast⟩ := hrule.append
  have ho := run_orderly limit calls hbefore
  rw [Lib.events_snoc]
  exact ho.step (call_move ho.wf call) hlast.1.move

/-- An init, a child and a grandchild, all without threads. -/
def threeGenerations : List (ProcessCall Unit) :=
  [.newInit 0 1 true, .admitInit 0 true, .bindInit 0,
   .prepareFork 0 0 2, .allocateFork 1 true, .admitFork 1, .commitProcess 1,
   .prepareFork 1 0 3, .allocateFork 2 true, .admitFork 2, .commitProcess 2]

/-- The exit of the child, up to its last callback. -/
def exitOfChild : List (ProcessCall Unit) :=
  [.prepareExit 1, .reserveExit 3, .publishZombie 3 (), .releaseDeparting 3, .startScan 3,
   .lockSection 3, .scan 3, .scan 3, .scan 3, .scan 3, .reparentBatch 3]

theorem run_reparents_grandchild :
    let past := Lib.events Domain.call processEvents (Domain.new Unit 8)
      (threeGenerations ++ exitOfChild ++ [.inheritedZombie 3])
    let d := (run Domain.call (Domain.new Unit 8) (threeGenerations ++ exitOfChild)).call
      (.inheritedZombie 3)
    ProcessEvent.moved 3 1 2 0 false ∈ past ∧ .returned 3 1 (some 0) ∈ d.1.events ∧
      (∀ c b, ¬ d.2.tree.IsChild 1 c b) ∧
      (reports 3 past).count { p := 1, child := 2, reaper := 0, wasZombie := false } = 1 := by
  have hstep := run_reparents 8 (threeGenerations ++ exitOfChild) (.inheritedZombie 3)
    (by decide +kernel)
  exact ⟨by decide +kernel, by decide +kernel,
    (hstep.returned 3 1 (some 0) (by decide +kernel)).1,
    hstep.reported 3 1 2 0 false (by decide +kernel) (by decide +kernel)⟩

end Domain

end LinuxAbi.Proc
