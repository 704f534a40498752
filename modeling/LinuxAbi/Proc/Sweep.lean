import LinuxAbi.Proc.Reachable

/-!
# An exit leaves no child behind

The scan of an exit commit walks the registry by PID, from wherever the last section
stopped, up to the largest PID there was at its start. Between two sections processes
may leave the registry and parent pointers may change, so the invariant is about what is
still ahead of the cursor: every child of the exiting process is ahead of it, or is the
one child put off to the next section. It needs that no child of an exiting process is
published meanwhile, which the crate leaves to its adapter.
-/

namespace LinuxAbi.Proc

open Option
open List

/-! ## The cursor -/

/-- The PID is still to come. -/
def ProcessesThroughCurrentMax.Ahead (children : ProcessesThroughCurrentMax) (pid : Pid) : Prop :=
  children.finished = false ∧ (∀ after, children.after = some after → after < pid) ∧
    ∃ upperBound, children.upperBound = some upperBound ∧ pid ≤ upperBound

/-- The process is still to be scanned. -/
def ExitScan.Ahead (scan : ExitScan) (c : Nat) (a : Row) : Prop :=
  scan.finished = false ∧ (scan.deferredChild = some c ∨ scan.children.Ahead a.pid)

namespace Domain

variable {Z : Type} {d d' : Domain Z} {events : List ProcessEvent}

variable {c next : Nat} {a : Row} {children : ProcessesThroughCurrentMax} {scan scan' : ExitScan}

theorem of_mem_entries (h : c ∈ d.entries) : ∃ a, d.tree.rows[c]? = some a ∧ a.linked = true := by
  have hlink := (mem_filter.mp h).2
  cases hp : d.processes[c]? with
  | none =>
    rw [hp] at hlink
    cases hlink
  | some process =>
    rw [hp] at hlink
    exact ⟨process.row, getElem?_tree hp, hlink⟩

theorem nextChild_going (h : d.nextChild scan = (.process next, scan'))
    (hgoing : scan.finished = false) : scan'.finished = false := by
  unfold nextChild at h
  split at h
  · cases h
    exact hgoing
  · obtain ⟨-, rfl⟩ := Prod.mk.inj h
    exact hgoing

section Registered

variable (ha : d.tree.rows[c]? = some a)
include ha

theorem pidOf_eq : d.pidOf c = a.pid := by
  obtain ⟨process, hp, rfl⟩ := of_getElem?_tree ha
  unfold pidOf
  rw [hp]
  rfl

variable (hlink : a.linked = true)
include hlink

theorem mem_entries : c ∈ d.entries := by
  obtain ⟨process, hp, rfl⟩ := of_getElem?_tree ha
  refine List.mem_filter.mpr ⟨List.mem_range.mpr (Lib.lt_of_getElem? hp), ?_⟩
  rw [hp]
  exact hlink

/-- At its start everything registered is ahead of the cursor. -/
theorem ahead_start : d.processesThroughCurrentMax.Ahead a.pid := by
  have hmem := mem_entries ha hlink
  unfold processesThroughCurrentMax
  cases hmax : d.entries.argmax d.pidOf with
  | none =>
    rw [argmax_eq_none.mp hmax] at hmem
    cases hmem
  | some m =>
    refine ⟨rfl, ?_, d.pidOf m, rfl, ?_⟩
    · intro after hafter
      cases hafter
    · rw [← pidOf_eq ha]
      exact le_of_mem_argmax hmem hmax

/-- With a process ahead the cursor gives a registered one, and none after it. -/
theorem nextRaw_ahead (hahead : children.Ahead a.pid) : ∃ next ∈ d.entries, d.pidOf next ≤ a.pid ∧
    d.nextRaw children = (.process next, { children with after := some (d.pidOf next) }) := by
  obtain ⟨hgoing, hbehind, upperBound, hupper, hle⟩ := hahead
  have hmem : c ∈ d.entries.filter fun i =>
      children.after.all fun pid => decide (pid < d.pidOf i) := by
    refine mem_filter.mpr ⟨mem_entries ha hlink, ?_⟩
    rw [pidOf_eq ha]
    cases hafter : children.after with
    | none => rfl
    | some after => exact decide_eq_true (hbehind after hafter)
  unfold nextRaw
  rw [hupper]
  dsimp only
  rw [if_neg (by rw [hgoing]; exact Bool.false_ne_true)]
  split
  · next hnone =>
    rw [argmin_eq_none.mp hnone] at hmem
    cases hmem
  · next next hnext =>
    have hmin : d.pidOf next ≤ a.pid := (le_of_mem_argmin hmem hnext).trans_eq (pidOf_eq ha)
    rw [if_neg (Nat.not_lt.mpr (hmin.trans hle))]
    exact ⟨next, mem_of_mem_filter (argmin_mem hnext), hmin, rfl⟩

/-- A cursor that has finished has nothing ahead. -/
theorem nextRaw_finished (h : d.nextRaw children = (.finished retired, children')) :
    ¬ children.Ahead a.pid := by
  intro hahead
  obtain ⟨next, -, -, hnext⟩ := nextRaw_ahead ha hlink hahead
  cases hnext.symm.trans h

/-- A step of the cursor leaves everything but the process it gives ahead. -/
theorem nextRaw_process (hwf : d.tree.WF) (h : d.nextRaw children = (.process next, children'))
    (hahead : children.Ahead a.pid) : c = next ∨ children'.Ahead a.pid := by
  obtain ⟨n, hmem, hmin, hnext⟩ := nextRaw_ahead ha hlink hahead
  cases hnext.symm.trans h
  obtain ⟨b, hb, hblinked⟩ := of_mem_entries hmem
  rw [pidOf_eq hb] at hmin
  rcases Nat.lt_or_eq_of_le hmin with hlt | heq
  · refine .inr ⟨hahead.1, ?_, hahead.2.2⟩
    intro after hafter
    rw [← some.inj hafter, pidOf_eq hb]
    exact hlt
  · exact .inl (hwf.pids c next a b ha hb hlink hblinked heq.symm)

/-- The deferred child goes first, and only once. -/
theorem nextChild_process (hwf : d.tree.WF) (h : d.nextChild scan = (.process next, scan'))
    (hahead : scan.Ahead c a) :
    c = next ∨ (scan'.finished = false ∧ scan'.children.Ahead a.pid) := by
  obtain ⟨hgoing, hcase⟩ := hahead
  unfold nextChild at h
  cases hdeferred : scan.deferredChild with
  | some child =>
    rw [hdeferred] at h hcase
    cases h
    rcases hcase with heq | hcursor
    · exact .inl (some.inj heq).symm
    · exact .inr ⟨hgoing, hcursor⟩
  | none =>
    rw [hdeferred] at h hcase
    obtain ⟨hstep, rfl⟩ := Prod.mk.inj h
    rcases hcase with heq | hcursor
    · cases heq
    rcases nextRaw_process ha hlink hwf (Prod.ext hstep rfl) hcursor with heq | hcursor'
    · exact .inl heq
    · exact .inr ⟨hgoing, hcursor'⟩

theorem nextChild_finished (h : d.nextChild scan = (.finished retired, scan')) :
    ¬ scan.Ahead c a := by
  intro hahead
  have hcase := hahead.2
  unfold nextChild at h
  cases hdeferred : scan.deferredChild with
  | some child =>
    rw [hdeferred] at h
    cases h
  | none =>
    rw [hdeferred] at h hcase
    obtain ⟨hstep, -⟩ := Prod.mk.inj h
    rcases hcase with heq | hcursor
    · cases heq
    · exact nextRaw_finished ha hlink (Prod.ext hstep rfl) hcursor

end Registered

end Domain

/-! ## Children -/

/-- A published registered child. -/
structure Tree.IsChild (t : Tree) (p c : Nat) (a : Row) : Prop where
  row : t.rows[c]? = some a
  published : a.published = true
  linked : a.linked = true
  parent : a.parent = some p

namespace Domain

variable {Z : Type} {d d' : Domain Z} {events : List ProcessEvent}

/-- Whether an exit commit of the process is going on. -/
def exiting (d : Domain Z) (p : Nat) : Bool := d.hands.any fun hand => hand.exit.any (·.1 == p)

variable {p c k : Nat} {np : Option Nat} {stage : ExitStage} {b : Row}

theorem exiting_of_exitAt (hexit : d.exitAt h = some (p, np, stage)) : d.exiting p = true := by
  obtain ⟨hand, hh, hexit⟩ := bind_eq_some_iff.mp hexit
  refine any_eq_true.mpr ⟨hand, mem_of_getElem? hh, ?_⟩
  rw [hexit]
  exact beq_self_eq_true p

/-- The processes a call publishes. -/
def publishes (d : Domain Z) (call : ProcessCall Z) : List Nat :=
  (List.range d.processes.length).filter fun q =>
    d.processes[q]?.any (!·.published) && (d.call call).2.processes[q]?.any (·.published)

/-- The documented rule of `prepare_fork` and `exit`: no child of a process is published
while the process exits. -/
def Orderly (d : Domain Z) (call : ProcessCall Z) : Prop :=
  ∀ q ∈ d.publishes call, ∀ p ∈ d.parentOf q, d.exiting p = false

instance (d : Domain Z) (call : ProcessCall Z) : Decidable (d.Orderly call) :=
  inferInstanceAs (Decidable (∀ q ∈ d.publishes call, ∀ p ∈ d.parentOf q, d.exiting p = false))

/-- The same of a move. -/
def OrderlyMove (d d' : Domain Z) : Prop :=
  ∀ (q p : Nat) (a b : Row), d.tree.rows[q]? = some a → d'.tree.rows[q]? = some b →
    a.published = false → b.published = true → a.parent = some p → d.exiting p = false

theorem mem_publishes {call : ProcessCall Z} (ha : d.tree.rows[q]? = some a)
    (hb : (d.call call).2.tree.rows[q]? = some b) (hbef : a.published = false)
    (hafter : b.published = true) : q ∈ d.publishes call := by
  obtain ⟨process, hp, rfl⟩ := of_getElem?_tree ha
  obtain ⟨process', hp', rfl⟩ := of_getElem?_tree hb
  refine List.mem_filter.mpr ⟨List.mem_range.mpr (Lib.lt_of_getElem? hp), ?_⟩
  have hbef' : process.published = false := hbef
  have hafter' : process'.published = true := hafter
  rw [hp, hp', any_some, any_some, hbef', hafter']
  rfl

theorem Orderly.move {call : ProcessCall Z} (h : d.Orderly call) : OrderlyMove d (d.call call).2 := by
  intro q p a b ha hb hbef hafter hpar
  refine h q (mem_publishes ha hb hbef hafter) p ?_
  obtain ⟨process, hp, rfl⟩ := of_getElem?_tree ha
  rw [parentOf_eq hp]
  exact hpar

/-! ## Children after a move -/

/-- A child of a process after a move was one before it, or has just been published, or
has just been given to it. -/
theorem Move.child_origin (h : Move d events d') (hc : d'.tree.IsChild p c b) :
    (∃ a, d.tree.IsChild p c a ∧ b.pid = a.pid ∧
      ∀ k q r z, ProcessEvent.moved k q c r z ∉ events) ∨
    (∃ a, d.tree.rows[c]? = some a ∧ a.published = false ∧ a.parent = some p) ∨
    FitReaper d.tree c p := by
  rcases h.row_origin hc.row with ⟨a, ha, hab⟩ | ⟨-, hpub, -⟩
  · rcases hab.parent with ⟨hpar, hmoved⟩ | ⟨k, q, r, -, -, -, hpar, hfit⟩
    · have hpar' : a.parent = some p := hpar.symm.trans hc.parent
      cases hpub : a.published with
      | false => exact .inr (.inl ⟨a, ha, hpub, hpar'⟩)
      | true => exact .inl ⟨a, ⟨ha, hpub, hab.linked hc.linked, hpar'⟩, hab.later.pid, hmoved⟩
    · rw [hc.parent] at hpar
      obtain rfl := some.inj hpar
      exact .inr (.inr hfit)
  · rw [hc.published] at hpub
    cases hpub

/-- An exiting process gets no children in an orderly run. -/
theorem Move.child_of_exiting (hwf : d.WF) (h : Move d events d') (hrule : OrderlyMove d d')
    (hexit : d.exitAt k = some (p, np, stage))
    (hc : d'.tree.IsChild p c b) : ∃ a, d.tree.IsChild p c a ∧ b.pid = a.pid ∧
      ∀ k q r z, ProcessEvent.moved k q c r z ∉ events := by
  rcases h.child_origin hc with hold | ⟨a, ha, hpub, hpar⟩ | hfit
  · exact hold
  · have hfree := hrule c p a b ha hc.row hpub hc.published hpar
    rw [exiting_of_exitAt hexit] at hfree
    cases hfree
  · -- a reaper is not a zombie
    obtain ⟨a, ha, hzombie, -⟩ := hwf.exits k p np stage hexit
    obtain ⟨b', hb', -, hlive, -⟩ := hfit.row
    obtain rfl := some.inj (ha.symm.trans hb')
    rw [hzombie] at hlive
    cases hlive

/-! ## What is ahead of a scan -/

/-- Every child of an exiting process is still to be scanned. -/
def Scans (d : Domain Z) : Prop :=
  ∀ h p notificationParent stage scan, d.exitAt h = some (p, notificationParent, stage) →
    stage.scan = some scan → ∀ c a, d.tree.IsChild p c a → scan.Ahead c a

theorem ahead_of_pid {scan : ExitScan} (h : scan.Ahead c a)
    (hpid : b.pid = a.pid) : scan.Ahead c b := by
  unfold ExitScan.Ahead
  rw [hpid]
  exact h

section Stage

variable {h p : Nat} {np : Option Nat} {stage : ExitStage}
  {topology : Option Nat} {c : Nat} {a : Row}

/-- A step of the commit passes by no child of its process. -/
theorem StageStep.ahead (hwf : d.tree.WF)
    (hs : StageStep d h p np stage events (some stage') topology)
    (hahead : ∀ scan, stage.scan = some scan → scan.Ahead c a) (hc : d.tree.IsChild p c a)
    (hscan' : stage'.scan = some scan') : scan'.Ahead c a := by
  -- the stage after the step belongs to the scan variables after it
  have hafter : ∀ {scan : ExitScan} {current : ReparentSection},
      Unlocked h p np scan current events (some stage') →
      scan.Ahead c a → scan'.Ahead c a := by
    intro scan current hover hscan
    rcases hover.spec with ⟨-, stage, hstage, hscan''⟩ | ⟨-, -, -, hnone⟩
    · cases hstage
      obtain rfl := some.inj (hscan'.symm.trans hscan'')
      exact hscan
    · cases hnone
  cases hs with
  | release => cases hscan'
  | start =>
    cases hscan'
    exact ⟨rfl, .inr (ahead_start hc.row hc.linked)⟩
  | lock | batch | inherit =>
    cases hscan'
    exact hahead _ rfl
  | finish hnext hover => exact absurd (hahead _ rfl) (nextChild_finished hc.row hc.linked hnext)
  | skip hnext hrow hother hscanned =>
    rcases nextChild_process hc.row hc.linked hwf hnext (hahead _ rfl) with rfl | ⟨hgoing, hcursor⟩
    · obtain rfl := some.inj (hrow.symm.trans hc.row)
      exact absurd ⟨hc.published, hc.parent⟩ hother
    rcases hscanned.spec with ⟨-, stage, hstage, hscan''⟩ | ⟨-, -, -, hnone⟩
    · cases hstage
      obtain rfl := some.inj (hscan'.symm.trans hscan'')
      exact ⟨hgoing, .inr hcursor⟩
    · cases hnone
  | defer hnext hrow hover =>
    have hgoing := nextChild_going hnext (hahead _ rfl).1
    refine hafter hover ?_
    rcases nextChild_process hc.row hc.linked hwf hnext (hahead _ rfl) with rfl | ⟨-, hcursor⟩
    · exact ⟨hgoing, .inl rfl⟩
    · exact ⟨hgoing, .inr hcursor⟩
  | round scan handed hround =>
    rcases hround.spec with ⟨-, -, hstage⟩ | ⟨-, -, hnone⟩
    · cases hstage
      cases hscan'
      exact hahead _ rfl
    · cases hnone

/-- A commit returns only when nothing was ahead. -/
theorem StageStep.none_ahead (hs : StageStep d h p np stage events none topology)
    (hahead : ∀ scan, stage.scan = some scan → scan.Ahead c a) (hc : d.tree.IsChild p c a) :
    False := by
  have hfin : ∀ {scan : ExitScan} {current : ReparentSection} {topology : Option Nat},
      Scanned h p np scan current events none topology → scan.finished = true := by
    intro scan current topology hscan
    rcases hscan.spec with ⟨-, stage, hstage, -⟩ | ⟨hfin, -⟩
    · cases hstage
    · exact hfin
  cases hs with
  | finish hnext _ => exact nextChild_finished hc.row hc.linked hnext (hahead _ rfl)
  | skip hnext _ _ hscan =>
    have hgoing := nextChild_going hnext (hahead _ rfl).1
    rw [hfin hscan] at hgoing
    cases hgoing
  | defer hnext _ hover =>
    have hgoing := nextChild_going hnext (hahead _ rfl).1
    have hover' := hfin (.ended hover)
    rw [hgoing] at hover'
    cases hover'
  | round scan handed hround =>
    rcases hround.spec with ⟨-, -, hstage⟩ | ⟨hdone, -, -⟩
    · cases hstage
    have hgoing := (hahead scan rfl).1
    rw [hdone] at hgoing
    cases hgoing

end Stage

/-- The children of an exiting process after a move that leaves its position alone. -/
theorem Scans.same (hscans : d.Scans) (hwf : d.WF) (h : Move d events d') (hrule : OrderlyMove d d')
    (hexit : d.exitAt k = some (p, np, stage)) {scan : ExitScan}
    (hscan : stage.scan = some scan) (hc : d'.tree.IsChild p c b) : scan.Ahead c b := by
  obtain ⟨a, ha, hpid, -⟩ := h.child_of_exiting hwf hrule hexit hc
  exact ahead_of_pid (hscans k p np stage scan hexit hscan c a ha) hpid

/-- One orderly move. -/
theorem Move.scans (hwf : d.WF) (hscans : d.Scans) (h : Move d events d')
    (hrule : OrderlyMove d d') : d'.Scans := by
  intro k p np stage scan hexit hscan c b hc
  cases h.exit_move k with
  | same exit => exact hscans.same hwf h hrule (exit.symm.trans hexit) hscan hc
  | begins q departing _ _ _ _ exit =>
    rw [exit] at hexit
    cases hexit
    cases hscan
  | stage q np' old step tree exit =>
    rw [exit] at hexit
    obtain ⟨stage', hstage', hstage⟩ := map_eq_some_iff.mp hexit
    cases hstage
    rw [hstage'] at step
    rw [tree] at hc
    refine step.ahead hwf.tree ?_ hc hscan
    intro scan₀ hscan₀
    exact hscans k p np _ scan₀ old hscan₀ c b hc
  | moved q np' old next _ step exit =>
    rw [exit] at hexit
    obtain ⟨stage', hstage', hstage⟩ := map_eq_some_iff.mp hexit
    cases hstage
    obtain ⟨a, ha, hpid, hother⟩ := h.child_of_exiting hwf hrule old hc
    have hahead := hscans k p np _ _ old rfl c a ha
    refine ahead_of_pid ?_ hpid
    rcases nextChild_process ha.row ha.linked hwf.tree next hahead with rfl | ⟨hgoing, hcursor⟩
    · exact absurd mem_cons_self (hother _ _ _ _)
    rcases step.spec with ⟨-, stage₁, hstage₁, hscan₁⟩ | ⟨-, hemp, -⟩
    · rw [hstage'] at hstage₁
      cases hstage₁
      obtain rfl := some.inj (hscan.symm.trans hscan₁)
      exact ⟨hgoing, .inr hcursor⟩
    · exact absurd hemp (concat_ne_nil _ _)

/-- An exit ends with no child left. -/
theorem Move.closed (hscans : d.Scans) (h : Move d events d')
    (hold : d.exitAt k = some (p, np, stage)) (hnew : d'.exitAt k = none)
    : ¬ d'.tree.IsChild p c b := by
  intro hc
  cases h.exit_move k with
  | same exit =>
    rw [exit, hold] at hnew
    cases hnew
  | begins q departing _ _ _ _ exit =>
    rw [exit] at hnew
    cases hnew
  | stage q np' old step tree exit =>
    rw [hold] at old
    cases old
    rw [map_eq_none_iff.mp (exit.symm.trans hnew)] at step
    rw [tree] at hc
    refine step.none_ahead ?_ hc
    intro scan hscan
    exact hscans k p np stage scan hold hscan c b hc
  | moved q np' old next _ step exit =>
    rw [map_eq_none_iff.mp (exit.symm.trans hnew)] at step
    rcases step.spec with ⟨-, stage₁, hstage₁, -⟩ | ⟨-, hemp, -⟩
    · cases hstage₁
    · exact absurd hemp (concat_ne_nil _ _)

end Domain

end LinuxAbi.Proc
