import LinuxAbi.Proc.Reports

/-!
# Zombies are announced to the parent they end up with

A zombie is announced twice over: to the parent it has when it becomes one, and, each
time an exit commit moves it, to the reaper it is given. The two can race, since the
commit of a child and the commits of its successive parents are cut into sections; what
makes it work is that both read and write the parent pointer under the topology lock.
So the history of a zombie, in the order of the sections, always ends with its current
parent.

This needs that a parent pointer can be followed when it is read. A process that was
reaped can still be somebody's parent, but only while its own exit commit is going on,
and the commit holds it.
-/

namespace LinuxAbi.Proc

open List
open Lib (run Respects)

/-! ## Parents are alive -/

namespace Domain

variable {Z : Type} {d d' : Domain Z} {events : List ProcessEvent}

/-- The documented rule of `prepare_fork`, that an admission and its commit are
serialized against the exit of the parent. Preparation refuses a zombie parent, so it
comes to this: a child is published only while its parent is not a zombie. -/
def Serialized (d : Domain Z) (call : ProcessCall Z) : Prop :=
  ∀ q ∈ d.publishes call, ∀ p ∈ d.parentOf q, d.processes[p]?.any (·.isZombie) = false

instance (d : Domain Z) (call : ProcessCall Z) : Decidable (d.Serialized call) :=
  inferInstanceAs (Decidable (∀ q ∈ d.publishes call, ∀ p ∈ d.parentOf q,
    d.processes[p]?.any (·.isZombie) = false))

/-- The same of a move. -/
def SerializedMove (d d' : Domain Z) : Prop :=
  ∀ (q p : Nat) (a b g : Row), d.tree.rows[q]? = some a → d'.tree.rows[q]? = some b →
    a.published = false → b.published = true → a.parent = some p →
    d.tree.rows[p]? = some g → g.zombie = false

theorem Serialized.move {call : ProcessCall Z} (h : d.Serialized call) :
    SerializedMove d (d.call call).2 := by
  intro q p a b g ha hb hbef hafter hpar hg
  obtain ⟨process, hp, rfl⟩ := of_getElem?_tree ha
  obtain ⟨parent, hparentRow, rfl⟩ := of_getElem?_tree hg
  have hlive := h q (mem_publishes ha hb hbef hafter) p (by rw [parentOf_eq hp]; exact hpar)
  rw [hparentRow] at hlive
  exact hlive

variable {p : Nat} {a : Row}

theorem exists_exitAt_of_exiting (h : d.exiting p = true) :
    ∃ k np stage, d.exitAt k = some (p, np, stage) := by
  obtain ⟨hand, hmem, hexit⟩ := any_eq_true.mp h
  obtain ⟨k, hk⟩ := getElem?_of_mem hmem
  cases heq : hand.exit with
  | none =>
    rw [heq] at hexit
    cases hexit
  | some exit =>
    rw [heq, Option.any_some, beq_iff_eq] at hexit
    refine ⟨k, exit.2.1, exit.2.2, ?_⟩
    rw [exitAt_of_hand hk, heq, ← hexit]

/-- Serialized publication is orderly: an exiting process is a zombie. -/
theorem SerializedMove.orderly (hwf : d.WF) (h : SerializedMove d d') : OrderlyMove d d' := by
  intro q p a b ha hb hbef hafter hpar
  by_contra hexiting
  obtain ⟨k, np, stage, hexit⟩ := exists_exitAt_of_exiting (Bool.eq_true_of_not_eq_false hexiting)
  obtain ⟨g, hg, hzombie, -⟩ := hwf.exits k p np stage hexit
  rw [h q p a b g ha hb hbef hafter hpar hg] at hzombie
  cases hzombie

/-- An exit commit goes on or ends. -/
theorem Move.exit_next (h : Move d events d') {k : Nat} {np : Option Nat}
    {stage : ExitStage} (hold : d.exitAt k = some (p, np, stage)) :
    d'.exitAt k = none ∨ ∃ stage', d'.exitAt k = some (p, np, stage') := by
  cases h.exit_move k with
  | same exit => exact .inr ⟨stage, exit.trans hold⟩
  | begins q departing old =>
    rw [hold] at old
    cases old
  | @stage _ _ q np' _ stage' old _ _ exit | @moved _ _ _ q np' _ _ _ _ stage' old _ _ _ exit =>
    rw [hold] at old
    cases old
    cases stage' with
    | none => exact .inl exit
    | some stage' => exact .inr ⟨stage', exit⟩

/-- A zombie transition is one of a published process, and opens an exit. -/
theorem Move.zombie_spec (hwf : d.WF) (h : Move d events d')
    (he : ProcessEvent.zombie p np ∈ events) :
    (∃ a, d.tree.rows[p]? = some a ∧ a.published = true) ∧
      ∃ k stage, d'.exitAt k = some (p, np, stage) := by
  cases h with
  | quiet _ _ _ dull => cases dull _ he
  | zombie k q departing dull _ _ _ exits claims =>
    rcases Lib.mem_concat_cases he with hl | ⟨⟨⟩⟩
    · cases dull _ hl
    obtain ⟨a, ha, hpub, -⟩ := hwf.given claims
    exact ⟨⟨a, ha, hpub⟩, k, _, by rw [exits, if_pos rfl]⟩
  | stage k q np' old step => cases step.hand_eq he
  | moved => cases mem_singleton.mp he

/-- A zombie without an exit commit has no children. -/
def Settled (d : Domain Z) : Prop :=
  ∀ g b, d.tree.rows[g]? = some b → b.zombie = true →
    d.exiting g = true ∨ ∀ c a, ¬ d.tree.IsChild g c a

theorem Settled.move (hs : d.Settled) (hwf : d.WF) (hscans : d.Scans) (h : Move d events d')
    (hrule : SerializedMove d d') : d'.Settled := by
  intro g b hb hzombie
  rcases h.row_origin hb with ⟨a, ha, hab⟩ | ⟨-, -, hlive⟩
  · rcases hab.zombie hzombie with hold | ⟨np, he⟩
    · rcases hs g a ha hold with hexiting | hnone
      · -- the commit goes on, or ends after the last child is gone
        obtain ⟨k, np, stage, hexit⟩ := exists_exitAt_of_exiting hexiting
        rcases h.exit_next hexit with hclosed | ⟨stage', hnext⟩
        · exact .inr fun c a => h.closed hscans hexit hclosed
        · exact .inl (exiting_of_exitAt hnext)
      · refine .inr ?_
        intro c b' hc
        rcases h.child_origin hc with ⟨a', ha', -⟩ | ⟨a', ha', hpub, hpar⟩ | hfit
        · exact hnone c a' ha'
        · rw [hrule c g a' b' a ha' hc.row hpub hc.published hpar ha] at hold
          cases hold
        · exact hfit.ne_zombie ha hold rfl
    · obtain ⟨-, k, stage, hexit⟩ := h.zombie_spec hwf he
      exact .inl (exiting_of_exitAt hexit)
  · rw [hzombie] at hlive
    cases hlive

/-- Only published processes become zombies. -/
def ZombiesPublished (d : Domain Z) : Prop :=
  ∀ (z : Nat) (a : Row), d.tree.rows[z]? = some a → a.zombie = true → a.published = true

theorem ZombiesPublished.move (hz : d.ZombiesPublished) (hwf : d.WF) (h : Move d events d') :
    d'.ZombiesPublished := by
  intro z b hb hzombie
  rcases h.row_origin hb with ⟨a, ha, hab⟩ | ⟨-, -, hlive⟩
  · refine hab.later.published ?_
    rcases hab.zombie hzombie with hold | ⟨np, he⟩
    · exact hz z a ha hold
    obtain ⟨⟨a', ha', hpub⟩, -⟩ := h.zombie_spec hwf he
    obtain rfl := Option.some.inj (ha.symm.trans ha')
    exact hpub
  · rw [hzombie] at hlive
    cases hlive

theorem alive_of_linked (ha : d.tree.rows[p]? = some a)
    (hlink : a.linked = true) : d.alive p = true := by
  obtain ⟨process, hp, rfl⟩ := of_getElem?_tree ha
  have hlink' : process.linked = true := hlink
  unfold alive
  rw [hp, Option.any_some, hlink']
  rfl

/-- An exit commit holds its process. -/
theorem alive_of_exiting (h : d.exiting p = true) : d.alive p = true := by
  obtain ⟨hand, hmem, hexit⟩ := any_eq_true.mp h
  have hholds : hand.holds.contains p = true := by
    cases hand with
    | exiting q np stage =>
      have heq : q = p := beq_iff_eq.mp hexit
      rw [heq]
      exact contains_iff_mem.mpr mem_cons_self
    | _ => cases hexit
  unfold alive
  rw [any_eq_true.mpr ⟨hand, hmem, hholds⟩, Bool.or_true]

/-- The parent of a published registered process is registered, or its exit is going
on. -/
theorem Settled.parent (hs : d.Settled) (hwf : d.WF) (hc : d.tree.IsChild p c a) :
    (∃ b, d.tree.rows[p]? = some b ∧ b.linked = true) ∨ d.exiting p = true := by
  obtain ⟨b, hb, hstays, -⟩ := hwf.tree.parents c a p hc.row hc.parent
  rcases hstays with hlink | hzombie
  · exact .inl ⟨b, hb, hlink⟩
  rcases hs p b hb hzombie with hexiting | hnone
  · exact .inr hexiting
  · exact absurd hc (hnone c a)

/-- The parent pointer of a published registered process can be followed. -/
theorem Settled.upgrade (hs : d.Settled) (hwf : d.WF) {c : Nat} (ha : d.tree.rows[c]? = some a)
    (hpub : a.published = true) (hlink : a.linked = true) : d.upgrade a.parent = a.parent := by
  cases hpar : a.parent with
  | none => rfl
  | some p =>
    have halive : d.alive p = true := by
      rcases hs.parent hwf ⟨ha, hpub, hlink, hpar⟩ with ⟨b, hb, hbl⟩ | hexiting
      · exact alive_of_linked hb hbl
      · exact alive_of_exiting hexiting
    unfold Domain.upgrade
    rw [Option.filter_some, if_pos halive]

end Domain

/-! ## Announcements -/

/-- A parent is chosen for a zombie: by its own zombie transition, or by the exit commit
of `mover` at a hand. -/
structure Announcement where
  mover : Option (Nat × Nat)
  parent : Option Nat
deriving DecidableEq

/-- The announcement of a zombie in one event. -/
def ProcessEvent.announces (z : Nat) : ProcessEvent → Option Announcement
  | .zombie p notificationParent =>
    if p = z then some { mover := none, parent := notificationParent } else none
  | .moved h p child reaper true =>
    if child = z then some { mover := some (h, p), parent := some reaper } else none
  | _ => none

/-- The announcements of a zombie, in the order of the sections that made them. -/
def announcements (z : Nat) (past : List ProcessEvent) : List Announcement :=
  past.filterMap (·.announces z)

theorem announcements_append (z : Nat) (past past' : List ProcessEvent) :
    announcements z (past ++ past') = announcements z past ++ announcements z past' :=
  filterMap_append

theorem announcements_eq_nil (hzombie : ∀ np, ProcessEvent.zombie z np ∉ events)
    (hmoved : ∀ k p r, ProcessEvent.moved k p z r true ∉ events) : announcements z events = [] := by
  refine filterMap_eq_nil_iff.mpr ?_
  intro e he
  cases e with
  | zombie p np =>
    refine if_neg ?_
    rintro rfl
    exact hzombie np he
  | moved k p c r wasZombie =>
    cases wasZombie with
    | false => rfl
    | true =>
      refine if_neg ?_
      rintro rfl
      exact hmoved k p r he
  | _ => rfl

/-- The calls of `inherited_zombie` by a commit. -/
def inheritedBy (h : Nat) (past : List ProcessEvent) : List (Nat × Nat) :=
  past.filterMap fun
    | .inherited h' p child => if h' = h then some (p, child) else none
    | _ => none

/-- The zombies among reported children. -/
def zombiesOf (reported : List Handoff) : List (Nat × Nat) :=
  (reported.filter (·.wasZombie)).map fun moved => (moved.p, moved.child)

/-- The calls of `inherited_zombie` that the commit at a hand still has to make. -/
def Domain.uncalled {Z : Type} (d : Domain Z) (h : Nat) : List (Nat × Nat) :=
  match d.exitAt h with
  | some (p, _, .inherited _ _ zombies) => zombies.map (p, ·)
  | _ => []

theorem inheritedBy_append (h : Nat) (past past' : List ProcessEvent) :
    inheritedBy h (past ++ past') = inheritedBy h past ++ inheritedBy h past' :=
  filterMap_append

theorem zombiesOf_append (reported reported' : List Handoff) :
    zombiesOf (reported ++ reported') = zombiesOf reported ++ zombiesOf reported' := by
  unfold zombiesOf
  rw [filter_append, map_append]

theorem zombiesOf_handoffs (p : Nat) (handed : ProcessReparentBatch) :
    zombiesOf (handed.handoffs p)
      = ((handed.reparented.filter (·.wasZombie)).map (·.child)).map (p, ·) := by
  unfold zombiesOf ProcessReparentBatch.handoffs
  rw [filter_map, map_map, map_map]
  rfl

theorem Unheard.inheritedBy (h : Unheard k events) : inheritedBy k events = [] := by
  refine filterMap_eq_nil_iff.mpr ?_
  intro e he
  cases e with
  | inherited => exact if_neg fun heq => h _ he (congrArg some heq)
  | _ => rfl

namespace Domain

variable {Z : Type} {d d' : Domain Z} {events : List ProcessEvent}

variable {h p z : Nat} {past : List ProcessEvent}

theorem uncalled_congr (hexit : d'.exitAt h = d.exitAt h) : d'.uncalled h = d.uncalled h := by
  unfold uncalled
  rw [hexit]

/-- The zombies still to be called for at a stage. -/
def stageUncalled (p : Nat) : Option ExitStage → List (Nat × Nat)
  | some (.inherited _ _ zombies) => zombies.map (p, ·)
  | _ => []

theorem uncalled_of_map (stage : Option ExitStage)
    (hexit : d.exitAt h = stage.map (p, np, ·)) : d.uncalled h = stageUncalled p stage := by
  unfold uncalled
  rw [hexit]
  cases stage with
  | none => rfl
  | some stage => cases stage <;> rfl

section Stage

variable {h p : Nat} {np : Option Nat} {scan : ExitScan}
  {current : ReparentSection} {stage : ExitStage} {stage' : Option ExitStage}
  {topology : Option Nat}

/-- A section ends before its callbacks. -/
theorem Scanned.uncalled (hs : Scanned h p np scan current events stage' topology)
    (k : Nat) : inheritedBy k events = [] ∧ stageUncalled p stage' = [] := by
  cases hs with
  | goOn _ => exact ⟨rfl, rfl⟩
  | ended hover =>
    cases hover with
    | handed reaper _ _ => exact ⟨rfl, rfl⟩
    | round _ hround =>
      rcases hround.spec with ⟨-, rfl, rfl⟩ | ⟨-, rfl, rfl⟩
      · exact ⟨rfl, rfl⟩
      · exact ⟨rfl, rfl⟩

/-- Reported zombies are called for one after the other. -/
theorem StageStep.uncalled (hs : StageStep d h p np stage events stage' topology) :
    stageUncalled p (some stage) ++ zombiesOf (reports h events)
      = inheritedBy h events ++ stageUncalled p stage' := by
  cases hs with
  | release | start | lock => rfl
  | finish _ hover | defer _ _ hover =>
    obtain ⟨hcalls, hnone⟩ := (Scanned.ended hover).uncalled h
    obtain ⟨-, hrep, -⟩ := hover.owed h
    rw [hcalls, hnone, hrep]
    rfl
  | skip _ _ _ hs =>
    obtain ⟨hcalls, hnone⟩ := hs.uncalled h
    obtain ⟨-, hrep, -⟩ := hs.owed h
    rw [hcalls, hnone, hrep]
    rfl
  | batch scan handed =>
    have hrep : reports h [.batch h p handed] = handed.handoffs p := by
      simp [reports, ProcessEvent.reportedBy]
    rw [hrep, zombiesOf_handoffs]
    rfl
  | inherit scan handed child zombies =>
    have hcalls : inheritedBy h [.inherited h p child] = [(p, child)] := by
      simp [inheritedBy]
    rw [hcalls]
    exact append_nil _
  | round _ _ hround =>
    rcases hround.spec with ⟨-, rfl, rfl⟩ | ⟨-, rfl, rfl⟩
    · rfl
    · rfl

end Stage

/-- One move: what is reported is called for. -/
theorem Move.uncalled (h : Move d events d') (k : Nat) :
    d.uncalled k ++ zombiesOf (reports k events) = inheritedBy k events ++ d'.uncalled k := by
  cases h.exit_move k with
  | same exit unheard =>
    rw [unheard.reports, unheard.inheritedBy, uncalled_congr exit]
    exact append_nil _
  | begins p departing old _ _ _ exit unheard =>
    rw [unheard.reports, unheard.inheritedBy]
    unfold Domain.uncalled
    rw [exit, old]
    rfl
  | stage p np old step _ exit =>
    rw [uncalled_of_map _ exit, uncalled_of_map (some _) old]
    exact step.uncalled
  | moved p np old _ _ step exit =>
    rw [uncalled_of_map _ exit, uncalled_of_map (some _) old, (step.uncalled k).2]
    rfl

/-! ## The last announcement -/

/-- A registered zombie after a move: nothing was announced and it is as before, or its
parent was announced. -/
theorem Move.announces (hwf : d.WF) (hs : d.Settled) (h : Move d events d') {b : Row}
    (hb : d'.tree.rows[z]? = some b) (hlink : b.linked = true) (hzombie : b.zombie = true) :
    (announcements z events = [] ∧ ∃ a, d.tree.rows[z]? = some a ∧ a.linked = true ∧
      a.zombie = true ∧ b.parent = a.parent) ∨
    ∃ announcement, announcements z events = [announcement] ∧
      announcement.parent = b.parent := by
  have hnew : ¬ (d.tree.rows.length = z ∧ b.published = false ∧ b.zombie = false) := by
    rintro ⟨-, -, hlive⟩
    rw [hzombie] at hlive
    cases hlive
  obtain ⟨a, ha, hab⟩ := (h.row_origin hb).resolve_right hnew
  -- no announcement: the flag and the pointer are the old ones
  have hquiet : (∀ np', ProcessEvent.zombie z np' ∉ events) →
      (∀ k q r y, ProcessEvent.moved k q z r y ∉ events) →
      announcements z events = [] ∧ ∃ a, d.tree.rows[z]? = some a ∧ a.linked = true ∧
        a.zombie = true ∧ b.parent = a.parent := by
    intro hz hm
    refine ⟨announcements_eq_nil hz fun k p r => hm k p r true, a, ha, hab.linked hlink, ?_, ?_⟩
    · rcases hab.zombie hzombie with hold | ⟨np', he⟩
      · exact hold
      · exact absurd he (hz np')
    · rcases hab.parent with ⟨hsame, -⟩ | ⟨k, q, r, he, -⟩
      · exact hsame
      · exact absurd he (hm k q r _)
  have hdull : ∀ {events' : List ProcessEvent}, Dull events' →
      ∀ np', ProcessEvent.zombie z np' ∉ events' := by
    intro events' hd np' he
    cases hd _ he
  cases h with
  | quiet _ _ _ dull => exact .inl (hquiet (hdull dull) fun _ _ _ _ => dull.not_moved)
  | stage k q np' old step =>
    refine .inl (hquiet ?_ fun _ _ _ _ => step.not_moved)
    intro np' he
    cases step.hand_eq he
  | @zombie _ asserts k p departing dull old tree topology exits claims =>
    by_cases heq : p = z
    · subst heq
      refine .inr ⟨{ mover := none, parent := d.upgrade (d.parentOf p) }, ?_, ?_⟩
      · rw [announcements_append, announcements_eq_nil (hdull dull) fun _ _ _ => dull.not_moved]
        simp [announcements, ProcessEvent.announces]
      · -- the parent that is captured is the one the pointer names
        obtain ⟨a', ha', hpub, -⟩ := hwf.given claims
        obtain rfl := Option.some.inj (ha.symm.trans ha')
        have hpar : b.parent = a.parent := by
          rcases hab.parent with ⟨hsame, -⟩ | ⟨k', q, r, he, -⟩
          · exact hsame
          · exact absurd he dull.not_moved_zombie
        obtain ⟨process, hp, rfl⟩ := of_getElem?_tree ha
        rw [hpar, parentOf_eq hp]
        exact hs.upgrade hwf ha hpub (hab.linked hlink)
    · refine .inl (hquiet ?_ fun _ _ _ _ => dull.not_moved_zombie)
      intro np' he
      rcases Lib.mem_concat_cases he with hl | ⟨⟨⟩⟩
      · exact hdull dull np' hl
      · exact heq rfl
  | @moved _ k p np scan scan' current child reaper a₀ stage' old next row
      published parent due fit batch step tree =>
    by_cases heq : child = z
    · subst heq
      rw [tree] at hb
      obtain rfl := Option.some.inj ((Tree.getElem?_modify_self row).symm.trans hb)
      have hold : a₀.zombie = true := hzombie
      refine .inr ⟨{ mover := some (k, p), parent := some reaper }, ?_, rfl⟩
      simp [hold, announcements, ProcessEvent.announces]
    · refine .inl (hquiet ?_ ?_)
      · intro np' he
        cases mem_singleton.mp he
      · intro k' q r y he
        cases mem_singleton.mp he
        exact heq rfl

/-- What holds along a serialized run, with its history. -/
structure Announced (past : List ProcessEvent) (d : Domain Z) : Prop where
  orderly : Orderliness past d
  settled : d.Settled
  zombies : d.ZombiesPublished
  latest : ∀ z a, d.tree.rows[z]? = some a → a.linked = true → a.zombie = true →
    ∃ announcement, (announcements z past).getLast? = some announcement ∧
      announcement.parent = a.parent
  called : ∀ h, zombiesOf (reports h past) = inheritedBy h past ++ d.uncalled h

theorem Announced.move (ha : Announced past d) (h : Move d events d')
    (hrule : SerializedMove d d') : Announced (past ++ events) d' where
  orderly := ha.orderly.move h (hrule.orderly ha.orderly.wf)
  settled := ha.settled.move ha.orderly.wf ha.orderly.scans h hrule
  zombies := ha.zombies.move ha.orderly.wf h
  latest := by
    intro z b hb hlink hzombie
    rw [announcements_append]
    rcases h.announces ha.orderly.wf ha.settled hb hlink hzombie with
      ⟨hnil, a, hrow, hl, hz, hpar⟩ | ⟨announcement, hone, hpar⟩
    · rw [hnil, append_nil, hpar]
      exact ha.latest z a hrow hl hz
    · rw [hone, getLast?_concat]
      exact ⟨announcement, rfl, hpar⟩
  called := by
    intro k
    calc zombiesOf (reports k (past ++ events))
        = inheritedBy k past ++ (d.uncalled k ++ zombiesOf (reports k events)) := by
          rw [reports_append, zombiesOf_append, ha.called, append_assoc]
      _ = inheritedBy k past ++ (inheritedBy k events ++ d'.uncalled k) := by rw [h.uncalled]
      _ = inheritedBy k (past ++ events) ++ d'.uncalled k := by
          rw [inheritedBy_append, append_assoc]

theorem announced_new (Z : Type) (limit : Nat) : Announced [] (Domain.new Z limit) where
  orderly := orderliness_new Z limit
  settled := by
    intro g b hb
    cases hb
  zombies := by
    intro z a ha
    cases ha
  latest := by
    intro z a ha
    cases ha
  called := fun _ => rfl

theorem run_serialized (limit : Nat) (calls : List (ProcessCall Z))
    (hrule : Respects Domain.call Domain.Serialized (Domain.new Z limit) calls) :
    Announced (Lib.events Domain.call processEvents (Domain.new Z limit) calls)
      (run Domain.call (Domain.new Z limit) calls) := by
  refine Lib.run_respects (I := Announced) ?_ (announced_new Z limit) calls hrule
  intro past d call ha hcall
  exact ha.move (call_move ha.orderly.wf call) hcall.move

/-! ## No zombie is lost -/

/-- No exit commit owes a callback. -/
def NoCallbackPending (d : Domain Z) : Prop := ∀ h, d.owed h = [] ∧ d.uncalled h = []

theorem noCallbackPending_of_hands
    (h : ∀ k < d.hands.length, d.owed k = [] ∧ d.uncalled k = []) : d.NoCallbackPending := by
  intro k
  by_cases hlt : k < d.hands.length
  · exact h k hlt
  have hnone : d.exitAt k = none := by
    unfold exitAt
    rw [getElem?_eq_none (Nat.not_lt.mp hlt)]
    rfl
  unfold owed uncalled
  rw [hnone]
  exact ⟨rfl, rfl⟩

/-- A zombie that was moved has been reported to its new parent. -/
theorem Announced.reported (ha : Announced past d) (hquiet : d.NoCallbackPending)
    (he : ProcessEvent.moved h p z r true ∈ past) :
    (∃ handed, ProcessEvent.batch h p handed ∈ past ∧ handed.reaper = r ∧
      ({ child := z, wasZombie := true } : ReparentedProcess) ∈ handed.reparented) ∧
    ProcessEvent.inherited h p z ∈ past := by
  obtain ⟨howed, huncalled⟩ := hquiet h
  have hmem := mem_moves he
  rw [ha.orderly.reported, howed, append_nil] at hmem
  have hcalled : (p, z) ∈ inheritedBy h past := by
    have hzombie : (p, z) ∈ zombiesOf (reports h past) := by
      refine mem_map.mpr ⟨_, mem_filter.mpr ⟨hmem, rfl⟩, rfl⟩
    rw [ha.called, huncalled, append_nil] at hzombie
    exact hzombie
  constructor
  · obtain ⟨e, heIn, hreport⟩ := mem_flatMap.mp hmem
    cases e with
    | batch h' p' handed =>
      change _ ∈ (if h' = h then handed.handoffs p' else []) at hreport
      split at hreport
      · next heq =>
        obtain ⟨⟨child, wasZombie⟩, hmoved, heq'⟩ := mem_map.mp hreport
        cases heq'
        subst heq
        exact ⟨handed, heIn, rfl, hmoved⟩
      · cases hreport
    | _ => cases hreport
  · obtain ⟨e, heIn, hcall⟩ := mem_filterMap.mp hcalled
    cases e with
    | inherited h' p' child =>
      dsimp only at hcall
      split at hcall
      · next heq =>
        cases hcall
        subst heq
        exact heIn
      · cases hcall
    | _ => cases hcall

theorem mem_of_announcements (hmem : { mover := some (h, p), parent } ∈ announcements z past) :
    ∃ r, parent = some r ∧ ProcessEvent.moved h p z r true ∈ past := by
  obtain ⟨e, he, hann⟩ := mem_filterMap.mp hmem
  cases e with
  | moved k q c r wasZombie =>
    cases wasZombie with
    | false => cases hann
    | true =>
      change (if c = z then _ else _) = _ at hann
      split at hann
      · next heq =>
        cases hann
        subst heq
        exact ⟨r, rfl, he⟩
      · cases hann
  | zombie q np =>
    change (if q = z then _ else _) = _ at hann
    split at hann
    · cases hann
    · cases hann
  | _ => cases hann

/-- Over every serialized run, whenever no callback is pending: the current parent of a
registered zombie can be followed, and is the parent of its last announcement in the
order of the topology sections; if that was a move, the batch of the section reported
the zombie to exactly that reaper and `inherited_zombie` was called for it. -/
theorem run_announces (limit : Nat) (calls : List (ProcessCall Z))
    (hrule : Respects Domain.call Domain.Serialized (Domain.new Z limit) calls)
    (hquiet : (run Domain.call (Domain.new Z limit) calls).NoCallbackPending) (z : Nat) (a : Row)
    (hrow : (run Domain.call (Domain.new Z limit) calls).tree.rows[z]? = some a)
    (hlinked : a.linked = true) (hzombie : a.zombie = true) :
    let d := run Domain.call (Domain.new Z limit) calls
    let past := Lib.events Domain.call processEvents (Domain.new Z limit) calls
    ∃ announcement, (announcements z past).getLast? = some announcement ∧
      d.upgrade a.parent = announcement.parent ∧ a.parent = announcement.parent ∧
      ∀ h p, announcement.mover = some (h, p) → ∃ r, announcement.parent = some r ∧
        (∃ handed, ProcessEvent.batch h p handed ∈ past ∧ handed.reaper = r ∧
          ({ child := z, wasZombie := true } : ReparentedProcess) ∈ handed.reparented) ∧
        ProcessEvent.inherited h p z ∈ past := by
  intro d past
  have ha := run_serialized limit calls hrule
  have hwf := ha.orderly.wf
  obtain ⟨announcement, hlast, hparent⟩ := ha.latest z a hrow hlinked hzombie
  have hpub : a.published = true := ha.zombies z a hrow hzombie
  refine ⟨announcement, hlast, ?_, hparent.symm, ?_⟩
  · rw [hparent]
    exact ha.settled.upgrade hwf hrow hpub hlinked
  · intro h p hmover
    have hmem := mem_of_getLast? hlast
    obtain ⟨mover, parent⟩ := announcement
    subst hmover
    obtain ⟨r, hr, he⟩ := mem_of_announcements hmem
    exact ⟨r, hr, ha.reported hquiet he⟩

/-- The grandchild becomes a zombie before its parent exits. -/
def exitOfGrandchild : List (ProcessCall Unit) :=
  [.prepareExit 2, .reserveExit 3, .publishZombie 3 (), .releaseDeparting 3, .startScan 3,
   .lockSection 3, .scan 3, .scan 3, .scan 3, .scan 3]

/-- Then its parent exits, and the zombie goes to the init. -/
def exitOfItsParent : List (ProcessCall Unit) :=
  [.prepareExit 1, .reserveExit 4, .publishZombie 4 (), .releaseDeparting 4, .startScan 4,
   .lockSection 4, .scan 4, .scan 4, .scan 4, .reparentBatch 4, .inheritedZombie 4]

theorem run_announces_grandchild :
    let calls := threeGenerations ++ exitOfGrandchild ++ exitOfItsParent
    let past := Lib.events Domain.call processEvents (Domain.new Unit 8) calls
    (announcements 2 past).getLast? = some { mover := some (4, 1), parent := some 0 } ∧
      ProcessEvent.inherited 4 1 2 ∈ past := by
  have hquiet : (run Domain.call (Domain.new Unit 8)
      (threeGenerations ++ exitOfGrandchild ++ exitOfItsParent)).NoCallbackPending :=
    noCallbackPending_of_hands (by decide +kernel)
  obtain ⟨announcement, hlast, -, -, hreported⟩ := run_announces 8
    (threeGenerations ++ exitOfGrandchild ++ exitOfItsParent) (by decide +kernel) hquiet 2
    { pid := 3, scope := 0, init := false, linked := true, published := true, zombie := true,
      parent := some 0 } (by decide +kernel) rfl rfl
  have hlatest : (announcements 2 (Lib.events Domain.call processEvents
      (Domain.new Unit 8) (threeGenerations ++ exitOfGrandchild ++ exitOfItsParent))).getLast?
        = some { mover := some (4, 1), parent := some 0 } := by decide +kernel
  have heq : announcement = { mover := some (4, 1), parent := some 0 } :=
    Option.some.inj (hlast.symm.trans hlatest)
  obtain ⟨r, -, -, hcalled⟩ := hreported 4 1 (by rw [heq])
  exact ⟨hlatest, hcalled⟩

/-- The reapers of the batches that reported a zombie, in the order of the callbacks. -/
def zombieReports (z : Nat) (past : List ProcessEvent) : List Nat :=
  past.filterMap fun
    | .batch _ _ handed =>
      if handed.reparented.contains { child := z, wasZombie := true } then some handed.reaper
      else none
    | _ => none

/-- The callbacks of two commits may come in the other order than their sections. The
parent 2 of the zombie 3 exits and gives it to the subreaper 1, but is held up before
its callback; the subreaper exits, gives the zombie to the init 0 and reports that; then
the first commit reports the subreaper. -/
def overtakenReport : List (ProcessCall Unit) :=
  [.newInit 0 1 true, .admitInit 0 true, .bindInit 0,
   .prepareFork 0 0 2, .allocateFork 1 true, .admitFork 1, .commitProcess 1,
   .prepareFork 1 0 3, .allocateFork 2 true, .admitFork 2, .commitProcess 2,
   .prepareFork 2 0 4, .allocateFork 3 true, .admitFork 3, .commitProcess 3,
   .prepareThread 1 2, .reserveThread 4 true, .linkThread 4, .commitThread 4,
   .setChildSubreaper 1 true,
   .prepareExit 3, .reserveExit 5, .publishZombie 5 (), .releaseDeparting 5, .startScan 5,
   .lockSection 5, .scan 5, .scan 5, .scan 5, .scan 5, .scan 5,
   .prepareExit 2, .reserveExit 6, .publishZombie 6 (), .releaseDeparting 6, .startScan 6,
   .lockSection 6, .scan 6, .scan 6, .scan 6, .scan 6,
   .exitThread 1 2 0, .exitThreadLocked 7, .publishZombie 7 (), .releaseDeparting 7, .startScan 7,
   .lockSection 7, .scan 7, .scan 7, .scan 7, .reparentBatch 7, .inheritedZombie 7,
   .inheritedZombie 7, .lockSection 7, .scan 7, .reparentBatch 7, .inheritedZombie 7,
   .inheritedZombie 7, .lockSection 7, .scan 7,
   .reparentBatch 6, .inheritedZombie 6, .inheritedZombie 6, .lockSection 6, .scan 6]

theorem latest_report_is_overtaken :
    let d := run Domain.call (Domain.new Unit 8) overtakenReport
    let past := Lib.events Domain.call processEvents (Domain.new Unit 8) overtakenReport
    Respects Domain.call Domain.Serialized (Domain.new Unit 8) overtakenReport ∧
      d.NoCallbackPending ∧
      d.tree.rows[3]?.map (fun a => (a.linked, a.zombie, a.parent)) = some (true, true, some 0) ∧
      ProcessEvent.zombie 3 (some 2) ∈ past ∧ zombieReports 3 past = [0, 1] :=
  ⟨by decide +kernel, noCallbackPending_of_hands (by decide +kernel), by decide +kernel,
    by decide +kernel, by decide +kernel⟩

end Domain

end LinuxAbi.Proc
