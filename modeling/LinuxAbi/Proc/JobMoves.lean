import LinuxAbi.Proc.JobView
import LinuxAbi.Proc.ThreadMoves

/-!
# Every call is a step of groups and sessions

The groups and sessions of a domain as counters see them. Only the sections that create,
move between and leave groups change them; one lemma for each of these, and one for all
the others.
-/

namespace LinuxAbi.Proc

open List
open Lib (tally tally_cons forall_mem_singleton)

/-! ## The view -/

/-- The group of a process, as long as it is registered. -/
def Process.jobRow {Z : Type} (process : Process Z) : Option Nat :=
  if process.linked then some process.group else none

/-- What counters see of a group. -/
def ProcessGroup.jobRow (group : ProcessGroup) : GroupRow where
  pgid := group.pgid
  linked := group.linked
  memberships := group.memberships
  session := group.session

/-- What they see of a session. -/
def Session.jobRow (session : Session) : SessionRow where
  sid := session.sid
  linked := session.linked
  groups := session.groups

/-- What a release gives back to groups. -/
def Release.jobClaims : Release → Multiset JobClaim
  | .groupMember g => {.slot g}
  | .emptyGroup g => {.watch g}
  | .unlinkProcess _ | .detachThread .. | .threadMember => 0

/-- What a hand owes to groups. -/
def Hand.jobClaims : Hand → Multiset JobClaim
  | .releasing todo => tally Release.jobClaims todo
  | .initGroup _ _ g => {.watch g}
  | .jobChecked p _ | .jobPlanned p .. => {.seat p}
  | .jobAdmitted p _ g => {.watch g} + {.seat p}
  | .jobReserved p _ g | .moveReserved p g => {.slot g} + {.seat p}
  | .moveChecked p _ | .moveLive p _ | .moveCompared p _ => {.seat p}
  | _ => 0

/-- The process a call reaps. -/
def ProcessCall.reaps {Z : Type} : ProcessCall Z → Option Nat
  | .reap p => some p
  | _ => none

namespace Domain

variable {Z : Type} {d d' : Domain Z}

/-- The registry as counters see it. -/
def jobs (d : Domain Z) : JobView where
  tables := {
    limit := d.membershipLimit
    rows := d.processes.map Process.jobRow
    memberships := d.memberships
    groups := d.groups.map ProcessGroup.jobRow
    groupCount := d.groupCount
    sessions := d.sessions.map Session.jobRow
    sessionCount := d.sessionCount }
  claims := tally Hand.jobClaims d.hands

/-- The published processes. -/
def Seen (d : Domain Z) (p : Nat) : Prop :=
  ∃ process, d.processes[p]? = some process ∧ process.published = true

/-! ## Sections that leave groups alone -/

/-- Nothing that groups depend on is written. -/
structure JobsKept (d d' : Domain Z) : Prop where
  tables : d'.jobs.tables = d.jobs.tables
  hands : d'.hands = d.hands

theorem JobsKept.refl : JobsKept d d := ⟨rfl, rfl⟩

/-- A process that keeps its group. -/
theorem jobsKept_modifyProcess (d : Domain Z) (p : Nat)
    (hf : ∀ process, (f process).jobRow = process.jobRow) : JobsKept d (d.modifyProcess p f) :=
  ⟨congrArg (fun rows => { d.jobs.tables with rows }) (Lib.map_modify_of_eq hf d.processes p), rfl⟩

theorem JobsKept.jobs_eq (h : JobsKept d d') : d'.jobs = d.jobs :=
  congrArg₂ JobView.mk h.tables (congrArg (tally Hand.jobClaims) h.hands)

/-- A hand passes on what it owes. -/
theorem JobsKept.setHand (h : JobsKept d d') {k : Nat} {old new : Hand}
    (hold : d.hands[k]? = some old) (hcls : new.jobClaims = old.jobClaims) :
    (d'.setHand k new).jobs = d.jobs := by
  have hkept : tally Hand.jobClaims (d'.hands.set k new) = tally Hand.jobClaims d.hands := by
    rw [h.hands]
    exact Lib.tally_set_of_eq hold hcls
  exact congrArg₂ JobView.mk h.tables hkept

/-- A new hand that owes nothing. -/
theorem JobsKept.putHand (h : JobsKept d d') {new : Hand} (hcls : new.jobClaims = 0) :
    (d'.putHand new).jobs = d.jobs := by
  have hkept : tally Hand.jobClaims (d'.hands ++ [new]) = tally Hand.jobClaims d.hands := by
    rw [Lib.tally_append, tally_cons, hcls, h.hands]
    exact add_zero _
  exact congrArg₂ JobView.mk h.tables hkept

theorem JobsKept.trans (h : JobsKept d d') (h' : JobsKept d' d'') : JobsKept d d'' :=
  ⟨h'.tables.trans h.tables, h'.hands.trans h.hands⟩

theorem jobsKept_setTg (d : Domain Z) (p : Nat) (tg : ThreadGroup) : JobsKept d (d.setTg p tg) :=
  jobsKept_modifyProcess d p fun _ => rfl

theorem jobsKept_publishProcess (d : Domain Z) (p : Nat) : JobsKept d (d.publishProcess p) :=
  jobsKept_modifyProcess d p fun _ => rfl

theorem jobsKept_publishWithThread (d : Domain Z) (p node : Nat) :
    JobsKept d (d.publishWithThread p node).2 := by
  unfold publishWithThread
  split
  · exact .refl
  · exact (jobsKept_setTg ..).trans (jobsKept_publishProcess ..)

/-- The releases of a thread token are none of groups. -/
theorem jobClaims_ownerReleases (p : Nat) (owner : ThreadOwner) :
    tally Release.jobClaims (ownerReleases p owner) = 0 := by
  cases owner with
  | domain | admission | initial | scopedInitial => rfl

/-- A thread is linked outside groups. -/
theorem linkThread_jobs (h : Nat) : (d.linkThread h).2.jobs = d.jobs := by
  unfold linkThread
  split
  · next p tid owner hh =>
    split
    · rfl
    split
    · refine JobsKept.refl.setHand hh ?_
      change tally Release.jobClaims (.threadMember :: ownerReleases p owner) = 0
      rw [tally_cons, jobClaims_ownerReleases]
      exact add_zero _
    · refine JobsKept.setHand ?_ hh (by cases owner <;> rfl)
      exact ⟨(jobsKept_setTg d p _).tables, rfl⟩
  · rfl

/-- Publication with a thread. -/
theorem commitWithThread_jobs (h ht : Nat) : (d.commitWithThread h ht).2.jobs = d.jobs := by
  unfold commitWithThread
  split
  · next p q node hh hht =>
    -- the two hands are different, so each is still there when it is written
    have hne : ht ≠ h := by
      intro heq
      subst heq
      cases hh.symm.trans hht
    have hthere : ∀ hand, (d.hands.set ht hand)[h]? = some (.admission p) :=
      fun hand => (getElem?_set_ne hne).trans hh
    split
    · rfl
    split
    · have hfirst : (d.setHand ht (.releasing [.detachThread q node])).jobs = d.jobs :=
        JobsKept.refl.setHand hht rfl
      rw [← hfirst]
      exact JobsKept.refl.setHand (hthere _) rfl
    · next tg _ =>
      have hkept : JobsKept d ((d.setTg p tg).publishProcess p) :=
        (jobsKept_setTg ..).trans (jobsKept_publishProcess ..)
      have hfirst : (((d.setTg p tg).publishProcess p).setHand ht .empty).jobs = d.jobs :=
        hkept.setHand hht rfl
      rw [← hfirst]
      exact JobsKept.refl.setHand (hthere _) rfl
  · rfl

theorem commitInitial_jobs (h : Nat) : (d.commitInitial h).2.jobs = d.jobs := by
  unfold commitInitial
  split
  · next p node hh => exact (jobsKept_publishWithThread d p node).setHand hh rfl
  · rfl

theorem commitScoped_jobs (h : Nat) : (d.commitScoped h).2.jobs = d.jobs := by
  unfold commitScoped
  split
  · next p hh => exact (jobsKept_publishProcess d p).setHand hh rfl
  · next p node hh => exact (jobsKept_publishWithThread d p node).setHand hh rfl
  · rfl

theorem publishZombie_jobs (h : Nat) (payload : Z) : (d.publishZombie h payload).2.jobs = d.jobs := by
  unfold publishZombie
  split
  · next p departing hh =>
    split
    · rfl
    split
    · rfl
    refine JobsKept.setHand ?_ hh ?_
    · exact jobsKept_modifyProcess d p fun _ => rfl
    · rfl
  · rfl

/-- A departing thread leaves only its thread group. -/
theorem releaseDeparting_jobs (h : Nat) : (d.releaseDeparting h).2.jobs = d.jobs := by
  unfold releaseDeparting
  split
  · next p np departing hh =>
    cases departing with
    | none => exact JobsKept.refl.setHand hh rfl
    | some thread => exact JobsKept.setHand ⟨rfl, rfl⟩ hh rfl
  · rfl

/-- The reparenting loop moves parents, not groups. -/
theorem ScanOnly.jobs_eq (h : ScanOnly d r) : r.2.jobs = d.jobs := by
  have hrows := congrArg (map Process.jobRow) h.processes
  rw [map_map, map_map] at hrows
  have hcls := h.tally_eq Hand.jobClaims fun hand hidle => by
    cases hand <;> first | rfl | cases hidle
  rw [h.rest]
  exact congrArg₂ (fun rows => JobView.mk { d.jobs.tables with rows }) hrows hcls

/-! ## Updates of the tables -/

variable {reaped : Option Nat}

variable {g s p k : Nat} {process : Process Z} {pgid : Pid} {old new : Hand}

theorem groupRow_at (hg : d.groups[g]? = some group) :
    d.jobs.tables.groups[g]? = some group.jobRow := Lib.getElem?_map_of_some hg

theorem of_groupRow_at (h : d.jobs.tables.groups[g]? = some row) :
    ∃ group, d.groups[g]? = some group ∧ group.jobRow = row := Lib.of_getElem?_map h

theorem sessionRow_at (hs : d.sessions[s]? = some session) :
    d.jobs.tables.sessions[s]? = some session.jobRow := Lib.getElem?_map_of_some hs

theorem jobRow_at (hp : d.processes[p]? = some process) :
    d.jobs.tables.rows[p]? = some process.jobRow := Lib.getElem?_map_of_some hp

theorem jobRow_of_linked (h : process.linked = true) :
    process.jobRow = some process.group := if_pos h

/-- A number that is not found is free. -/
theorem findGroup_none (h : d.findGroup pgid = none) : d.jobs.tables.FreeGroup pgid := by
  intro g row hrow hlink
  obtain ⟨group, hg, rfl⟩ := of_groupRow_at hrow
  have hne := Lib.key_ne_of_findIdx? h hg hlink
  exact hne

/-- `current_group_locked` tests whether the group is registered. -/
theorem currentGroupLocked_iff (hj : d.jobs.WF)
    (hg : d.groups[g]? = some group) : d.currentGroupLocked g = true ↔ group.linked = true := by
  unfold currentGroupLocked
  rw [hg, Option.any_some, beq_iff_eq]
  refine Lib.findIdx?_own_iff ?_ hg
  exact fun i j a b ha hb => hj.identities.pgids i j _ _ (groupRow_at ha) (groupRow_at hb)

/-- `current_session_locked`, likewise. -/
theorem currentSessionLocked_iff (hj : d.jobs.WF) (hs : d.sessions[s]? = some session) :
    d.currentSessionLocked s = true ↔ session.linked = true := by
  unfold currentSessionLocked
  rw [hs, Option.any_some, beq_iff_eq]
  refine Lib.findIdx?_own_iff ?_ hs
  exact fun i j a b ha hb => hj.identities.sids i j _ _ (sessionRow_at ha) (sessionRow_at hb)

theorem releaseCounter_of_pos (h : 0 < counter) :
    releaseCounter counter = (some counter, counter - 1) := if_neg (Nat.ne_of_gt h)

/-! ## Turns -/

/-- A group is admitted, in a session of its own or in one that is registered. -/
theorem admitSessionGroup_turn (hj : d.jobs.WF)
    (h : d.admitSessionGroup pgid session = .ok (g, d')) :
    JobTurn d.Seen reaped d.jobs.tables 0 {.watch g} d'.jobs.tables := by
  have hlen : d.groups.length = d.jobs.tables.groups.length := (length_map _).symm
  unfold admitSessionGroup at h
  split at h
  · cases h
  next hroom =>
  obtain ⟨hgrp, hsess⟩ := not_or.mp hroom
  split at h
  · cases h
  next hfree =>
  have hfree' := findGroup_none (Option.not_isSome_iff_eq_none.mp hfree)
  split at h
  · split at h
    · cases h
    · next hnone =>
      split at h
      · cases h
      next groups hres =>
      cases h
      obtain rfl := reserveBoundedCounter_ok hres
      rw [hlen]
      unfold jobs
      rw [map_append, map_append, ← length_map (f := Session.jobRow)]
      refine .newSession pgid (Nat.lt_of_not_le hgrp) ?_ hfree' ?_
      · exact Nat.lt_of_not_le fun hle => hsess ⟨rfl, hle⟩
      · intro s row hrow hlink
        obtain ⟨session, hs, rfl⟩ := Lib.of_getElem?_map hrow
        have hne := Lib.key_ne_of_findIdx? (Option.not_isSome_iff_eq_none.mp hnone) hs hlink
        exact hne
  · next s =>
    split at h
    · cases h
    next entry hs =>
    split at h
    · cases h
    next hlive =>
    split at h
    · cases h
    next groups hres =>
    cases h
    obtain rfl := reserveBoundedCounter_ok hres
    rw [hlen]
    unfold jobs
    rw [map_append, map_set]
    refine .newGroup pgid s entry.jobRow (Nat.lt_of_not_le hgrp) hfree' (sessionRow_at hs) ?_
    exact (currentSessionLocked_iff hj hs).mp (not_not.mp (not_or.mp hlive).1)

/-- One counter is written. -/
theorem member_tables (d : Domain Z) (g : Nat) (group : ProcessGroup) (memberships : Nat) :
    ({ d with groups := d.groups.set g { group with memberships } } : Domain Z).jobs.tables
      = { d.jobs.tables with
          groups := d.jobs.tables.groups.set g { group.jobRow with memberships } } := by
  unfold jobs
  rw [map_set]
  rfl

/-- A reserved membership is one, so the group needs nobody to watch it. -/
theorem reserveGroupMember_turn (reaped : Option Nat) (hj : d.jobs.WF)
    (h : d.reserveGroupMember g allowUnpublished = .ok d') :
    JobTurn d.Seen reaped d.jobs.tables 0 {.slot g} d'.jobs.tables ∧
      (JobClaim.watch g).Idle d'.jobs.tables := by
  unfold reserveGroupMember at h
  split at h
  · cases h
  next group hg =>
  split at h
  · cases h
  next hlive =>
  split at h
  · cases h
  next memberships hres =>
  cases h
  obtain rfl := reserveBoundedCounter_ok hres
  have hlink : group.linked = true :=
    (currentGroupLocked_iff hj hg).mp (not_not.mp (not_or.mp hlive).1)
  rw [member_tables]
  refine ⟨.reserve g group.jobRow (groupRow_at hg) hlink, ?_⟩
  intro row hrow _
  rw [Lib.getElem?_set_of_some (groupRow_at hg)] at hrow
  obtain rfl := Option.some.inj hrow
  exact Nat.succ_ne_zero _

/-- A process is registered with a membership of its group. -/
theorem admitProcess_turn (reaped : Option Nat) (hj : d.jobs.WF) {new : NewProcess}
    (h : d.admitProcess new = .ok (p, d')) :
    JobTurn d.Seen reaped d.jobs.tables 0 0 d'.jobs.tables ∧
      (JobClaim.watch new.group).Idle d'.jobs.tables := by
  unfold admitProcess at h
  split at h
  · cases h
  next hroom =>
  split at h
  · cases h
  split at h
  · cases h
  next hlive =>
  split at h
  · cases h
  next group hg =>
  split at h
  · cases h
  next memberships hres =>
  cases h
  obtain rfl := reserveBoundedCounter_ok hres
  have hlink : group.linked = true := (currentGroupLocked_iff hj hg).mp (not_not.mp hlive)
  unfold jobs
  rw [List.map_append, List.map_set]
  refine ⟨.link new.group group.jobRow (Nat.lt_of_not_le hroom) (groupRow_at hg) hlink, ?_⟩
  intro row hrow _
  rcases Lib.getElem?_set_cases hrow with ⟨-, rfl⟩ | ⟨hne, -⟩
  · exact Nat.succ_ne_zero _
  · exact absurd rfl hne

/-- The session of a registered group is there, counts it and is registered. -/
theorem session_of_group (hj : d.jobs.WF)
    (hg : d.groups[g]? = some group) (hlink : group.linked = true) :
    ∃ session, d.sessions[group.session]? = some session ∧ session.linked = true ∧
      0 < session.groups := by
  have hlt := hj.identities.session g group.jobRow (groupRow_at hg)
  obtain ⟨row, hrow⟩ : ∃ row, d.jobs.tables.sessions[group.session]? = some row :=
    ⟨_, getElem?_eq_getElem hlt⟩
  obtain ⟨session, hs, rfl⟩ := Lib.of_getElem?_map hrow
  have hpos : 0 < session.groups := by
    have hcnt := hj.identities.counted _ session.jobRow hrow
    change session.groups = _ at hcnt
    rw [hcnt]
    refine Lib.countP_pos_of_getElem? (groupRow_at hg) ?_
    rw [Bool.and_eq_true, beq_iff_eq]
    exact ⟨hlink, rfl⟩
  exact ⟨session, hs, (hj.identities.registered _ _ hrow).mpr hpos, hpos⟩

/-- An empty registered group is removed; any other is left alone, and needs no watch. -/
theorem removeEmptyGroup_turn (reaped : Option Nat) (hj : d.jobs.WF) (g : Nat) :
    JobTurn d.Seen reaped d.jobs.tables {.watch g} 0 (d.removeEmptyGroup g).jobs.tables ∨
      ((d.removeEmptyGroup g).jobs.tables = d.jobs.tables ∧
        (JobClaim.watch g).Idle d.jobs.tables) := by
  unfold removeEmptyGroup
  split
  · next hnone =>
    refine .inr ⟨rfl, ?_⟩
    intro row hrow
    obtain ⟨group, hg, -⟩ := of_groupRow_at hrow
    cases hnone.symm.trans hg
  · next group hg =>
    split
    · next hkeep =>
      refine .inr ⟨rfl, ?_⟩
      intro row hrow hlink
      obtain rfl := Option.some.inj ((groupRow_at hg).symm.trans hrow)
      rcases hkeep with hmems | hunlinked
      · exact hmems
      · exact absurd ((currentGroupLocked_iff hj hg).mpr hlink) hunlinked
    · next hremove =>
      obtain ⟨hemp, hcur⟩ := not_or.mp hremove
      have hlink := (currentGroupLocked_iff hj hg).mp (not_not.mp hcur)
      obtain ⟨session, hs, hreg, hpos⟩ := session_of_group hj hg hlink
      refine .inl ?_
      have hturn : JobTurn d.Seen reaped d.jobs.tables {.watch g} 0 _ := .remove g group.jobRow
        session.jobRow (groupRow_at hg) hlink (not_not.mp hemp) (sessionRow_at hs)
      dsimp only
      rw [hs]
      dsimp only
      rw [releaseCounter_of_pos hpos]
      unfold JobTables.removeGroup at hturn
      unfold jobs at hturn ⊢
      by_cases hlast : session.jobRow.groups = 1
      · have hgone : (session.jobRow.linked && session.jobRow.groups != 1) = false := by
          rw [hlast, bne_self_eq_false, Bool.and_false]
        rw [if_pos ⟨congrArg some hlast, (currentSessionLocked_iff hj hs).mpr hreg⟩]
        rw [if_pos hlast, hgone] at hturn
        rw [map_set, map_set]
        exact hturn
      · have hstays : (session.jobRow.linked && session.jobRow.groups != 1)
            = session.jobRow.linked := by
          rw [bne_iff_ne.mpr hlast, Bool.and_true]
        rw [if_neg fun hone => hlast (Option.some.inj hone.1)]
        rw [if_neg hlast, hstays] at hturn
        rw [map_set, map_set]
        exact hturn

/-! ## Steps -/

/-- A call is a step of groups and sessions. -/
abbrev JobMoves (d : Domain Z) (reaped : Option Nat) (r : Answer × Domain Z) : Prop :=
  JobStep d.Seen reaped d.jobs r.2.jobs

/-- A call that leaves groups alone. -/
theorem stillJobs (h : d'.jobs = d.jobs) : JobStep d.Seen reaped d.jobs d'.jobs := by
  rw [h]
  exact .turn 0 0 0 0 .still rfl nofun nofun

/-- A turn, with the claims of one hand exchanged. -/
theorem jobStep_setHand (dropped added rest : Multiset JobClaim)
    (hold : d.hands[k]? = some old) (hhands : d'.hands = d.hands)
    (hlost : old.jobClaims = lost + dropped + rest) (hgain : new.jobClaims = gained + added + rest)
    (turn : JobTurn d.Seen reaped d.jobs.tables lost gained d'.jobs.tables)
    (drops : ∀ c ∈ dropped, c.Idle d'.jobs.tables) (adds : ∀ c ∈ added, c.Harmless d.Seen) :
    JobStep d.Seen reaped d.jobs (d'.setHand k new).jobs := by
  refine .turn lost gained dropped added turn ?_ drops adds
  have hset := Lib.tally_set (f := Hand.jobClaims) hold new
  rw [hlost, hgain, ← add_assoc, ← add_assoc (tally Hand.jobClaims d.hands)] at hset
  change tally Hand.jobClaims (d'.hands.set k new) + _ = _
  rw [hhands]
  exact add_right_cancel hset

/-- A turn whose claims one hand passes on. -/
theorem jobStep_exchange (rest : Multiset JobClaim)
    (hold : d.hands[k]? = some old) (hhands : d'.hands = d.hands)
    (hlost : old.jobClaims = lost + rest) (hgain : new.jobClaims = gained + rest)
    (turn : JobTurn d.Seen reaped d.jobs.tables lost gained d'.jobs.tables) :
    JobStep d.Seen reaped d.jobs (d'.setHand k new).jobs := by
  refine jobStep_setHand 0 0 rest hold hhands ?_ ?_ turn nofun nofun
  · rw [hlost, add_zero]
  · rw [hgain, add_zero]

/-- A turn, with the claims of a new hand. -/
theorem jobStep_putHand (added : Multiset JobClaim)
    (hhands : d'.hands = d.hands) (hgain : new.jobClaims = gained + added)
    (turn : JobTurn d.Seen reaped d.jobs.tables 0 gained d'.jobs.tables)
    (adds : ∀ c ∈ added, c.Harmless d.Seen) :
    JobStep d.Seen reaped d.jobs (d'.putHand new).jobs := by
  refine .turn 0 gained 0 added turn ?_ nofun adds
  change tally Hand.jobClaims (d'.hands ++ [new]) + (0 + 0) = _
  rw [Lib.tally_append, tally_cons, hhands, hgain]
  simp only [Lib.tally_nil, add_zero]
  rfl

/-- An operation on a group ends without having done anything. -/
theorem dropSeat (rest : Multiset JobClaim) (hold : d.hands[k]? = some old)
    (hcls : old.jobClaims = rest + {.seat p})
    (hnew : new.jobClaims = rest) : JobStep d.Seen reaped d.jobs (d.setHand k new).jobs := by
  refine jobStep_setHand {.seat p} 0 rest hold rfl ?_ ?_ .still
    (forall_mem_singleton (by trivial)) nofun
  · rw [hcls, zero_add, add_comm]
  · rw [hnew, zero_add, zero_add]

/-! ## Init processes and forks -/

/-- The group of an init is admitted first. -/
theorem newInit_jobs (hj : d.jobs.WF) (scope : Nat) (pid : Pid) (allocated : Bool) :
    d.JobMoves reaped (d.newInit scope pid allocated) := by
  unfold newInit
  split
  · exact stillJobs rfl
  split
  · exact stillJobs rfl
  split
  · exact stillJobs rfl
  next g d' hok =>
  exact jobStep_putHand 0 (jobsOnly_admitSessionGroup hok).hands (add_zero _).symm
    (admitSessionGroup_turn hj hok) nofun

/-- Then the process, or the group is watched until it is removed. -/
theorem admitInit_jobs (hj : d.jobs.WF) (h : Nat) (allocated : Bool) :
    d.JobMoves reaped (d.admitInit h allocated) := by
  unfold admitInit
  split
  · next scope pid g hh =>
    split
    · exact stillJobs (JobsKept.refl.setHand hh rfl)
    split
    · exact stillJobs (JobsKept.refl.setHand hh rfl)
    next p d' hok =>
    obtain ⟨-, -, -, hhands, -⟩ := admitProcess_spec hok
    obtain ⟨hturn, hidle⟩ := admitProcess_turn reaped hj hok
    exact jobStep_setHand {.watch g} 0 0 hh hhands rfl rfl hturn (forall_mem_singleton hidle) nofun
  · exact stillJobs rfl

/-- Publication changes no counter. -/
theorem jobsKept_publishGroup (d : Domain Z) (g : Nat) (newSession : Bool) :
    JobsKept d (d.publishGroup g newSession) := by
  have hgrp : (d.groups.modify g fun group => { group with published := true }).map
      ProcessGroup.jobRow = d.groups.map ProcessGroup.jobRow :=
    Lib.map_modify_of_eq (f := fun group => { group with published := true }) (fun _ => rfl) d.groups g
  unfold publishGroup
  dsimp only
  split
  · next s _ =>
    have hsess : (d.sessions.modify s fun session => { session with published := true }).map
        Session.jobRow = d.sessions.map Session.jobRow :=
      Lib.map_modify_of_eq (f := fun session => { session with published := true }) (fun _ => rfl)
        d.sessions s
    refine ⟨?_, rfl⟩
    unfold jobs
    rw [hgrp, hsess]
  · refine ⟨?_, rfl⟩
    unfold jobs
    rw [hgrp]

theorem bindInit_jobs (h : Nat) : d.JobMoves reaped (d.bindInit h) := by
  unfold bindInit
  split
  · next scope p g hh =>
    split
    · exact jobStep_setHand 0 {.watch g} 0 hh rfl rfl rfl .still nofun
        (forall_mem_singleton trivial)
    have hkept : JobsKept d (((d.publishGroup g true).publishProcess p).setScopeInit scope p) :=
      ((jobsKept_publishGroup d g true).trans (jobsKept_publishProcess _ p)).trans ⟨rfl, rfl⟩
    exact stillJobs (hkept.setHand hh rfl)
  · exact stillJobs rfl

theorem admitFork_jobs (hj : d.jobs.WF) (h : Nat) : d.JobMoves reaped (d.admitFork h) := by
  unfold admitFork
  split
  · next new hh =>
    split
    · exact stillJobs (JobsKept.refl.setHand hh rfl)
    next p d' hok =>
    obtain ⟨-, -, -, hhands, -⟩ := admitProcess_spec hok
    obtain ⟨hturn, -⟩ := admitProcess_turn reaped hj hok
    exact jobStep_exchange 0 hh hhands rfl (by unfold forkToken; split <;> rfl) hturn
  · exact stillJobs rfl

/-! ## Sessions, groups and moves -/

/-- A group operation starts on a published process. -/
theorem createJob_jobs (p : Nat) (kind : JobKind) : d.JobMoves reaped (d.createJob p kind) := by
  unfold createJob
  split
  · exact stillJobs rfl
  next hpub =>
  split
  · exact stillJobs rfl
  · exact jobStep_putHand {JobClaim.seat p} rfl (zero_add _).symm .still
      (forall_mem_singleton (ensurePublished_spec (not_not.mp hpub)))

theorem readJob_jobs (h : Nat) : d.JobMoves reaped (d.readJob h) := by
  unfold readJob
  split
  · next p kind hh =>
    split
    · exact stillJobs rfl
    split
    · exact dropSeat 0 hh (zero_add _).symm rfl
    · exact stillJobs (JobsKept.refl.setHand hh rfl)
  · exact stillJobs rfl

/-- Its group is admitted. -/
theorem admitJob_jobs (hj : d.jobs.WF) (h : Nat) (allocated : Bool) :
    d.JobMoves reaped (d.admitJob h allocated) := by
  unfold admitJob
  split
  · next p kind session hh =>
    split
    · exact dropSeat 0 hh (zero_add _).symm rfl
    split
    · exact dropSeat 0 hh (zero_add _).symm rfl
    next g d' hok =>
    exact jobStep_exchange {.seat p} hh (jobsOnly_admitSessionGroup hok).hands (zero_add _).symm
      rfl (admitSessionGroup_turn hj hok)
  · exact stillJobs rfl

/-- The group gets a membership. -/
theorem reserveJob_jobs (hj : d.jobs.WF) (h : Nat) : d.JobMoves reaped (d.reserveJob h) := by
  unfold reserveJob
  split
  · next p kind g hh =>
    split
    · exact dropSeat {.watch g} hh rfl rfl
    next d' hok =>
    obtain ⟨hturn, hidle⟩ := reserveGroupMember_turn reaped hj hok
    refine jobStep_setHand {.watch g} 0 {.seat p} hh (jobsOnly_reserveGroupMember hok).hands ?_ ?_
      hturn (forall_mem_singleton hidle) nofun
    · rw [zero_add]
      rfl
    · rw [add_zero]
      rfl
  · exact stillJobs rfl

theorem mem_jobClaims (hh : d.hands[k]? = some hand)
    (hc : c ∈ hand.jobClaims) : c ∈ d.jobs.claims :=
  Lib.mem_tally hh hc

/-- The process of a group operation is registered as long as it is live. -/
theorem linked_of_seat (hv : d.threads.WF) (hseats : ∀ p, .seat p ∈ d.jobs.claims → d.Seen p)
    (hh : d.hands[k]? = some hand) (hseat : .seat p ∈ hand.jobClaims)
    (hp : d.processes[p]? = some process)
    (hlive : process.isLive = true) : process.linked = true := by
  obtain ⟨process', hp', hpub⟩ := hseats p (mem_jobClaims hh hseat)
  obtain rfl := Option.some.inj (hp.symm.trans hp')
  have halive : process.isZombie = false := by
    unfold Process.isLive at hlive
    rw [Bool.and_eq_true, Bool.not_eq_true'] at hlive
    exact hlive.1
  exact (hv.rows p process.threadRow (threadRow_at hp)).linked_of_alive halive hpub

/-- One row is written. -/
theorem replaceGroup_tables (hp : d.processes[p]? = some process) (hlink : process.linked = true)
    (g : Nat) :
    (d.replaceGroup p g).jobs.tables
      = { d.jobs.tables with rows := d.jobs.tables.rows.set p (some g) } := by
  have hrows : (d.processes.modify p fun process => { process with group := g }).map Process.jobRow
      = (d.processes.map Process.jobRow).set p (some g) := by
    rw [Lib.modify_eq_set_of_some hp, map_set]
    exact congrArg _ (if_pos hlink)
  exact congrArg (fun rows => { d.jobs.tables with rows }) hrows

/-- The process takes the membership that was reserved for it, and leaves its own. -/
theorem regroup_step (hold : d.hands[k]? = some old) (hcls : old.jobClaims = {.slot g} + {.seat p})
    (hp : d.processes[p]? = some process) (hlink : process.linked = true)
    (hhands : d'.hands = d.hands) (htables : d'.jobs.tables = (d.replaceGroup p g).jobs.tables)
    (hnew : new.jobClaims = {.slot process.group}) :
    JobStep d.Seen reaped d.jobs (d'.setHand k new).jobs := by
  have hturn : JobTurn d.Seen reaped d.jobs.tables {.slot g} {.slot process.group}
      d'.jobs.tables := by
    rw [htables, replaceGroup_tables hp hlink]
    refine .regroup p process.group g ?_
    rw [jobRow_at hp, jobRow_of_linked hlink]
  refine jobStep_setHand {.seat p} 0 0 hold hhands ?_ ?_ hturn
    (forall_mem_singleton (by trivial)) nofun
  · rw [hcls, add_zero]
  · rw [hnew, add_zero, add_zero]

/-- The process takes it, if it is still live. -/
theorem commitJob_jobs (hv : d.threads.WF) (hseats : ∀ p, .seat p ∈ d.jobs.claims → d.Seen p)
    (h : Nat) : d.JobMoves reaped (d.commitJob h) := by
  unfold commitJob
  split
  · next p kind g hh =>
    -- an undone operation gives its membership back and looks at the group once more
    have hundo : JobStep d.Seen reaped d.jobs
        (d.setHand h (.releasing [.groupMember g, .emptyGroup g])).jobs := by
      refine jobStep_setHand {.seat p} {.watch g} {.slot g} hh rfl ?_ ?_ .still
        (forall_mem_singleton (by trivial)) (forall_mem_singleton (by trivial))
      · rw [zero_add, add_comm]
        rfl
      · rw [zero_add, add_comm]
        rfl
    split
    · exact stillJobs rfl
    split
    · exact stillJobs rfl
    next process hp =>
    split
    · exact hundo
    next hlive =>
    split
    · exact hundo
    split
    · exact hundo
    have hlink : process.linked = true :=
      linked_of_seat hv hseats hh (Multiset.mem_add.mpr (.inr (Multiset.mem_singleton_self _)))
        hp (not_not.mp hlive)
    have hkept := jobsKept_publishGroup (d.replaceGroup p g) g (kind == .session)
    exact regroup_step hh rfl hp hlink hkept.hands hkept.tables rfl
  · exact stillJobs rfl

theorem moveToGroup_jobs (p g : Nat) : d.JobMoves reaped (d.moveToGroup p g) := by
  unfold moveToGroup
  split
  · exact stillJobs rfl
  next hpub =>
  split
  · exact stillJobs rfl
  · exact jobStep_putHand {JobClaim.seat p} rfl (zero_add _).symm .still
      (forall_mem_singleton (ensurePublished_spec (not_not.mp hpub)))

theorem moveGroupLive_jobs (h : Nat) : d.JobMoves reaped (d.moveGroupLive h) := by
  unfold moveGroupLive
  split
  · next p g hh =>
    split
    · exact stillJobs (JobsKept.refl.setHand hh rfl)
    · exact dropSeat 0 hh (zero_add _).symm rfl
  · exact stillJobs rfl

theorem moveCompare_jobs (h : Nat) : d.JobMoves reaped (d.moveCompare h) := by
  unfold moveCompare
  split
  · next p g hh =>
    split
    · exact stillJobs rfl
    split
    · exact dropSeat 0 hh (zero_add _).symm rfl
    split
    · exact dropSeat 0 hh (zero_add _).symm rfl
    · exact stillJobs (JobsKept.refl.setHand hh rfl)
  · exact stillJobs rfl

theorem reserveMove_jobs (hj : d.jobs.WF) (h : Nat) : d.JobMoves reaped (d.reserveMove h) := by
  unfold reserveMove
  split
  · next p g hh =>
    split
    · exact dropSeat 0 hh (zero_add _).symm rfl
    next d' hok =>
    obtain ⟨hturn, -⟩ := reserveGroupMember_turn reaped hj hok
    exact jobStep_exchange {.seat p} hh (jobsOnly_reserveGroupMember hok).hands (zero_add _).symm
      rfl hturn
  · exact stillJobs rfl

/-- A move to a group that is there ends the same way. -/
theorem commitMove_jobs (hv : d.threads.WF) (hseats : ∀ p, .seat p ∈ d.jobs.claims → d.Seen p)
    (h : Nat) : d.JobMoves reaped (d.commitMove h) := by
  unfold commitMove
  split
  · next p g hh =>
    split
    · exact stillJobs rfl
    split
    · exact stillJobs rfl
    next process hp =>
    split
    · exact dropSeat {.slot g} hh rfl rfl
    next hlive =>
    split
    · exact dropSeat {.slot g} hh rfl rfl
    split
    · exact dropSeat {.slot g} hh rfl rfl
    have hlink : process.linked = true :=
      linked_of_seat hv hseats hh (Multiset.mem_add.mpr (.inr (Multiset.mem_singleton_self _)))
        hp (not_not.mp (not_or.mp hlive).1)
    exact regroup_step hh rfl hp hlink rfl rfl rfl
  · exact stillJobs rfl

/-! ## Releases and reaping -/

/-- A registered process leaves; its membership is still to be given back. -/
theorem unlink_turn (hp : d.processes[p]? = some process) (hlink : process.linked = true)
    (why : reaped = some p ∨ ¬ d.Seen p) (hf : (f process).linked = false) :
    JobTurn d.Seen reaped d.jobs.tables 0 {.slot process.group}
      ({ d.modifyProcess p f with memberships := d.memberships - 1 } : Domain Z).jobs.tables := by
  have hrows : (d.processes.modify p f).map Process.jobRow
      = (d.processes.map Process.jobRow).set p none := by
    rw [Lib.modify_eq_set_of_some hp, map_set]
    refine congrArg _ ?_
    unfold Process.jobRow
    rw [hf]
    rfl
  show JobTurn _ _ _ _ _ { d.jobs.tables with
    rows := (d.processes.modify p f).map Process.jobRow, memberships := _ }
  rw [hrows]
  refine .unlink p process.group ?_ why
  rw [jobRow_at hp, jobRow_of_linked hlink]

/-- A process that passes the check is registered. -/
theorem linked_of_ensurePublished (hp : d.processes[p]? = some process)
    (h : d.ensurePublished p = true) : process.linked = true := by
  unfold ensurePublished currentProcessLocked at h
  rw [hp, Option.any_some, Option.any_some, Bool.and_eq_true, beq_iff_eq] at h
  have hmem : p ∈ d.entries := mem_of_find?_eq_some h.2
  have hlink := (mem_filter.mp hmem).2
  rw [hp] at hlink
  exact hlink

/-- A reaped process gives up its membership. -/
theorem reap_jobs (p : Nat) : d.JobMoves (some p) (d.reap p) := by
  unfold reap
  split
  · exact stillJobs rfl
  split
  · exact stillJobs rfl
  next process hp =>
  split
  · exact stillJobs rfl
  split
  · exact stillJobs rfl
  next hpub =>
  split
  · exact stillJobs rfl
  split
  · exact stillJobs rfl
  have hlink : process.linked = true := linked_of_ensurePublished hp (not_not.mp hpub)
  exact jobStep_putHand 0 rfl (add_zero _).symm (unlink_turn hp hlink (.inl rfl) rfl) nofun

/-- One release of a refused or ended operation. -/
theorem releaseNext_jobs (hwf : d.WF) (hj : d.jobs.WF) (h : Nat) :
    d.JobMoves reaped (d.releaseNext h) := by
  unfold releaseNext
  split
  · next next todo hh =>
    -- the releases that are left are the same, and the new ones come first
    have hold : Hand.jobClaims (.releasing (next :: todo))
        = next.jobClaims + tally Release.jobClaims todo := tally_cons ..
    have hnew : ∀ more : List Release, Hand.jobClaims (.releasing (more ++ todo))
        = tally Release.jobClaims more + tally Release.jobClaims todo :=
      fun more => Lib.tally_append more todo
    unfold release
    cases next with
    | unlinkProcess p =>
      dsimp only
      split
      · exact stillJobs (JobsKept.refl.setHand hh ((hnew []).trans hold.symm))
      next process hp =>
      split
      · next hlink =>
        have hunseen : ¬ d.Seen p := fun ⟨_, hp', hpub⟩ => unpublished_of_doomed hwf hh hp' hpub
        exact jobStep_exchange _ hh rfl hold (hnew [.groupMember process.group])
          (unlink_turn hp hlink (.inr hunseen) rfl)
      · exact stillJobs (JobsKept.refl.setHand hh ((hnew []).trans hold.symm))
    | groupMember g =>
      -- the membership is there, so its counter is positive
      have hslot : JobClaim.slot g ∈ d.jobs.claims := mem_jobClaims hh
        (Multiset.mem_add.mpr (.inl (Multiset.mem_singleton_self _)))
      obtain ⟨row, hrow, hpos⟩ := hj.accounts.slot hslot
      obtain ⟨group, hg, rfl⟩ := of_groupRow_at hrow
      dsimp only
      rw [hg]
      dsimp only
      have hpos' : 0 < group.memberships := hpos
      rw [releaseCounter_of_pos hpos']
      have hturn : JobTurn d.Seen reaped d.jobs.tables {.slot g} _ _ := .release g group.jobRow hrow
      rw [← member_tables] at hturn
      refine jobStep_exchange (tally Release.jobClaims todo) hh rfl hold ?_ hturn
      by_cases hlast : group.jobRow.memberships = 1
      · have hone : some group.memberships = some 1 := congrArg some hlast
        rw [if_pos hone, hnew [.emptyGroup g], if_pos hlast]
        rfl
      · have hmore : some group.memberships ≠ some 1 := fun heq => hlast (Option.some.inj heq)
        rw [if_neg hmore, hnew [], if_neg hlast]
        rfl
    | emptyGroup g =>
      have hhands := (jobsOnly_removeEmptyGroup d g).hands
      rcases removeEmptyGroup_turn reaped hj g with hturn | ⟨hsame, hidle⟩
      · exact jobStep_exchange _ hh hhands hold (hnew []) hturn
      · have hturn : JobTurn d.Seen reaped d.jobs.tables 0 0 (d.removeEmptyGroup g).jobs.tables := by
          rw [hsame]
          exact .still
        rw [← hsame] at hidle
        refine jobStep_setHand {.watch g} 0 (tally Release.jobClaims todo) hh hhands ?_ ?_ hturn
          (forall_mem_singleton hidle) nofun
        · rw [hold, zero_add]
          rfl
        · exact hnew []
    | detachThread p node =>
      dsimp only
      split
      · exact stillJobs (JobsKept.refl.setHand hh ((hnew []).trans hold.symm))
      split
      · exact stillJobs (JobsKept.refl.setHand hh ((hnew []).trans hold.symm))
      · exact stillJobs ((jobsKept_setTg ..).setHand hh ((hnew [.threadMember]).trans hold.symm))
    | threadMember =>
      exact stillJobs (JobsKept.setHand ⟨rfl, rfl⟩ hh ((hnew []).trans hold.symm))
  · next hh => exact stillJobs (JobsKept.refl.setHand hh rfl)
  · exact stillJobs rfl

/-- What holds of groups and sessions in every reachable state. -/
structure JobsOK (d : Domain Z) : Prop where
  wf : d.WF
  threads : d.threads.WF
  jobs : d.jobs.WF
  seats : ∀ p, .seat p ∈ d.jobs.claims → d.Seen p

/-- Every call is a step. -/
theorem call_jobs (h : d.JobsOK) (call : ProcessCall Z) :
    JobStep d.Seen call.reaps d.jobs (d.call call).2.jobs := by
  cases call with
  | newInit scope pid allocated => exact newInit_jobs h.jobs scope pid allocated
  | admitInit k allocated => exact admitInit_jobs h.jobs k allocated
  | bindInit k => exact bindInit_jobs k
  | admitFork k => exact admitFork_jobs h.jobs k
  | releaseNext k => exact releaseNext_jobs h.wf h.jobs k
  | createJob p kind => exact createJob_jobs p kind
  | readJob k => exact readJob_jobs k
  | admitJob k allocated => exact admitJob_jobs h.jobs k allocated
  | reserveJob k => exact reserveJob_jobs h.jobs k
  | commitJob k => exact commitJob_jobs h.threads h.seats k
  | moveToGroup p g => exact moveToGroup_jobs p g
  | moveGroupLive k => exact moveGroupLive_jobs k
  | moveCompare k => exact moveCompare_jobs k
  | reserveMove k => exact reserveMove_jobs h.jobs k
  | commitMove k => exact commitMove_jobs h.threads h.seats k
  | reap p => exact reap_jobs p
  | linkThread k => exact stillJobs (linkThread_jobs k)
  | commitWithThread k ht => exact stillJobs (commitWithThread_jobs k ht)
  | commitInitial k => exact stillJobs (commitInitial_jobs k)
  | commitScoped k => exact stillJobs (commitScoped_jobs k)
  | publishZombie k payload => exact stillJobs (publishZombie_jobs k payload)
  | releaseDeparting k => exact stillJobs (releaseDeparting_jobs k)
  | scan k => exact stillJobs (scan_scanOnly k).jobs_eq
  | inheritedZombie k => exact stillJobs (inheritedZombie_scanOnly k).jobs_eq
  | _ =>
    -- at most one thread group or flag is written, and one hand
    refine stillJobs ?_
    simp only [call, newReaperScope, retain, setChildSubreaper, prepareFork, prepareForkInit,
      allocateFork, commitProcess, bindScope, bindOuter, dropToken, prepareThread,
      prepareAdmissionThread, prepareInitialThread, reserveThread, commitThread,
      commitThreadInfallible, exitThread, exitThreadLocked, removeThread, groupExit, prepareExit,
      reserveExit, dropExit, startScan, lockSection, reparentBatch]
    (repeat' split) <;> try dsimp only
    all_goals first
      | rfl
      | exact JobsKept.refl.putHand rfl
      | exact (jobsKept_setTg ..).jobs_eq
      | exact (jobsKept_modifyProcess _ _ (by intro process; rfl)).jobs_eq
      | exact (jobsKept_setTg ..).putHand rfl
      | (refine JobsKept.refl.setHand (by assumption) ?_; rfl)
      | (refine JobsKept.refl.setHand (by assumption) ?_; exact jobClaims_ownerReleases ..)
      | (refine (jobsKept_setTg ..).setHand (by assumption) ?_; rfl)
      | (refine (jobsKept_publishProcess ..).setHand (by assumption) ?_; rfl)

/-- A published process stays published. -/
theorem seen_call (hwf : d.WF) (call : ProcessCall Z) (h : d.Seen p) : (d.call call).2.Seen p := by
  obtain ⟨process, hp, hpub⟩ := h
  obtain ⟨b, hb, hrow⟩ := (call_move hwf call).row_step (getElem?_tree hp)
  obtain ⟨process', hp', rfl⟩ := of_getElem?_tree hb
  exact ⟨process', hp', hrow.later.published hpub⟩

theorem JobsOK.call (h : d.JobsOK) (call : ProcessCall Z) : (d.call call).2.JobsOK := by
  have hstep := call_jobs h call
  obtain ⟨hwf, hv⟩ := threads_call h.wf h.threads call
  exact ⟨hwf, hv, hstep.wf h.jobs, hstep.seats (fun p => seen_call h.wf call) h.seats⟩

end Domain

end LinuxAbi.Proc
