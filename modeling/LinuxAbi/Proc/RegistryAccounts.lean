import LinuxAbi.Proc.JobMoves
import LinuxAbi.Proc.LiveThreads

/-!
# The accounts of the registry

In every reachable state the registry's three counts are the sizes of its three trees and
identities are unique. A group's counter is the number of its registered processes and of
the memberships that running operations hold, so when nothing is going on it is the number
of its processes; a group without members is about to be removed by the operation that
emptied it, or by the one that made it. No counter is ever released at zero.
-/

namespace LinuxAbi.Proc

open List

/-- Whether the hand belongs to an operation that is being carried out. Tokens are what
callers hold between operations. -/
def Hand.inProgress : Hand → Bool
  | .empty | .admission _ | .scopedAdmission .. | .initialAdmission .. | .scopedInitial ..
  | .threadAdmission .. | .exitAdmission .. => false
  | _ => true

theorem Hand.jobClaims_of_not_inProgress {hand : Hand} (h : hand.inProgress = false) :
    hand.jobClaims = 0 := by
  cases hand with
  | empty | admission | scopedAdmission | initialAdmission | scopedInitial | threadAdmission
  | exitAdmission => rfl
  | _ => cases h

namespace Domain

variable {Z : Type} {d : Domain Z}

/-- The memberships of a group that running operations hold. -/
def heldMembers (d : Domain Z) (g : Nat) : Nat := d.jobs.claims.count (.slot g)

/-- No operation is being carried out. -/
def Quiescent (d : Domain Z) : Prop := ∀ hand ∈ d.hands, hand.inProgress = false

instance (d : Domain Z) : Decidable d.Quiescent :=
  inferInstanceAs (Decidable (∀ hand ∈ d.hands, hand.inProgress = false))

/-- The registered processes of a group. -/
def members (d : Domain Z) (g : Nat) : Nat :=
  d.processes.countP fun process => process.linked && process.group == g

/-- The registered groups of a session. -/
def groupsIn (d : Domain Z) (s : Nat) : Nat :=
  d.groups.countP fun group => group.linked && group.session == s

/-- The registry counts what it holds. -/
structure RegistryAccounts (d : Domain Z) : Prop where
  pids : ∀ (i j : Nat) (a b : Process Z), d.processes[i]? = some a → d.processes[j]? = some b →
    a.linked = true → b.linked = true → a.pid = b.pid → i = j
  pgids : ∀ (i j : Nat) (a b : ProcessGroup), d.groups[i]? = some a → d.groups[j]? = some b →
    a.linked = true → b.linked = true → a.pgid = b.pgid → i = j
  sids : ∀ (i j : Nat) (a b : Session), d.sessions[i]? = some a → d.sessions[j]? = some b →
    a.linked = true → b.linked = true → a.sid = b.sid → i = j
  counts : d.memberships = d.processes.countP (·.linked) ∧ d.groupCount = d.groups.countP (·.linked) ∧
    d.sessionCount = d.sessions.countP (·.linked)
  limits : d.memberships ≤ d.membershipLimit ∧ d.groupCount ≤ d.membershipLimit ∧
    d.sessionCount ≤ d.membershipLimit
  /-- in any state, also between the sections of an operation -/
  members : ∀ (g : Nat) (group : ProcessGroup), d.groups[g]? = some group →
    group.memberships = d.members g + d.heldMembers g
  sessions : ∀ (s : Nat) (session : Session), d.sessions[s]? = some session →
    session.groups = d.groupsIn s ∧ (session.linked = true → 0 < session.groups)
  /-- a registered process is in a registered group of a registered session -/
  registered : ∀ (p : Nat) (process : Process Z), d.processes[p]? = some process →
    process.linked = true → ∃ group session, d.groups[process.group]? = some group ∧
      group.linked = true ∧ d.sessions[group.session]? = some session ∧ session.linked = true
  /-- between operations nothing is held and nothing is empty -/
  settled : d.Quiescent → ∀ (g : Nat) (group : ProcessGroup), d.groups[g]? = some group →
    group.linked = true → group.memberships = d.members g ∧ 0 < group.memberships
  /-- the next release of a drop finds its counter positive -/
  groupRelease : ∀ (h g : Nat) (todo : List Release),
    d.hands[h]? = some (.releasing (.groupMember g :: todo)) →
    ∃ group, d.groups[g]? = some group ∧ 0 < group.memberships
  threadRelease : ∀ (h : Nat) (hand : Hand), d.hands[h]? = some hand → 0 < hand.inTransit →
    0 < d.threadMemberships
  /-- so do the removals from the trees -/
  processRemoval : ∀ (p : Nat) (process : Process Z), d.processes[p]? = some process →
    process.linked = true → 0 < d.memberships
  groupRemoval : ∀ (g : Nat) (group : ProcessGroup), d.groups[g]? = some group →
    group.linked = true → 0 < d.groupCount ∧ 0 < d.sessionCount ∧
      ∃ session, d.sessions[group.session]? = some session ∧ session.linked = true ∧
        0 < session.groups

/-! ## Reading the accounts off the view -/

theorem isSome_jobRow (process : Process Z) : process.jobRow.isSome = process.linked := by
  unfold Process.jobRow
  cases process.linked with
  | false | true => rfl

theorem jobRow_beq (process : Process Z) (g : Nat) :
    (process.jobRow == some g) = (process.linked && process.group == g) := by
  unfold Process.jobRow
  cases process.linked with
  | false | true => rfl

theorem members_eq (d : Domain Z) (g : Nat) : d.jobs.tables.membersOf g = d.members g := by
  change (d.processes.map Process.jobRow).countP _ = _
  rw [countP_map]
  refine countP_congr ?_
  intro process _
  rw [Function.comp_apply, jobRow_beq]

theorem groupsIn_eq (d : Domain Z) (s : Nat) : d.jobs.tables.groupsOf s = d.groupsIn s := by
  change (d.groups.map ProcessGroup.jobRow).countP _ = _
  rw [countP_map]
  rfl

/-- A registered process is a member of its group. -/
theorem JobsOK.group (h : d.JobsOK) {p : Nat} {process : Process Z}
    (hp : d.processes[p]? = some process) (hlink : process.linked = true) :
    ∃ group, d.groups[process.group]? = some group ∧ group.linked = true := by
  have hmember : 0 < d.jobs.tables.membersOf process.group := by
    refine Lib.countP_pos_of_getElem? (jobRow_at hp) ?_
    rw [jobRow_of_linked hlink]
    exact beq_self_eq_true _
  cases hg : d.groups[process.group]? with
  | none =>
    have hlen : d.jobs.tables.groups.length ≤ process.group := by
      change (d.groups.map ProcessGroup.jobRow).length ≤ _
      rw [length_map]
      exact getElem?_eq_none_iff.mp hg
    have hnone := (h.jobs.accounts.range _ hlen).1
    omega
  | some group =>
    refine ⟨group, rfl, ?_⟩
    cases hunlinked : group.linked with
    | true => rfl
    | false =>
      have hcnt := h.jobs.accounts.counted _ _ (groupRow_at hg)
      have hemp := h.jobs.accounts.unlinked _ _ (groupRow_at hg) hunlinked
      omega

theorem charged_pos (hv : d.threads.WF) {k : Nat} {hand : Hand} (hh : d.hands[k]? = some hand)
    (hcharge : 0 < hand.inTransit) : 0 < d.threadMemberships := by
  obtain ⟨rest, hcls⟩ := claims_of_hand hh
  have hchg : d.threadMemberships = _ + weight d.threads.claims := hv.charged
  rw [hcls, weight_add, weight_hand] at hchg
  omega

theorem JobsOK.accounts (h : d.JobsOK) : d.RegistryAccounts where
  pids := by
    intro i j a b ha hb hal hbl heq
    exact h.wf.tree.pids i j a.row b.row (getElem?_tree ha) (getElem?_tree hb) hal hbl heq
  pgids := by
    intro i j a b ha hb
    exact h.jobs.identities.pgids i j a.jobRow b.jobRow (groupRow_at ha) (groupRow_at hb)
  sids := by
    intro i j a b ha hb
    exact h.jobs.identities.sids i j a.jobRow b.jobRow (sessionRow_at ha) (sessionRow_at hb)
  counts := by
    have hprocesses := h.jobs.accounts.registered
    have hgrp := h.jobs.identities.groupCount
    have hsess := h.jobs.identities.sessionCount
    change d.memberships = (d.processes.map Process.jobRow).countP _ at hprocesses
    change d.groupCount = (d.groups.map ProcessGroup.jobRow).countP _ at hgrp
    change d.sessionCount = (d.sessions.map Session.jobRow).countP _ at hsess
    rw [countP_map] at hprocesses hgrp hsess
    refine ⟨?_, hgrp, hsess⟩
    rw [hprocesses]
    refine countP_congr ?_
    intro process _
    rw [Function.comp_apply, isSome_jobRow]
  limits := ⟨h.jobs.accounts.bounded, h.jobs.identities.bounded⟩
  members := by
    intro g group hg
    rw [← members_eq]
    exact h.jobs.accounts.counted g group.jobRow (groupRow_at hg)
  sessions := by
    intro s session hs
    rw [← groupsIn_eq]
    exact ⟨h.jobs.identities.counted s session.jobRow (sessionRow_at hs),
      (h.jobs.identities.registered s session.jobRow (sessionRow_at hs)).mp⟩
  registered := by
    intro p process hp hlink
    obtain ⟨group, hg, hlive⟩ := h.group hp hlink
    obtain ⟨session, hs, hlive', -⟩ := session_of_group h.jobs hg hlive
    exact ⟨group, session, hg, hlive, hs, hlive'⟩
  settled := by
    intro hquiet g group hg hlink
    have hnone : d.jobs.claims = 0 := by
      refine Lib.tally_eq_zero ?_
      intro hand hmem
      exact Hand.jobClaims_of_not_inProgress (hquiet hand hmem)
    have hcnt := h.jobs.accounts.counted g group.jobRow (groupRow_at hg)
    rw [hnone, Multiset.count_zero, add_zero, members_eq] at hcnt
    refine ⟨hcnt, Nat.pos_of_ne_zero ?_⟩
    intro hemp
    have hwatched := h.jobs.accounts.watched g group.jobRow (groupRow_at hg) hlink hemp
    rw [hnone] at hwatched
    exact Multiset.notMem_zero _ hwatched
  groupRelease := by
    intro k g todo hh
    have hslot : JobClaim.slot g ∈ d.jobs.claims := mem_jobClaims hh
      (Multiset.mem_add.mpr (.inl (Multiset.mem_singleton_self _)))
    obtain ⟨row, hrow, hpos⟩ := h.jobs.accounts.slot hslot
    obtain ⟨group, hg, rfl⟩ := of_groupRow_at hrow
    exact ⟨group, hg, hpos⟩
  threadRelease := fun k hand hh hchg => charged_pos h.threads hh hchg
  processRemoval := by
    intro p process hp hlink
    have hreg := h.jobs.accounts.registered
    change d.memberships = _ at hreg
    rw [hreg]
    refine Lib.countP_pos_of_getElem? (jobRow_at hp) ?_
    rw [isSome_jobRow]
    exact hlink
  groupRemoval := by
    intro g group hg hlink
    obtain ⟨session, hs, hlive, hpos⟩ := session_of_group h.jobs hg hlink
    have hgrp : d.groupCount = _ := h.jobs.identities.groupCount
    have hsess : d.sessionCount = _ := h.jobs.identities.sessionCount
    rw [hgrp, hsess]
    exact ⟨Lib.countP_pos_of_getElem? (groupRow_at hg) hlink,
      Lib.countP_pos_of_getElem? (sessionRow_at hs) hlive, session, hs, hlive, hpos⟩

theorem jobsOK_new (Z : Type) (limit : Nat) : (Domain.new Z limit).JobsOK where
  wf := wf_new Z limit
  threads := threads_wf_new Z limit
  jobs := by
    constructor
    · constructor
      · intro i j a b ha
        cases ha
      · intro i j a b ha
        cases ha
      · rfl
      · rfl
      · exact ⟨Nat.zero_le _, Nat.zero_le _⟩
      · intro g group hg
        cases hg
      · intro s session hs
        cases hs
      · intro s session hs
        cases hs
    · constructor
      · intro g group hg
        cases hg
      · intro g _
        exact ⟨rfl, rfl⟩
      · intro g group hg
        cases hg
      · intro g group hg
        cases hg
      · rfl
      · exact Nat.zero_le _
  seats := fun _ hmem => absurd hmem (Multiset.notMem_zero _)

/-- Over every run. -/
theorem run_registry_accounts (limit : Nat) (calls : List (ProcessCall Z)) :
    (Lib.run Domain.call (Domain.new Z limit) calls).RegistryAccounts := by
  have hrun := Lib.run_preserves (I := JobsOK) (fun _ call h => h.call call) (jobsOK_new Z limit) calls
  exact hrun.accounts

-- the child makes a session of its own, and its old group keeps its other member
example :
    let d := Lib.run Domain.call (Domain.new Unit 8)
      [.newInit 0 1 true, .admitInit 0 true, .bindInit 0,
       .prepareFork 0 0 2, .allocateFork 1 true, .admitFork 1, .commitProcess 1,
       .prepareThread 1 2, .reserveThread 2 true, .linkThread 2, .commitThread 2,
       .createJob 1 .session, .readJob 3, .admitJob 3 true, .reserveJob 3, .commitJob 3,
       .releaseNext 3, .releaseNext 3]
    d.Quiescent ∧ d.groups.map (·.memberships) = [1, 1] ∧ d.sessions.map (·.groups) = [1, 1] := by
  decide +kernel

end Domain

end LinuxAbi.Proc
