import LinuxAbi.Proc.ExitExclusive
import LinuxAbi.Proc.JobMoves

/-!
# Live threads and the domain-wide charge

`ThreadAdmission::commit_infallible` checks nothing. Its note says that the process and the
registry were validated before the token was returned; `ProcessAdmission::prepare_thread`
returns such a token for a process that is not published yet and that its admission may
still take out of the registry. If it is used for tokens of published processes only, a
live thread belongs to a published and registered process.

The domain-wide charge counts the memberships of all processes, registered or not: a token
of a dropped admission keeps its charge until the token goes too. If no admission is dropped
or refused before its tokens, the charge is that of the registered processes and the exit
admissions whenever no operation is under way.
-/

namespace LinuxAbi.Proc

open List
open Lib (tally tally_cons)

variable {Z : Type}

/-! ## What hands hold of the charge -/

/-- The threads that were removed for an exit admission. -/
def Hand.departing : Hand → Nat
  | .exitAdmission _ departing => departing.toList.length
  | _ => 0

/-- Charges between the counter and a thread group, in either direction. -/
def Hand.inTransit : Hand → Nat
  | .releasing todo => todo.count .threadMember
  | .threadReserved .. => 1
  | .exiting _ _ (.zombie departing) => departing.toList.length
  | _ => 0

/-- The thread tokens of a process in a hand: held, or about to be dropped. -/
def Hand.threadTokens (p : Nat) (hand : Hand) : Multiset Nat := tokens p hand.threadClaims

theorem weight_releases (todo : List Release) :
    weight (tally Release.threadClaims todo) = todo.count .threadMember := by
  induction todo with
  | nil => rfl
  | cons next todo ih =>
    rw [tally_cons, weight_add, ih, count_cons, Nat.add_comm]
    cases next <;> rfl

theorem weight_hand (hand : Hand) : weight hand.threadClaims = hand.departing + hand.inTransit := by
  cases hand with
  | releasing todo => exact (weight_releases todo).trans (Nat.zero_add _).symm
  | scopedBinding _ node | scopedBound _ node => cases node <;> rfl
  | exiting q np stage =>
    cases stage with
    | zombie departing => cases departing <;> rfl
    | _ => rfl
  | _ => rfl

theorem weight_hands (hands : List Hand) :
    weight (tally Hand.threadClaims hands) = tally Hand.departing hands + tally Hand.inTransit hands := by
  induction hands with
  | nil => rfl
  | cons hand hands ih =>
    rw [tally_cons, weight_add, ih, weight_hand, tally_cons, tally_cons]
    omega

theorem tokens_hands (p : Nat) (hands : List Hand) :
    tokens p (tally Hand.threadClaims hands) = tally (Hand.threadTokens p) hands := by
  induction hands with
  | nil => rfl
  | cons hand hands ih =>
    rw [tally_cons, tokens_add, ih, tally_cons]
    rfl

/-- A thread token that may be an admission's, or the making of one. -/
def Hand.lent (p : Nat) : Hand → Bool
  | .threadChecked q _ .admission | .threadReserved q _ .admission | .threadAdmission q _ => q == p
  | _ => false

/-- What the caller has between operations: tokens, and nothing that is under way. -/
def Hand.resting : Hand → Bool
  | .empty | .releasing [] | .admission _ | .scopedAdmission .. | .initialAdmission ..
  | .scopedInitial .. | .threadAdmission .. | .jobAdmitted .. | .exitAdmission .. => true
  | _ => false

theorem Hand.inTransit_resting {hand : Hand} (h : hand.resting = true) : hand.inTransit = 0 := by
  cases hand with
  | releasing todo =>
    cases todo with
    | nil => rfl
    | cons => cases h
  | threadReserved | exiting => cases h
  | _ => rfl

namespace Domain

variable {d d' : Domain Z} {p k : Nat} {new : Hand}

/-! ## Tokens and the admission they came from -/

/-- Somebody holds a token of the process that did not come with it. -/
def Lent (d : Domain Z) (p : Nat) : Prop := ∃ hand ∈ d.hands, hand.lent p = true

theorem lent_setHand (h : (d'.setHand k new).Lent p) (hhands : d'.hands = d.hands)
    (hnew : new.lent p = false) : d.Lent p := by
  obtain ⟨hand, hmem, hlent⟩ := h
  rcases mem_or_eq_of_mem_set hmem with hold | rfl
  · exact ⟨hand, hhands ▸ hold, hlent⟩
  · cases hnew.symm.trans hlent

theorem lent_putHand (h : (d'.putHand new).Lent p) (hhands : d'.hands = d.hands)
    (hnew : new.lent p = false) : d.Lent p := by
  obtain ⟨hand, hmem, hlent⟩ := h
  rcases mem_append.mp hmem with hold | hlast
  · exact ⟨hand, hhands ▸ hold, hlent⟩
  · cases mem_singleton.mp hlast
    cases hnew.symm.trans hlent

theorem lent_forkToken (d : Domain Z) (new : NewProcess) (q p : Nat) :
    (d.forkToken new q).lent p = false := by
  unfold forkToken
  split <;> rfl

theorem release_hands (d : Domain Z) (next : Release) : (d.release next).2.hands = d.hands := by
  rcases (release_spec d next).2 with hsame | ⟨p, -, -, -, hhands⟩
  · exact hsame.hands
  · exact hhands

theorem ScanOnly.lent (h : ScanOnly d r) (hlent : r.2.Lent p) : d.Lent p := by
  obtain ⟨hand, hmem, hlent⟩ := hlent
  rcases h.hands with hsame | ⟨k, old, new, -, -, hnew, hset⟩
  · exact ⟨hand, hsame ▸ hmem, hlent⟩
  rw [hset] at hmem
  rcases mem_or_eq_of_mem_set hmem with hold | rfl
  · exact ⟨hand, hold, hlent⟩
  · cases hand <;> first | cases hlent | cases hnew

/-- Through its admission a registered process gets its first token. -/
theorem lent_prepareAdmissionThread (hwf : d.WF) (h : Nat) (tid : Pid)
    (hlent : (d.prepareAdmissionThread h tid).2.Lent p) :
    d.Lent p ∨ ∃ process, (d.prepareAdmissionThread h tid).2.processes[p]? = some process ∧
      process.linked = true := by
  unfold prepareAdmissionThread at hlent ⊢
  split at hlent
  · next q hh =>
    obtain ⟨hand, hmem, hhand⟩ := hlent
    rcases mem_append.mp hmem with hold | hnew
    · exact .inl ⟨hand, hold, hhand⟩
    obtain rfl := mem_singleton.mp hnew
    obtain rfl : q = p := beq_iff_eq.mp hhand
    obtain ⟨a, ⟨ha, -, hlink⟩, -⟩ := hwf.claim hh (Multiset.mem_singleton_self _)
    obtain ⟨process, hp, rfl⟩ := of_getElem?_tree ha
    exact .inr ⟨process, hp, hlink⟩
  · exact .inl hlent

theorem lent_reserveThread (h : Nat) (allocated : Bool)
    (hlent : (d.reserveThread h allocated).2.Lent p) : d.Lent p := by
  unfold reserveThread at hlent
  split at hlent
  · next q tid owner hh =>
    split at hlent
    · exact lent_setHand hlent rfl rfl
    split at hlent
    · exact lent_setHand hlent rfl rfl
    obtain ⟨hand, hmem, hhand⟩ := hlent
    rcases mem_or_eq_of_mem_set hmem with hold | rfl
    · exact ⟨hand, hold, hhand⟩
    · refine ⟨_, mem_of_getElem? hh, ?_⟩
      cases owner with
      | admission => exact hhand
      | domain | initial | scopedInitial => cases hhand
  · exact hlent

/-- A token of the domain is for a registered process. -/
theorem lent_linkThread (hv : d.threads.WF) (h : Nat) (hlent : (d.linkThread h).2.Lent p) :
    d.Lent p ∨ ∃ process, (d.linkThread h).2.processes[p]? = some process ∧
      process.linked = true := by
  unfold linkThread at hlent ⊢
  split at hlent
  · next q tid owner hh =>
    split at hlent
    · exact .inl hlent
    next process hp =>
    split at hlent
    · exact .inl (lent_setHand hlent rfl rfl)
    next hnone =>
    obtain ⟨hand, hmem, hhand⟩ := hlent
    rcases mem_or_eq_of_mem_set hmem with hold | rfl
    · exact .inl ⟨hand, hold, hhand⟩
    cases owner with
    | admission => exact .inl ⟨_, mem_of_getElem? hh, hhand⟩
    | initial | scopedInitial => cases hhand
    | domain =>
      obtain rfl : q = p := beq_iff_eq.mp hhand
      unfold threadRefusal at hnone
      split at hnone
      · cases hnone
      next hhere =>
      split at hnone
      · cases hnone
      split at hnone
      · cases hnone
      next hseen =>
      have hpub : process.published = true := by
        by_contra hno
        exact hseen ⟨rfl, .inl hno⟩
      rcases (hv.rows q process.threadRow (threadRow_at hp)).registered hpub with hlink | hreaped
      · exact .inr ⟨_, (getElem?_modify_eq ..).trans (congrArg _ hp), hlink⟩
      · exact absurd (.inr hreaped) hhere
  · exact .inl hlent

/-- No other call makes a token. -/
theorem lent_call (hwf : d.WF) (hv : d.threads.WF) (call : ProcessCall Z)
    (hlent : (d.call call).2.Lent p) :
    d.Lent p ∨ ∃ process, (d.call call).2.processes[p]? = some process ∧ process.linked = true := by
  cases call
  case prepareAdmissionThread h tid => exact lent_prepareAdmissionThread hwf h tid hlent
  case reserveThread h allocated => exact .inl (lent_reserveThread h allocated hlent)
  case linkThread h => exact lent_linkThread hv h hlent
  case scan h => exact .inl ((scan_scanOnly h).lent hlent)
  case inheritedZombie h => exact .inl ((inheritedZombie_scanOnly h).lent hlent)
  all_goals
    refine .inl ?_
    revert hlent
    simp only [call, newReaperScope, retain, setChildSubreaper, newInit, admitInit, bindInit,
      prepareFork, prepareForkInit, allocateFork, admitFork, commitProcess, commitWithThread,
      commitInitial, bindScope, bindOuter, commitScoped, dropToken, releaseNext, prepareThread,
      prepareInitialThread, commitThread, commitThreadInfallible, exitThread, exitThreadLocked,
      removeThread, groupExit, createJob, readJob, admitJob, reserveJob, commitJob, moveToGroup,
      moveGroupLive, moveCompare, reserveMove, commitMove, reap, prepareExit, reserveExit, dropExit,
      publishZombie, releaseDeparting, startScan, lockSection, reparentBatch]
    (repeat' split) <;> intro hlent
    all_goals first
      | exact hlent
      | exact lent_setHand hlent rfl rfl
      | exact lent_putHand hlent rfl rfl
      | exact lent_setHand (lent_setHand hlent rfl rfl) rfl rfl
      | exact lent_setHand hlent (release_hands ..) rfl
      | exact lent_setHand hlent (jobsKept_publishWithThread ..).hands rfl
      | exact lent_setHand hlent (jobsOnly_publishGroup ..).hands rfl
      | exact lent_setHand hlent (jobsOnly_admitSessionGroup (by assumption)).hands rfl
      | exact lent_putHand hlent (jobsOnly_admitSessionGroup (by assumption)).hands rfl
      | exact lent_setHand hlent (jobsOnly_reserveGroupMember (by assumption)).hands rfl
      | exact lent_setHand hlent (admitProcess_spec (by assumption)).2.2.2.1 rfl
      | exact lent_setHand hlent (admitProcess_spec (by assumption)).2.2.2.1 (lent_forkToken ..)

/-! ## Rolled-back processes -/

/-- The call takes the process out of the registry: its admission was dropped or refused. -/
def rollsBack (d : Domain Z) (call : ProcessCall Z) (p : Nat) : Bool :=
  d.processes[p]?.any (·.linked) &&
    (d.call call).2.processes[p]?.any fun process => !process.linked && !process.reaped

/-- The rule for admissions: none is dropped or refused with a thread token of it left. -/
def RollsBackAlone (d : Domain Z) (call : ProcessCall Z) : Prop :=
  ∀ p < d.processes.length, d.rollsBack call p = true → ∀ hand ∈ d.hands, hand.lent p = false

instance (d : Domain Z) (call : ProcessCall Z) : Decidable (d.RollsBackAlone call) :=
  inferInstanceAs (Decidable (∀ p < d.processes.length,
    d.rollsBack call p = true → ∀ hand ∈ d.hands, hand.lent p = false))

/-- Of a process that was rolled back no token is left but those that are being dropped. -/
def Returned (d : Domain Z) : Prop :=
  ∀ (p : Nat) (process : Process Z), d.processes[p]? = some process → process.linked = false →
    process.reaped = false → ¬ d.Lent p

/-- A new process is registered. -/
theorem linked_of_new {strict : Prop} (h : ThreadStep strict d.threads d'.threads)
    (hnone : d.processes[p]? = none) (hp : d'.processes[p]? = some process) :
    process.linked = true := by
  have hlen := rows_le hnone
  have hrow := threadRow_at hp
  cases h with
  | still rows | charge rows | discharge rows =>
    rw [rows, getElem?_eq_none hlen] at hrow
    cases hrow
  | turn q row row' lost gained at_ turn rows =>
    rw [rows, getElem?_eq_none (Nat.le_trans (Nat.le_of_eq (length_set ..)) hlen)] at hrow
    cases hrow
  | admitted rows =>
    rw [rows] at hrow
    rcases Lib.getElem?_concat_cases hrow with hold | ⟨-, hfresh⟩
    · rw [getElem?_eq_none hlen] at hold
      cases hold
    · exact congrArg ThreadRow.linked hfresh

theorem Returned.call (h : d.Returned) (hwf : d.WF) (hv : d.threads.WF) (call : ProcessCall Z)
    (hrule : d.RollsBackAlone call) : (d.call call).2.Returned := by
  intro p process hp hunlinked hunreaped hlent
  rcases lent_call hwf hv call hlent with ⟨hand, hmem, hhand⟩ | ⟨process', hp', hlink⟩
  · cases hbefore : d.processes[p]? with
    | none =>
      have hlink := linked_of_new (call_threads False hwf hv call nofun) hbefore hp
      cases hunlinked.symm.trans hlink
    | some a =>
      obtain ⟨b, hb, hdec, -⟩ := call_decided hwf hv call hbefore
      obtain rfl := Option.some.inj (hb.symm.trans hp)
      have hreaped : a.reaped = false :=
        Bool.eq_false_iff.mpr fun hyes => by cases hunreaped.symm.trans (hdec.reaped hyes)
      cases hlink : a.linked with
      | false => exact h p a hbefore hlink hreaped ⟨hand, hmem, hhand⟩
      | true =>
        have hback : d.rollsBack call p = true := by
          simp [rollsBack, hbefore, hb, hlink, hunlinked, hunreaped]
        have hnone := hrule p (Lib.lt_of_getElem? hbefore) hback hand hmem
        cases hnone.symm.trans hhand
  · obtain rfl := Option.some.inj (hp'.symm.trans hp)
    cases hunlinked.symm.trans hlink

/-! ## The charge -/

/-- The thread memberships of the processes with a flag. -/
def membershipsWhere (d : Domain Z) (which : Process Z → Bool) : Nat :=
  tally (fun process => if which process then process.tg.memberships else 0) d.processes

/-- What holds of live threads and charges when `commit_infallible` is used as it should. -/
structure LiveThreads (d : Domain Z) : Prop where
  live : ∀ (p : Nat) (process : Process Z), d.processes[p]? = some process →
    (∃ t ∈ process.tg.threads, t.live = true) → process.published = true ∧ process.linked = true
  /-- every charge is a membership of a registered process or of one that was rolled back,
  a departing thread, or on its way -/
  charge : d.threadMemberships = d.membershipsWhere (·.linked) + d.membershipsWhere (!·.linked)
    + tally Hand.departing d.hands + tally Hand.inTransit d.hands
  /-- so between operations it is what the registered processes and the exit admissions hold -/
  settled : (∀ hand ∈ d.hands, hand.resting = true) →
    d.threadMemberships = d.membershipsWhere (·.linked) + tally Hand.departing d.hands

theorem memberships_split (processes : List (Process Z)) :
    tally (fun row : ThreadRow Z => row.tg.memberships) (processes.map Process.threadRow)
      = tally (fun process => if process.linked then process.tg.memberships else 0) processes
        + tally (fun process => if !process.linked then process.tg.memberships else 0) processes := by
  induction processes with
  | nil => rfl
  | cons process processes ih =>
    rw [map_cons, tally_cons, ih, tally_cons, tally_cons]
    cases hlink : process.linked with
    | true =>
      simp only [if_true, Bool.not_true, Bool.false_eq_true, if_false]
      change process.tg.memberships + _ = _
      omega
    | false =>
      simp only [if_true, Bool.not_false, Bool.false_eq_true, if_false]
      change process.tg.memberships + _ = _
      omega

/-- The charge, wherever it is. -/
theorem charge_eq (hv : d.threads.WF) :
    d.threadMemberships = d.membershipsWhere (·.linked) + d.membershipsWhere (!·.linked)
      + tally Hand.departing d.hands + tally Hand.inTransit d.hands := by
  have hchg : d.threadMemberships
      = tally (fun row : ThreadRow Z => row.tg.memberships) (d.processes.map Process.threadRow)
        + weight (tally Hand.threadClaims d.hands) := hv.charged
  rw [memberships_split, weight_hands, ← Nat.add_assoc] at hchg
  exact hchg

/-- A process that is not registered has no live thread, so all its threads wait. -/
theorem stray_threads (hv : d.threads.WF) (hl : ∀ row ∈ d.threads.rows, row.Lively)
    (hp : d.processes[p]? = some process) (hunlinked : process.linked = false) :
    ((process.tg.threads.map (·.node) : List Nat) : Multiset Nat)
      = tally (Hand.threadTokens p) d.hands := by
  have hok := hv.rows p process.threadRow (threadRow_at hp)
  have hlive : process.tg.liveThreads = 0 := by
    by_contra hne
    have hlink := (hl process.threadRow (mem_of_getElem? (threadRow_at hp))
      (Nat.pos_of_ne_zero hne)).2
    cases hunlinked.symm.trans hlink
  have hnone : process.tg.threads.filter (fun t => !t.live) = process.tg.threads := by
    refine filter_eq_self.mpr ?_
    intro t ht
    have hcount : process.tg.threads.countP (·.live) = 0 := hok.counted.live.symm.trans hlive
    have hdead := countP_eq_zero.mp hcount t ht
    exact (Bool.not_eq_true' _).mpr (Bool.eq_false_iff.mpr hdead)
  have hwait : tokens p d.threads.claims = process.tg.waiting := hok.waiting
  unfold ThreadGroup.waiting at hwait
  rw [hnone] at hwait
  rw [← hwait]
  exact tokens_hands p d.hands

/-- Between operations a process that is not registered has no token, so no membership. -/
theorem memberships_outside (hwf : d.WF) (hv : d.threads.WF)
    (hl : ∀ row ∈ d.threads.rows, row.Lively) (hret : d.Returned)
    (hrest : ∀ hand ∈ d.hands, hand.resting = true) (hp : d.processes[p]? = some process)
    (hunlinked : process.linked = false) : process.tg.memberships = 0 := by
  have hok := hv.rows p process.threadRow (threadRow_at hp)
  suffices hthreads : process.tg.threads = [] from
    hok.counted.memberships.trans (congrArg length hthreads)
  cases hreaped : process.reaped with
  | true => exact (hok.zombie (hok.reaped hreaped)).1
  | false =>
    have hnodes := stray_threads hv hl hp hunlinked
    rw [Lib.tally_eq_zero, Multiset.coe_eq_zero, map_eq_nil_iff] at hnodes
    · exact hnodes
    intro hand hmem
    have hresting := hrest hand hmem
    obtain ⟨h, hh⟩ := mem_iff_getElem?.mp hmem
    have hother : ∀ {q node : Nat}, q ≠ p → tokens p {.token q node} = 0 := fun hne =>
      (tokens_token ..).trans (if_neg hne)
    cases hand with
    | threadAdmission q node =>
      refine hother fun heq => hret p process hp hunlinked hreaped ⟨_, hmem, ?_⟩
      exact beq_iff_eq.mpr heq
    | initialAdmission q node | scopedInitial q node =>
      -- its admission is there, so it is registered
      refine hother ?_
      rintro rfl
      obtain ⟨a, ⟨ha, -, hlink⟩, -⟩ := hwf.claim hh (Multiset.mem_singleton_self _)
      obtain ⟨process', hp', rfl⟩ := of_getElem?_tree ha
      obtain rfl := Option.some.inj (hp.symm.trans hp')
      cases hunlinked.symm.trans hlink
    | releasing todo =>
      cases todo with
      | nil => rfl
      | cons => cases hresting
    | scopedBinding | scopedBound | exiting => cases hresting
    | _ => rfl

theorem liveThreads_of_wf (hwf : d.WF) (hv : d.threads.WF)
    (hl : ∀ row ∈ d.threads.rows, row.Lively) (hret : d.Returned) : d.LiveThreads where
  live := by
    intro p process hp hlive
    have hok := hv.rows p process.threadRow (threadRow_at hp)
    refine hl process.threadRow (mem_of_getElem? (threadRow_at hp)) ?_
    rw [hok.counted.live]
    exact countP_pos_iff.mpr hlive
  charge := charge_eq hv
  settled := by
    intro hrest
    have houtside : d.membershipsWhere (!·.linked) = 0 := by
      refine Lib.tally_eq_zero ?_
      intro process hmem
      obtain ⟨p, hp⟩ := mem_iff_getElem?.mp hmem
      cases hlink : process.linked with
      | true => exact if_neg (by simp [hlink])
      | false =>
        exact (if_pos (by simp [hlink])).trans (memberships_outside hwf hv hl hret hrest hp hlink)
    have hchg := charge_eq hv
    rw [houtside, Lib.tally_eq_zero fun hand hmem => Hand.inTransit_resting (hrest hand hmem)] at hchg
    exact hchg

/-- As long as `commit_infallible` is used for tokens of published processes only, and no
admission is dropped or refused with a token of it left, a live thread belongs to a published,
registered process, and between operations the charge is that of the registered processes and
the departing threads. -/
theorem run_live_threads (limit : Nat) (calls : List (ProcessCall Z))
    (hrule : Lib.Respects Domain.call (fun d call => d.PublishesSeen call ∧ d.RollsBackAlone call)
      (Domain.new Z limit) calls) :
    (Lib.run Domain.call (Domain.new Z limit) calls).LiveThreads := by
  have hstep : ∀ (d : Domain Z) (call : ProcessCall Z),
      (d.WF ∧ d.threads.WF) ∧ (∀ row ∈ d.threads.rows, row.Lively) ∧ d.Returned →
      d.PublishesSeen call ∧ d.RollsBackAlone call →
      ((d.call call).2.WF ∧ (d.call call).2.threads.WF) ∧
        (∀ row ∈ (d.call call).2.threads.rows, row.Lively) ∧ (d.call call).2.Returned := by
    rintro d call ⟨⟨hwf, hv⟩, hl, hret⟩ ⟨hseen, halone⟩
    exact ⟨threads_call hwf hv call, (call_threads True hwf hv call fun _ => hseen).lively hv hl,
      hret.call hwf hv call halone⟩
  have hnew : ((Domain.new Z limit).WF ∧ (Domain.new Z limit).threads.WF) ∧
      (∀ row ∈ (Domain.new Z limit).threads.rows, row.Lively) ∧ (Domain.new Z limit).Returned :=
    ⟨⟨wf_new Z limit, threads_wf_new Z limit⟩, fun _ hrow => absurd hrow not_mem_nil,
      fun _ _ hp => by cases hp⟩
  obtain ⟨⟨hwf, hv⟩, hl, hret⟩ := Lib.run_preserves_respects hstep hnew calls hrule
  exact liveThreads_of_wf hwf hv hl hret

/-- The admission is committed first, and the thread is made live after it. A second fork is
rolled back, its thread token first. -/
def publishedFork : Domain Unit :=
  Lib.run Domain.call (Domain.new Unit 8)
    (preparedFork ++ [.commitProcess 1, .commitThreadInfallible 2,
      .prepareFork 0 0 3, .allocateFork 3 true, .admitFork 3,
      .prepareAdmissionThread 3 8, .reserveThread 4 true, .linkThread 4,
      .dropToken 4, .releaseNext 4, .releaseNext 4, .dropToken 3, .releaseNext 3, .releaseNext 3])

theorem run_live_threads_fork :
    ((publishedFork.processes[1]?.any fun process => process.tg.threads.any (·.live)) = true ∧
      ∀ process, publishedFork.processes[1]? = some process →
        process.published = true ∧ process.linked = true) ∧
    (∀ hand ∈ publishedFork.hands, hand.resting = true) ∧ publishedFork.threadMemberships
      = publishedFork.membershipsWhere (·.linked) + tally Hand.departing publishedFork.hands := by
  have hlive : publishedFork.LiveThreads := by
    exact run_live_threads 8 _ (by decide +kernel)
  have hany : (publishedFork.processes[1]?.any fun process =>
      process.tg.threads.any (·.live)) = true := by decide +kernel
  have hrest : ∀ hand ∈ publishedFork.hands, hand.resting = true := by decide +kernel
  refine ⟨⟨hany, ?_⟩, hrest, hlive.settled hrest⟩
  intro process hp
  rw [hp, Option.any_some] at hany
  obtain ⟨t, ht, halive⟩ := any_eq_true.mp hany
  exact hlive.live 1 process hp ⟨t, ht, halive⟩

/-- The admission is dropped, and its thread token is published all the same: the process
has a live thread, is not registered and was never published, and the domain is charged for
it. -/
theorem thread_outlives_admission :
    let d := Lib.run Domain.call (Domain.new Unit 8)
      (preparedFork ++ [.dropToken 1, .releaseNext 1, .releaseNext 1, .releaseNext 1,
        .commitThreadInfallible 2])
    (d.processes[1]?.any fun process =>
      process.tg.liveThreads == 1 && !process.published && !process.linked) = true ∧
      d.threadMemberships = 1 ∧ d.membershipsWhere (·.linked) = 0 ∧
      (∀ hand ∈ d.hands, hand.departing = 0) ∧ ∀ hand ∈ d.hands, hand.resting = true := by
  decide +kernel

end Domain

end LinuxAbi.Proc
