import LinuxAbi.Proc.CallEvents
import LinuxAbi.Proc.Reachable
import LinuxAbi.Proc.ThreadView

/-!
# Every call is a step of the threads

The threads of a domain, and one lemma for each section of the source that touches thread
groups, tokens or the domain-wide charge; `Domain.call_threads` collects them.
-/

namespace LinuxAbi.Proc

open ThreadGroup
open List
open Lib (tally tally_cons tally_set)

/-! ## The threads of a domain -/

/-- A process as its threads see it. -/
def Process.threadRow {Z : Type} (process : Process Z) : ThreadRow Z where
  tg := process.tg
  zombie := process.isZombie
  payload := process.zombiePayload
  reaped := process.reaped
  published := process.published
  linked := process.linked

def Release.threadClaims : Release → Multiset ThreadClaim
  | .detachThread p node => {.token p node}
  | .threadMember => {.charge}
  | .unlinkProcess _ | .groupMember _ | .emptyGroup _ => 0

/-- What a hand owns of thread groups. -/
def Hand.threadClaims : Hand → Multiset ThreadClaim
  | .releasing todo => tally Release.threadClaims todo
  | .initialAdmission p node | .scopedInitial p node _ _ | .threadAdmission p node =>
    {.token p node}
  | .scopedBinding p (some node) _ _ | .scopedBound p (some node) => {.token p node}
  | .threadReserved .. => {.charge}
  | .exitAdmission p departing => {.exit p departing}
  | .exiting _ _ (.zombie departing) => charges departing
  | _ => 0

/-- The token that `commit_infallible` publishes. -/
def ProcessCall.infallible {Z : Type} : ProcessCall Z → Option Nat
  | .commitThreadInfallible h => some h
  | _ => none

namespace Domain

variable {Z : Type} {strict : Prop} {d d' : Domain Z}

/-- The threads of a domain. -/
def threads (d : Domain Z) : ThreadView Z where
  rows := d.processes.map Process.threadRow
  charged := d.threadMemberships
  nextNode := d.nextNode
  claims := tally Hand.threadClaims d.hands

/-! ## Updates of the tables -/

variable {p k node : Nat} {process : Process Z} {old new hand : Hand} {tg : ThreadGroup}

theorem threadRow_at (hp : d.processes[p]? = some process) :
    d.threads.rows[p]? = some process.threadRow := Lib.getElem?_map_of_some hp

/-- A change of a process is a change of its row. -/
theorem threadRows_modifyProcess (hp : d.processes[p]? = some process) (f : Process Z → Process Z) :
    (d.modifyProcess p f).threads.rows = d.threads.rows.set p (f process).threadRow := by
  change (d.processes.modify p f).map Process.threadRow = _
  rw [Lib.modify_eq_set_of_some hp, map_set]
  rfl

/-- Nothing that threads depend on is written. -/
structure ThreadsKept (d d' : Domain Z) : Prop where
  rows : d'.threads.rows = d.threads.rows
  node : d'.nextNode = d.nextNode
  charged : d'.threadMemberships = d.threadMemberships
  hands : d'.hands = d.hands

theorem ThreadsKept.refl : ThreadsKept d d := ⟨rfl, rfl, rfl, rfl⟩

theorem ThreadsKept.trans (h : ThreadsKept d d') (h' : ThreadsKept d' d'') : ThreadsKept d d'' :=
  ⟨h'.rows.trans h.rows, h'.node.trans h.node, h'.charged.trans h.charged, h'.hands.trans h.hands⟩

theorem JobsOnly.threads (h : JobsOnly d d') : ThreadsKept d d' :=
  ⟨congrArg (map Process.threadRow) h.processes, h.nextNode, h.threadMemberships, h.hands⟩

theorem threadsKept_modifyProcess (d : Domain Z) (p : Nat)
    (hf : ∀ process, (f process).threadRow = process.threadRow) :
    ThreadsKept d (d.modifyProcess p f) :=
  ⟨Lib.map_modify_of_eq hf d.processes p, rfl, rfl, rfl⟩

/-- A hand passes on what it owns of thread groups. -/
theorem threads_setHand (new : Hand) (hold : d.hands[k]? = some old)
    (hcls : new.threadClaims = old.threadClaims) : (d.setHand k new).threads = d.threads :=
  congrArg (fun claims => { d.threads with claims }) (Lib.tally_set_of_eq hold hcls)

theorem threads_putHand (d : Domain Z) (hcls : new.threadClaims = 0) :
    (d.putHand new).threads = d.threads := by
  have htally : tally Hand.threadClaims (d.hands ++ [new]) = tally Hand.threadClaims d.hands := by
    rw [Lib.tally_append, tally_cons, hcls]
    exact add_zero _
  exact congrArg (fun claims => { d.threads with claims }) htally

theorem ThreadsKept.threads_eq (h : ThreadsKept d d') : d'.threads = d.threads := by
  have hrows := h.rows
  have hcls : d'.threads.claims = d.threads.claims := congrArg (tally Hand.threadClaims) h.hands
  unfold threads at hrows hcls ⊢
  dsimp only at hrows hcls ⊢
  rw [hrows, hcls, h.charged, h.node]

/-- A call is a step of the threads. -/
abbrev ThreadMoves (d : Domain Z) (strict : Prop) (r : Answer × Domain Z) : Prop :=
  ThreadStep strict d.threads r.2.threads

theorem stillThreads (h : d'.threads = d.threads) : ThreadStep strict d.threads d'.threads := by
  rw [h]
  exact .still rfl rfl rfl rfl

/-- Another hand changes as well, and passes on what it owns. -/
theorem thenHand (hold : d.hands[k]? = some old) (hcls : new.threadClaims = old.threadClaims)
    (hstep : ThreadStep strict v d.threads) : ThreadStep strict v (d.setHand k new).threads := by
  rw [threads_setHand new hold hcls]
  exact hstep

theorem ThreadsKept.setHand_eq (h : ThreadsKept d d') (hold : d.hands[k]? = some old)
    (hcls : new.threadClaims = old.threadClaims) : (d'.setHand k new).threads = d.threads := by
  have hold' : d'.hands[k]? = some old := by
    rw [h.hands]
    exact hold
  exact (threads_setHand _ hold' hcls).trans h.threads_eq

theorem ThreadsKept.setHand (h : ThreadsKept d d') (hold : d.hands[k]? = some old)
    (hcls : new.threadClaims = old.threadClaims) :
    ThreadStep strict d.threads (d'.setHand k new).threads :=
  stillThreads (h.setHand_eq hold hcls)

/-- One process takes a turn, and a hand exchanges claims for it. -/
theorem turn_setHand (rest : Multiset ThreadClaim) (hp : d.processes[p]? = some process)
    (hold : d.hands[k]? = some old) (hhands : d'.hands = d.hands)
    (hchg : d'.threadMemberships = d.threadMemberships)
    (hrows : d'.threads.rows = d.threads.rows.set p row') (hlost : old.threadClaims = lost + rest)
    (hgain : new.threadClaims = gained + rest)
    (turn : ThreadTurn strict p d.nextNode process.threadRow lost gained row' d'.nextNode) :
    ThreadStep strict d.threads (d'.setHand k new).threads := by
  refine .turn p process.threadRow row' lost gained (threadRow_at hp) turn hrows hchg ?_
  have hold' : d'.hands[k]? = some old := by
    rw [hhands]
    exact hold
  have hset := tally_set (f := Hand.threadClaims) hold' new
  rw [hlost, hgain, ← add_assoc, ← add_assoc, hhands] at hset
  change tally Hand.threadClaims (d'.hands.set k new) + lost
    = tally Hand.threadClaims d.hands + gained
  rw [hhands]
  exact add_right_cancel hset

/-- The same, where nothing but the process and the hand changes. -/
theorem turn_modify (hp : d.processes[p]? = some process) (hold : d.hands[k]? = some old)
    (turn : ThreadTurn strict p d.nextNode process.threadRow old.threadClaims new.threadClaims
      (f process).threadRow d.nextNode) :
    ThreadStep strict d.threads ((d.modifyProcess p f).setHand k new).threads :=
  turn_setHand 0 hp hold rfl rfl (threadRows_modifyProcess hp f) (add_zero _).symm
    (add_zero _).symm turn

/-- One process takes a turn, and what it gives up is taken by a new hand. -/
theorem turn_putHand (hp : d.processes[p]? = some process)
    (hhands : d'.hands = d.hands) (hchg : d'.threadMemberships = d.threadMemberships)
    (hrows : d'.threads.rows = d.threads.rows.set p row')
    (turn : ThreadTurn strict p d.nextNode process.threadRow 0 new.threadClaims row' d'.nextNode) :
    ThreadStep strict d.threads (d'.putHand new).threads := by
  refine .turn p process.threadRow row' 0 new.threadClaims (threadRow_at hp) turn hrows hchg ?_
  change tally Hand.threadClaims (d'.hands ++ [new]) + 0 = _
  rw [add_zero, Lib.tally_append, tally_cons, hhands]
  exact congrArg _ (add_zero _)

/-! ## Releases -/

/-- A charge is given back. -/
theorem discharge_setHand (hold : d.hands[k]? = some old)
    (hcls : old.threadClaims = {.charge} + new.threadClaims) :
    ThreadStep strict d.threads
      (setHand { d with threadMemberships := (releaseCounter d.threadMemberships).2 } k
        new).threads := by
  refine .discharge rfl rfl rfl ?_
  have hset := tally_set (f := Hand.threadClaims) hold new
  rw [hcls, ← add_assoc] at hset
  exact add_right_cancel hset

theorem claims_of_hand (hh : d.hands[k]? = some hand) :
    ∃ rest, d.threads.claims = hand.threadClaims + rest :=
  ⟨_, Lib.tally_eraseIdx hh⟩

theorem rows_le (hp : d.processes[p]? = none) : d.threads.rows.length ≤ p := by
  change (d.processes.map Process.threadRow).length ≤ p
  rw [length_map]
  exact getElem?_eq_none_iff.mp hp

/-- A token's thread is linked and not live, in a process that has not begun to exit. -/
theorem thread_of_token (hv : d.threads.WF)
    (hh : d.hands[k]? = some hand) (hcls : hand.threadClaims = {.token p node} + rest) :
    ∃ process t, d.processes[p]? = some process ∧
      process.tg.threads.find? (·.node == node) = some t ∧ t.live = false ∧
      process.tg.exitPrepared = false ∧ process.isZombie = false := by
  obtain ⟨others, hothers⟩ := claims_of_hand hh
  have htoks : tokens p d.threads.claims = tokens p (rest + others) + {node} := by
    rw [hothers, hcls, add_assoc, add_comm, tokens_add, tokens_token, if_pos rfl]
  cases hp : d.processes[p]? with
  | none =>
    have hmem : node ∈ tokens p d.threads.claims := by
      rw [htoks]
      exact Multiset.mem_add.mpr (.inr (Multiset.mem_singleton_self node))
    rw [(hv.range p (rows_le hp)).1] at hmem
    exact absurd hmem (Multiset.notMem_zero node)
  | some process =>
    have hok := hv.rows p process.threadRow (threadRow_at hp)
    rw [htoks] at hok
    obtain ⟨t, hthread⟩ := hok.token
    exact ⟨process, t, rfl, hthread⟩

/-- A process that is rolled back was never published. -/
theorem unpublished_of_doomed (hwf : d.WF)
    (hh : d.hands[k]? = some (.releasing (.unlinkProcess p :: todo)))
    (hp : d.processes[p]? = some process) : ¬ process.published = true := by
  obtain ⟨a, ha, hfree⟩ := hwf.claim hh (c := .doomed p)
    (Multiset.mem_add.mpr (.inl (Multiset.mem_singleton_self _)))
  obtain rfl := Option.some.inj ((getElem?_tree hp).symm.trans ha)
  exact fun hpub => hfree (.inl hpub)

theorem releaseNext_threads (hwf : d.WF) (hv : d.threads.WF) (h : Nat) :
    d.ThreadMoves strict (d.releaseNext h) := by
  unfold releaseNext
  split
  · next next todo hh =>
    -- the releases that are left are the same, and the new ones come first
    have hold : Hand.threadClaims (.releasing (next :: todo))
        = next.threadClaims + tally Release.threadClaims todo := tally_cons ..
    have hnew : ∀ more : List Release, Hand.threadClaims (.releasing (more ++ todo))
        = tally Release.threadClaims more + tally Release.threadClaims todo :=
      fun more => Lib.tally_append more todo
    unfold release
    cases next with
    | unlinkProcess p =>
      dsimp only
      split
      · exact ThreadsKept.refl.setHand hh ((hnew []).trans hold.symm)
      next process hp =>
      split
      · have hunseen := Bool.eq_false_iff.mpr (unpublished_of_doomed hwf hh hp)
        exact turn_setHand _ hp hh rfl rfl (threadRows_modifyProcess hp _) hold
          (hnew [.groupMember process.group]) (.unlink hunseen)
      · exact ThreadsKept.refl.setHand hh ((hnew []).trans hold.symm)
    | groupMember g =>
      dsimp only
      split
      · exact ThreadsKept.refl.setHand hh ((hnew []).trans hold.symm)
      refine ThreadsKept.setHand ⟨rfl, rfl, rfl, rfl⟩ hh ?_
      split
      · exact (hnew [.emptyGroup g]).trans hold.symm
      · exact (hnew []).trans hold.symm
    | emptyGroup g =>
      exact (jobsOnly_removeEmptyGroup d g).threads.setHand hh ((hnew []).trans hold.symm)
    | detachThread p node =>
      obtain ⟨process, t, hp, hfind, -⟩ := thread_of_token hv hh hold
      dsimp only
      rw [hp]
      dsimp only
      rw [detachThreadLocked_eq hfind]
      have hturn : ThreadTurn strict p d.nextNode process.threadRow {.token p node} {.charge}
          { process.threadRow with tg := (process.tg.detachThreadLocked node).2 } d.nextNode :=
        .detach node t hfind
      rw [detachThreadLocked_eq hfind] at hturn
      exact turn_setHand _ hp hh rfl rfl (threadRows_modifyProcess hp _) hold
        (hnew [.threadMember]) hturn
    | threadMember =>
      refine discharge_setHand hh ?_
      rw [hold, hnew []]
      exact congrArg _ (zero_add _).symm
  · next hh => exact ThreadsKept.refl.setHand hh rfl
  · exact stillThreads rfl

theorem reap_threads (p : Nat) : d.ThreadMoves strict (d.reap p) := by
  unfold reap
  split
  · exact stillThreads rfl
  split
  · exact stillThreads rfl
  next process hp =>
  split
  · exact stillThreads rfl
  next honce =>
  split
  · exact stillThreads rfl
  split
  · exact stillThreads rfl
  next hemp =>
  split
  · exact stillThreads rfl
  next hzombie =>
  refine turn_putHand hp rfl rfl (threadRows_modifyProcess hp _) ?_
  exact .reap (not_not.mp hzombie) (not_not.mp hemp) (Bool.eq_false_iff.mpr honce)

/-! ## Threads -/

theorem ownerReleases_threadClaims (p : Nat) (owner : ThreadOwner) :
    tally Release.threadClaims (ownerReleases p owner) = 0 := by
  cases owner <;> rfl

theorem threadToken_threadClaims (p node : Nat) (owner : ThreadOwner) :
    (threadToken p node owner).threadClaims = {.token p node} := by
  cases owner <;> rfl

theorem reserveBoundedCounter_ok
    (h : reserveBoundedCounter counter limit = .ok n) : n = counter + 1 := by
  unfold reserveBoundedCounter at h
  split at h
  · cases h
    rfl
  · cases h

theorem reserveThread_threads (h : Nat) (allocated : Bool) :
    d.ThreadMoves strict (d.reserveThread h allocated) := by
  unfold reserveThread
  split
  · next hh =>
    split
    · exact ThreadsKept.refl.setHand hh (ownerReleases_threadClaims ..)
    split
    · exact ThreadsKept.refl.setHand hh (ownerReleases_threadClaims ..)
    next threadMemberships hres =>
    refine .charge rfl rfl (reserveBoundedCounter_ok hres) ?_
    exact (add_zero _).symm.trans (tally_set (f := Hand.threadClaims) hh _)
  · exact stillThreads rfl

/-- What a thread is linked under. -/
theorem threadRefusal_eq_none (h : d.threadRefusal p process tid owner = none) :
    process.isZombie = false ∧ process.tg.exitPrepared = false ∧ process.tg.find tid = none := by
  unfold threadRefusal at h
  split at h
  · cases h
  next hzombie =>
  split at h
  · cases h
  next hprep =>
  split at h
  · cases h
  split at h
  · cases h
  split at h
  · cases h
  next hfree =>
  exact ⟨Bool.eq_false_iff.mpr (not_or.mp hzombie).1,
    Bool.eq_false_iff.mpr (not_or.mp hprep).1, Option.not_isSome_iff_eq_none.mp hfree⟩

theorem linkThread_threads (h : Nat) : d.ThreadMoves strict (d.linkThread h) := by
  unfold linkThread
  split
  · next p tid owner hh =>
    split
    · exact stillThreads rfl
    next process hp =>
    split
    · refine ThreadsKept.refl.setHand hh ?_
      change tally Release.threadClaims (.threadMember :: ownerReleases p owner) = _
      rw [tally_cons, ownerReleases_threadClaims]
      rfl
    · next hlink =>
      obtain ⟨halive, hprep, hfree⟩ := threadRefusal_eq_none hlink
      refine turn_setHand 0 hp hh rfl rfl (threadRows_modifyProcess hp _) (add_zero _).symm
        ((threadToken_threadClaims ..).trans (add_zero _).symm) ?_
      exact .link tid halive hprep hfree
  · exact stillThreads rfl

/-- What a successful publication does. -/
theorem publishLocked_spec (h : d.publishLocked p process node allowUnpublished = .ok tg)
    (hlive : (process.tg.threads.any fun t => t.node == node && t.live) = false) :
    tg = { process.tg.setLive node with liveThreads := process.tg.liveThreads + 1 } ∧
      (allowUnpublished = false → process.published = true) := by
  unfold publishLocked at h
  dsimp only at h
  split at h
  · cases h
  split at h
  · cases h
  split at h
  · cases h
  next hpub =>
  rw [hlive, if_neg Bool.false_ne_true] at h
  split at h
  · cases h
    refine ⟨rfl, ?_⟩
    intro hallow
    rw [hallow] at hpub
    simp only [Bool.false_eq_true, not_false_eq_true, true_and, not_or, not_not] at hpub
    exact hpub.1
  · cases h

/-- The thread of a token is not live under any name. -/
theorem any_live_eq_false {threads : List ThreadNode} (hnodes : (threads.map (·.node)).Nodup)
    (hfind : threads.find? (·.node == node) = some t)
    (hlive : t.live = false) : (threads.any fun t => t.node == node && t.live) = false := by
  refine any_eq_false.mpr ?_
  intro b hb hboth
  obtain ⟨hnode, hblive⟩ := Bool.and_eq_true_iff.mp hboth
  have hfound := find?_of_mem hnodes hb
  rw [beq_iff_eq.mp hnode, hfind] at hfound
  rw [← Option.some.inj hfound, hlive] at hblive
  cases hblive

theorem commitThread_threads (hv : d.threads.WF) (h : Nat) :
    d.ThreadMoves strict (d.commitThread h) := by
  unfold commitThread
  split
  · next p node hh =>
    obtain ⟨process, t, hp, hfind, hlive, -⟩ := thread_of_token hv hh (add_zero _).symm
    rw [hp]
    dsimp only
    split
    · exact ThreadsKept.refl.setHand hh rfl
    next tg hok =>
    have hnodes := (hv.rows p process.threadRow (threadRow_at hp)).counted.nodes
    obtain ⟨rfl, hpub⟩ := publishLocked_spec hok (any_live_eq_false hnodes hfind hlive)
    exact turn_modify hp hh (.live node process.published (.inl rfl) fun _ => hpub rfl)
  · exact stillThreads rfl

/-- Whether the process of a thread token is published. -/
def mayPublish (d : Domain Z) (h : Nat) : Bool :=
  match d.hands[h]? with
  | some (.threadAdmission p _) => d.processes[p]?.any fun process => process.published
  | _ => true

theorem commitThreadInfallible_threads (h : Nat) (hrule : strict → d.mayPublish h = true) :
    d.ThreadMoves strict (d.commitThreadInfallible h) := by
  unfold commitThreadInfallible
  split
  · next p node hh =>
    split
    · exact stillThreads rfl
    next process hp =>
    refine turn_modify hp hh (.live node process.published (.inl rfl) ?_)
    intro hs
    have hseen := hrule hs
    unfold mayPublish at hseen
    rw [hh] at hseen
    dsimp only at hseen
    rw [hp] at hseen
    exact hseen
  · exact stillThreads rfl

theorem findLive_spec (h : tg.findLive tid = some t) : t ∈ tg.threads ∧ t.live = true := by
  obtain ⟨hfind, hlive⟩ := Option.filter_eq_some_iff.mp h
  exact ⟨mem_of_find?_eq_some hfind, hlive⟩

theorem withExitCode_eq (tg : ThreadGroup) (exitCode : Int) :
    ∃ code, withExitCode tg exitCode = { tg with exitCode := code } := by
  unfold withExitCode
  split
  · exact ⟨tg.exitCode, rfl⟩
  · exact ⟨exitCode, rfl⟩

theorem exitThreadLocked_threads (hwf : d.WF) (hv : d.threads.WF) (h : Nat) :
    d.ThreadMoves strict (d.exitThreadLocked h) := by
  unfold exitThreadLocked
  split
  · next p tid exitCode hh =>
    split
    · exact stillThreads rfl
    split
    · exact stillThreads rfl
    next process hp =>
    split
    · exact ThreadsKept.refl.setHand hh rfl
    next t hfound =>
    obtain ⟨hmem, hlive⟩ := findLive_spec hfound
    obtain ⟨code, hcode⟩ := withExitCode_eq process.tg exitCode
    split
    · exact ThreadsKept.refl.setHand hh rfl
    rw [hcode]
    split
    · exact turn_modify hp hh (.remove t hmem hlive code)
    · next hone =>
      split
      · exact ThreadsKept.refl.setHand hh rfl
      next halive =>
      split
      · exact ThreadsKept.refl.setHand hh rfl
      next hprep =>
      -- the last thread: the exit is prepared
      obtain ⟨a, ha, hpub⟩ := hwf.claim hh (c := .seen p) (Multiset.mem_singleton_self _)
      obtain rfl := Option.some.inj ((getElem?_tree hp).symm.trans ha)
      have hnodes := (hv.rows p process.threadRow (threadRow_at hp)).counted.nodes
      have hfind : ({ process.tg with exitCode := code } : ThreadGroup).threads.find?
          (·.node == t.node) = some t := find?_of_mem hnodes hmem
      have hlast : process.tg.memberships = 1 := by omega
      have hturn : ThreadTurn strict p d.nextNode process.threadRow 0
          {.exit p (some { t with live := false })}
          { process.threadRow with
            tg := { (({ process.tg with exitCode := code } :
                ThreadGroup).detachThreadLocked t.node).2 with exitPrepared := true } }
          d.nextNode :=
        .depart t hmem hlive code hlast (Bool.eq_false_iff.mpr (not_or.mp halive).2)
          (Bool.eq_false_iff.mpr hprep) hpub
      refine turn_setHand 0 hp hh rfl rfl (threadRows_modifyProcess hp _) (add_zero _).symm ?_ hturn
      change ({.exit p (detachThreadLocked _ _).1} : Multiset ThreadClaim) = _
      rw [detachThreadLocked_eq hfind, add_zero]
  · exact stillThreads rfl

theorem removeThread_threads (p : Nat) (tid : Pid) (exitCode : Option Int) :
    ThreadStep strict d.threads (d.removeThread p tid exitCode).2.threads := by
  unfold removeThread
  split
  · exact stillThreads rfl
  split
  · exact stillThreads rfl
  next process hp =>
  split
  · exact stillThreads rfl
  next t hfound =>
  obtain ⟨hmem, hlive⟩ := findLive_spec hfound
  cases exitCode with
  | none =>
    exact turn_putHand hp rfl rfl (threadRows_modifyProcess hp _)
      (.remove t hmem hlive process.tg.exitCode)
  | some exitCode =>
    obtain ⟨code, hcode⟩ := withExitCode_eq process.tg exitCode
    dsimp only
    rw [hcode]
    exact turn_putHand hp rfl rfl (threadRows_modifyProcess hp _) (.remove t hmem hlive code)

theorem groupExit_threads (p : Nat) (exitCode : Int) :
    d.ThreadMoves strict (d.groupExit p exitCode) := by
  unfold groupExit
  split
  · exact stillThreads rfl
  next process hp =>
  split
  · exact stillThreads rfl
  · exact .turn p process.threadRow _ 0 0 (threadRow_at hp) (.recode exitCode true)
      (threadRows_modifyProcess hp _) rfl rfl

/-! ## Creating processes -/

/-- Registration adds a process without threads. -/
theorem admitProcess_rows {new : NewProcess} (h : d.admitProcess new = .ok (p, d')) :
    d'.threads.rows = d.threads.rows ++ [.fresh] ∧ d'.nextNode = d.nextNode ∧
      d'.threadMemberships = d.threadMemberships ∧ d'.hands = d.hands := by
  unfold admitProcess at h
  split at h
  · cases h
  split at h
  · cases h
  split at h
  · cases h
  split at h
  · cases h
  split at h
  · cases h
  · cases h
    exact ⟨map_append, rfl, rfl, rfl⟩

theorem admitProcess_threads {new : NewProcess} (hadm : d.admitProcess new = .ok (p, d'))
    (hold : d.hands[h]? = some old) (hcls : token.threadClaims = old.threadClaims) :
    ThreadStep strict d.threads (d'.setHand h token).threads := by
  obtain ⟨hrows, hnode, hchg, hhands⟩ := admitProcess_rows hadm
  have hold' : d'.hands[h]? = some old := by
    rw [hhands]
    exact hold
  rw [threads_setHand _ hold' hcls]
  exact .admitted hrows hnode hchg (congrArg (tally Hand.threadClaims) hhands)

theorem admitInit_threads (h : Nat) (allocated : Bool) :
    d.ThreadMoves strict (d.admitInit h allocated) := by
  unfold admitInit
  split
  · next hh =>
    split
    · exact ThreadsKept.refl.setHand hh rfl
    split
    · exact ThreadsKept.refl.setHand hh rfl
    · next hok => exact admitProcess_threads hok hh rfl
  · exact stillThreads rfl

theorem admitFork_threads (h : Nat) : d.ThreadMoves strict (d.admitFork h) := by
  unfold admitFork
  split
  · next hh =>
    split
    · exact ThreadsKept.refl.setHand hh rfl
    · next hok => exact admitProcess_threads hok hh (by unfold forkToken; split <;> rfl)
  · exact stillThreads rfl

/-! ## Publication -/

/-- The owner of an unpublished process can publish it. -/
theorem linked_of_owner (hwf : d.WF) (hh : d.hands[k]? = some hand)
    (hc : c ∈ hand.claims) (howner : c = .fresh p ∨ c = .bound p ∨ ∃ scope, c = .root scope p) :
    ∃ process, d.processes[p]? = some process ∧ process.linked = true := by
  have hok := hwf.claim hh hc
  have hrow : ∃ a, d.tree.Unpublished p a := by
    rcases howner with rfl | rfl | ⟨scope, rfl⟩
    · exact ⟨hok.choose, hok.choose_spec.1⟩
    · exact ⟨hok.choose, hok.choose_spec.1⟩
    · exact ⟨hok.choose, hok.choose_spec.1⟩
  obtain ⟨a, ha, -, hlink⟩ := hrow
  obtain ⟨process, hp, rfl⟩ := of_getElem?_tree ha
  exact ⟨process, hp, hlink⟩

theorem commitProcess_threads (hwf : d.WF) (h : Nat) :
    d.ThreadMoves strict (d.commitProcess h) := by
  unfold commitProcess
  split
  · next p hh =>
    obtain ⟨process, hp, hlink⟩ := linked_of_owner hwf hh (Multiset.mem_singleton_self _) (.inl rfl)
    exact turn_modify hp hh (.publish hlink)
  · exact stillThreads rfl

theorem bindInit_threads (hwf : d.WF) (h : Nat) : d.ThreadMoves strict (d.bindInit h) := by
  unfold bindInit
  split
  · next scope p g hh =>
    split
    · exact ThreadsKept.refl.setHand hh rfl
    obtain ⟨process, hp, hlink⟩ :=
      linked_of_owner hwf hh (Multiset.mem_singleton_self _) (.inr (.inr ⟨scope, rfl⟩))
    have hjobs := jobsOnly_publishGroup d g true
    have hp' : (d.publishGroup g true).processes[p]? = some process := by
      rw [hjobs.processes]
      exact hp
    have hrows : ((d.publishGroup g true).publishProcess p).threads.rows
        = d.threads.rows.set p { process.threadRow with published := true } := by
      rw [← hjobs.threads.rows]
      exact threadRows_modifyProcess hp' _
    refine turn_setHand 0 hp hh hjobs.hands hjobs.threadMemberships hrows (add_zero _).symm
      (add_zero _).symm ?_
    change ThreadTurn strict p d.nextNode _ _ _ _ (d.publishGroup g true).nextNode
    rw [hjobs.nextNode]
    exact .publish hlink
  · exact stillThreads rfl

/-- A process and its first thread become visible together. -/
theorem threadRows_publish (hp : d.processes[p]? = some process)
    (tg : ThreadGroup) : ((d.setTg p tg).publishProcess p).threads.rows
      = d.threads.rows.set p { process.threadRow with tg, published := true } := by
  have hp' : (d.setTg p tg).processes[p]? = some { process with tg } := by
    change (d.processes.modify p _)[p]? = _
    rw [getElem?_modify_eq, hp]
    rfl
  have hfirst : (d.setTg p tg).threads.rows = d.threads.rows.set p { process.threadRow with tg } :=
    threadRows_modifyProcess hp _
  have hsecond := threadRows_modifyProcess hp' fun process => { process with published := true }
  rw [hfirst, set_set] at hsecond
  exact hsecond

theorem publishWithThread_threads (hh : d.hands[h]? = some old)
    (hcls : old.threadClaims = {.token p node}) (hp : d.processes[p]? = some process)
    (hlink : process.linked = true) :
    ThreadStep strict d.threads ((d.publishWithThread p node).2.setHand h .empty).threads := by
  unfold publishWithThread
  rw [hp]
  refine turn_setHand 0 hp hh rfl rfl (threadRows_publish hp _)
    (hcls.trans (add_zero _).symm) (add_zero _).symm ?_
  exact .live node true (.inr ⟨rfl, hlink⟩) fun _ => rfl

theorem commitInitial_threads (hwf : d.WF) (h : Nat) :
    d.ThreadMoves strict (d.commitInitial h) := by
  unfold commitInitial
  split
  · next p node hh =>
    obtain ⟨process, hp, hlink⟩ := linked_of_owner hwf hh (Multiset.mem_singleton_self _) (.inl rfl)
    exact publishWithThread_threads hh rfl hp hlink
  · exact stillThreads rfl

theorem commitScoped_threads (hwf : d.WF) (h : Nat) : d.ThreadMoves strict (d.commitScoped h) := by
  unfold commitScoped
  split
  · next p hh =>
    obtain ⟨process, hp, hlink⟩ :=
      linked_of_owner hwf hh (Multiset.mem_singleton_self _) (.inr (.inl rfl))
    exact turn_modify hp hh (.publish hlink)
  · next p node hh =>
    obtain ⟨process, hp, hlink⟩ :=
      linked_of_owner hwf hh (Multiset.mem_singleton_self _) (.inr (.inl rfl))
    exact publishWithThread_threads hh rfl hp hlink
  · exact stillThreads rfl

/-- What `commit_with_thread` does when it succeeds. -/
theorem commitRefusal_spec (h : d.commitRefusal p q node process = .ok tg) :
    p = q ∧ d.publishLocked p process node true = .ok tg := by
  unfold commitRefusal at h
  split at h
  · cases h
  next heq =>
  split at h
  · cases h
  split at h
  · cases h
  · exact ⟨not_not.mp heq, h⟩

theorem commitWithThread_threads (hwf : d.WF) (hv : d.threads.WF) (h ht : Nat) :
    d.ThreadMoves strict (d.commitWithThread h ht) := by
  unfold commitWithThread
  split
  · next p q node hh hht =>
    have hne : ht ≠ h := by
      intro heq
      rw [heq, hh] at hht
      cases hht
    split
    · exact stillThreads rfl
    split
    · -- both tokens are dropped, one after the other
      refine thenHand ((getElem?_set_ne hne).trans hh) rfl ?_
      exact ThreadsKept.refl.setHand hht rfl
    · next _ process hp _ tg hok =>
      obtain ⟨rfl, hpublish⟩ := commitRefusal_spec hok
      obtain ⟨process', t, hp', hfind, hlive, -⟩ := thread_of_token hv hht (add_zero _).symm
      obtain rfl := Option.some.inj (hp.symm.trans hp')
      have hnodes := (hv.rows p process.threadRow (threadRow_at hp)).counted.nodes
      obtain ⟨rfl, -⟩ := publishLocked_spec hpublish (any_live_eq_false hnodes hfind hlive)
      obtain ⟨process', hp'', hlink⟩ :=
        linked_of_owner hwf hh (Multiset.mem_singleton_self _) (.inl rfl)
      obtain rfl := Option.some.inj (hp.symm.trans hp'')
      refine thenHand ((getElem?_set_ne hne).trans hh) rfl ?_
      refine turn_setHand 0 hp hht rfl rfl (threadRows_publish hp _) (add_zero _).symm
        (add_zero _).symm ?_
      exact .live node true (.inr ⟨rfl, hlink⟩) fun _ => rfl
  · exact stillThreads rfl

/-! ## Exit -/

theorem reserveExit_threads (hwf : d.WF) (h : Nat) : d.ThreadMoves strict (d.reserveExit h) := by
  unfold reserveExit
  split
  · next p hh =>
    split
    · exact stillThreads rfl
    split
    · exact stillThreads rfl
    next process hp =>
    split
    · exact ThreadsKept.refl.setHand hh rfl
    next hemp =>
    split
    · exact ThreadsKept.refl.setHand hh rfl
    next hprep =>
    split
    · exact ThreadsKept.refl.setHand hh rfl
    next hpayload =>
    obtain ⟨a, ha, hpub, -⟩ := hwf.claim hh (c := .exit p) (Multiset.mem_singleton_self _)
    obtain rfl := Option.some.inj ((getElem?_tree hp).symm.trans ha)
    exact turn_modify hp hh (.prepare (not_not.mp hemp) (Bool.eq_false_iff.mpr hprep)
      (Option.not_isSome_iff_eq_none.mp hpayload) hpub)
  · exact stillThreads rfl

theorem dropExit_threads (h : Nat) : d.ThreadMoves strict (d.dropExit h) := by
  unfold dropExit
  split
  · next p departing hh =>
    split
    · exact stillThreads rfl
    next process hp =>
    cases departing with
    | none => exact turn_modify hp hh (.restore none)
    | some thread => exact turn_modify hp hh (.restore (some thread))
  · exact stillThreads rfl

theorem publishZombie_threads (h : Nat) (payload : Z) :
    d.ThreadMoves strict (d.publishZombie h payload) := by
  unfold publishZombie
  split
  · next p departing hh =>
    split
    · exact stillThreads rfl
    split
    · exact stillThreads rfl
    next process hp =>
    exact turn_modify hp hh (.zombie departing payload)
  · exact stillThreads rfl

theorem releaseDeparting_threads (h : Nat) : d.ThreadMoves strict (d.releaseDeparting h) := by
  unfold releaseDeparting
  split
  · next p np departing hh =>
    cases departing with
    | none => exact ThreadsKept.refl.setHand hh rfl
    | some thread => exact discharge_setHand hh rfl
  · exact stillThreads rfl

/-! ## Scanning -/

theorem ScanOnly.tally_eq {M : Type} [AddCancelCommMonoid M] (weight : Hand → M)
    (h : ScanOnly d r) (hweight : ∀ hand : Hand, hand.scanning = true → weight hand = 0) :
    tally weight r.2.hands = tally weight d.hands := by
  rcases h.hands with hsame | ⟨k, old, new, hk, hold, hnew, hset⟩
  · rw [hsame]
  · rw [hset]
    exact Lib.tally_set_of_eq hk ((hweight new hnew).trans (hweight old hold).symm)

theorem ScanOnly.threads_eq (h : ScanOnly d r) : r.2.threads = d.threads := by
  have hrows := congrArg (map Process.threadRow) h.processes
  rw [map_map, map_map] at hrows
  have hcls := h.tally_eq Hand.threadClaims fun hand hidle => by
    cases hand with
    | exiting _ _ stage => cases stage <;> first | rfl | cases hidle
    | _ => first | rfl | cases hidle
  rw [h.rest]
  exact congrArg₂ (fun rows claims => { d.threads with rows, claims }) hrows hcls

/-! ## Calls that leave thread groups alone -/

theorem threads_bindOuter (h : Nat) : (d.bindOuter h).2.threads = d.threads := by
  unfold bindOuter
  split
  · next p node scope outer hh =>
    refine ThreadsKept.setHand_eq ⟨rfl, rfl, rfl, rfl⟩ hh ?_
    cases node with
    | none | some => rfl
  · rfl

theorem threadsKept_replaceGroup (d : Domain Z) (p g : Nat) : ThreadsKept d (d.replaceGroup p g) :=
  threadsKept_modifyProcess d p fun _ => rfl

/-! ## One call of any kind -/

/-- The rule for `commit_infallible`: the process of the token is published. -/
def PublishesSeen (d : Domain Z) (call : ProcessCall Z) : Prop :=
  call.infallible.all d.mayPublish = true

instance (d : Domain Z) (call : ProcessCall Z) : Decidable (d.PublishesSeen call) :=
  inferInstanceAs (Decidable (call.infallible.all d.mayPublish = true))

theorem call_threads (strict : Prop) (hwf : d.WF) (hv : d.threads.WF) (call : ProcessCall Z)
    (hrule : strict → d.PublishesSeen call) : d.ThreadMoves strict (d.call call) := by
  cases call with
  | admitInit h allocated => exact admitInit_threads h allocated
  | bindInit h => exact bindInit_threads hwf h
  | admitFork h => exact admitFork_threads h
  | commitProcess h => exact commitProcess_threads hwf h
  | commitWithThread h ht => exact commitWithThread_threads hwf hv h ht
  | commitInitial h => exact commitInitial_threads hwf h
  | commitScoped h => exact commitScoped_threads hwf h
  | releaseNext h => exact releaseNext_threads hwf hv h
  | reserveThread h allocated => exact reserveThread_threads h allocated
  | linkThread h => exact linkThread_threads h
  | commitThread h => exact commitThread_threads hv h
  | commitThreadInfallible h =>
    exact commitThreadInfallible_threads h hrule
  | exitThreadLocked h => exact exitThreadLocked_threads hwf hv h
  | removeThread p tid exitCode => exact removeThread_threads p tid exitCode
  | groupExit p exitCode => exact groupExit_threads p exitCode
  | reap p => exact reap_threads p
  | reserveExit h => exact reserveExit_threads hwf h
  | dropExit h => exact dropExit_threads h
  | publishZombie h payload => exact publishZombie_threads h payload
  | releaseDeparting h => exact releaseDeparting_threads h
  | bindOuter h => exact stillThreads (threads_bindOuter h)
  | scan h => exact stillThreads (scan_scanOnly h).threads_eq
  | inheritedZombie h => exact stillThreads (inheritedZombie_scanOnly h).threads_eq
  | _ =>
    -- at most one hand is written, and a process outside its thread group
    refine stillThreads ?_
    simp only [call, newReaperScope, retain, setChildSubreaper, newInit, createJob, readJob,
      admitJob, reserveJob, commitJob, moveToGroup, moveGroupLive, moveCompare, reserveMove,
      commitMove, prepareThread, prepareAdmissionThread, prepareInitialThread, exitThread,
      prepareFork, prepareForkInit, allocateFork, bindScope, dropToken, prepareExit, startScan,
      lockSection, reparentBatch]
    (repeat' split) <;> try dsimp only
    all_goals first
      | rfl
      | exact threads_putHand _ rfl
      | exact (threadsKept_modifyProcess _ _ (by intro process; rfl)).threads_eq
      | (refine threads_setHand _ (by assumption) ?_; rfl)
      | exact (threads_putHand _ rfl).trans
          (jobsOnly_admitSessionGroup (by assumption)).threads.threads_eq
      | (refine (jobsOnly_admitSessionGroup (by assumption)).threads.setHand_eq (by assumption) ?_
         rfl)
      | (refine (jobsOnly_reserveGroupMember (by assumption)).threads.setHand_eq (by assumption) ?_
         rfl)
      | (refine (threadsKept_replaceGroup ..).setHand_eq (by assumption) ?_; rfl)
      | (refine ((threadsKept_replaceGroup ..).trans (jobsOnly_publishGroup ..).threads).setHand_eq
           (by assumption) ?_
         rfl)

/-- What holds of the threads at the start. -/
theorem threads_wf_new (Z : Type) (limit : Nat) : (Domain.new Z limit).threads.WF where
  rows := by
    intro p row hrow
    cases hrow
  range := fun _ _ => ⟨rfl, rfl⟩
  charged := rfl

theorem threads_call (hwf : d.WF) (hv : d.threads.WF) (call : ProcessCall Z) :
    (d.call call).2.WF ∧ (d.call call).2.threads.WF :=
  ⟨hwf.call call, (call_threads False hwf hv call nofun).wf hv⟩

/-- In every reachable state. -/
theorem run_threads (limit : Nat) (calls : List (ProcessCall Z)) :
    (Lib.run Domain.call (Domain.new Z limit) calls).WF ∧
      (Lib.run Domain.call (Domain.new Z limit) calls).threads.WF :=
  Lib.run_preserves (I := fun d : Domain Z => d.WF ∧ d.threads.WF)
    (fun _ call h => threads_call h.1 h.2 call) ⟨wf_new Z limit, threads_wf_new Z limit⟩ calls

end Domain

end LinuxAbi.Proc
