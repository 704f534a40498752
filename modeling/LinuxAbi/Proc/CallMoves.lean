import LinuxAbi.Proc.Moves

/-!
# Every call is a move

One lemma for each section of the source, in the order of the modules that model them;
`Domain.call_move` collects them.
-/

namespace LinuxAbi.Proc

open Option
open List
open Lib (tally forall_mem_singleton)

theorem dull_debugAssert
    (hcause : (ProcessEvent.panicked cause).isDull = true) : Dull (debugAssert condition cause) := by
  unfold debugAssert
  split
  · exact dull_nil
  intro e he
  rw [mem_singleton.mp he]
  exact hcause

theorem Dull.append (h : Dull events) (h' : Dull events') : Dull (events ++ events') := by
  intro e he
  rcases mem_append.mp he with hl | hr
  · exact h e hl
  · exact h' e hr

namespace Domain

variable {Z : Type} {d d' : Domain Z}

/-- A call with its answer is a move. -/
abbrev Moves (d : Domain Z) (result : Answer × Domain Z) : Prop := Move d result.1.events result.2

/-! ## Updates of the tables -/

/-- A change of a process is a change of its row. -/
theorem tree_modifyProcess (d : Domain Z) (p : Nat)
    (hf : ∀ process, (f process).row = g process.row) :
    (d.modifyProcess p f).tree = d.tree.modify p g :=
  congrArg (fun rows => Tree.mk rows d.scopes) (Lib.map_modify hf d.processes p)

theorem same_modifyProcess (d : Domain Z) (p : Nat)
    (hf : ∀ process, (f process).row = process.row) : Same d (d.modifyProcess p f) := by
  refine ⟨?_, rfl, rfl⟩
  exact congrArg (fun rows => Tree.mk rows d.scopes) (Lib.map_modify_of_eq hf d.processes p)

theorem same_setTg (d : Domain Z) (p : Nat) (tg : ThreadGroup) : Same d (d.setTg p tg) :=
  same_modifyProcess d p fun _ => rfl

theorem same_replaceGroup (d : Domain Z) (p g : Nat) : Same d (d.replaceGroup p g) :=
  same_modifyProcess d p fun _ => rfl

/-- Nothing but groups and sessions is written. -/
structure JobsOnly (d d' : Domain Z) : Prop where
  processes : d'.processes = d.processes
  scopes : d'.scopes = d.scopes
  threadMemberships : d'.threadMemberships = d.threadMemberships
  nextNode : d'.nextNode = d.nextNode
  topology : d'.topology = d.topology
  hands : d'.hands = d.hands

theorem JobsOnly.refl : JobsOnly d d := ⟨rfl, rfl, rfl, rfl, rfl, rfl⟩

theorem JobsOnly.same (h : JobsOnly d d') : Same d d' := by
  refine ⟨?_, h.topology, h.hands⟩
  unfold Domain.tree
  rw [h.processes, h.scopes]

theorem jobsOnly_admitSessionGroup
    (h : d.admitSessionGroup pgid session = .ok (g, d')) : JobsOnly d d' := by
  unfold admitSessionGroup at h
  split at h
  · cases h
  split at h
  · cases h
  split at h
  · split at h
    · cases h
    split at h
    · cases h
    · cases h
      exact ⟨rfl, rfl, rfl, rfl, rfl, rfl⟩
  · split at h
    · cases h
    split at h
    · cases h
    split at h
    · cases h
    · cases h
      exact ⟨rfl, rfl, rfl, rfl, rfl, rfl⟩

theorem jobsOnly_reserveGroupMember
    (h : d.reserveGroupMember g allowUnpublished = .ok d') : JobsOnly d d' := by
  unfold reserveGroupMember at h
  split at h
  · cases h
  split at h
  · cases h
  split at h
  · cases h
  · cases h
    exact ⟨rfl, rfl, rfl, rfl, rfl, rfl⟩

theorem jobsOnly_publishGroup (d : Domain Z) (g : Nat) (newSession : Bool) :
    JobsOnly d (d.publishGroup g newSession) := by
  unfold publishGroup
  dsimp only
  split
  · exact ⟨rfl, rfl, rfl, rfl, rfl, rfl⟩
  · exact ⟨rfl, rfl, rfl, rfl, rfl, rfl⟩

theorem jobsOnly_removeEmptyGroup (d : Domain Z) (g : Nat) : JobsOnly d (d.removeEmptyGroup g) := by
  unfold removeEmptyGroup
  split
  · exact .refl
  split
  · exact .refl
  dsimp only
  split
  · exact ⟨rfl, rfl, rfl, rfl, rfl, rfl⟩
  split
  · exact ⟨rfl, rfl, rfl, rfl, rfl, rfl⟩
  · exact ⟨rfl, rfl, rfl, rfl, rfl, rfl⟩

variable {p k h : Nat} {new old : Hand} {events : List ProcessEvent}

/-- A new row, and what was checked before it was registered. -/
theorem admitProcess_spec {new : NewProcess} (h : d.admitProcess new = .ok (p, d')) :
    p = d.tree.rows.length ∧ d'.tree = d.tree.link (allocate (Z := Z) new).row ∧
      d'.topology = d.topology ∧ d'.hands = d.hands ∧ d.findProcess new.pid = none := by
  unfold admitProcess at h
  split at h
  · cases h
  split at h
  · cases h
  next hfree =>
  split at h
  · cases h
  split at h
  · cases h
  split at h
  · cases h
  cases h
  refine ⟨(length_map _).symm, ?_, rfl, rfl, not_isSome_iff_eq_none.mp hfree⟩
  unfold Domain.tree
  rw [map_append]
  rfl

/-- A PID that is not found belongs to no registered process. -/
theorem ne_pid_of_findProcess {pid : Pid} (h : d.findProcess pid = none) {i : Nat}
    (hb : d.tree.rows[i]? = some b) (hlink : b.linked = true) : b.pid ≠ pid := by
  obtain ⟨process, hp, rfl⟩ := of_getElem?_tree hb
  intro heq
  have hmem : i ∈ d.entries := by
    refine List.mem_filter.mpr ⟨List.mem_range.mpr (Lib.lt_of_getElem? hp), ?_⟩
    rw [hp]
    exact hlink
  have hpid : d.pidOf i = process.pid := by
    unfold pidOf
    rw [hp]
    rfl
  have hfound := List.find?_eq_none.mp h i hmem
  rw [hpid] at hfound
  exact hfound (beq_iff_eq.mpr heq)

theorem ensurePublished_spec (h : d.ensurePublished p = true) :
    ∃ process, d.processes[p]? = some process ∧ process.published = true := by
  unfold ensurePublished at h
  cases hp : d.processes[p]? with
  | none =>
    rw [hp] at h
    cases h
  | some process =>
    rw [hp] at h
    exact ⟨process, rfl, (Bool.and_eq_true_iff.mp h).1⟩

/-! ## Scopes, references and groups -/

theorem newReaperScope_move (allocated : Bool) : Moves d (d.newReaperScope allocated) := by
  unfold newReaperScope
  split
  · exact .quiet ⟨rfl, fun _ => rfl, d.claims, add_zero _, add_zero _⟩ rfl .addScope dull_nil
  · exact .stay

/-- A new hand without claims. -/
theorem Same.putIdle (h : Same d d') (hexit : new.exit = none)
    (hcls : new.claims = 0) : Move d [] (d'.putHand new) := by
  refine h.putHand dull_nil hexit ?_ ?_
  · rw [hcls]
    exact nofun
  · rw [hcls]
    rfl

theorem newInit_move (scope : Nat) (pid : Pid) (allocated : Bool) :
    Moves d (d.newInit scope pid allocated) := by
  unfold newInit
  split
  · exact .stay
  next hscope =>
  split
  · exact .stay
  split
  · exact .stay
  next hok =>
  refine (jobsOnly_admitSessionGroup hok).same.putHand dull_nil rfl (forall_mem_singleton ?_) rfl
  exact Nat.not_le.mp hscope

/-! ## Releases -/

/-- A removed process, or nothing the tree knows of. -/
theorem release_spec (d : Domain Z) (next : Release) :
    tally Release.claims (d.release next).1 = 0 ∧
      (Same d (d.release next).2 ∨ ∃ p, next = .unlinkProcess p ∧
        (d.release next).2.tree = d.tree.unlink p ∧
        (d.release next).2.topology = d.topology ∧ (d.release next).2.hands = d.hands) := by
  unfold release
  split
  · next p =>
    split
    · exact ⟨rfl, .inl .refl⟩
    split
    · exact ⟨rfl, .inr ⟨p, rfl, tree_modifyProcess d p fun _ => rfl, rfl, rfl⟩⟩
    · exact ⟨rfl, .inl .refl⟩
  · split
    · exact ⟨rfl, .inl .refl⟩
    · dsimp only
      split
      · exact ⟨rfl, .inl ⟨rfl, rfl, rfl⟩⟩
      · exact ⟨rfl, .inl ⟨rfl, rfl, rfl⟩⟩
  · exact ⟨rfl, .inl (jobsOnly_removeEmptyGroup d _).same⟩
  · split
    · exact ⟨rfl, .inl .refl⟩
    split
    · exact ⟨rfl, .inl .refl⟩
    · exact ⟨rfl, .inl (same_setTg ..)⟩
  · exact ⟨rfl, .inl ⟨rfl, rfl, rfl⟩⟩

theorem releaseNext_move (hwf : d.WF) (h : Nat) : Moves d (d.releaseNext h) := by
  unfold releaseNext
  split
  · next next todo hh =>
    obtain ⟨hmore, hcase⟩ := release_spec d next
    -- what is left to do is what was left before, without the first release
    have hold : Hand.claims (.releasing (next :: todo))
        = next.claims + tally Release.claims todo := Lib.tally_cons ..
    have hnew : Hand.claims (.releasing ((d.release next).1 ++ todo))
        = tally Release.claims todo := by
      change tally Release.claims ((d.release next).1 ++ todo) = _
      rw [Lib.tally_append, hmore, zero_add]
    rcases hcase with hsame | ⟨p, rfl, htree, htop, hhands⟩
    · refine hsame.setHand dull_nil hh rfl rfl ?_ ?_
      · intro c hc
        rw [hnew] at hc
        refine hwf.claim hh ?_
        exact Multiset.mem_add.mpr (.inr hc)
      · rw [hnew, hold, owners_add]
        exact Multiset.le_add_left _ _
    · have hswap := swapHand htop hhands hh hold hnew rfl
      obtain ⟨rest, hbef, hafter⟩ := hswap.claims
      rw [← add_assoc, add_right_comm] at hbef
      exact .quiet ⟨htop, hswap.exits, _, hbef, (add_zero _).trans hafter⟩ htree (.unlink p) dull_nil
  · next hh => exact Same.refl.clearHand dull_nil hh rfl rfl rfl
  · exact .stay

theorem reap_move (p : Nat) : Moves d (d.reap p) := by
  unfold reap
  split
  · exact .stay
  split
  · exact .stay
  next process hp =>
  split
  · exact .stay
  split
  · exact .stay
  next hpub =>
  split
  · exact .stay
  split
  · exact .stay
  next hzombie =>
  obtain ⟨q, hq, hpub⟩ := ensurePublished_spec (not_not.mp hpub)
  obtain rfl := some.inj (hp.symm.trans hq)
  refine .quiet ⟨rfl, exitAt_putHand rfl, d.claims, add_zero _, (claims_putHand ..).symm⟩ ?_
    (.reap p process.row (getElem?_tree hp) (not_not.mp hzombie) hpub) dull_nil
  refine tree_modifyProcess d p (g := fun a => { a with linked := false }) ?_
  intro q
  rfl

/-! ## Claims that change hands -/

/-- A hand passes its claims on. -/
theorem Same.keepHand (h : Same d d') (hwf : d.WF) (dull : Dull events)
    (hold : d.hands[k]? = some old) (hexit : old.exit = none) (hnew : new.exit = none)
    (hcls : new.claims = old.claims) : Move d events (d'.setHand k new) := by
  refine h.setHand dull hold hexit hnew ?_ (by rw [hcls])
  rw [hcls]
  exact fun _ => hwf.claim hold

/-- A claim whose process may still be removed. -/
inductive Removable (p : Nat) : Claim → Prop
  | fresh : Removable p (.fresh p)
  | scopeInit (scope outer : Nat) : Removable p (.scopeInit p scope outer)
  | root (scope : Nat) : Removable p (.root scope p)

/-- Nothing names an unpublished process that is not bound. -/
theorem Removable.doomed (hwf : t.WF) (h : Removable p c)
    (hok : c.OK t) : (Claim.doomed p).OK t := by
  have hcase : ∃ a, t.Unpublished p a ∧ ∀ s, t.init s ≠ some p := by
    cases h with
    | fresh =>
      obtain ⟨a, ha, hinit⟩ := hok
      refine ⟨a, ha, ?_⟩
      intro s hs
      obtain ⟨b, hb, hbinit, -⟩ := hwf.inits s p hs
      obtain rfl := some.inj (ha.1.symm.trans hb)
      rw [hinit] at hbinit
      cases hbinit
    | scopeInit scope outer =>
      obtain ⟨a, ha, -, -, -, -, hfree, -⟩ := hok
      exact ⟨a, ha, hfree⟩
    | root scope =>
      obtain ⟨a, ha, -, -, -, -, -, hfree⟩ := hok
      exact ⟨a, ha, hfree⟩
  obtain ⟨a, ⟨hrow, hpub, -⟩, hfree⟩ := hcase
  refine ⟨a, hrow, ?_⟩
  rintro (hpub' | ⟨s, hs⟩)
  · rw [hpub] at hpub'
    cases hpub'
  · exact hfree s hs

/-- A token is dropped. -/
theorem Same.doomHand (h : Same d d') (hwf : d.WF) (dull : Dull events)
    (hold : d.hands[k]? = some old) (hexit : old.exit = none) (hnew : new.exit = none)
    (hc : Removable p c) (holdclaims : old.claims = {c}) (hnewclaims : new.claims = {.doomed p}) :
    Move d events (d'.setHand k new) := by
  refine h.setHand dull hold hexit hnew ?_ ?_
  · rw [hnewclaims]
    refine forall_mem_singleton (hc.doomed hwf.tree (hwf.claim hold ?_))
    rw [holdclaims]
    exact Multiset.mem_singleton_self c
  · rw [hnewclaims, holdclaims]
    cases hc with
    | fresh | scopeInit | root => exact le_refl _

/-! ## Threads -/

theorem prepareInitialThread_move (hwf : d.WF) (h : Nat) (tid : Pid) :
    Moves d (d.prepareInitialThread h tid) := by
  unfold prepareInitialThread
  split
  · next hh => exact Same.refl.keepHand hwf dull_nil hh rfl rfl rfl
  · next hh => exact Same.refl.keepHand hwf dull_nil hh rfl rfl rfl
  · exact .stay

/-- A thread preparation fails and takes along what its owner consumed. -/
theorem Same.dropOwner (h : Same d d') (hwf : d.WF) (owner : ThreadOwner)
    (hold : d.hands[k]? = some old) (hexit : old.exit = none) (hcls : old.claims = owner.claims p)
    (htodo : tally Release.claims todo = tally Release.claims (ownerReleases p owner)) :
    Move d [] (d'.setHand k (.releasing todo)) := by
  cases owner with
  | domain | admission => exact h.clearHand dull_nil hold hexit rfl htodo
  | initial => exact h.doomHand hwf dull_nil hold hexit rfl .fresh hcls htodo
  | scopedInitial scope outer =>
    exact h.doomHand hwf dull_nil hold hexit rfl (.scopeInit scope outer) hcls htodo

theorem reserveThread_move (hwf : d.WF) (h : Nat) (allocated : Bool) :
    Moves d (d.reserveThread h allocated) := by
  unfold reserveThread
  split
  · next hh =>
    split
    · exact Same.refl.dropOwner hwf _ hh rfl rfl rfl
    split
    · exact Same.refl.dropOwner hwf _ hh rfl rfl rfl
    refine Same.keepHand ?_ hwf dull_nil hh rfl rfl ?_
    · exact ⟨rfl, rfl, rfl⟩
    · rfl
  · exact .stay

theorem linkThread_move (hwf : d.WF) (h : Nat) : Moves d (d.linkThread h) := by
  unfold linkThread
  split
  · next p tid owner hh =>
    split
    · exact .stay
    split
    · refine Same.refl.dropOwner hwf owner hh rfl rfl ?_
      exact (Lib.tally_cons ..).trans (zero_add _)
    · refine Same.keepHand ?_ hwf dull_nil hh rfl (by cases owner <;> rfl) (by cases owner <;> rfl)
      exact (same_setTg d p _).trans ⟨rfl, rfl, rfl⟩
  · exact .stay

theorem exitThread_move (p : Nat) (tid : Pid) (exitCode : Int) :
    Moves d (d.exitThread p tid exitCode) := by
  unfold exitThread
  split
  · exact .stay
  next hpub =>
  split
  · exact .stay
  refine Same.refl.putHand dull_nil rfl (forall_mem_singleton ?_) rfl
  obtain ⟨process, hp, hpub⟩ := ensurePublished_spec (not_not.mp hpub)
  exact ⟨process.row, getElem?_tree hp, hpub⟩

theorem exitThreadLocked_move (hwf : d.WF) (h : Nat) : Moves d (d.exitThreadLocked h) := by
  unfold exitThreadLocked
  split
  · next p tid exitCode hh =>
    split
    · exact .stay
    split
    · exact .stay
    next process hp =>
    split
    · exact Same.refl.clearHand dull_nil hh rfl rfl rfl
    split
    · exact Same.refl.clearHand dull_nil hh rfl rfl rfl
    split
    · exact (same_setTg ..).clearHand dull_nil hh rfl rfl rfl
    split
    · exact Same.refl.clearHand dull_nil hh rfl rfl rfl
    next hlive =>
    split
    · exact Same.refl.clearHand dull_nil hh rfl rfl rfl
    -- the last thread: the exit is prepared
    refine (same_setTg ..).setHand dull_nil hh rfl rfl (forall_mem_singleton ?_) (le_refl _)
    have hseen : (Claim.seen p).OK d.tree := hwf.claim hh (Multiset.mem_singleton_self _)
    obtain ⟨a, ha, hpub⟩ := hseen
    obtain rfl := some.inj ((getElem?_tree hp).symm.trans ha)
    exact ⟨process.row, ha, hpub, Bool.eq_false_iff.mpr (not_or.mp hlive).1⟩
  · exact .stay

/-! ## Forks -/

/-- Registration makes a process that nothing names. -/
theorem init_ne_length (hwf : d.tree.WF) (s : Nat) : d.tree.init s ≠ some d.tree.rows.length := by
  intro hs
  obtain ⟨a, ha, -⟩ := hwf.inits s _ hs
  exact absurd (Tree.lt_length ha) (Nat.lt_irrefl _)

theorem unpublished_link (t : Tree) (hpub : a.published = false)
    (hlink : a.linked = true) : (t.link a).Unpublished t.rows.length a := by
  refine ⟨?_, hpub, hlink⟩
  change (t.rows ++ [a])[t.rows.length]? = some a
  rw [getElem?_append_right (Nat.le_refl _), Nat.sub_self]
  rfl

/-- The registration of a process in exchange for a hand's claims. -/
theorem admitProcess_move {new : NewProcess} {token : Hand} (claim : Claim)
    (hadm : d.admitProcess new = .ok (p, d')) (hold : d.hands[h]? = some old)
    (hexit : old.exit = none) (htok : token.exit = none) (hclaim : token.claims = {claim})
    (hplain : new.init = false → ∃ k, d.tree.init new.scope = some k)
    (hpar : ∀ g, new.parent = some g → ∃ b, d.tree.rows[g]? = some b ∧ b.published = true)
    (hok : claim.OK (d.tree.link (allocate (Z := Z) new).row))
    (howner : claim.owner = some d.tree.rows.length) : Move d [] (d'.setHand h token) := by
  obtain ⟨-, htree, htop, hhands, hfree⟩ := admitProcess_spec hadm
  refine .quiet (swapHand htop hhands hold rfl hclaim (htok.trans hexit.symm)) htree
    (.link (allocate (Z := Z) new).row _ claim ?_ ⟨rfl, rfl, rfl⟩ hplain hpar hok howner) dull_nil
  intro i b hb hlink
  exact ne_pid_of_findProcess hfree hb hlink

theorem admitInit_move (hwf : d.WF) (h : Nat) (allocated : Bool) :
    Moves d (d.admitInit h allocated) := by
  unfold admitInit
  split
  · next scope pid g hh =>
    split
    · exact Same.refl.clearHand dull_nil hh rfl rfl rfl
    split
    · exact Same.refl.clearHand dull_nil hh rfl rfl rfl
    next p d' hadm =>
    have hscope : (Claim.initIn scope).OK d.tree := hwf.claim hh (Multiset.mem_singleton_self _)
    obtain ⟨rfl, -⟩ := admitProcess_spec hadm
    refine admitProcess_move (.root scope _) hadm hh rfl rfl rfl ?_ ?_ ?_ rfl
    · intro hinit
      cases hinit
    · intro g hg
      cases hg
    · exact ⟨_, unpublished_link _ rfl rfl, rfl, rfl, rfl, rfl, hscope, init_ne_length hwf.tree⟩
  · exact .stay

/-- Every published process has a bound scope. -/
theorem exists_init (hwf : d.tree.WF) (hp : d.tree.rows[p]? = some a)
    (hpub : a.published = true) : ∃ k, d.tree.init a.scope = some k := by
  cases hinit : a.init with
  | false =>
    obtain ⟨k, hk, -⟩ := hwf.plain p a hp hinit
    exact ⟨k, hk⟩
  | true => exact ⟨p, (hwf.bound p a hp hinit hpub).1⟩

theorem prepareFork_move (parent scope : Nat) (pid : Pid) :
    Moves d (d.prepareFork parent scope pid) := by
  unfold prepareFork
  split
  · exact .stay
  next hpub =>
  split
  · exact .stay
  next hinit =>
  split
  · exact .stay
  refine Same.refl.putHand dull_nil rfl (forall_mem_singleton ?_) rfl
  obtain ⟨process, hp, hpub⟩ := ensurePublished_spec (not_not.mp hpub)
  obtain ⟨k, hk⟩ := ne_none_iff_exists'.mp (mt isNone_iff_eq_none.mpr hinit)
  have hk' : d.tree.init scope = some k := hk
  exact ⟨⟨process.row, getElem?_tree hp, hpub⟩, Tree.lt_scopes hk', fun _ => ⟨k, hk'⟩⟩

theorem prepareForkInit_move (parent scope : Nat) (pid : Pid) :
    Moves d (d.prepareForkInit parent scope pid) := by
  unfold prepareForkInit
  split
  · exact .stay
  next hscope =>
  split
  · exact .stay
  next hpub =>
  split
  · exact .stay
  refine Same.refl.putHand dull_nil rfl (forall_mem_singleton ?_) rfl
  obtain ⟨process, hp, hpub⟩ := ensurePublished_spec (not_not.mp hpub)
  refine ⟨⟨process.row, getElem?_tree hp, hpub⟩, Nat.not_le.mp hscope, ?_⟩
  intro hinit
  cases hinit

theorem allocateFork_move (hwf : d.WF) (h : Nat) (allocated : Bool) :
    Moves d (d.allocateFork h allocated) := by
  unfold allocateFork
  split
  · next parent scope pid init hh =>
    split
    · exact .stay
    split
    · refine Same.refl.setHand dull_nil hh rfl rfl (forall_mem_singleton ?_) (le_refl _)
      have hfork : (Claim.fork parent scope init).OK d.tree :=
        hwf.claim hh (Multiset.mem_singleton_self _)
      exact ⟨parent, rfl, hfork⟩
    · exact Same.refl.clearHand dull_nil hh rfl rfl rfl
  · exact .stay

theorem admitFork_move (hwf : d.WF) (h : Nat) : Moves d (d.admitFork h) := by
  unfold admitFork
  split
  · next new hh =>
    split
    · exact Same.refl.clearHand dull_nil hh rfl rfl rfl
    next p d' hadm =>
    have halloc : (Claim.alloc new).OK d.tree := hwf.claim hh (Multiset.mem_singleton_self _)
    obtain ⟨parent, hnew, ⟨b, hb, hpub⟩, hscope, hplain⟩ := halloc
    have hpar : ∀ g, new.parent = some g →
        ∃ b, d.tree.rows[g]? = some b ∧ b.published = true := by
      intro g hg
      obtain rfl := some.inj (hnew.symm.trans hg)
      exact ⟨b, hb, hpub⟩
    obtain ⟨rfl, -⟩ := admitProcess_spec hadm
    have hrow := unpublished_link d.tree (a := (allocate (Z := Z) new).row) rfl rfl
    unfold forkToken
    cases hinit : new.init with
    | false =>
      refine admitProcess_move (.fresh _) hadm hh rfl rfl rfl hplain hpar ?_ rfl
      exact ⟨_, hrow, hinit⟩
    | true =>
      -- the outer scope is the parent's, which is bound
      obtain ⟨process, hprocess, rfl⟩ := of_getElem?_tree hb
      obtain ⟨m, hm⟩ := exists_init hwf.tree hb hpub
      obtain ⟨c, hc, -⟩ := hwf.tree.inits _ m hm
      refine admitProcess_move (.scopeInit _ new.scope process.reaperScope) hadm hh rfl
        rfl ?_ hplain hpar ?_ rfl
      · rw [hnew, bind_some, hprocess]
        rfl
      · exact ⟨_, hrow, hinit, rfl, rfl, hscope, init_ne_length hwf.tree, m, hm, Tree.lt_length hc⟩
  · exact .stay

/-! ## Publication -/

theorem tree_publishProcess (d : Domain Z) (p : Nat) :
    (d.publishProcess p).tree = d.tree.publish p :=
  tree_modifyProcess d p fun _ => rfl

/-- A token is consumed by the publication of its process. -/
theorem publish_move (dull : Dull events) (hold : d.hands[h]? = some old) (hexit : old.exit = none)
    (hclaim : old.claims = {claim}) (hkind : claim = .fresh p ∨ claim = .bound p)
    (htree : d'.tree = d.tree.publish p) (htop : d'.topology = d.topology)
    (hhands : d'.hands = d.hands) : Move d events (d'.setHand h .empty) :=
  .quiet (swapHand htop hhands hold hclaim rfl hexit.symm) htree (.publish p claim hkind) dull

theorem commitProcess_move (h : Nat) : Moves d (d.commitProcess h) := by
  unfold commitProcess
  split
  · next p hh =>
    exact publish_move dull_nil hh rfl rfl (.inl rfl) (tree_publishProcess d p) rfl rfl
  · exact .stay

theorem commitWithThread_move (hwf : d.WF) (h ht : Nat) : Moves d (d.commitWithThread h ht) := by
  unfold commitWithThread
  split
  · next p q node hh hht =>
    have hne : ht ≠ h := by
      rintro rfl
      rw [hh] at hht
      cases hht
    -- the thread token is exchanged first, so the process token is still there
    have hthere : ∀ hand, (d.hands.set ht hand)[h]? = some (.admission p) :=
      fun hand => (getElem?_set_ne hne).trans hh
    split
    · exact .stay
    split
    · -- both tokens are dropped
      refine .quiet (.after (swapHand rfl rfl (hthere _) rfl rfl rfl) (swapHand rfl rfl hht rfl rfl rfl))
        rfl (.hands {.fresh p} {.doomed p} (forall_mem_singleton ?_) (le_refl _)) dull_nil
      exact Removable.fresh.doomed hwf.tree (hwf.claim hh (Multiset.mem_singleton_self _))
    · next tg _ =>
      refine .quiet (.after (swapHand rfl rfl (hthere _) rfl rfl rfl) (swapHand rfl rfl hht rfl rfl rfl))
        ?_ (.publish p (.fresh p) (.inl rfl)) dull_nil
      refine (tree_publishProcess _ p).trans ?_
      rw [(same_setTg d p tg).tree]
  · exact .stay

/-- Publication together with the initial thread. -/
theorem publishWithThread_move (hold : d.hands[h]? = some old) (hexit : old.exit = none)
    (hclaim : old.claims = {claim}) (hkind : claim = .fresh p ∨ claim = .bound p) :
    Move d (d.publishWithThread p node).1 ((d.publishWithThread p node).2.setHand h .empty) := by
  unfold publishWithThread
  split
  · exact Same.refl.clearHand dull_nil hold hexit rfl rfl
  refine publish_move ?_ hold hexit hclaim hkind ?_ rfl rfl
  · exact (dull_debugAssert rfl).append (dull_debugAssert rfl)
  · refine (tree_publishProcess _ p).trans ?_
    rw [(same_setTg d p _).tree]

theorem commitInitial_move (h : Nat) : Moves d (d.commitInitial h) := by
  unfold commitInitial
  split
  · next hh => exact publishWithThread_move hh rfl rfl (.inl rfl)
  · exact .stay

theorem commitScoped_move (h : Nat) : Moves d (d.commitScoped h) := by
  unfold commitScoped
  split
  · next p hh =>
    exact publish_move dull_nil hh rfl rfl (.inr rfl) (tree_publishProcess d p) rfl rfl
  · next hh => exact publishWithThread_move hh rfl rfl (.inr rfl)
  · exact .stay

theorem bindInit_move (hwf : d.WF) (h : Nat) : Moves d (d.bindInit h) := by
  unfold bindInit
  split
  · next scope p g hh =>
    split
    · exact Same.refl.doomHand hwf dull_nil hh rfl rfl (.root scope) rfl rfl
    next hfree =>
    have hsame := (jobsOnly_publishGroup d g true).same
    refine .quiet (swapHand hsame.topology hsame.hands hh rfl rfl rfl) ?_
      (.publishInit scope p (not_isSome_iff_eq_none.mp hfree)) dull_nil
    have hpub := tree_publishProcess (d.publishGroup g true) p
    rw [hsame.tree] at hpub
    exact congrArg (Tree.setInit · scope p) hpub
  · exact .stay

/-- The binding of a scope init by either token. -/
theorem bind_move (hold : d.hands[h]? = some old) (hexit : old.exit = none)
    (hcls : old.claims = {.scopeInit p scope outer}) (hfree : ¬ (d.initProcess scope).isSome = true)
    (htok : token.exit = none) (hbinding : token.claims = {.binding p scope outer}) :
    Move d [] ((d.setScopeInit scope p).setHand h token) :=
  .quiet (swapHand rfl rfl hold hcls hbinding (htok.trans hexit.symm)) rfl
    (.bind p scope outer (not_isSome_iff_eq_none.mp hfree)) dull_nil

theorem bindScope_move (hwf : d.WF) (h : Nat) : Moves d (d.bindScope h) := by
  unfold bindScope
  split
  · next p scope outer hh =>
    split
    · refine Same.refl.doomHand hwf ?_ hh rfl rfl (.scopeInit scope outer) rfl rfl
      intro e he
      rw [mem_singleton.mp he]
      rfl
    · next hfree => exact bind_move hh rfl rfl hfree rfl rfl
  · next p node scope outer hh =>
    split
    · exact Same.refl.doomHand hwf dull_nil hh rfl rfl (.scopeInit scope outer) rfl rfl
    · next hfree => exact bind_move hh rfl rfl hfree rfl rfl
  · exact .stay

theorem bindOuter_move (h : Nat) : Moves d (d.bindOuter h) := by
  unfold bindOuter
  split
  · next p node scope outer hh =>
    exact .quiet (swapHand rfl rfl hh rfl rfl rfl) rfl (.setOuter p scope outer) dull_nil
  · exact .stay

theorem dropToken_move (hwf : d.WF) (h : Nat) : Moves d (d.dropToken h) := by
  unfold dropToken
  split
  · next hh => exact Same.refl.doomHand hwf dull_nil hh rfl rfl .fresh rfl rfl
  · next p scope outer hh =>
    exact Same.refl.doomHand hwf dull_nil hh rfl rfl (.scopeInit scope outer) rfl rfl
  · next hh => exact Same.refl.doomHand hwf dull_nil hh rfl rfl .fresh rfl rfl
  · next p node scope outer hh =>
    exact Same.refl.doomHand hwf dull_nil hh rfl rfl (.scopeInit scope outer) rfl rfl
  · next hh => exact Same.refl.clearHand dull_nil hh rfl rfl rfl
  · exact .stay

/-! ## Exits -/

theorem prepareExit_move (p : Nat) : Moves d (d.prepareExit p) := by
  unfold prepareExit
  split
  · exact .stay
  next hpub =>
  split
  · exact .stay
  next hlive =>
  split
  · exact .stay
  refine Same.refl.putHand dull_nil rfl (forall_mem_singleton ?_) rfl
  obtain ⟨process, hp, hpub⟩ := ensurePublished_spec (not_not.mp hpub)
  rw [hp, any_some, Bool.or_eq_true, not_or] at hlive
  exact ⟨process.row, getElem?_tree hp, hpub, Bool.eq_false_iff.mpr hlive.1⟩

theorem reserveExit_move (hwf : d.WF) (h : Nat) : Moves d (d.reserveExit h) := by
  unfold reserveExit
  split
  · next hh =>
    split
    · exact .stay
    split
    · exact .stay
    split
    · exact Same.refl.clearHand dull_nil hh rfl rfl rfl
    split
    · exact Same.refl.clearHand dull_nil hh rfl rfl rfl
    split
    · exact Same.refl.clearHand dull_nil hh rfl rfl rfl
    · exact (same_setTg ..).keepHand hwf dull_nil hh rfl rfl rfl
  · exact .stay

theorem publishZombie_move (h : Nat) (payload : Z) : Moves d (d.publishZombie h payload) := by
  unfold publishZombie
  split
  · next p departing hh =>
    split
    · exact .stay
    split
    · exact .stay
    next process hp =>
    rw [← parentOf_eq hp]
    refine .zombie h p departing ?_ (exitAt_of_hand hh) ?_ rfl ?_ ?_
    · exact (dull_debugAssert rfl).append (dull_debugAssert rfl)
    · refine tree_modifyProcess d p (g := fun a => { a with zombie := true }) ?_
      intro q
      rfl
    · intro h'
      exact exitAt_setHand (d := d.modifyProcess p _) hh _ h'
    · exact (claims_setHand (d := d.modifyProcess p _) hh _).trans (add_zero _)
  · exact .stay

/-- The hand of an exit commit at a stage, or the empty hand. -/
def exitHand (p : Nat) (notificationParent : Option Nat) : Option ExitStage → Hand
  | some stage => .exiting p notificationParent stage
  | none => .empty

theorem exitHand_exit (p : Nat) (np : Option Nat) (stage : Option ExitStage) :
    (exitHand p np stage).exit = stage.map (p, np, ·) := by
  cases stage <;> rfl

theorem exitHand_claims (p : Nat) (np : Option Nat) (stage : Option ExitStage) :
    (exitHand p np stage).claims = 0 := by
  cases stage <;> rfl

section Stage

variable {h p : Nat} {np : Option Nat} {stage : ExitStage}

theorem stage_move (d' : Domain Z) (stage' : Option ExitStage)
    (hold : d.hands[h]? = some (.exiting p np stage)) (htree : d'.tree = d.tree)
    (hhands : d'.hands = d.hands) (hstep : StageStep d h p np stage events stage' d'.topology) :
    Move d events (d'.setHand h (exitHand p np stage')) := by
  have hold' : d'.hands[h]? = some (.exiting p np stage) := by
    rw [hhands]
    exact hold
  refine .stage h p np (exitAt_of_hand hold) hstep htree ?_ ?_
  · intro h'
    rw [exitAt_setHand hold', exitHand_exit]
    unfold exitAt
    rw [hhands]
  · exact claims_setExit d' hhands hold (exitHand_claims ..)

theorem releaseDeparting_move (h : Nat) : Moves d (d.releaseDeparting h) := by
  unfold releaseDeparting
  split
  · next departing hh =>
    cases departing with
    | none => exact stage_move _ (some .released) hh rfl rfl (.release none)
    | some thread => exact stage_move _ (some .released) hh rfl rfl (.release (some thread))
  · exact .stay

theorem startScan_move (h : Nat) : Moves d (d.startScan h) := by
  unfold startScan
  split
  · next hh => exact stage_move _ (some (.outside _)) hh rfl rfl .start
  · exact .stay

theorem lockSection_move (h : Nat) : Moves d (d.lockSection h) := by
  unfold lockSection
  split
  · next scan hh =>
    split
    · exact .stay
    next hfree =>
    have hnone := not_isSome_iff_eq_none.mp hfree
    exact stage_move { d with topology := some h } (some (.locked scan _)) hh
      rfl rfl (.lock scan hnone)
  · exact .stay

theorem reparentBatch_move (h : Nat) : Moves d (d.reparentBatch h) := by
  unfold reparentBatch
  split
  · next scan handed hh =>
    exact stage_move _ (some (.inherited ..)) hh rfl rfl (.batch scan handed)
  · exact .stay

/-- The end of a round. -/
theorem nextRound_spec (d : Domain Z) (h p : Nat) (np : Option Nat)
    (scan : ExitScan) : ∃ events stage',
      d.nextRound h p np scan
        = (events, d.setHand h (exitHand p np stage')) ∧
      Round h p np scan events stage' := by
  unfold nextRound
  split
  · next hfin => exact ⟨_, none, rfl, .returned hfin⟩
  · next hgoOn => exact ⟨_, some _, rfl, .again (Bool.eq_false_iff.mpr hgoOn)⟩

theorem inheritedZombie_move (h : Nat) : Moves d (d.inheritedZombie h) := by
  unfold inheritedZombie
  split
  · next scan handed child zombies hh =>
    exact stage_move _ (some (.inherited ..)) hh rfl rfl (.inherit scan handed child zombies)
  · next p np scan handed hh =>
    obtain ⟨events, stage', heq, hround⟩ := nextRound_spec d h p np scan
    rw [heq]
    exact stage_move d stage' hh rfl rfl (.round scan handed hround)
  · exact .stay

/-- The end of a section. -/
theorem unlockSection_spec (d : Domain Z) (h p : Nat) (np : Option Nat)
    (scan : ExitScan) (current : ReparentSection)
    (hreap : current.reparented ≠ [] → current.batchReaper ≠ none) : ∃ events stage',
      d.unlockSection h p np scan current
        = (events, setHand { d with topology := none } h (exitHand p np stage')) ∧
      Unlocked h p np scan current events stage' := by
  unfold unlockSection
  split
  · next hemp =>
    obtain ⟨events, stage', heq, hround⟩ :=
      nextRound_spec { d with topology := none } h p np scan
    exact ⟨events, stage', heq, .round (isEmpty_iff.mp hemp) hround⟩
  · next hmoved =>
    have hne : current.reparented ≠ [] := mt isEmpty_iff.mpr hmoved
    split
    · next hnone => exact absurd hnone (hreap hne)
    · next reaper hreap => exact ⟨_, some _, rfl, .handed reaper hreap hne⟩

/-- What follows a scanned process. -/
theorem continueSection_spec (htop : d.topology = some h) (p : Nat)
    (np : Option Nat) (scan : ExitScan) (current : ReparentSection)
    (hreap : current.reparented ≠ [] → current.batchReaper ≠ none) :
    ∃ events stage' topology,
      d.continueSection h p np scan current
        = (events, setHand { d with topology } h (exitHand p np stage')) ∧
      Scanned h p np scan current events stage' topology := by
  unfold continueSection
  split
  · next hlt =>
    refine ⟨[], some (.locked scan current), some h, ?_, .goOn hlt⟩
    rw [← htop]
    rfl
  · obtain ⟨events, stage', heq, hover⟩ := unlockSection_spec d h p np scan current hreap
    exact ⟨events, stage', none, heq, .ended hover⟩

end Stage

/-! ## The scan -/

section Scan

variable {h p : Nat} {np : Option Nat} {scan scan' : ExitScan}
  {current : ReparentSection} {child : Nat} {process : Process Z}

/-- A child is given its reaper, and the section goes on or ends. -/
theorem moved_move {reaper : Nat} {topology : Option Nat}
    (hold : d.hands[h]? = some (.exiting p np (.locked scan current)))
    (hnext : d.nextChild scan = (.process child, scan'))
    (hchild : d.processes[child]? = some process) (hpub : process.published = true)
    (hpar : process.parent = some p) (hdue : d.ReaperOf p child reaper)
    (hfit : FitReaper d.tree child reaper)
    (hbatch : current.batchReaper = none ∨ current.batchReaper = some reaper)
    (hstep : Scanned h p np scan'
      { batchReaper := some reaper
        reparented := current.reparented ++ [{ child, wasZombie := process.isZombie }]
        batchLen := current.batchLen + 1 } events stage' topology) :
    Move d (.moved h p child reaper process.isZombie :: events)
      (setHand { d.modifyProcess child (fun process => { process with parent := some reaper }) with
        topology } h (exitHand p np stage')) := by
  obtain rfl := hstep.events_eq (concat_ne_nil _ _)
  refine .moved h p np (exitAt_of_hand hold) hnext (getElem?_tree hchild) hpub
    hpar hdue hfit hbatch hstep ?_ ?_ ?_
  · refine tree_modifyProcess d child (g := fun a => { a with parent := some reaper }) ?_
    intro q
    rfl
  · intro h'
    refine (exitAt_setHand (d := { d.modifyProcess child _ with topology }) hold _ h').trans ?_
    rw [exitHand_exit]
    rfl
  · exact claims_setExit { d.modifyProcess child _ with topology } rfl hold (exitHand_claims ..)

/-- One scanned process: it is left alone, put off to the next section, or moved. -/
theorem scanChild_move (hwf : d.WF)
    (hold : d.hands[h]? = some (.exiting p np (.locked scan current)))
    (hnext : d.nextChild scan = (.process child, scan'))
    (hchild : d.processes[child]? = some process) :
    Move d (d.scanChild h p np scan' current child process).1
      (d.scanChild h p np scan' current child process).2 := by
  obtain ⟨htop, hreap⟩ := hwf.locked h p np scan current (exitAt_of_hand hold)
  have hrow := getElem?_tree hchild
  unfold scanChild
  split
  · next hother =>
    obtain ⟨events, stage', topology, heq, hstep⟩ := continueSection_spec htop p np
      scan' { current with batchLen := current.batchLen + 1 } hreap
    rw [heq]
    refine stage_move { d with topology } stage' hold rfl rfl (.skip hnext hrow ?_ hstep)
    intro ⟨hpub, hpar⟩
    rcases hother with hunpub | hne
    · exact hunpub hpub
    · exact hne hpar
  · next hmine =>
    obtain ⟨hpub, hpar⟩ := not_or.mp hmine
    replace hpub := not_not.mp hpub
    replace hpar := not_not.mp hpar
    obtain ⟨reaper, hselect, hdue, hfit⟩ := selectReaper_spec hwf.tree hchild hpub hpar
    rw [hselect]
    dsimp only
    split
    · -- the section is full of another reaper's children
      obtain ⟨events, stage', heq, hover⟩ := unlockSection_spec d h p np
        { scan' with deferredChild := some child }
        { current with batchLen := current.batchLen + 1 } hreap
      rw [heq]
      exact stage_move { d with topology := none } stage' hold rfl rfl (.defer hnext hrow hover)
    · next hsame =>
      have hbatch : current.batchReaper = none ∨ current.batchReaper = some reaper := by
        cases hcur : current.batchReaper with
        | none => exact .inl rfl
        | some r =>
          right
          rw [hcur, any_some, bne_iff_ne, not_not] at hsame
          rw [hsame]
      have howned : d.reparentIfOwned child p reaper = some (d.modifyProcess child
          fun process => { process with parent := some reaper }) := by
        unfold reparentIfOwned
        rw [parentOf_eq hchild, if_pos hpar]
      rw [howned]
      dsimp only
      split
      · obtain ⟨events, stage', heq, hover⟩ := unlockSection_spec
          (d.modifyProcess child fun process => { process with parent := some reaper }) h p np scan'
          ⟨some reaper, current.reparented ++ [⟨child, process.isZombie⟩], current.batchLen + 1⟩
          fun _ => some_ne_none reaper
        rw [heq]
        exact moved_move hold hnext hchild hpub hpar hdue hfit hbatch (.ended hover)
      · obtain ⟨events, stage', topology, heq, hstep⟩ := continueSection_spec
          (d := d.modifyProcess child fun process => { process with parent := some reaper }) htop p
          np scan'
          ⟨some reaper, current.reparented ++ [⟨child, process.isZombie⟩], current.batchLen + 1⟩
          fun _ => some_ne_none reaper
        rw [heq]
        exact moved_move hold hnext hchild hpub hpar hdue hfit hbatch hstep

end Scan

theorem scan_move (hwf : d.WF) (h : Nat) : Moves d (d.scan h) := by
  unfold scan
  split
  · next p np scan current hh =>
    obtain ⟨-, hreap⟩ := hwf.locked h p np scan current (exitAt_of_hand hh)
    split
    · next retired scan' hnext =>
      obtain ⟨events, stage', heq, hover⟩ := unlockSection_spec d h p np
        { scan' with finished := true } current hreap
      rw [heq]
      exact stage_move { d with topology := none } stage' hh rfl rfl (.finish hnext hover)
    · next child scan' hnext =>
      split
      · exact .stay
      · next process hchild => exact scanChild_move hwf hh hnext hchild
  · exact .stay

/-! ## Every call -/

/-- In a reachable state every call is a move. -/
theorem call_move (hwf : d.WF) (call : ProcessCall Z) : Moves d (d.call call) := by
  cases call with
  | newReaperScope allocated => exact newReaperScope_move allocated
  | newInit scope pid allocated => exact newInit_move scope pid allocated
  | admitInit h allocated => exact admitInit_move hwf h allocated
  | bindInit h => exact bindInit_move hwf h
  | prepareFork parent scope pid => exact prepareFork_move parent scope pid
  | prepareForkInit parent scope pid => exact prepareForkInit_move parent scope pid
  | allocateFork h allocated => exact allocateFork_move hwf h allocated
  | admitFork h => exact admitFork_move hwf h
  | commitProcess h => exact commitProcess_move h
  | commitWithThread h ht => exact commitWithThread_move hwf h ht
  | commitInitial h => exact commitInitial_move h
  | bindScope h => exact bindScope_move hwf h
  | bindOuter h => exact bindOuter_move h
  | commitScoped h => exact commitScoped_move h
  | dropToken h => exact dropToken_move hwf h
  | releaseNext h => exact releaseNext_move hwf h
  | prepareInitialThread h tid => exact prepareInitialThread_move hwf h tid
  | reserveThread h allocated => exact reserveThread_move hwf h allocated
  | linkThread h => exact linkThread_move hwf h
  | exitThread p tid exitCode => exact exitThread_move p tid exitCode
  | exitThreadLocked h => exact exitThreadLocked_move hwf h
  | reap p => exact reap_move p
  | prepareExit p => exact prepareExit_move p
  | reserveExit h => exact reserveExit_move hwf h
  | publishZombie h payload => exact publishZombie_move h payload
  | releaseDeparting h => exact releaseDeparting_move h
  | startScan h => exact startScan_move h
  | lockSection h => exact lockSection_move h
  | scan h => exact scan_move hwf h
  | reparentBatch h => exact reparentBatch_move h
  | inheritedZombie h => exact inheritedZombie_move h
  | _ =>
    -- a thread group, a group or a flag is written: the tree and the claims see nothing of it
    simp only [call, retain, setChildSubreaper, createJob, readJob, admitJob, reserveJob, commitJob,
      moveToGroup, moveGroupLive, moveCompare, reserveMove, commitMove, prepareThread,
      prepareAdmissionThread, commitThread, commitThreadInfallible, removeThread, groupExit, dropExit]
    (repeat' split) <;> try dsimp only
    all_goals first
      | exact .stay
      | exact Same.refl.putIdle rfl rfl
      | exact (same_setTg ..).move dull_nil
      | exact (same_setTg ..).putIdle rfl rfl
      | exact (same_modifyProcess _ _ (by intro process; rfl)).move dull_nil
      | (refine Same.refl.clearHand dull_nil (by assumption) ?_ ?_ ?_ <;> rfl)
      | (refine (same_setTg ..).clearHand dull_nil (by assumption) ?_ ?_ ?_ <;> rfl)
      | (refine (same_setTg ..).clearHand (dull_debugAssert rfl) (by assumption) ?_ ?_ ?_ <;> rfl)
      | (refine (jobsOnly_admitSessionGroup (by assumption)).same.clearHand dull_nil
           (by assumption) ?_ ?_ ?_ <;> rfl)
      | (refine (jobsOnly_reserveGroupMember (by assumption)).same.clearHand dull_nil
           (by assumption) ?_ ?_ ?_ <;> rfl)
      | (refine (same_replaceGroup ..).clearHand dull_nil (by assumption) ?_ ?_ ?_ <;> rfl)
      | (refine ((same_replaceGroup ..).trans (jobsOnly_publishGroup ..).same).clearHand dull_nil
           (by assumption) ?_ ?_ ?_ <;> rfl)

end Domain

end LinuxAbi.Proc
