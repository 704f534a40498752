import LinuxAbi.Lib.Run
import LinuxAbi.Lib.Tally
import LinuxAbi.Seccomp.Filters

/-!
# Confinement only tightens

Tasks, and the chains that running code holds: snapshots and prepared leaves. A prepared leaf
can be published at any later time and against any snapshot, so a list of calls is any
interleaving of racing and stale publishers.

`Coherent` is what makes an identity as good as the chain it names: the chains in existence
are closed under going back one filter, and two of them with the same leaf are the same chain.
With it a publication adds one filter to the current chain (`publish_extends`), a
synchronization replaces a chain by one it is an ancestor of (`synchronize_extends`), and
`Extends` holds along every run.

The group-wide commit of a synchronization is the adapter's in the source, under the task
group's lock and all or nothing; here it is one call that prepares every sibling and stores
what was prepared.
-/

namespace LinuxAbi.Seccomp

open List
open FilterChain

/-! ## Calls -/

/-- The tasks and the chains in the hands of running code. -/
structure System where
  nextId : Nat
  handles : List FilterChain
  tasks : List SeccompState

/-- No tasks, and the empty chain. -/
def System.empty : System := { nextId := 0, handles := [[]], tasks := [] }

/-- What a call answers. -/
inductive SeccompReply
  | unknown
  | done
  | installError (error : FilterInstallError)
  | transitionError (error : StateTransitionError)

/-- The operations on tasks and chains. -/
inductive SeccompCall
  /-- a task without filters -/
  | newTask
  /-- a task that inherits the state of another -/
  | fork (task : Nat)
  /-- `SeccompState::filters` -/
  | snapshot (task : Nat)
  | append (chain : Nat) (program : VerifiedProgram) (metadata : FilterMetadata) (budget : Nat)
      (executor : Option (SeccompData → BitVec 32)) (reserved allocated : Bool)
  | publish (task expected prepared : Nat)
  | enterStrict (task : Nat)
  | synchronize (caller : Nat) (siblings : List Nat)

namespace System

/-- `prepare_synchronized_from` of each sibling, stored; an error stores nothing. -/
def synchronizeAll (caller : SeccompState) : List Nat → List SeccompState →
    Except StateTransitionError (List SeccompState)
  | [], tasks => .ok tasks
  | sibling :: rest, tasks =>
    match tasks[sibling]? with
    | none => synchronizeAll caller rest tasks
    | some state =>
      match state.prepareSynchronizedFrom caller with
      | .error error => .error error
      | .ok prepared => synchronizeAll caller rest (tasks.set sibling prepared)

/-- One call. -/
def call (s : System) : SeccompCall → SeccompReply × System
  | .newTask => (.done, { s with tasks := s.tasks ++ [.disabled] })
  | .fork task =>
    match s.tasks[task]? with
    | none => (.unknown, s)
    | some state => (.done, { s with tasks := s.tasks ++ [state] })
  | .snapshot task =>
    match s.tasks[task]? with
    | none => (.unknown, s)
    | some state => (.done, { s with handles := s.handles ++ [state.filters] })
  | .append chain program metadata budget executor reserved allocated =>
    match s.handles[chain]? with
    | none => (.unknown, s)
    | some chain =>
      match chain.tryAppend s.nextId program metadata budget executor reserved allocated with
      | .error error => (.installError error, s)
      | .ok prepared => (.done, { s with nextId := s.nextId + 1, handles := s.handles ++ [prepared] })
  | .publish task expected prepared =>
    match s.tasks[task]?, s.handles[expected]?, s.handles[prepared]? with
    | some state, some expected, some prepared =>
      match state.tryPublishFilter expected prepared with
      | .error error => (.transitionError error, s)
      | .ok state => (.done, { s with tasks := s.tasks.set task state })
    | _, _, _ => (.unknown, s)
  | .enterStrict task =>
    match s.tasks[task]? with
    | none => (.unknown, s)
    | some state =>
      match state.tryEnterStrict with
      | .error error => (.transitionError error, s)
      | .ok state => (.done, { s with tasks := s.tasks.set task state })
  | .synchronize caller siblings =>
    match s.tasks[caller]? with
    | none => (.unknown, s)
    | some state =>
      match synchronizeAll state siblings s.tasks with
      | .error error => (.transitionError error, s)
      | .ok tasks => (.done, { s with tasks })

end System

/-! ## Identities -/

/-- The chains in existence: going back from a leaf stays among them, and a leaf's identity
determines its chain. -/
structure Chains (nextId : Nat) (handles : List FilterChain) : Prop where
  nil : [] ∈ handles
  tail : ∀ node chain, node :: chain ∈ handles → chain ∈ handles
  identity : ∀ node chain node' chain', node :: chain ∈ handles → node' :: chain' ∈ handles →
    node.id = node'.id → node :: chain = node' :: chain'
  fresh : ∀ node chain, node :: chain ∈ handles → node.id < nextId

namespace Chains

variable {nextId : Nat} {handles : List FilterChain} {chain other : FilterChain}

section

variable (h : Chains nextId handles)
include h

theorem sameIdentity_eq (hchain : chain ∈ handles) (hother : other ∈ handles)
    (hsame : chain.sameIdentity other = true) : chain = other := by
  cases chain with
  | nil =>
    cases other with
    | nil => rfl
    | cons => cases hsame
  | cons node chain =>
    cases other with
    | nil => cases hsame
    | cons node' chain' => exact h.identity _ _ _ _ hchain hother (beq_iff_eq.mp hsame)

/-- A chain that directly extends another is one filter and the other. -/
theorem directlyExtends_eq (hchain : chain ∈ handles) (hother : other ∈ handles)
    (hext : chain.directlyExtends other = true) : ∃ node, chain = node :: other := by
  cases chain with
  | nil => cases hext
  | cons node previous =>
    exact ⟨node, by rw [h.sameIdentity_eq (h.tail _ _ hchain) hother hext]⟩

/-- The walk back finds a leaf exactly when its chain is a suffix. -/
theorem reaches_iff
    (hleaf : leaf :: previous ∈ handles) : ∀ {descendant : FilterChain}, descendant ∈ handles →
    (reaches leaf.id descendant = true ↔ leaf :: previous <:+ descendant)
  | [], _ => by
    constructor
    · intro hreach
      cases hreach
    · intro hsuffix
      exact absurd (suffix_nil.mp hsuffix) (cons_ne_nil _ _)
  | node :: rest, hdescendant => by
    unfold reaches
    rw [suffix_cons_iff]
    by_cases hid : leaf.id = node.id
    · have heq := h.identity _ _ _ _ hleaf hdescendant hid
      simp [hid, heq]
    have hne : leaf :: previous ≠ node :: rest := by
      intro heq
      exact hid (congrArg FilterNode.id (cons.inj heq).1)
    simp only [beq_iff_eq, if_neg hid, hne, false_or]
    exact reaches_iff hleaf (h.tail _ _ hdescendant)

theorem isAncestorOf_iff (hchain : chain ∈ handles) (hother : other ∈ handles) :
    chain.isAncestorOf other = true ↔ chain <:+ other := by
  cases chain with
  | nil => exact iff_of_true rfl nil_suffix
  | cons leaf previous => exact h.reaches_iff hchain hother

/-- Every chain on the way back is in existence. -/
theorem mem_of_suffix : ∀ {other : FilterChain}, chain <:+ other →
    other ∈ handles → chain ∈ handles
  | [], hsuffix, hother => suffix_nil.mp hsuffix ▸ hother
  | node :: rest, hsuffix, hother => by
    rcases suffix_cons_iff.mp hsuffix with rfl | hrest
    · exact hother
    · exact mem_of_suffix hrest (h.tail node rest hother)

/-- A leaf with a new identity. -/
theorem append (hchain : chain ∈ handles) (hid : node.id = nextId) :
    Chains (nextId + 1) (handles ++ [node :: chain]) where
  nil := mem_append_left _ h.nil
  tail leaf previous hmem := by
    rcases Lib.mem_concat_cases hmem with hold | ⟨⟨⟩⟩
    · exact mem_append_left _ (h.tail leaf previous hold)
    · exact mem_append_left _ hchain
  identity a chain₁ b chain₂ ha hb heq := by
    rcases Lib.mem_concat_cases ha with hold | ⟨⟨⟩⟩
    · rcases Lib.mem_concat_cases hb with hold' | ⟨⟨⟩⟩
      · exact h.identity a chain₁ b chain₂ hold hold' heq
      · -- an old leaf has an older identity
        have hlt := h.fresh a chain₁ hold
        omega
    · rcases Lib.mem_concat_cases hb with hold' | ⟨⟨⟩⟩
      · have hlt := h.fresh b chain₂ hold'
        omega
      · rfl
  fresh leaf previous hmem := by
    rcases Lib.mem_concat_cases hmem with hold | ⟨⟨⟩⟩
    · exact Nat.lt_succ_of_lt (h.fresh leaf previous hold)
    · omega

/-- Another handle on a chain in existence. -/
theorem snapshot (hchain : chain ∈ handles) : Chains nextId (handles ++ [chain]) := by
  have hback : ∀ {other}, other ∈ handles ++ [chain] → other ∈ handles :=
    Lib.forall_mem_concat (fun _ => id) hchain _
  exact ⟨mem_append_left _ h.nil,
    fun node rest hmem => mem_append_left _ (h.tail node rest (hback hmem)),
    fun a chain₁ b chain₂ ha hb => h.identity a chain₁ b chain₂ (hback ha) (hback hb),
    fun node rest hmem => h.fresh node rest (hback hmem)⟩

end

end Chains

/-! ## One task -/

/-- A task's chain is in existence, and its mode is that of its chain. -/
structure SeccompState.Sound (handles : List FilterChain) (state : SeccompState) : Prop where
  filters : state.filters ∈ handles
  mode : state.mode = .filter ↔ state.filters ≠ []

/-- The chain grew at its new end, if at all, and strict mode was kept. -/
structure SeccompState.Extends (state state' : SeccompState) : Prop where
  filters : state.filters <:+ state'.filters
  strict : state.mode = .strict → state'.mode = .strict

namespace SeccompState

variable {nextId : Nat} {handles : List FilterChain} {state state' : SeccompState}

theorem Extends.refl (state : SeccompState) : Extends state state := ⟨suffix_refl _, id⟩

theorem Extends.trans (h : Extends state state')
    (h' : Extends state' state'') : Extends state state'' :=
  ⟨h.filters.trans h'.filters, h'.strict ∘ h.strict⟩

theorem Sound.mono (h : state.Sound handles)
    (hsub : handles ⊆ handles') : state.Sound handles' := ⟨hsub h.filters, h.mode⟩

theorem enterStrict_extends (h : state.Sound handles) (hok : state.tryEnterStrict = .ok state') :
    Extends state state' ∧ state'.Sound handles := by
  unfold tryEnterStrict at hok
  split at hok
  · cases hok
  next hfree =>
  cases hok
  rw [not_or, not_not, not_not, List.isEmpty_iff] at hfree
  refine ⟨⟨List.suffix_refl _, fun _ => rfl⟩, h.filters, ?_⟩
  show SeccompMode.strict = .filter ↔ state.filters ≠ []
  simp [hfree.2]

/-- A publication that succeeds puts one filter in front of the current chain. -/
theorem publish_extends (hc : Chains nextId handles)
    (h : state.Sound handles) (hexpected : expected ∈ handles) (hprep : prepared ∈ handles)
    (hok : state.tryPublishFilter expected prepared = .ok state') :
    (∃ node, prepared = node :: state.filters) ∧ state'.filters = prepared ∧
      Extends state state' ∧ state'.Sound handles := by
  unfold tryPublishFilter at hok
  split at hok
  · cases hok
  next hmode =>
  split at hok
  · cases hok
  next hsame =>
  split at hok
  · cases hok
  next hext =>
  cases hok
  rw [not_not] at hsame hext
  have hcur := hc.sameIdentity_eq h.filters hexpected hsame
  obtain ⟨node, hnode⟩ := hc.directlyExtends_eq hprep hexpected hext
  rw [← hcur] at hnode
  refine ⟨⟨node, hnode⟩, rfl, ⟨?_, fun hstrict => absurd hstrict hmode⟩, hprep, ?_⟩
  · exact ⟨[node], hnode.symm⟩
  · simp [hnode]

/-- A synchronized sibling was disabled or on the caller's branch. -/
theorem synchronize_extends (hc : Chains nextId handles) (h : state.Sound handles)
    (hcaller : caller.Sound handles) (hok : state.prepareSynchronizedFrom caller = .ok state') :
    Extends state state' ∧ state'.Sound handles := by
  unfold prepareSynchronizedFrom at hok
  split at hok
  · next heligible =>
    cases hok
    unfold syncEligibility at heligible
    split at heligible
    · cases heligible
    refine ⟨?_, hcaller⟩
    split at heligible
    · next hmode =>
      -- a disabled task has no filters to lose
      have hemp : state.filters = [] := by
        by_contra hne
        have hfilter := h.mode.mpr hne
        rw [hmode] at hfilter
        cases hfilter
      exact ⟨hemp ▸ nil_suffix, fun hstrict => by rw [hmode] at hstrict; cases hstrict⟩
    · next hmode =>
      split at heligible
      · next hancestor =>
        exact ⟨(hc.isAncestorOf_iff h.filters hcaller.filters).mp hancestor,
          fun hstrict => by rw [hmode] at hstrict; cases hstrict⟩
      · cases heligible
    · cases heligible
  · cases hok
  · cases hok
  · cases hok

end SeccompState

/-! ## Systems -/

namespace System

open SeccompState (Extends)

/-- Every chain and every task is as it should be. -/
structure Coherent (s : System) : Prop where
  chains : Chains s.nextId s.handles
  tasks : ∀ state ∈ s.tasks, state.Sound s.handles

/-- Every task is still there and extends what it was. -/
def Grows (tasks tasks' : List SeccompState) : Prop :=
  ∀ (t : Nat) state, tasks[t]? = some state → ∃ state', tasks'[t]? = some state' ∧ Extends state state'

theorem Grows.refl (tasks : List SeccompState) : Grows tasks tasks :=
  fun _ state hst => ⟨state, hst, .refl state⟩

theorem Grows.trans {tasks tasks' tasks'' : List SeccompState} (h : Grows tasks tasks')
    (h' : Grows tasks' tasks'') : Grows tasks tasks'' := by
  intro t state hst
  obtain ⟨state', hst', hext⟩ := h t state hst
  obtain ⟨state'', hstate'', hext'⟩ := h' t state' hst'
  exact ⟨state'', hstate'', hext.trans hext'⟩

theorem Grows.concat (tasks : List SeccompState) (new : SeccompState) : Grows tasks (tasks ++ [new]) := by
  intro t state hst
  refine ⟨state, ?_, .refl state⟩
  rw [List.getElem?_append_left (Lib.lt_of_getElem? hst)]
  exact hst

theorem Grows.set {tasks : List SeccompState} {t : Nat} {state state' : SeccompState}
    (hst : tasks[t]? = some state) (hext : Extends state state') :
    Grows tasks (tasks.set t state') := by
  intro t' old hold
  by_cases heq : t' = t
  · subst heq
    rw [hst] at hold
    cases hold
    exact ⟨state', Lib.getElem?_set_of_some hst, hext⟩
  · exact ⟨old, by rw [List.getElem?_set_ne (Ne.symm heq)]; exact hold, .refl old⟩

variable {s : System}

theorem Coherent.synchronizeAll (h : Coherent s) {caller : SeccompState}
    (hcaller : caller.Sound s.handles) : ∀ {siblings : List Nat} {tasks tasks' : List SeccompState},
    (∀ state ∈ tasks, state.Sound s.handles) →
    System.synchronizeAll caller siblings tasks = .ok tasks' →
    Grows tasks tasks' ∧ ∀ state ∈ tasks', state.Sound s.handles
  | [], tasks, _, htasks, hok => by
    cases hok
    exact ⟨.refl tasks, htasks⟩
  | sibling :: rest, tasks, tasks', htasks, hok => by
    unfold System.synchronizeAll at hok
    split at hok
    · exact h.synchronizeAll hcaller htasks hok
    next state hst =>
    split at hok
    · cases hok
    next prepared hprep =>
    obtain ⟨hext, hsound⟩ := SeccompState.synchronize_extends h.chains
      (htasks state (mem_of_getElem? hst)) hcaller hprep
    obtain ⟨hgrows, hall⟩ := h.synchronizeAll hcaller (Lib.forall_mem_set htasks hsound) hok
    exact ⟨(Grows.set hst hext).trans hgrows, hall⟩

/-- One call keeps the chains coherent and lets every task grow. -/
theorem Coherent.call (h : Coherent s) (c : SeccompCall) :
    Coherent (s.call c).2 ∧ Grows s.tasks (s.call c).2.tasks := by
  cases c with
  | newTask =>
    refine ⟨⟨h.chains, Lib.forall_mem_concat h.tasks ?_⟩, .concat _ _⟩
    exact ⟨h.chains.nil, by simp [SeccompState.disabled]⟩
  | fork task =>
    dsimp only [System.call]
    split
    · exact ⟨h, .refl _⟩
    next parent hpar =>
    refine ⟨⟨h.chains, Lib.forall_mem_concat h.tasks ?_⟩, .concat _ _⟩
    exact h.tasks parent (mem_of_getElem? hpar)
  | snapshot task =>
    dsimp only [System.call]
    split
    · exact ⟨h, .refl _⟩
    next state hst =>
    have hsound := h.tasks state (mem_of_getElem? hst)
    exact ⟨⟨h.chains.snapshot hsound.filters,
      fun other hother => (h.tasks other hother).mono (subset_append_left _ _)⟩, .refl _⟩
  | append chain program metadata budget executor reserved allocated =>
    dsimp only [System.call]
    split
    · exact ⟨h, .refl _⟩
    next chain hchain =>
    split
    · exact ⟨h, .refl _⟩
    next prepared hprep =>
    obtain ⟨node, rfl, hid⟩ : ∃ node, prepared = node :: chain ∧ node.id = s.nextId := by
      unfold FilterChain.tryAppend at hprep
      split at hprep
      · cases hprep
      split_ifs at hprep
      cases hprep
      exact ⟨_, rfl, rfl⟩
    exact ⟨⟨h.chains.append (mem_of_getElem? hchain) hid,
      fun other hother => (h.tasks other hother).mono (subset_append_left _ _)⟩, .refl _⟩
  | publish task expected prepared =>
    dsimp only [System.call]
    split
    · next state expected prepared hst hexpected hprep =>
      split
      · exact ⟨h, .refl _⟩
      next state' hok =>
      obtain ⟨-, -, hext, hsound⟩ := SeccompState.publish_extends h.chains
        (h.tasks state (mem_of_getElem? hst)) (mem_of_getElem? hexpected)
        (mem_of_getElem? hprep) hok
      exact ⟨⟨h.chains, Lib.forall_mem_set h.tasks hsound⟩, .set hst hext⟩
    · exact ⟨h, .refl _⟩
  | enterStrict task =>
    dsimp only [System.call]
    split
    · exact ⟨h, .refl _⟩
    next state hst =>
    split
    · exact ⟨h, .refl _⟩
    next state' hok =>
    obtain ⟨hext, hsound⟩ := SeccompState.enterStrict_extends
      (h.tasks state (mem_of_getElem? hst)) hok
    exact ⟨⟨h.chains, Lib.forall_mem_set h.tasks hsound⟩, .set hst hext⟩
  | synchronize caller siblings =>
    dsimp only [System.call]
    split
    · exact ⟨h, .refl _⟩
    next state hst =>
    split
    · exact ⟨h, .refl _⟩
    next tasks hok =>
    obtain ⟨hgrows, hall⟩ := h.synchronizeAll (h.tasks state (mem_of_getElem? hst)) h.tasks hok
    exact ⟨⟨h.chains, hall⟩, hgrows⟩

theorem Coherent.run (h : Coherent s) (calls : List SeccompCall) :
    Coherent (Lib.run System.call s calls) ∧
      Grows s.tasks (Lib.run System.call s calls).tasks := by
  induction calls generalizing s with
  | nil => exact ⟨h, .refl _⟩
  | cons c calls ih =>
    obtain ⟨h', hgrows⟩ := h.call c
    obtain ⟨hrun, hrest⟩ := ih h'
    exact ⟨hrun, hgrows.trans hrest⟩

theorem coherent_empty : Coherent System.empty := by
  have hnone : ∀ node chain, node :: chain ∉ System.empty.handles := by
    intro node chain hmem
    cases mem_singleton.mp hmem
  exact ⟨⟨mem_cons_self, fun node chain hmem => absurd hmem (hnone node chain),
    fun node chain _ _ hmem => absurd hmem (hnone node chain),
    fun node chain hmem => absurd hmem (hnone node chain)⟩,
    fun _ hst => absurd hst not_mem_nil⟩

/-- What is true of a task at one moment and at a later one. -/
structure Tightened (state state' : SeccompState) : Prop where
  ancestor : state.filters.isAncestorOf state'.filters = true
  kept : state.filters <:+ state'.filters
  strict : state.mode = .strict → state'.mode = .strict
  mode : state'.mode = .filter ↔ state'.filters ≠ []
  action : ∀ data, (state'.evaluate data).action.precedence ≤ (state.evaluate data).action.precedence

/-- A publication succeeds only against the current chain, which it extends by one filter;
any other is refused and changes nothing. -/
def PublishesCurrent (s : System) : Prop :=
  ∀ task expected prepared state expectedChain preparedChain, s.tasks[task]? = some state →
    s.handles[expected]? = some expectedChain → s.handles[prepared]? = some preparedChain →
    ((s.call (.publish task expected prepared)).1 = .done ∧ expectedChain = state.filters ∧
        (∃ node, preparedChain = node :: state.filters) ∧
        (s.call (.publish task expected prepared)).2.tasks[task]? =
          some { mode := .filter, filters := preparedChain }) ∨
      ∃ error, s.call (.publish task expected prepared) = (.transitionError error, s)

theorem Coherent.publishesCurrent (h : Coherent s) : PublishesCurrent s := by
  intro task expected prepared state expectedChain preparedChain hst hexpected hprep
  simp only [System.call, hst, hexpected, hprep]
  split
  · exact .inr ⟨_, rfl⟩
  next state' hok =>
  have hsound := h.tasks state (mem_of_getElem? hst)
  obtain ⟨hnode, hfilters, -, -⟩ := SeccompState.publish_extends h.chains hsound
    (mem_of_getElem? hexpected) (mem_of_getElem? hprep) hok
  unfold SeccompState.tryPublishFilter at hok
  split_ifs at hok with _ hsame
  cases hok
  refine .inl ⟨rfl, ?_, hnode, Lib.getElem?_set_of_some hst⟩
  exact (h.chains.sameIdentity_eq hsound.filters (List.mem_of_getElem? hexpected) hsame).symm

/-- In every run, and from any moment of it to any later one: the chain of every task is an
ancestor of its later chain, so no published filter is lost and the selected action never
becomes less restrictive; strict mode is kept; the mode is that of the chain; and a
publication against anything but the current chain is refused and changes nothing. -/
theorem run_confined (calls more : List SeccompCall) :
    let s := Lib.run System.call System.empty calls
    let s' := Lib.run System.call s more
    (∀ (t : Nat) state, s.tasks[t]? = some state →
      ∃ state', s'.tasks[t]? = some state' ∧ Tightened state state') ∧ PublishesCurrent s' := by
  intro s s'
  have h : Coherent s := (coherent_empty.run calls).1
  obtain ⟨h', hgrows⟩ := h.run more
  refine ⟨?_, h'.publishesCurrent⟩
  intro t state hstate
  obtain ⟨state', hstate', hextends⟩ := hgrows t state hstate
  have hsound' := h'.tasks state' (mem_of_getElem? hstate')
  have hancestor : state.filters.isAncestorOf state'.filters = true :=
    (h'.chains.isAncestorOf_iff (h'.chains.mem_of_suffix hextends.filters hsound'.filters)
      hsound'.filters).mpr hextends.filters
  exact ⟨state', hstate', hancestor, hextends.filters, hextends.strict, hsound'.mode,
    fun data => FilterChain.evaluate_anti hextends.filters data⟩

end System

end LinuxAbi.Seccomp
