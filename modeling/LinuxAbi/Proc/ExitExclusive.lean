import LinuxAbi.Proc.CallEvents
import LinuxAbi.Proc.ThreadMoves

/-!
# One exit at a time

`exit_prepared` is a lock in all but name: it is taken by `prepare_exit` or by the removal
of the last thread, and it is given back by dropping the admission or, for good, by the
zombie transition. While it is held no thread can be admitted; what was removed to take it
is put back when it is dropped; and it is never taken again once the process is a zombie.
-/

namespace LinuxAbi.Proc

open Option
open List

variable {Z : Type}

/-! ## One turn -/

/-- A departing thread as it was before it was removed. -/
def revived (departing : Option ThreadNode) : List ThreadNode :=
  departing.toList.map fun t => { t with live := true }

/-- What a turn does to the exit reservation. -/
inductive ExitTurn (row row' : ThreadRow Z) (exs exs' : Multiset (Option ThreadNode)) : Prop
  | kept (prepared : row'.tg.exitPrepared = row.tg.exitPrepared) (exits : exs' = exs)
  | taken (departing : Option ThreadNode) (before : row.tg.exitPrepared = false)
      (after : row'.tg.exitPrepared = true) (threads : row.tg.threads = revived departing)
      (exits : exs' = {departing})
  | dropped (departing : Option ThreadNode) (before : row.tg.exitPrepared = true)
      (after : row'.tg.exitPrepared = false) (threads : row'.tg.threads = revived departing)
      (exits : exs = {departing})
  | committed (before : row.tg.exitPrepared = true) (after : row'.tg.exitPrepared = false)
      (zombie : row'.zombie = true)

section Turn

variable {strict : Prop} {p nextNode nextNode' : Nat} {row row' : ThreadRow Z}
  {lost gained claims claims' : Multiset ThreadClaim}

theorem ThreadTurn.exit (h : ThreadTurn strict p nextNode row lost gained row' nextNode')
    (hok : row.OK nextNode (tokens p claims) (exits p claims))
    (hcls : claims' + lost = claims + gained) :
    ExitTurn row row' (exits p claims) (exits p claims') := by
  have he : exits p claims' + exits p lost = exits p claims + exits p gained := by
    rw [← exits_add, hcls, exits_add]
  cases h with
  | link | live | publish | recode | unlink | reap =>
    simp only [exits_charge, exits_token, exits_zero, add_zero] at he
    exact .kept rfl he
  | detach node t find =>
    simp only [exits_charge, exits_token, add_zero] at he
    refine .kept ?_ he
    rw [ThreadGroup.detachThreadLocked_eq find]
  | remove t mem live exitCode =>
    simp only [exits_charge, exits_zero, add_zero] at he
    refine .kept ?_ he
    have hfind : ({ row.tg with exitCode } : ThreadGroup).threads.find? (·.node == t.node) = some t :=
      ThreadGroup.find?_of_mem hok.counted.nodes mem
    rw [ThreadGroup.detachThreadLocked_eq hfind]
  | prepare empty unprepared payload published =>
    simp only [exits_zero, exits_exit, add_zero] at he
    rw [hok.no_exits unprepared, zero_add] at he
    refine .taken none unprepared rfl ?_ he
    rw [hok.counted.memberships] at empty
    exact eq_nil_of_length_eq_zero empty
  | depart t mem live exitCode last alive unprepared published =>
    simp only [exits_zero, exits_exit, add_zero] at he
    rw [hok.no_exits unprepared, zero_add] at he
    refine .taken (some { t with live := false }) unprepared rfl ?_ he
    -- the group has this one thread, and it is live
    rw [hok.counted.memberships] at last
    obtain ⟨only, honly⟩ := length_eq_one_iff.mp last
    rw [honly] at mem ⊢
    rw [← mem_singleton.mp mem]
    change [t] = [{ t with live := true }]
    rw [← live]
  | restore departing =>
    simp only [exits_zero, exits_exit, add_zero] at he
    rw [← he] at hok
    obtain ⟨hprep, hnone⟩ := hok.exit
    obtain ⟨hnil, -, -⟩ := hok.prepared hprep
    rw [hnone, zero_add] at he
    cases departing with
    | none => exact .dropped none hprep rfl hnil he.symm
    | some thread =>
      refine .dropped (some thread) hprep rfl ?_ he.symm
      change row.tg.threads ++ _ = _
      rw [hnil]
      rfl
  | zombie departing payload =>
    simp only [exits_exit, exits_charges, add_zero] at he
    rw [← he] at hok
    exact .committed hok.exit.1 rfl rfl

/-- What is decided once: the zombie flag, its payload, the reaped flag. -/
structure Decided (row row' : ThreadRow Z) : Prop where
  zombie : row.zombie = true → row'.zombie = true
  payload : ∀ payload, row.payload = some payload → row'.payload = some payload
  reaped : row.reaped = true → row'.reaped = true

theorem ThreadTurn.decided (h : ThreadTurn strict p nextNode row lost gained row' nextNode')
    (hok : row.OK nextNode (tokens p claims) (exits p claims))
    (hcls : claims' + lost = claims + gained) : Decided row row' := by
  cases h with
  | zombie departing payload =>
    refine ⟨fun _ => rfl, ?_, id⟩
    intro old hold
    have he : exits p claims' + exits p {.exit p departing}
        = exits p claims + exits p (charges departing) := by
      rw [← exits_add, hcls, exits_add]
    simp only [exits_exit, exits_charges, add_zero] at he
    -- the process is exit-prepared, hence no zombie, and its payload slot is empty
    rw [← he] at hok
    obtain ⟨-, halive, -⟩ := hok.prepared hok.exit.1
    have hpayload := hok.payload
    rw [hold, halive] at hpayload
    cases hpayload
  | reap => exact ⟨id, fun _ => id, fun _ => rfl⟩
  | _ => exact ⟨id, fun _ => id, id⟩

end Turn

/-- What one call does to the exit of one process. -/
theorem ThreadStep.exit {strict : Prop} (h : ThreadStep strict v v')
    (hwf : v.WF) (hp : v.rows[p]? = some row) :
    ∃ row', v'.rows[p]? = some row' ∧ ExitTurn row row' (exits p v.claims) (exits p v'.claims) ∧
      Decided row row' ∧ (row'.tg.exitPrepared ≠ row.tg.exitPrepared → v'.charged = v.charged) := by
  have hdec : Decided row row := ⟨id, fun _ => id, id⟩
  have hquiet : (row.tg.exitPrepared ≠ row.tg.exitPrepared → v'.charged = v.charged) :=
    fun hne => absurd rfl hne
  cases h with
  | still rows node charged claims =>
    rw [rows, claims]
    exact ⟨row, hp, .kept rfl rfl, hdec, hquiet⟩
  | charge rows node charged claims =>
    rw [rows, claims, exits_add, exits_charge, add_zero]
    exact ⟨row, hp, .kept rfl rfl, hdec, hquiet⟩
  | discharge rows node charged claims =>
    rw [rows, ← claims, exits_add, exits_charge, add_zero]
    exact ⟨row, hp, .kept rfl rfl, hdec, hquiet⟩
  | admitted rows node charged claims =>
    rw [rows, claims, List.getElem?_append_left (Lib.lt_of_getElem? hp)]
    exact ⟨row, hp, .kept rfl rfl, hdec, hquiet⟩
  | turn q before after lost gained at_ turn rows charged claims =>
    rw [rows]
    by_cases hq : p = q
    · subst hq
      obtain rfl := some.inj (hp.symm.trans at_)
      have hok := hwf.rows p row hp
      refine ⟨after, Lib.getElem?_set_of_some hp, ?_, ?_, ?_⟩
      · exact turn.exit hok claims
      · exact turn.decided hok claims
      · exact fun _ => charged
    · rw [List.getElem?_set_ne (Ne.symm hq), (turn.elsewhere claims hq).2]
      exact ⟨row, hp, .kept rfl rfl, hdec, hquiet⟩

/-! ## The admissions of a domain -/

/-- The departing thread of an exit admission of the process. -/
def Hand.exitAdmissionOf (p : Nat) : Hand → Option (Option ThreadNode)
  | .exitAdmission q departing => if q = p then some departing else none
  | _ => none

theorem exits_releases (p : Nat) (todo : List Release) :
    exits p (Lib.tally Release.threadClaims todo) = 0 := by
  induction todo with
  | nil => rfl
  | cons next todo ih =>
    rw [Lib.tally_cons, exits_add, ih, add_zero]
    cases next <;> rfl

theorem exits_hand (p : Nat) (hand : Hand) :
    exits p hand.threadClaims = ((hand.exitAdmissionOf p).toList : List (Option ThreadNode)) := by
  cases hand with
  | releasing todo => exact exits_releases p todo
  | exitAdmission q departing =>
    change exits p {.exit q departing}
      = ((if q = p then some departing else none).toList : List (Option ThreadNode))
    rw [exits_exit]
    by_cases hq : q = p
    · rw [if_pos hq, if_pos hq]
      rfl
    · rw [if_neg hq, if_neg hq]
      rfl
  | scopedBinding _ node | scopedBound _ node => cases node <;> rfl
  | exiting q np stage =>
    cases stage with
    | zombie departing => exact exits_charges p departing
    | _ => rfl
  | _ => rfl

namespace Domain

variable {d d' : Domain Z}

/-- The uncommitted exit admissions of a process, as their departing threads. -/
def exitAdmissions (d : Domain Z) (p : Nat) : List (Option ThreadNode) :=
  d.hands.filterMap (Hand.exitAdmissionOf p)

theorem exits_threads (d : Domain Z) (p : Nat) :
    exits p d.threads.claims = (d.exitAdmissions p : Multiset (Option ThreadNode)) := by
  change exits p (Lib.tally Hand.threadClaims d.hands) = _
  unfold exitAdmissions
  induction d.hands with
  | nil => rfl
  | cons hand hands ih =>
    rw [Lib.tally_cons, exits_add, ih, exits_hand, Multiset.coe_add]
    cases hone : hand.exitAdmissionOf p with
    | none => rw [filterMap_cons_none hone]; rfl
    | some departing => rw [filterMap_cons_some hone]; rfl

/-- Nothing can join the process: it has no membership, live or reserved, and none is
given out. -/
structure Closed (d : Domain Z) (p : Nat) (process : Process Z) : Prop where
  threads : process.tg.threads = []
  memberships : process.tg.memberships = 0
  liveThreads : process.tg.liveThreads = 0
  refused : ∀ tid owner, d.threadRefusal p process tid owner = some .notLive

/-- What holds of exits in every reachable state. -/
structure ExitExclusive (d : Domain Z) : Prop where
  /-- there is one admission while `exit_prepared` is set, and none otherwise -/
  one : ∀ (p : Nat) (process : Process Z), d.processes[p]? = some process →
    (d.exitAdmissions p).length = if process.tg.exitPrepared then 1 else 0
  prepared : ∀ (p : Nat) (process : Process Z), d.processes[p]? = some process →
    process.tg.exitPrepared = true → d.Closed p process ∧ process.isZombie = false
  zombie : ∀ (p : Nat) (process : Process Z), d.processes[p]? = some process → process.isZombie = true →
    d.Closed p process
  payload : ∀ (p : Nat) (process : Process Z), d.processes[p]? = some process →
    process.zombiePayload.isSome = process.isZombie

/-- What one call does to the exit of one process. -/
structure ExitStep (d d' : Domain Z) (p : Nat) (a b : Process Z) : Prop where
  /-- the reservation is taken: all there was is the departing thread, still charged -/
  taken : a.tg.exitPrepared = false → b.tg.exitPrepared = true →
    ∃ departing, d'.exitAdmissions p = [departing] ∧ a.tg.threads = revived departing ∧
      d'.threadMemberships = d.threadMemberships
  kept : a.tg.exitPrepared = true → b.tg.exitPrepared = true →
    d'.exitAdmissions p = d.exitAdmissions p
  /-- the reservation ends: in a zombie, or with the departing thread put back -/
  dropped : a.tg.exitPrepared = true → b.tg.exitPrepared = false → b.isZombie = true ∨
    ∃ departing, d.exitAdmissions p = [departing] ∧ b.tg.threads = revived departing ∧
      d'.threadMemberships = d.threadMemberships
  /-- a zombie stays one, with the payload it got -/
  zombie : a.isZombie = true → b.isZombie = true
  payload : ∀ payload, a.zombiePayload = some payload → b.zombiePayload = some payload

variable {p : Nat}

theorem closed_of_empty (hv : d.threads.WF)
    (hp : d.processes[p]? = some process) (hemp : process.tg.threads = [])
    (hshut : process.isZombie = true ∨ process.tg.exitPrepared = true) : d.Closed p process := by
  have hcnt := (hv.rows p process.threadRow (threadRow_at hp)).counted
  have hmemberships : process.tg.memberships = process.tg.threads.length := hcnt.memberships
  have hlive : process.tg.liveThreads = process.tg.threads.countP (·.live) := hcnt.live
  rw [hemp] at hmemberships hlive
  refine ⟨hemp, hmemberships, hlive, ?_⟩
  intro tid owner
  unfold threadRefusal
  rcases hshut with hzombie | hprep
  · rw [if_pos (.inl hzombie)]
  by_cases hgone : process.isZombie = true ∨ process.reaped = true
  · rw [if_pos hgone]
  · rw [if_neg hgone, if_pos (.inl hprep)]

theorem exitExclusive_of_wf (hv : d.threads.WF) : d.ExitExclusive where
  one := by
    intro p process hp
    have hcard := (hv.rows p process.threadRow (threadRow_at hp)).exits
    rw [exits_threads, Multiset.coe_card] at hcard
    exact hcard
  prepared := by
    intro p process hp hprep
    obtain ⟨hemp, halive, -⟩ := (hv.rows p process.threadRow (threadRow_at hp)).prepared hprep
    exact ⟨closed_of_empty hv hp hemp (.inr hprep), halive⟩
  zombie := by
    intro p process hp hzombie
    obtain ⟨hemp, -⟩ := (hv.rows p process.threadRow (threadRow_at hp)).zombie hzombie
    exact closed_of_empty hv hp hemp (.inl hzombie)
  payload := fun p process hp => (hv.rows p process.threadRow (threadRow_at hp)).payload

variable {h : Nat} {departing : Option ThreadNode}

/-- The token of an exit means that the exit is reserved. -/
theorem exitPrepared_of_hand (hv : d.threads.WF)
    (hh : d.hands[h]? = some (.exitAdmission p departing))
    (hp : d.processes[p]? = some process) : process.tg.exitPrepared = true := by
  have hmem : departing ∈ d.exitAdmissions p :=
    mem_filterMap.mpr ⟨_, mem_of_getElem? hh, if_pos rfl⟩
  have hone := (exitExclusive_of_wf hv).one p process hp
  cases hprep : process.tg.exitPrepared with
  | true => rfl
  | false =>
    rw [hprep, if_neg Bool.false_ne_true] at hone
    rw [eq_nil_of_length_eq_zero hone] at hmem
    cases hmem

/-- What dropping an exit admission does: the departing thread is a live member again, under
the charge it has kept, and the reservation is given up. -/
structure ExitDropped (d d' : Domain Z) (h p : Nat) (departing : Option ThreadNode) : Prop where
  hand : d'.hands[h]? = some .empty
  charge : d'.threadMemberships = d.threadMemberships
  group : ∃ process, d'.processes[p]? = some process ∧ process.tg.exitPrepared = false ∧
    process.tg.threads = revived departing ∧
    process.tg.memberships = departing.toList.length ∧
    process.tg.liveThreads = departing.toList.length

theorem process_of_exit (hv : d.threads.WF)
    (hh : d.hands[h]? = some (.exitAdmission p departing)) :
    ∃ process, d.processes[p]? = some process := by
  cases hp : d.processes[p]? with
  | some process => exact ⟨process, rfl⟩
  | none =>
    have hmem : departing ∈ d.exitAdmissions p :=
      mem_filterMap.mpr ⟨_, mem_of_getElem? hh, if_pos rfl⟩
    have hnone := (hv.range p (rows_le hp)).2
    rw [exits_threads, Multiset.coe_eq_zero] at hnone
    rw [hnone] at hmem
    cases hmem

theorem dropExit_restores (hv : d.threads.WF)
    (hh : d.hands[h]? = some (.exitAdmission p departing)) :
    (d.dropExit h).1.reply = .done ∧ ExitDropped d (d.dropExit h).2 h p departing := by
  obtain ⟨process, hp⟩ := process_of_exit hv hh
  obtain ⟨⟨hthreads, hmemberships, hlive, -⟩, -⟩ :=
    (exitExclusive_of_wf hv).prepared p process hp (exitPrepared_of_hand hv hh hp)
  have hlt := Lib.lt_of_getElem? hh
  unfold dropExit
  rw [hh]
  dsimp only
  rw [hp]
  have hat : ∀ tg, (d.setTg p tg).processes[p]? = some { process with tg } := by
    intro tg
    exact (getElem?_modify_eq ..).trans (congrArg _ hp)
  -- the process has no thread, so what is put back is all there is
  cases departing with
  | none =>
    exact ⟨rfl, getElem?_set_self hlt, rfl, _, hat _, rfl, hthreads, hmemberships, hlive⟩
  | some thread =>
    refine ⟨rfl, getElem?_set_self hlt, rfl, _, hat _, rfl, ?_, ?_, ?_⟩
    · exact congrArg (· ++ [{ thread with live := true }]) hthreads
    · exact congrArg (· + 1) hmemberships
    · exact congrArg (· + 1) hlive

/-- Processes are never forgotten, and what was decided about them stays. -/
theorem call_decided (hwf : d.WF) (hv : d.threads.WF) (call : ProcessCall Z)
    (ha : d.processes[p]? = some a) :
    ∃ b, (d.call call).2.processes[p]? = some b ∧ Decided a.threadRow b.threadRow ∧
      d.ExitStep (d.call call).2 p a b := by
  have hstep := call_threads False hwf hv call nofun
  obtain ⟨row, hrow, hturn, hdec, hchg⟩ := hstep.exit hv (threadRow_at ha)
  obtain ⟨b, hb, rfl⟩ := Lib.of_getElem?_map hrow
  refine ⟨b, hb, hdec, ?_, ?_, ?_, hdec.zombie, hdec.payload⟩
  · intro hbef hafter
    have hcharge := hchg fun heq => Bool.false_ne_true ((hbef.symm.trans heq.symm).trans hafter)
    cases hturn with
    | taken departing _ _ threads exits =>
      rw [exits_threads] at exits
      exact ⟨departing, Multiset.coe_eq_singleton.mp exits, threads, hcharge⟩
    | kept prepared => cases (hafter.symm.trans prepared).trans hbef
    | dropped _ before | committed before => cases hbef.symm.trans before
  · intro hbef hafter
    cases hturn with
    | taken _ before => cases before.symm.trans hbef
    | kept prepared exits =>
      -- the only admission there was
      have hone := (exitExclusive_of_wf hv).one p a ha
      rw [hbef, if_pos rfl] at hone
      obtain ⟨departing, hlist⟩ := length_eq_one_iff.mp hone
      rw [exits_threads, exits_threads, hlist] at exits
      rw [hlist]
      exact Multiset.coe_eq_singleton.mp exits
    | dropped _ _ after | committed _ after => cases after.symm.trans hafter
  · intro hbef hafter
    have hcharge := hchg fun heq => Bool.false_ne_true ((hafter.symm.trans heq).trans hbef)
    cases hturn with
    | taken _ before => cases before.symm.trans hbef
    | kept prepared => cases (hbef.symm.trans prepared.symm).trans hafter
    | dropped departing _ _ threads exits =>
      rw [exits_threads] at exits
      exact .inr ⟨departing, Multiset.coe_eq_singleton.mp exits, threads, hcharge⟩
    | committed _ _ zombie => exact .inl zombie

/-! ## A reservation from beginning to end -/

/-- Whether `exit_prepared` is set. -/
def exitPrepared (d : Domain Z) (p : Nat) : Prop :=
  ∃ process, d.processes[p]? = some process ∧ process.tg.exitPrepared = true

/-- While the reservation is held, the departing thread stays with its admission. -/
theorem exitAdmissions_stay :
    ∀ (during : List (ProcessCall Z)) {d : Domain Z}, d.WF → d.threads.WF →
      d.exitAdmissions p = [departing] → d.exitPrepared p →
      Lib.Respects Domain.call (fun d _ => d.exitPrepared p) d during →
      (Lib.run Domain.call d during).exitPrepared p →
      (Lib.run Domain.call d during).exitAdmissions p = [departing] := by
  intro during
  induction during with
  | nil =>
    intro d hwf hv hheld hprep hduring hend
    exact hheld
  | cons call during ih =>
    intro d hwf hv hheld ⟨a, ha, haprep⟩ hduring hend
    have hnext : (d.call call).2.exitPrepared p := by
      cases during with
      | nil => exact hend
      | cons call' during => exact hduring.2.1
    obtain ⟨b, hb, -, hstep⟩ := call_decided hwf hv call ha
    obtain ⟨b', hb', hbprep⟩ := hnext
    obtain rfl := some.inj (hb.symm.trans hb')
    refine ih (hwf.call call) (threads_call hwf hv call).2 ?_ ⟨b, hb, hbprep⟩ hduring.2 hend
    rw [hstep.kept haprep hbprep]
    exact hheld

/-- A reservation that ends without a zombie leaves the threads as they were. -/
theorem restores (hwf : d.WF) (hv : d.threads.WF) (first last : ProcessCall Z)
    (during : List (ProcessCall Z)) (ha : d.processes[p]? = some a)
    (hfree : a.tg.exitPrepared = false)
    (hduring : Lib.Respects Domain.call (fun d _ => d.exitPrepared p) (d.call first).2
      (during ++ [last]))
    (hb : (Lib.run Domain.call d (first :: during ++ [last])).processes[p]? = some b)
    (hdropped : b.tg.exitPrepared = false) (halive : b.isZombie = false) :
    b.tg.threads = a.tg.threads ∧ b.tg.memberships = a.tg.memberships ∧
      b.tg.liveThreads = a.tg.liveThreads := by
  obtain ⟨hheld, hlast, -⟩ := hduring.append
  have hrun : ∀ (calls : List (ProcessCall Z)) {d : Domain Z}, d.WF ∧ d.threads.WF →
      (Lib.run Domain.call d calls).WF ∧
        (Lib.run Domain.call d calls).threads.WF :=
    fun calls _ hd => Lib.run_preserves (I := fun d : Domain Z => d.WF ∧ d.threads.WF)
      (fun _ call h => threads_call h.1 h.2 call) hd calls
  -- the first call takes the reservation
  obtain ⟨a₁, ha₁, -, htaking⟩ := call_decided hwf hv first ha
  have hprep₁ : a₁.tg.exitPrepared = true := by
    have hprepared : (d.call first).2.exitPrepared p := by
      cases during with
      | nil => exact hlast
      | cons call during => exact hheld.1
    obtain ⟨a', ha', hprep⟩ := hprepared
    obtain rfl := some.inj (ha₁.symm.trans ha')
    exact hprep
  obtain ⟨departing, hadmission, hthr, -⟩ := htaking.taken hfree hprep₁
  obtain ⟨hwf₁, hv₁⟩ := hrun [first] ⟨hwf, hv⟩
  have hstay := exitAdmissions_stay during hwf₁ hv₁ hadmission ⟨a₁, ha₁, hprep₁⟩ hheld hlast
  -- and the last one gives it back
  obtain ⟨hwf₂, hv₂⟩ := hrun during ⟨hwf₁, hv₁⟩
  obtain ⟨a₂, ha₂, hprep₂⟩ := hlast
  obtain ⟨b', hb', -, hgiving⟩ := call_decided hwf₂ hv₂ last ha₂
  have hend : Lib.run Domain.call d (first :: during ++ [last])
      = ((Lib.run Domain.call (d.call first).2 during).call last).2 :=
    Lib.run_snoc Domain.call during last (d.call first).2
  rw [hend] at hb
  obtain rfl := some.inj (hb.symm.trans hb')
  have hsame : b.tg.threads = a.tg.threads := by
    rcases hgiving.dropped hprep₂ hdropped with hzombie | ⟨departing', hlist, hthr', -⟩
    · cases halive.symm.trans hzombie
    · have hdep := hlist.symm.trans hstay
      rw [hthr', hthr, singleton_inj.mp hdep]
  have hcnt := (hv.rows p a.threadRow (threadRow_at ha)).counted
  have hv₃ := (threads_call hwf₂ hv₂ last).2
  have hcnt' := (hv₃.rows p b.threadRow (threadRow_at hb)).counted
  refine ⟨hsame, ?_, ?_⟩
  · exact hcnt'.memberships.trans ((congrArg length hsame).trans hcnt.memberships.symm)
  · exact hcnt'.live.trans ((congrArg (countP (·.live)) hsame).trans hcnt.live.symm)

/-! ## Once -/

end Domain

/-- The process a zombie transition is about. -/
def ProcessEvent.zombieOf : ProcessEvent → Option Nat
  | .zombie p _ => some p
  | _ => none

/-- The zombie transitions, in order. -/
def zombiesMade (past : List ProcessEvent) : List Nat := past.filterMap ProcessEvent.zombieOf

/-- The process that a call of `reap` removed. -/
def reaped : ProcessCall Z → Answer → List Nat
  | .reap p, answer => if answer.reply = .flag true then [p] else []
  | _, _ => []

theorem zombiesMade_debugAssert (condition : Bool) (cause : Panic) :
    zombiesMade (debugAssert condition cause) = [] := by
  unfold debugAssert
  split
  · rfl
  · rfl

namespace Domain

variable {d d' : Domain Z}

/-- A call makes no zombie, or it makes one that was exit-prepared before. -/
theorem zombiesMade_call (hv : d.threads.WF) (call : ProcessCall Z) :
    zombiesMade (d.call call).1.events = [] ∨
      ∃ p a b, zombiesMade (d.call call).1.events = [p] ∧ d.processes[p]? = some a ∧
        a.isZombie = false ∧ (d.call call).2.processes[p]? = some b ∧ b.isZombie = true := by
  by_cases hcall : ∃ h payload, call = .publishZombie h payload
  · obtain ⟨h, payload, rfl⟩ := hcall
    change zombiesMade (d.publishZombie h payload).1.events = [] ∨
      ∃ p a b, zombiesMade (d.publishZombie h payload).1.events = [p] ∧ d.processes[p]? = some a ∧
        a.isZombie = false ∧ (d.publishZombie h payload).2.processes[p]? = some b ∧
        b.isZombie = true
    unfold publishZombie
    split
    · next p departing hh =>
      split
      · exact .inl rfl
      split
      · exact .inl rfl
      next process hp =>
      have halive := ((exitExclusive_of_wf hv).prepared p process hp
        (exitPrepared_of_hand hv hh hp)).2
      refine .inr ⟨p, process, { process with
        zombiePayload := some payload
        isZombie := true
        tg := { process.tg with exitPrepared := false } }, ?_, hp, halive, ?_, rfl⟩
      · unfold zombiesMade
        rw [filterMap_append, filterMap_append]
        change zombiesMade _ ++ zombiesMade _ ++ _ = _
        rw [zombiesMade_debugAssert, zombiesMade_debugAssert]
        rfl
      · change (d.processes.modify p _)[p]? = _
        rw [getElem?_modify_eq, hp]
        rfl
    · exact .inl rfl
  · refine .inl (filterMap_eq_nil_iff.mpr ?_)
    intro e he
    have hsrc := event_source he
    cases e with
    | zombie p np =>
      obtain ⟨h, payload, -, heq, -⟩ := hsrc
      exact absurd ⟨h, payload, heq⟩ hcall
    | _ => rfl

/-- Zombies are made once. -/
structure ZombiesOnce (past : List ProcessEvent) (d : Domain Z) : Prop where
  nodup : (zombiesMade past).Nodup
  zombies : ∀ p ∈ zombiesMade past, ∃ process, d.processes[p]? = some process ∧
    process.isZombie = true

theorem ZombiesOnce.call (h : ZombiesOnce past d) (hwf : d.WF)
    (hv : d.threads.WF) (call : ProcessCall Z) :
    ZombiesOnce (past ++ (d.call call).1.events) (d.call call).2 := by
  have happ : zombiesMade (past ++ (d.call call).1.events)
      = zombiesMade past ++ zombiesMade (d.call call).1.events := filterMap_append
  have hold : ∀ p ∈ zombiesMade past, ∃ process, (d.call call).2.processes[p]? = some process ∧
      process.isZombie = true := by
    intro p hp
    obtain ⟨a, ha, hzombie⟩ := h.zombies p hp
    obtain ⟨b, hb, hdec, -⟩ := call_decided hwf hv call ha
    exact ⟨b, hb, hdec.zombie hzombie⟩
  rcases zombiesMade_call hv call with hnone | ⟨p, a, b, hone, ha, halive, hb, hzombie⟩
  · rw [hnone, append_nil] at happ
    exact ⟨happ ▸ h.nodup, happ ▸ hold⟩
  rw [hone] at happ
  constructor
  · rw [happ]
    refine h.nodup.append (nodup_singleton p) ?_
    rw [disjoint_singleton]
    intro hmem
    obtain ⟨a', ha', hbef⟩ := h.zombies p hmem
    obtain rfl := some.inj (ha.symm.trans ha')
    cases halive.symm.trans hbef
  · rw [happ]
    exact Lib.forall_mem_concat hold ⟨b, hb, hzombie⟩

/-- A successful `reap` finds a zombie that was not reaped before. -/
theorem reap_spec (h : (d.reap p).1.reply = .flag true) :
    ∃ a b, d.processes[p]? = some a ∧ a.isZombie = true ∧ a.reaped = false ∧
      (d.reap p).2.processes[p]? = some b ∧ b.reaped = true := by
  unfold reap at h ⊢
  split at h
  · cases h
  next htop =>
  rw [if_neg htop]
  split at h
  · cases h
  next process hp =>
  split at h
  · cases h
  next honce =>
  split at h
  · cases h
  next hpub =>
  split at h
  · cases h
  next hemp =>
  split at h
  · cases h
  next hzombie =>
  rw [if_neg honce, if_neg hpub, if_neg hemp, if_neg hzombie]
  refine ⟨process, { process with reaped := true, linked := false }, hp,
    not_not.mp hzombie, Bool.eq_false_iff.mpr honce, ?_, rfl⟩
  change (d.processes.modify p _)[p]? = _
  rw [getElem?_modify_eq, hp]
  rfl

/-- Processes are reaped once. -/
structure ReapedOnce (past : List Nat) (d : Domain Z) : Prop where
  nodup : past.Nodup
  reaped : ∀ p ∈ past, ∃ process, d.processes[p]? = some process ∧ process.reaped = true

theorem ReapedOnce.call (h : ReapedOnce past d) (hwf : d.WF) (hv : d.threads.WF)
    (call : ProcessCall Z) :
    ReapedOnce (past ++ Proc.reaped call (d.call call).1) (d.call call).2 := by
  have hold : ∀ p ∈ past, ∃ process, (d.call call).2.processes[p]? = some process ∧
      process.reaped = true := by
    intro p hp
    obtain ⟨a, ha, hreaped⟩ := h.reaped p hp
    obtain ⟨b, hb, hdec, -⟩ := call_decided hwf hv call ha
    exact ⟨b, hb, hdec.reaped hreaped⟩
  by_cases hcall : ∃ p, call = .reap p ∧ (d.call call).1.reply = .flag true
  · obtain ⟨p, rfl, hreply⟩ := hcall
    obtain ⟨a, b, ha, -, honce, hb, hreaped⟩ := reap_spec hreply
    have hone : Proc.reaped (Z := Z) (.reap p) (d.call (.reap p)).1 = [p] := if_pos hreply
    rw [hone]
    constructor
    · refine h.nodup.append (nodup_singleton p) ?_
      rw [disjoint_singleton]
      intro hmem
      obtain ⟨a', ha', hbef⟩ := h.reaped p hmem
      obtain rfl := some.inj (ha.symm.trans ha')
      cases honce.symm.trans hbef
    · exact Lib.forall_mem_concat hold ⟨b, hb, hreaped⟩
  · have hnone : Proc.reaped call (d.call call).1 = [] := by
      cases call with
      | reap p => exact if_neg fun hreply => hcall ⟨p, rfl, hreply⟩
      | _ => rfl
    rw [hnone, append_nil]
    exact ⟨h.nodup, hold⟩

/-! ## Exits are exclusive -/

/-- Final exits over any run: the state rules, what the drop of an admission and what any
call does to an exit, what a dropped reservation restores, and what happens once. -/
structure ExclusiveExits (limit : Nat) (calls : List (ProcessCall Z)) (d : Domain Z) : Prop where
  state : d.ExitExclusive
  drops : ∀ (h p : Nat) (departing : Option ThreadNode),
    d.hands[h]? = some (.exitAdmission p departing) →
    (d.call (.dropExit h)).1.reply = .done ∧
      ExitDropped d (d.call (.dropExit h)).2 h p departing
  step : ∀ (call : ProcessCall Z) (p : Nat) (a : Process Z), d.processes[p]? = some a →
    ∃ b, (d.call call).2.processes[p]? = some b ∧ d.ExitStep (d.call call).2 p a b
  /-- a reservation that is taken, held through any interleaving and dropped leaves the
  threads, live flags and counters of the process as they were -/
  restores : ∀ (p : Nat) (a b : Process Z) (first last : ProcessCall Z)
    (during : List (ProcessCall Z)), d.processes[p]? = some a → a.tg.exitPrepared = false →
    Lib.Respects Domain.call (fun d _ => d.exitPrepared p) (d.call first).2
      (during ++ [last]) →
    (Lib.run Domain.call d (first :: during ++ [last])).processes[p]? = some b →
    b.tg.exitPrepared = false → b.isZombie = false →
    b.tg.threads = a.tg.threads ∧ b.tg.memberships = a.tg.memberships ∧
      b.tg.liveThreads = a.tg.liveThreads
  zombies : (zombiesMade
    (Lib.events Domain.call processEvents (Domain.new Z limit) calls)).Nodup
  reaps : (Lib.events Domain.call Proc.reaped (Domain.new Z limit) calls).Nodup
  reapsZombie : ∀ p, (d.call (.reap p)).1.reply = .flag true →
    ∃ process, d.processes[p]? = some process ∧ process.isZombie = true

theorem run_exit_exclusive (limit : Nat) (calls : List (ProcessCall Z)) :
    ExclusiveExits limit calls (Lib.run Domain.call (Domain.new Z limit) calls) := by
  obtain ⟨hwf, hv⟩ := run_threads (Z := Z) limit calls
  have hzombies : ∀ (past : List ProcessEvent) (d : Domain Z) (call : ProcessCall Z),
      (d.WF ∧ d.threads.WF) ∧ ZombiesOnce past d →
      ((d.call call).2.WF ∧ (d.call call).2.threads.WF) ∧
        ZombiesOnce (past ++ processEvents call (d.call call).1) (d.call call).2 :=
    fun _ _ call h => ⟨threads_call h.1.1 h.1.2 call, h.2.call h.1.1 h.1.2 call⟩
  have hreaps : ∀ (past : List Nat) (d : Domain Z) (call : ProcessCall Z),
      (d.WF ∧ d.threads.WF) ∧ ReapedOnce past d →
      ((d.call call).2.WF ∧ (d.call call).2.threads.WF) ∧
        ReapedOnce (past ++ Proc.reaped call (d.call call).1) (d.call call).2 :=
    fun _ _ call h => ⟨threads_call h.1.1 h.1.2 call, h.2.call h.1.1 h.1.2 call⟩
  have hnew := And.intro (wf_new Z limit) (threads_wf_new Z limit)
  refine ⟨exitExclusive_of_wf hv, fun _ _ _ hh => dropExit_restores hv hh, ?_, ?_, ?_, ?_, ?_⟩
  · intro call p a ha
    obtain ⟨b, hb, -, hstep⟩ := call_decided hwf hv call ha
    exact ⟨b, hb, hstep⟩
  · intro p a b first last during
    exact restores hwf hv first last during
  · exact (Lib.run_invariant hzombies calls [] (Domain.new Z limit)
      ⟨hnew, nodup_nil, fun _ hp => absurd hp not_mem_nil⟩).2.nodup
  · exact (Lib.run_invariant hreaps calls [] (Domain.new Z limit)
      ⟨hnew, nodup_nil, fun _ hp => absurd hp not_mem_nil⟩).2.nodup
  · intro p hreply
    obtain ⟨a, -, ha, hzombie, -⟩ := reap_spec hreply
    exact ⟨a, ha, hzombie⟩

/-- An init, and a fork with a thread prepared through its admission. -/
def preparedFork : List (ProcessCall Unit) :=
  [.newInit 0 1 true, .admitInit 0 true, .bindInit 0,
   .prepareFork 0 0 2, .allocateFork 1 true, .admitFork 1,
   .prepareAdmissionThread 1 7, .reserveThread 2 true, .linkThread 2]

/-- The last thread of the fork departs. -/
def lastThreadLeft : Domain Unit :=
  Lib.run Domain.call (Domain.new Unit 8)
    (preparedFork ++ [.commitProcess 1, .commitThreadInfallible 2, .exitThread 1 7 0,
      .exitThreadLocked 3])

/-- Dropped, the admission gives it back: the same TID, live, under the same charge. -/
theorem run_exit_exclusive_dropped :
    (lastThreadLeft.processes[1]?.map (·.tg.threads)) = some [] ∧
      lastThreadLeft.hands[3]? = some (.exitAdmission 1 (some ⟨0, 7, false⟩)) ∧
      ExitDropped lastThreadLeft (lastThreadLeft.call (.dropExit 3)).2 3 1
        (some ⟨0, 7, false⟩) :=
  ⟨by decide +kernel, rfl, ((run_exit_exclusive 8 _).drops 3 1 _ rfl).2⟩

end Domain

end LinuxAbi.Proc
