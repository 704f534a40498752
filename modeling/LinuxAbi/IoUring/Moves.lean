import LinuxAbi.IoUring.Request
import LinuxAbi.Lib.Tally
import Mathlib.Data.List.Nodup
import Mathlib.Data.List.Range
import Mathlib.Data.List.Perm.Subperm

/-!
# What one registry call can do

The sixteen public operations of `RequestRegistry` change the registry in very
few ways. `Move r ev r'` lists them once, guards included:

* nothing happens, or only the lifecycle phase changes;
* `enter` pops a free slot and charges a credit for a reserved entry;
* `advance` rewrites the state of one live entry along an edge of `Advance`;
* `release` empties one slot, moves its generation on and either refunds the
  credit or hands it to the completion queue (`Ending`);
* `consume` moves the completion head and refunds what was passed over.

`ev` is the observable event of the move, if any: which request it is about and
what happened to it. `call_move` says that every call on a well-formed registry
is one of these moves, labelled with the event its reply stands for. Everything
later proved about runs is a case analysis on `Move`, never on the sixteen
operations.

`WF` is the well-formedness the operations rely on: without it `clear_slot`
could fail after having emptied the slot, and the credit would leak.
-/

namespace LinuxAbi.IoUring

open Lib (NonZeroU64 span)

/-! ## Events -/

/-- What happens to one request in one call. -/
inductive RequestStep
  | reserved (descriptor : RequestDescriptor)
  | withdrawn
  | accepted
  | issued (mode : CancellationMode)
  | granted (cause : TerminalCause)
  | finished (result flags : BitVec 32)
  | publishing
  | unpublished
  | committed (completion : Completion) (cqSlot : Nat)
  | discarded
deriving DecidableEq

/-- An observable event: a step of one identified request, or user space (or a
drain) taking completions off the ring. -/
inductive RegistryEvent
  | request (id : RequestId) (step : RequestStep)
  | consumed (count : Nat)

/-- The event a call and its reply stand for. -/
def registryEvent : RequestCall → Except IoUringError RequestReply → Option RegistryEvent
  | .reserve _, .ok (.reserved res) => some (.request res.id (.reserved res.descriptor))
  | .rollback res, .ok _ => some (.request res.id .withdrawn)
  | .commit _, .ok (.prepared p) => some (.request p.id .accepted)
  | .issue _, .ok (.issued i) => some (.request i.id (.issued i.cancellationMode))
  | .claimTerminal _ _, .ok (.permit p) => some (.request p.id (.granted p.cause))
  | .claimCancel _ _, .ok (.permit p) => some (.request p.id (.granted p.cause))
  | .finishTerminal _ result flags, .ok (.token t) =>
    some (.request t.id (.finished result flags))
  | .publish _, .ok (.publication p) => some (.request p.id .publishing)
  | .commitPublication p, .ok _ => some (.request p.id (.committed p.completion p.slot))
  | .rollbackPublication _, .ok (.token t) => some (.request t.id .unpublished)
  | .observeCompletionHead _, .ok (.count n) => some (.consumed n)
  | .discardCompletion t, .ok _ => some (.request t.id .discarded)
  | .discardPublished, .ok (.count n) => some (.consumed n)
  | _, _ => none

/-- The edges between entry states that keep the slot occupied. -/
inductive Advance (d : RequestDescriptor) : EntryState → RequestStep → EntryState → Prop
  | accept : Advance d .reserved .accepted .prepared
  | issue : Advance d .prepared (.issued d.operation.cancellationMode)
      (.issued d.operation.cancellationMode)
  | claimPrepared (cause : TerminalCause) :
      Advance d .prepared (.granted cause) (.terminalClaimed cause)
  | claimIssued (mode : CancellationMode) (cause : TerminalCause)
      (h : mode = .uncancellable → cause = .completed) :
      Advance d (.issued mode) (.granted cause) (.terminalClaimed cause)
  | finish (cause : TerminalCause) (result flags : BitVec 32) :
      Advance d (.terminalClaimed cause) (.finished result flags)
        (.completionPending ⟨d.userData, result, flags⟩)
  | publish (c : Completion) : Advance d (.completionPending c) .publishing (.publishing c)
  | unpublish (c : Completion) : Advance d (.publishing c) .unpublished (.completionPending c)

/-- The publication in flight after a request took a step. -/
def flightAfter (id : RequestId) : RequestStep → Option RequestId → Option RequestId
  | .publishing, _ => some id
  | .unpublished, _ => none
  | _, flight => flight

/-- The edges that empty the slot. -/
inductive Ending : EntryState → RequestStep → Prop
  | withdraw : Ending .reserved .withdrawn
  | discard (c : Completion) : Ending (.completionPending c) .discarded
  | commit (c : Completion) (cqSlot : Nat) : Ending (.publishing c) (.committed c cqSlot)

namespace RequestRegistry

/-! ## Reading and writing one slot -/

variable {r : RequestRegistry} {id : RequestId} {e : RequestEntry}

theorem entry_eq_ok :
    r.entry id = .ok e ↔
      id.ring = r.ring ∧ r.slots[id.slot]? = some ⟨some id.generation, some e⟩ := by
  unfold entry
  constructor
  · intro h
    split at h
    · exact absurd h (by simp)
    next hring =>
    refine ⟨not_not.mp hring, ?_⟩
    split at h
    · exact absurd h (by simp)
    next slot hslot =>
    split at h
    · exact absurd h (by simp)
    next hgen =>
    split at h
    · exact absurd h (by simp)
    next e' he =>
    injection h with h
    rw [hslot, ← h, ← not_not.mp hgen, ← he]
  · rintro ⟨hring, hslot⟩
    rw [if_neg (not_not.mpr hring), hslot]
    simp

/-- A failed lookup is always reported as an unknown request. -/
theorem entry_eq_error (h : r.entry id = .error x) : x = .unknownRequest := by
  unfold entry at h
  split at h
  · exact (Except.error.inj h).symm
  split at h
  · exact (Except.error.inj h).symm
  split at h
  · exact (Except.error.inj h).symm
  split at h
  · exact (Except.error.inj h).symm
  · cases h

theorem slots_setState (h : r.entry id = .ok e) (st : EntryState) :
    (r.setState id st).slots
      = r.slots.set id.slot ⟨some id.generation, some { e with state := st }⟩ := by
  obtain ⟨-, hslot⟩ := entry_eq_ok.mp h
  show r.slots.modify id.slot _ = _
  rw [List.modify_eq_set_getElem?, hslot]
  rfl

/-- The slot emptied, its generation moved on, its index back in the pool unless
the generations have run out. -/
def vacate (r : RequestRegistry) (id : RequestId) : RequestRegistry :=
  { r with
    slots := r.slots.set id.slot ⟨id.generation.checkedSucc, none⟩
    freeSlots := if id.generation.checkedSucc.isSome then r.freeSlots ++ [id.slot]
      else r.freeSlots }

/-- The number of occupied request slots. -/
def occupied (r : RequestRegistry) : Nat := r.slots.countP (·.entry.isSome)

/-- The request `id` has a publication in flight. -/
def Publishing (r : RequestRegistry) (id : RequestId) : Prop :=
  ∃ e c, r.entry id = .ok e ∧ e.state = .publishing c

/-! ## Well-formedness -/

/-- What every reachable registry satisfies. -/
structure WF (r : RequestRegistry) : Prop where
  entries_pow : r.cqEntries.isPowerOfTwo
  entries_le : r.cqEntries ≤ maxCqEntries
  free_nodup : r.freeSlots.Nodup
  free_vacant : ∀ i ∈ r.freeSlots, ∃ g, r.slots[i]? = some ⟨some g, none⟩
  occupied_gen : ∀ (i : Nat) (s : RequestSlot), r.slots[i]? = some s →
    s.entry.isSome → s.generation.isSome
  credits_eq : r.terminalCredits = r.occupied + span r.cqHead r.cqTail
  credits_le : r.terminalCredits ≤ r.cqEntries
  flight : ∀ id, r.publicationInFlight = some id ↔ r.Publishing id

theorem occupied_pos (h : r.entry id = .ok e) : 0 < r.occupied := by
  obtain ⟨-, hslot⟩ := entry_eq_ok.mp h
  exact List.countP_pos_iff.mpr ⟨_, List.mem_of_getElem? hslot, rfl⟩

theorem WF.slot_not_free (hw : WF r) (h : r.entry id = .ok e) : id.slot ∉ r.freeSlots := by
  intro hmem
  obtain ⟨g, hg⟩ := hw.free_vacant _ hmem
  rw [(entry_eq_ok.mp h).2] at hg
  exact absurd hg (by simp)

/-- A live slot is not in the pool, so the pool is not full: the length check in
`clear_slot` passes. -/
theorem WF.free_length_lt (hw : WF r)
    (h : r.entry id = .ok e) : r.freeSlots.length < r.slots.length := by
  obtain ⟨-, hslot⟩ := entry_eq_ok.mp h
  have hnodup : (id.slot :: r.freeSlots).Nodup :=
    List.nodup_cons.mpr ⟨hw.slot_not_free h, hw.free_nodup⟩
  have hsub : id.slot :: r.freeSlots ⊆ List.range r.slots.length := by
    intro i hi
    rw [List.mem_range]
    rcases List.mem_cons.mp hi with rfl | hi
    · exact (Lib.lt_of_getElem? hslot)
    · obtain ⟨g, hg⟩ := hw.free_vacant _ hi
      exact (Lib.lt_of_getElem? hg)
  have hlen := (hnodup.subperm hsub).length_le
  rw [List.length_range] at hlen
  exact hlen

theorem WF.clearSlot_eq (hw : WF r)
    (h : r.entry id = .ok e) : r.clearSlot id = (.ok (), r.vacate id) := by
  obtain ⟨hring, hslot⟩ := entry_eq_ok.mp h
  have hlt := hw.free_length_lt h
  unfold clearSlot vacate
  rw [if_neg (not_not.mpr hring), hslot]
  simp only [ne_eq, not_true_eq_false, Option.isNone_some, Bool.false_eq_true, or_self, if_false,
    List.length_set]
  split
  · next hsome => rw [if_neg (by omega)]
  · rfl

/-- With room for at most `cq_entries` credits, the published stretch is never
too long for the ring. -/
theorem WF.span_le (hw : WF r) : span r.cqHead r.cqTail ≤ r.cqEntries := by
  have h1 := hw.credits_eq
  have h2 := hw.credits_le
  omega

theorem WF.publishedCount_eq (hw : WF r) :
    r.publishedCount = .ok (span r.cqHead r.cqTail) := if_pos hw.span_le

theorem WF.one_le_credits (hw : WF r)
    (h : r.entry id = .ok e) : span r.cqHead r.cqTail + 1 ≤ r.terminalCredits := by
  have h1 := hw.credits_eq
  have h2 := occupied_pos h
  omega

/-! ## The moves -/

/-- The registry after slot `i` has been handed to a new request. -/
def admitted (r : RequestRegistry) (i : Nat) (g : NonZeroU64) (d : RequestDescriptor)
    (sequence : NonZeroU64) : RequestRegistry :=
  { r with
    terminalCredits := r.terminalCredits + 1
    nextSequence := sequence.checkedSucc
    freeSlots := r.freeSlots.dropLast
    slots := r.slots.set i ⟨some g, some ⟨d, sequence, .reserved⟩⟩ }

/-- The registry after the entry of `id` has moved on to `st`. -/
def advanced (r : RequestRegistry) (id : RequestId) (step : RequestStep) (st : EntryState) :
    RequestRegistry :=
  { r.setState id st with publicationInFlight := flightAfter id step r.publicationInFlight }

/-- The registry after the slot of `id` has been given up: a committed CQE keeps
the credit until user space consumes it, any other ending refunds it. -/
def released (r : RequestRegistry) (id : RequestId) : RequestStep → RequestRegistry
  | .committed _ _ => { r.vacate id with cqTail := r.cqTail + 1, publicationInFlight := none }
  | _ => { r.vacate id with terminalCredits := r.terminalCredits - 1 }

/-- Everything one call can do to a registry. -/
inductive Move (r : RequestRegistry) : Option RegistryEvent → RequestRegistry → Prop
  | refuse : Move r none r
  | phase (l : RequestLifecycle) : Move r none { r with lifecycle := l }
  | enter {i : Nat} {g : NonZeroU64} (d : RequestDescriptor) (sequence : NonZeroU64)
      (hfree : r.freeSlots.getLast? = some i) (hslot : r.slots[i]? = some ⟨some g, none⟩)
      (hroom : r.terminalCredits < r.cqEntries) :
      Move r (some (.request ⟨r.ring, i, g⟩ (.reserved d))) (r.admitted i g d sequence)
  | advance {id : RequestId} {e : RequestEntry} {step : RequestStep} {st : EntryState}
      (he : r.entry id = .ok e) (ha : Advance e.descriptor e.state step st)
      (hflight : step = .publishing → r.publicationInFlight = none) :
      Move r (some (.request id step)) (r.advanced id step st)
  | release {id : RequestId} {e : RequestEntry} {step : RequestStep}
      (he : r.entry id = .ok e) (hend : Ending e.state step)
      (hslot : ∀ c cqSlot, step = .committed c cqSlot → cqSlot = r.tailSlot) :
      Move r (some (.request id step)) (r.released id step)
  | consume (head : BitVec 32) (hflight : r.publicationInFlight = none)
      (hle : span r.cqHead head ≤ span r.cqHead r.cqTail) :
      Move r (some (.consumed (span r.cqHead head))) { r with
        cqHead := head
        terminalCredits := r.terminalCredits - span r.cqHead head }

/-- The move a call makes, labelled with the event its reply stands for. -/
abbrev CallMove (r : RequestRegistry) (c : RequestCall) : Prop :=
  Move r (registryEvent c (r.call c).1) (r.call c).2

/-! ### Admission -/

section

variable (r : RequestRegistry)

/-- `reserve` fails and changes nothing, or admits under the next sequence. -/
theorem reserve_cases (d : RequestDescriptor) :
    (∃ x, r.reserve d = (.error x, r)) ∨
      ∃ sequence i g, r.nextSequence = some sequence ∧ r.freeSlots.getLast? = some i ∧
        r.slots[i]? = some ⟨some g, none⟩ ∧ r.terminalCredits < r.cqEntries ∧
        r.reserve d = (.ok ⟨⟨r.ring, i, g⟩, d⟩, r.admitted i g d sequence) := by
  unfold reserve
  split
  · exact .inl ⟨_, rfl⟩
  · exact .inl ⟨_, rfl⟩
  · exact .inl ⟨_, rfl⟩
  split
  · exact .inl ⟨_, rfl⟩
  split
  · exact .inl ⟨_, rfl⟩
  next sequence hseq =>
  split
  · exact .inl ⟨_, rfl⟩
  next i hfree =>
  split
  · exact .inl ⟨_, rfl⟩
  next slot hslot =>
  split
  · exact .inl ⟨_, rfl⟩
  next hvacant =>
  split
  · exact .inl ⟨_, rfl⟩
  next g hg =>
  split
  · exact .inl ⟨_, rfl⟩
  obtain ⟨gen, ent⟩ := slot
  have hent : ent = none := by simpa using hvacant
  have hgen : gen = some g := hg
  subst hent hgen
  exact .inr ⟨sequence, i, g, hseq, hfree, hslot, by omega, rfl⟩

theorem reserve_move (d : RequestDescriptor) : CallMove r (.reserve d) := by
  dsimp only [CallMove, call]
  rcases reserve_cases r d with ⟨x, hx⟩ | ⟨sequence, i, g, -, hfree, hslot, hroom, hx⟩
  · rw [hx]
    exact .refuse
  · rw [hx]
    exact .enter d sequence hfree hslot hroom

theorem commit_move (res : RequestReservation) : CallMove r (.commit res) := by
  dsimp only [CallMove, call, commit]
  split
  · exact .refuse
  next e he =>
  split
  · exact .refuse
  next hst =>
  have ha : Advance e.descriptor e.state .accepted .prepared := by
    rw [not_not.mp hst]
    exact .accept
  exact .advance he ha (by simp)

theorem issue_move (p : PreparedRequest) : CallMove r (.issue p) := by
  show Move r (registryEvent _ (((r.issue p).1.map RequestReply.issued).mapError _)) (r.issue p).2
  unfold issue
  split
  · exact .refuse
  next e he =>
  split
  · next hst =>
    have ha : Advance e.descriptor e.state (.issued e.descriptor.operation.cancellationMode)
        (.issued e.descriptor.operation.cancellationMode) := by
      rw [hst]
      exact .issue
    exact .advance he ha (by simp)
  all_goals exact .refuse

end

theorem requireState_eq_ok
    (h : r.requireState id st = .ok ()) : ∃ e, r.entry id = .ok e ∧ e.state.toPublic = st := by
  unfold requireState at h
  split at h
  · cases h
  next e he =>
  split at h
  · next hst => exact ⟨e, he, hst⟩
  · cases h

/-- Refunding the credit of a slot that was just emptied cannot underflow. -/
theorem WF.refund_vacate (hw : WF r) (h : r.entry id = .ok e) :
    (r.vacate id).refundCredits 1
      = (.ok (), { r.vacate id with terminalCredits := r.terminalCredits - 1 }) := by
  have hone := hw.one_le_credits h
  have hle : 1 ≤ (r.vacate id).terminalCredits := by
    show 1 ≤ r.terminalCredits
    omega
  unfold refundCredits
  rw [if_pos hle]
  rfl

theorem WF.rollback_move (hw : WF r) (res : RequestReservation) : CallMove r (.rollback res) := by
  dsimp only [CallMove, call, rollback]
  split
  · exact .refuse
  next hreq =>
  obtain ⟨e, he, hst⟩ := requireState_eq_ok hreq
  have hend : Ending e.state .withdrawn := by
    cases hs : e.state <;> simp [hs, EntryState.toPublic] at hst
    exact .withdraw
  rw [hw.clearSlot_eq he]
  dsimp only
  rw [hw.refund_vacate he]
  exact .release he hend (by simp)

/-! ### Terminal ownership -/

section

variable (r : RequestRegistry)

/-- A terminal claim either fails and changes nothing, or takes a claim edge. -/
theorem claimTerminal_cases (id : RequestId) (cause : TerminalCause) :
    (∃ x, r.claimTerminal id cause = (.error x, r)) ∨
      ∃ e, r.entry id = .ok e ∧
        Advance e.descriptor e.state (.granted cause) (.terminalClaimed cause) ∧
        r.claimTerminal id cause
          = (.ok ⟨id, e.descriptor, cause⟩, r.setState id (.terminalClaimed cause)) := by
  unfold claimTerminal
  split
  · exact .inl ⟨_, rfl⟩
  next e he =>
  split
  · next hst => exact .inr ⟨e, he, hst ▸ .claimPrepared cause, rfl⟩
  · next hst =>
    split
    · exact .inl ⟨_, rfl⟩
    · next hc => exact .inr ⟨e, he, hst ▸ .claimIssued _ cause (fun _ => not_not.mp hc), rfl⟩
  · next hst =>
    exact .inr ⟨e, he, hst ▸ .claimIssued _ cause (fun h => by cases h), rfl⟩
  all_goals exact .inl ⟨_, rfl⟩

theorem claimTerminal_move (id : RequestId) (cause : TerminalCause) :
    CallMove r (.claimTerminal id cause) := by
  dsimp only [CallMove, call]
  rcases claimTerminal_cases r id cause with ⟨x, hx⟩ | ⟨e, he, ha, hx⟩
  · rw [hx]
    exact .refuse
  · rw [hx]
    exact .advance he ha (by simp)

theorem claimCancel_move (selector : CancelSelector)
    (exclude : Option RequestId) : CallMove r (.claimCancel selector exclude) := by
  dsimp only [CallMove, call, claimCancel]
  split
  · next id =>
    split
    · exact .refuse
    rcases claimTerminal_cases r id .cancelled with ⟨x, hx⟩ | ⟨e, he, ha, hx⟩
    · -- the refusals are renamed, the registry stays
      rw [hx]
      cases x <;> exact .refuse
    · rw [hx]
      exact .advance he ha (by simp)
  · split
    · exact .refuse
    · next sequence id _ =>
      rcases claimTerminal_cases r id .cancelled with ⟨x, hx⟩ | ⟨e, he, ha, hx⟩
      · rw [hx]
        exact .refuse
      · rw [hx]
        exact .advance he ha (by simp)
    · exact .refuse

theorem finishTerminal_move (permit : TerminalPermit)
    (result flags : BitVec 32) : CallMove r (.finishTerminal permit result flags) := by
  dsimp only [CallMove, call, finishTerminal]
  split
  · exact .refuse
  next e he =>
  split
  · exact .refuse
  next hst =>
  have ha : Advance e.descriptor e.state (.finished result flags)
      (.completionPending ⟨e.descriptor.userData, result, flags⟩) := by
    rw [not_not.mp hst]
    exact .finish permit.cause result flags
  exact .advance he ha (by simp)

/-! ### Publication -/

theorem publish_move (token : CompletionToken) : CallMove r (.publish token) := by
  dsimp only [CallMove, call, publish]
  split
  · exact .refuse
  split
  · exact .refuse
  split
  · exact .refuse
  next hflight =>
  split
  · exact .refuse
  next e he =>
  split
  · next c hst =>
    split
    · exact .refuse
    split
    · exact .refuse
    · exact .advance he (hst ▸ .publish c) (fun _ => by simpa using hflight)
  all_goals exact .refuse

end

theorem WF.commitPublication_move (hw : WF r)
    (p : CompletionPublication) : CallMove r (.commitPublication p) := by
  dsimp only [CallMove, call, commitPublication]
  split
  · exact .refuse
  split
  · exact .refuse
  next hgeom =>
  split
  · exact .refuse
  next e he =>
  split
  · exact .refuse
  next hst =>
  obtain ⟨hslot, htail⟩ := not_or.mp hgeom
  have hend : Ending e.state (.committed p.completion p.slot) := by
    rw [not_not.mp hst]
    exact .commit p.completion p.slot
  rw [hw.clearSlot_eq he, not_not.mp htail]
  refine .release he hend ?_
  rintro c cqSlot ⟨⟩
  exact not_not.mp hslot

theorem rollbackPublication_move (r : RequestRegistry) (p : CompletionPublication) :
    CallMove r (.rollbackPublication p) := by
  dsimp only [CallMove, call, rollbackPublication]
  split
  · exact .refuse
  split
  · exact .refuse
  next e he =>
  split
  · exact .refuse
  next hst =>
  have ha : Advance e.descriptor e.state .unpublished (.completionPending p.completion) := by
    rw [not_not.mp hst]
    exact .unpublish p.completion
  exact .advance he ha (by simp)

/-- Credits cover the published stretch, so passing over part of it refunds in
full. -/
theorem WF.refund_head (hw : WF r) (hn : n ≤ span r.cqHead r.cqTail) :
    { r with cqHead := head }.refundCredits n
      = (.ok (), { r with cqHead := head, terminalCredits := r.terminalCredits - n }) := by
  have heq := hw.credits_eq
  exact if_pos (show n ≤ r.terminalCredits by omega)

/-- What `observe_completion_head` does when no publication is in flight. -/
theorem WF.observeCompletionHead_eq (hw : WF r) (hflight : r.publicationInFlight = none)
    (head : BitVec 32) :
    r.observeCompletionHead head =
      if span r.cqHead head ≤ span r.cqHead r.cqTail then
        (.ok (span r.cqHead head),
          { r with cqHead := head, terminalCredits := r.terminalCredits - span r.cqHead head })
      else (.error .corruptCompletionHead, r) := by
  have hno : ¬ r.publicationInFlight.isSome = true := by simp [hflight]
  unfold observeCompletionHead
  rw [if_neg hno, hw.publishedCount_eq]
  dsimp only
  by_cases hle : span r.cqHead head ≤ span r.cqHead r.cqTail
  · rw [if_neg (by omega), hw.refund_head hle, if_pos hle]
  · rw [if_pos (by omega), if_neg hle]

theorem observeCompletionHead_inFlight (hflight : r.publicationInFlight ≠ none) (head : BitVec 32) :
    r.observeCompletionHead head = (.error .publicationInFlight, r) := by
  exact if_pos (Option.isSome_iff_ne_none.mpr hflight)

theorem WF.observeCompletionHead_move (hw : WF r) (head : BitVec 32) :
    CallMove r (.observeCompletionHead head) := by
  dsimp only [CallMove, call]
  by_cases hflight : r.publicationInFlight = none
  · rw [hw.observeCompletionHead_eq hflight]
    split
    · next hle => exact .consume head hflight hle
    · exact .refuse
  · rw [observeCompletionHead_inFlight hflight]
    exact .refuse

/-! ### Close -/

theorem beginClose_move (r : RequestRegistry) : CallMove r .beginClose := by
  show Move r none (Outcome.tag _ r.beginClose).2
  unfold beginClose
  split
  · exact .phase .closing
  all_goals exact .refuse

theorem beginDraining_move (r : RequestRegistry) : CallMove r .beginDraining := by
  show Move r none (Outcome.tag _ r.beginDraining).2
  unfold beginDraining
  split
  · exact .refuse
  split
  · exact .refuse
  split
  · exact .refuse
  · exact .phase .draining

theorem WF.discardCompletion_move (hw : WF r) (token : CompletionToken) :
    CallMove r (.discardCompletion token) := by
  dsimp only [CallMove, call, discardCompletion]
  split
  · exact .refuse
  split
  · exact .refuse
  next hreq =>
  obtain ⟨e, he, hst⟩ := requireState_eq_ok hreq
  have hend : Ending e.state .discarded := by
    cases hs : e.state <;> simp [hs, EntryState.toPublic] at hst
    exact .discard _
  rw [hw.clearSlot_eq he]
  dsimp only
  rw [hw.refund_vacate he]
  exact .release he hend (by simp)

/-- Every failure of `discard_published` leaves the registry as it was. -/
theorem WF.discardPublished_cases (hw : WF r) :
    (∃ x, x ≠ .invalidCompletionConsumption ∧ r.discardPublished = (.error x, r)) ∨
      r.publicationInFlight = none ∧
        r.discardPublished = (.ok (span r.cqHead r.cqTail),
          { r with
            cqHead := r.cqTail
            terminalCredits := r.terminalCredits - span r.cqHead r.cqTail }) := by
  unfold discardPublished
  split
  · exact .inl ⟨_, by simp, rfl⟩
  split
  · exact .inl ⟨_, by simp, rfl⟩
  next hflight =>
  right
  rw [hw.publishedCount_eq]
  dsimp only
  rw [hw.refund_head (Nat.le_refl _)]
  exact ⟨by simpa using hflight, rfl⟩

theorem WF.discardPublished_move (hw : WF r) : CallMove r .discardPublished := by
  dsimp only [CallMove, call]
  rcases hw.discardPublished_cases with ⟨x, -, hx⟩ | ⟨hflight, hx⟩
  · rw [hx]
    exact .refuse
  · rw [hx]
    exact .consume r.cqTail hflight (Nat.le_refl _)

theorem finishClose_move (r : RequestRegistry) : CallMove r .finishClose := by
  show Move r none (Outcome.tag _ r.finishClose).2
  unfold finishClose
  split
  · exact .refuse
  · exact .refuse
  all_goals
    split
    · exact .refuse
    · exact .phase .closed

/-- **Every call on a well-formed registry is one of the moves.** -/
theorem WF.call_move (hw : WF r) (c : RequestCall) : CallMove r c := by
  cases c with
  | reserve d => exact reserve_move r d
  | rollback res => exact hw.rollback_move res
  | commit res => exact commit_move r res
  | issue p => exact issue_move r p
  | claimTerminal id cause => exact claimTerminal_move r id cause
  | claimCancel selector exclude => exact claimCancel_move r selector exclude
  | finishTerminal permit result flags => exact finishTerminal_move r permit result flags
  | publish token => exact publish_move r token
  | commitPublication p => exact hw.commitPublication_move p
  | rollbackPublication p => exact rollbackPublication_move r p
  | observeCompletionHead head => exact hw.observeCompletionHead_move head
  | beginClose => exact beginClose_move r
  | beginDraining => exact beginDraining_move r
  | discardCompletion token => exact hw.discardCompletion_move token
  | discardPublished => exact hw.discardPublished_move
  | finishClose => exact finishClose_move r

end RequestRegistry

end LinuxAbi.IoUring
