import LinuxAbi.IoUring.Accounting

/-!
# One terminal per request

What the registry is for, seen from one request: `Life` is a small automaton
with no slots, tokens or credits in it, and `Word w l` says that the steps `w`
take a request from before its reservation to `l`. Every property of a single
request is a fact about words: at most one permit, at most one CQE or discard,
a CQE with the request's own data.

The registry refines a family of such automata, one per `RequestId`
(`run_lifeView`). Slots are reused, so the refinement has to know which ids of a
slot are still to come and which are over; the generation in the slot decides
(`Matches`). Because the tokens passed to the calls are arbitrary, nothing rests
on who holds which token: `rollback_publication` may mint as many completion
tokens as it likes.
-/

namespace LinuxAbi.IoUring

open Nat
open Option
open List
open Lib (NonZeroU64 run)

/-! ## The life of one request -/

/-- Where a request stands. -/
inductive Life
  | fresh
  | live (descriptor : RequestDescriptor) (state : EntryState)
  | ended

/-- The steps a request can take. -/
inductive Life.Next : Life → RequestStep → Life → Prop
  | reserve (d : RequestDescriptor) : Next .fresh (.reserved d) (.live d .reserved)
  | advance {d : RequestDescriptor} {st st' : EntryState} {step : RequestStep}
      (h : Advance d st step st') : Next (.live d st) step (.live d st')
  | ending {d : RequestDescriptor} {st : EntryState} {step : RequestStep}
      (h : Ending st step) : Next (.live d st) step .ended

/-- The step sequences of a request, with where they lead. -/
inductive Life.Word : List RequestStep → Life → Prop
  | start : Word [] .fresh
  | step {w : List RequestStep} {l l' : Life} {step : RequestStep} (hw : Word w l)
      (hn : Next l step l') : Word (w ++ [step]) l'

namespace Life

/-- The steps up to and including the terminal claim. -/
def Claimed (d : RequestDescriptor) (cause : TerminalCause) (w : List RequestStep) : Prop :=
  w = [.reserved d, .accepted, .granted cause] ∨
    ∃ mode, (mode = .uncancellable → cause = .completed) ∧
      w = [.reserved d, .accepted, .issued mode, .granted cause]

/-- The steps up to a recorded result, with any number of publication attempts
since. -/
def Recorded (d : RequestDescriptor) (c : Completion) (w : List RequestStep) : Prop :=
  ∃ cause result flags claimed attempts, Claimed d cause claimed ∧
    c = ⟨d.userData, result, flags⟩ ∧
    (∀ step ∈ attempts, step = .publishing ∨ step = .unpublished) ∧
    w = claimed ++ .finished result flags :: attempts

/-- The words leading to each place of the life cycle. -/
def Shape (w : List RequestStep) : Life → Prop
  | .fresh => w = []
  | .live d .reserved => w = [.reserved d]
  | .live d .prepared => w = [.reserved d, .accepted]
  | .live d (.issued mode) => w = [.reserved d, .accepted, .issued mode]
  | .live d (.terminalClaimed cause) => Claimed d cause w
  | .live d (.completionPending c) => Recorded d c w
  | .live d (.publishing c) => Recorded d c w
  | .ended => (∃ d, w = [.reserved d, .withdrawn]) ∨
      ∃ d c recorded last, Recorded d c recorded ∧
        (last = .discarded ∨ ∃ cqSlot, last = .committed c cqSlot) ∧ w = recorded ++ [last]

variable {d : RequestDescriptor} {c : Completion} {w : List RequestStep} {step : RequestStep}
  {l : Life}

theorem Recorded.attempt (h : Recorded d c w) (hs : step = .publishing ∨ step = .unpublished) :
    Recorded d c (w ++ [step]) := by
  obtain ⟨cause, result, flags, claimed, attempts, hclaimed, hc, hatt, rfl⟩ := h
  refine ⟨cause, result, flags, claimed, attempts ++ [step], hclaimed, hc, ?_, by simp⟩
  exact Lib.forall_mem_concat hatt hs

theorem Shape.next (h : Shape w l) (hn : Next l step l') : Shape (w ++ [step]) l' := by
  cases hn with
  | reserve d =>
    have hw : w = [] := h
    rw [hw]
    exact rfl
  | advance ha =>
    cases ha with
    | accept => exact congrArg (· ++ [RequestStep.accepted]) h
    | issue => exact congrArg (· ++ [RequestStep.issued _]) h
    | claimPrepared cause => exact .inl (congrArg (· ++ [RequestStep.granted cause]) h)
    | claimIssued mode cause hc =>
      exact .inr ⟨mode, hc, congrArg (· ++ [RequestStep.granted cause]) h⟩
    | finish cause result flags => exact ⟨cause, result, flags, w, [], h, rfl, by simp, rfl⟩
    | publish c => exact Recorded.attempt h (.inl rfl)
    | unpublish c => exact Recorded.attempt h (.inr rfl)
  | @ending d st step hend =>
    cases hend with
    | withdraw => exact .inl ⟨d, congrArg (· ++ [RequestStep.withdrawn]) h⟩
    | discard c => exact .inr ⟨d, c, w, .discarded, h, .inl rfl, rfl⟩
    | commit c cqSlot => exact .inr ⟨d, c, w, .committed c cqSlot, h, .inr ⟨cqSlot, rfl⟩, rfl⟩

theorem Word.shape (h : Word w l) : Shape w l := by
  induction h with
  | start => exact rfl
  | step _ hn ih => exact ih.next hn

/-! ## What the words say -/

/-- A terminal permit was handed out. -/
def grants : RequestStep → Bool
  | .granted _ => true
  | _ => false

/-- The request left with a CQE or a discard. -/
def terminates : RequestStep → Bool
  | .committed _ _ | .discarded => true
  | _ => false

/-- What the steps of one request never do twice, and where the data of its CQE
comes from. -/
structure SingleTerminal (w : List RequestStep) : Prop where
  one_permit : w.countP grants ≤ 1
  one_end : w.countP terminates ≤ 1
  own_data : ∀ c cqSlot, .committed c cqSlot ∈ w → ∃ d result flags,
    c = ⟨d.userData, result, flags⟩ ∧ (∀ d', .reserved d' ∈ w ↔ d' = d) ∧
      ∀ result' flags', .finished result' flags' ∈ w ↔ result' = result ∧ flags' = flags
  uncancellable : ∀ cause, .issued .uncancellable ∈ w → .granted cause ∈ w → cause = .completed

theorem countP_attempts {p : RequestStep → Bool} {attempts : List RequestStep}
    (hatt : ∀ step ∈ attempts, step = .publishing ∨ step = .unpublished)
    (hpub : p .publishing = false) (hunpub : p .unpublished = false) : attempts.countP p = 0 := by
  refine countP_eq_zero.mpr ?_
  intro step hmem
  rcases hatt step hmem with rfl | rfl
  · rw [hpub]
    exact Bool.false_ne_true
  · rw [hunpub]
    exact Bool.false_ne_true

/-- A step that is no publication attempt is among the recorded steps exactly
when it is the claim's or the finish itself. -/
theorem mem_recorded
    (hatt : ∀ s ∈ attempts, s = .publishing ∨ s = .unpublished) (hpub : step ≠ .publishing)
    (hunpub : step ≠ .unpublished) :
    step ∈ claimed ++ finish :: attempts ↔ step ∈ claimed ∨ step = finish := by
  have hnot : step ∉ attempts := by
    intro hmem
    rcases hatt step hmem with h | h
    · exact hpub h
    · exact hunpub h
  simp [hnot]

theorem Claimed.facts (h : Claimed d cause w) :
    w.countP grants = 1 ∧ w.countP terminates = 0 ∧ (∀ d', .reserved d' ∈ w ↔ d' = d) ∧
      (∀ result flags, .finished result flags ∉ w) ∧ (∀ c cqSlot, .committed c cqSlot ∉ w) ∧
      ∀ cause', .issued .uncancellable ∈ w → .granted cause' ∈ w → cause' = .completed := by
  rcases h with rfl | ⟨mode, hmode, rfl⟩
  · refine ⟨rfl, rfl, ?_, ?_, ?_, ?_⟩ <;> simp
  refine ⟨rfl, rfl, ?_, ?_, ?_, ?_⟩
  · simp
  · simp
  · simp
  · intro cause' hissued hgranted
    have hm : .uncancellable = mode := by simpa using hissued
    have hc : cause' = cause := by simpa using hgranted
    rw [hc]
    exact hmode hm.symm

theorem Recorded.facts (h : Recorded d c w) :
    w.countP grants = 1 ∧ w.countP terminates = 0 ∧ (∀ c' cqSlot, .committed c' cqSlot ∉ w) ∧
      (∃ result flags, c = ⟨d.userData, result, flags⟩ ∧ (∀ d', .reserved d' ∈ w ↔ d' = d) ∧
        ∀ result' flags', .finished result' flags' ∈ w ↔ result' = result ∧ flags' = flags) ∧
      ∀ cause, .issued .uncancellable ∈ w → .granted cause ∈ w → cause = .completed := by
  obtain ⟨cause, result, flags, claimed, attempts, hclaimed, hc, hatt, rfl⟩ := h
  obtain ⟨hgrant, hterm, hres, hfin, hcom, hunc⟩ := hclaimed.facts
  have hmem : ∀ step : RequestStep, step ≠ .publishing → step ≠ .unpublished →
      (step ∈ claimed ++ .finished result flags :: attempts ↔
        step ∈ claimed ∨ step = .finished result flags) :=
    fun step hpub hunpub => mem_recorded hatt hpub hunpub
  refine ⟨?_, ?_, ?_, ⟨result, flags, hc, ?_, ?_⟩, ?_⟩
  · rw [countP_append, countP_cons, hgrant, countP_attempts hatt rfl rfl]
    rfl
  · rw [countP_append, countP_cons, hterm, countP_attempts hatt rfl rfl]
    rfl
  · intro c' cqSlot
    rw [hmem _ (by simp) (by simp)]
    simp [hcom c' cqSlot]
  · intro d'
    rw [hmem _ (by simp) (by simp), hres d']
    simp
  · intro result' flags'
    rw [hmem _ (by simp) (by simp)]
    simp [hfin result' flags']
  · intro cause'
    rw [hmem _ (by simp) (by simp), hmem _ (by simp) (by simp)]
    simpa using hunc cause'

theorem Claimed.singleTerminal (h : Claimed d cause w) : SingleTerminal w := by
  obtain ⟨hgrant, hterm, -, -, hcom, hunc⟩ := h.facts
  exact ⟨le_of_eq hgrant, hterm ▸ zero_le 1, fun c cqSlot hmem => absurd hmem (hcom c cqSlot),
    hunc⟩

theorem Recorded.singleTerminal (h : Recorded d c w) : SingleTerminal w := by
  obtain ⟨hgrant, hterm, hcom, -, hunc⟩ := h.facts
  exact ⟨le_of_eq hgrant, hterm ▸ zero_le 1, fun c cqSlot hmem => absurd hmem (hcom c cqSlot),
    hunc⟩

/-- A recorded request ends once, with its own completion or none. -/
theorem Recorded.singleTerminal_end (h : Recorded d c w)
    (hlast : last = .discarded ∨ ∃ cqSlot, last = .committed c cqSlot) :
    SingleTerminal (w ++ [last]) := by
  obtain ⟨hgrant, hterm, hcom, ⟨result, flags, hc, hres, hfin⟩, hunc⟩ := h.facts
  have hother : ∀ step, (∀ c cqSlot, step ≠ .committed c cqSlot) → step ≠ .discarded →
      (step ∈ w ++ [last] ↔ step ∈ w) := by
    intro step hne hne'
    have hnot : step ≠ last := by
      rcases hlast with rfl | ⟨cqSlot, rfl⟩
      · exact hne'
      · exact hne c cqSlot
    simp [hnot]
  refine ⟨?_, ?_, ?_, ?_⟩
  · rw [countP_append, hgrant]
    rcases hlast with rfl | ⟨cqSlot, rfl⟩ <;> exact le_refl 1
  · rw [countP_append, hterm, zero_add]
    exact countP_le_length
  · intro c' cqSlot hmem
    have hc' : c' = c := by
      rcases mem_append.mp hmem with hmem | hmem
      · exact absurd hmem (hcom c' cqSlot)
      rcases hlast with rfl | ⟨cqSlot', rfl⟩
      · simp at hmem
      · simp only [mem_singleton, RequestStep.committed.injEq] at hmem
        exact hmem.1
    refine ⟨d, result, flags, hc' ▸ hc, ?_, ?_⟩
    · intro d'
      rw [hother _ (by simp) (by simp)]
      exact hres d'
    · intro result' flags'
      rw [hother _ (by simp) (by simp)]
      exact hfin result' flags'
  · intro cause
    rw [hother _ (by simp) (by simp), hother _ (by simp) (by simp)]
    exact hunc cause

/-- **Every word of the life cycle has one terminal.** -/
theorem Word.singleTerminal (h : Word w l) : SingleTerminal w := by
  have hshape := h.shape
  have hshort : ∀ w' : List RequestStep, w'.countP grants = 0 → w'.countP terminates = 0 →
      SingleTerminal w' := by
    intro w' hgrant hterm
    have hnone := countP_eq_zero.mp hterm
    have hnone' := countP_eq_zero.mp hgrant
    refine ⟨hgrant ▸ zero_le 1, hterm ▸ zero_le 1, ?_, ?_⟩
    · intro c cqSlot hmem
      exact absurd rfl (hnone _ hmem)
    · intro cause _ hmem
      exact absurd rfl (hnone' _ hmem)
  cases l with
  | fresh => exact (show w = [] from hshape) ▸ hshort [] rfl rfl
  | live d st =>
    cases st with
    | reserved | prepared | issued => exact (show w = _ from hshape) ▸ hshort _ rfl rfl
    | terminalClaimed cause => exact Claimed.singleTerminal hshape
    | completionPending | publishing => exact Recorded.singleTerminal hshape
  | ended =>
    rcases hshape with ⟨d, rfl⟩ | ⟨d, c, recorded, last, hrec, hlast, rfl⟩
    · exact hshort _ rfl rfl
    · exact hrec.singleTerminal_end hlast

end Life

/-! ## The registry refines one life cycle per id -/

/-- The step an event is for the request `id`. -/
def RegistryEvent.stepOf (id : RequestId) : RegistryEvent → Option RequestStep
  | .request id' step => if id' = id then some step else none
  | .consumed _ => none

/-- The steps of the request `id`, in order. -/
def stepsOf (id : RequestId) (past : List RegistryEvent) : List RequestStep :=
  past.filterMap (RegistryEvent.stepOf id)

namespace RequestRegistry

/-- Where the registry keeps a request: an id whose generation the slot has not
reached is still fresh, one the slot has passed is over. -/
def Matches (r : RequestRegistry) (id : RequestId) : Life → Prop
  | .fresh => id.ring = r.ring → ∀ s, r.slots[id.slot]? = some s →
      ∃ g, s.generation = some g ∧ g.val ≤ id.generation.val ∧
        (s.entry.isSome → g.val < id.generation.val)
  | .live d st => ∃ e, r.entry id = .ok e ∧ e.descriptor = d ∧ e.state = st
  | .ended => ∃ s, r.slots[id.slot]? = some s ∧ ∀ g, s.generation = some g →
      id.generation.val < g.val

/-- The abstraction: every id has taken a word of the life cycle and stands
where the word leads. -/
structure LifeView (past : List RegistryEvent) (r : RequestRegistry) : Prop where
  wf : WF r
  word : ∀ id, ∃ l, Life.Word (stepsOf id past) l ∧ r.Matches id l

variable {r r' : RequestRegistry} {id : RequestId} {l : Life} {past : List RegistryEvent}

theorem Matches.eq_live (h : r.Matches id l)
    (he : r.entry id = .ok e) : l = .live e.descriptor e.state := by
  obtain ⟨hring, hslot⟩ := entry_eq_ok.mp he
  cases l with
  | fresh =>
    obtain ⟨g, hg, -, hlt⟩ := h hring _ hslot
    obtain rfl := some.inj hg
    exact absurd (hlt rfl) (lt_irrefl _)
  | live d st =>
    obtain ⟨e', he', rfl, rfl⟩ := h
    rw [he] at he'
    cases he'
    rfl
  | ended =>
    obtain ⟨s, hs, hlt⟩ := h
    rw [hslot] at hs
    cases hs
    exact absurd (hlt _ rfl) (lt_irrefl _)

theorem Matches.eq_fresh (h : r.Matches id l)
    (hslot : r.slots[id.slot]? = some ⟨some id.generation, none⟩) : l = .fresh := by
  cases l with
  | fresh => rfl
  | live d st =>
    obtain ⟨e, he, -⟩ := h
    rw [(entry_eq_ok.mp he).2] at hslot
    simp at hslot
  | ended =>
    obtain ⟨s, hs, hlt⟩ := h
    rw [hslot] at hs
    cases hs
    exact absurd (hlt _ rfl) (lt_irrefl _)

/-- The slot has yet to give out the id. -/
def Ahead (id : RequestId) (s : RequestSlot) : Prop :=
  ∃ g, s.generation = some g ∧ g.val ≤ id.generation.val ∧
    (s.entry.isSome → g.val < id.generation.val)

/-- The slot gives out later ids only. -/
def Passed (id : RequestId) (s : RequestSlot) : Prop :=
  ∀ g, s.generation = some g → id.generation.val < g.val

/-- A move of one request leaves every other request where it was; the conditions are about
the ids that share the slot. -/
theorem Matches.of_set (h : r.Matches id l)
    (hring : r'.ring = r.ring) (hslots : r'.slots = r.slots.set i s) (hold : r.slots[i]? = some old)
    (hlive : ∀ e, r.entry id = .ok e → id.slot ≠ i)
    (hahead : id.ring = r.ring → id.slot = i → Ahead id old → Ahead id s)
    (hpassed : Passed id old → Passed id s) : r'.Matches id l := by
  cases l with
  | fresh =>
    intro hr s' hs'
    rw [hslots] at hs'
    rcases Lib.getElem?_set_cases hs' with ⟨hi, rfl⟩ | ⟨-, hs'⟩
    · exact hahead (hr.trans hring) hi (h (hr.trans hring) old (hi ▸ hold))
    · exact h (hr.trans hring) s' hs'
  | live d st =>
    obtain ⟨e, he, hd, hst⟩ := h
    exact ⟨e, (entry_ok_of_set hring hslots hold).mpr (.inr ⟨hlive e he, he⟩), hd, hst⟩
  | ended =>
    obtain ⟨s', hs', hlt⟩ := h
    show ∃ s', r'.slots[id.slot]? = some s' ∧ Passed id s'
    rw [hslots]
    by_cases hi : i = id.slot
    · subst hi
      obtain rfl := some.inj (hold.symm.trans hs')
      exact ⟨s, Lib.getElem?_set_of_some hold, hpassed hlt⟩
    · exact ⟨s', (getElem?_set_ne hi).trans hs', hlt⟩

theorem id_ext (hring : id.ring = id'.ring) (hslot : id.slot = id'.slot)
    (hgen : id.generation.val = id'.generation.val) : id = id' := by
  obtain ⟨ring, slot, gen⟩ := id
  obtain ⟨ring', slot', gen'⟩ := id'
  obtain rfl : gen = gen' := NonZeroU64.ext_val hgen
  obtain rfl : ring = ring' := hring
  obtain rfl : slot = slot' := hslot
  rfl

section Step

variable {r : RequestRegistry} {id id₀ : RequestId} {l : Life}

theorem Matches.admitted (d : RequestDescriptor) (sequence : NonZeroU64)
    (hslot : r.slots[i]? = some ⟨some g, none⟩) (hne : (⟨r.ring, i, g⟩ : RequestId) ≠ id)
    (h : r.Matches id l) : (r.admitted i g d sequence).Matches id l := by
  refine h.of_set rfl rfl hslot ?_ ?_ fun hpassed => hpassed
  · rintro e he rfl
    rw [(entry_eq_ok.mp he).2] at hslot
    simp at hslot
  · rintro hring rfl ⟨g', hg', hle, -⟩
    obtain rfl := some.inj hg'
    -- another id of this slot: the generation handed out is strictly below it
    refine ⟨g, rfl, hle, fun _ => lt_of_le_of_ne hle fun heq => ?_⟩
    exact hne (id_ext hring.symm rfl heq)

variable {e : RequestEntry}

theorem Matches.advanced (step : RequestStep) (st : EntryState) (he : r.entry id₀ = .ok e)
    (hne : id₀ ≠ id) (h : r.Matches id l) : (r.advanced id₀ step st).Matches id l := by
  refine h.of_set rfl (slots_setState he st) (entry_eq_ok.mp he).2 ?_ ?_ fun hpassed => hpassed
  · intro e' he' heq
    exact hne (id_eq_of_slot_eq he he' heq.symm)
  · rintro - - ⟨g, hg, hle, hlt⟩
    exact ⟨g, hg, hle, fun _ => hlt rfl⟩

theorem Matches.vacate (he : r.entry id₀ = .ok e) (hne : id₀ ≠ id)
    (h : r.Matches id l) : (r.vacate id₀).Matches id l := by
  refine h.of_set rfl rfl (entry_eq_ok.mp he).2 ?_ ?_ ?_
  · intro e' he' heq
    exact hne (id_eq_of_slot_eq he he' heq.symm)
  · rintro - - ⟨g', hg', -, hlt⟩
    obtain rfl := some.inj hg'
    -- a later id of the slot is still to come, so the generations are not exhausted
    obtain ⟨g, hg, hle⟩ := NonZeroU64.checkedSucc_of_lt (hlt rfl)
    exact ⟨g, hg, hle, nofun⟩
  · intro hpassed g hg
    have hlt := hpassed _ rfl
    have hval := NonZeroU64.val_checkedSucc hg
    omega

/-- The released slot has passed the id it was released by. -/
theorem matches_over_of_released (step : RequestStep)
    (he : r.entry id₀ = .ok e) : (r.released id₀ step).Matches id₀ .ended := by
  obtain ⟨-, hslot⟩ := entry_eq_ok.mp he
  have hi : id₀.slot < r.slots.length := Lib.lt_of_getElem? hslot
  have hslots : (r.released id₀ step).slots
      = r.slots.set id₀.slot ⟨id₀.generation.checkedSucc, none⟩ := by
    cases step <;> rfl
  have hget := hslots ▸ List.getElem?_set_self hi
  refine ⟨_, hget, fun g hg => ?_⟩
  have hval := NonZeroU64.val_checkedSucc hg
  omega

/-- Only ring and slots matter for where a request stands. -/
theorem Matches.congr (h : r.Matches id l) (hring : r'.ring = r.ring)
    (hslots : r'.slots = r.slots) : r'.Matches id l := by
  cases l with
  | fresh =>
    intro hr s hs
    rw [hslots] at hs
    exact h (hr.trans hring) s hs
  | live d st =>
    obtain ⟨e, he, hd, hst⟩ := h
    refine ⟨e, ?_, hd, hst⟩
    rw [entry_eq_ok, hring, hslots]
    exact entry_eq_ok.mp he
  | ended =>
    obtain ⟨s, hs, hlt⟩ := h
    exact ⟨s, by rw [hslots]; exact hs, hlt⟩

theorem Matches.released (step : RequestStep) (he : r.entry id₀ = .ok e) (hne : id₀ ≠ id)
    (h : r.Matches id l) : (r.released id₀ step).Matches id l := by
  refine (h.vacate he hne).congr ?_ ?_
  · cases step <;> rfl
  · cases step <;> rfl

end Step

/-! ## The step and run lemmas -/

theorem stepsOf_own (id : RequestId) (past : List RegistryEvent) (step : RequestStep) :
    stepsOf id (past ++ [.request id step]) = stepsOf id past ++ [step] := by
  simp [stepsOf, RegistryEvent.stepOf]

theorem stepsOf_other (hne : id₀ ≠ id) (past : List RegistryEvent)
    (step : RequestStep) : stepsOf id (past ++ [.request id₀ step]) = stepsOf id past := by
  simp [stepsOf, RegistryEvent.stepOf, hne]

/-- A move that is no request's step leaves every request where it was. -/
theorem LifeView.quiet {ev : Option RegistryEvent} (hv : LifeView past r) (hw : WF r')
    (hev : ∀ id, stepsOf id ev.toList = []) (hring : r'.ring = r.ring)
    (hslots : r'.slots = r.slots) : LifeView (past ++ ev.toList) r' := by
  refine ⟨hw, fun id => ?_⟩
  obtain ⟨l, hword, hmatch⟩ := hv.word id
  have happend : stepsOf id (past ++ ev.toList) = stepsOf id past ++ stepsOf id ev.toList :=
    filterMap_append ..
  rw [happend, hev, append_nil]
  exact ⟨l, hword, hmatch.congr hring hslots⟩

/-- A move that is a step of `id₀` takes `id₀` along its life cycle and leaves
the others where they were. -/
theorem LifeView.request (hv : LifeView past r) (hw : WF r')
    (hown : ∀ l, r.Matches id₀ l → ∃ l', Life.Next l step l' ∧ r'.Matches id₀ l')
    (hothers : ∀ id l, id₀ ≠ id → r.Matches id l → r'.Matches id l) :
    LifeView (past ++ [.request id₀ step]) r' := by
  refine ⟨hw, fun id => ?_⟩
  obtain ⟨l, hword, hmatch⟩ := hv.word id
  by_cases hid : id₀ = id
  · subst hid
    obtain ⟨l', hnext, hmatch'⟩ := hown l hmatch
    rw [stepsOf_own]
    exact ⟨l', .step hword hnext, hmatch'⟩
  · rw [stepsOf_other hid]
    exact ⟨l, hword, hothers id l hid hmatch⟩

/-- **One move refines one step of the life cycles.** -/
theorem Move.lifeView (hm : Move r ev r') (hv : LifeView past r) :
    LifeView (past ++ ev.toList) r' := by
  have hw := hm.wf hv.wf
  cases hm with
  | refuse | phase | consume => exact hv.quiet hw (fun _ => rfl) rfl rfl
  | @enter i g d sequence hfree hslot hroom =>
    refine hv.request hw ?_ (fun id l hne h => h.admitted d sequence hslot hne)
    intro l hl
    obtain rfl := hl.eq_fresh hslot
    refine ⟨_, .reserve d, ⟨d, sequence, .reserved⟩, ?_, rfl, rfl⟩
    have hi : i < r.slots.length := Lib.lt_of_getElem? hslot
    exact entry_eq_ok.mpr ⟨rfl, List.getElem?_set_self hi⟩
  | @advance id₀ e step st he ha hflight =>
    refine hv.request hw ?_ (fun id l hne h => h.advanced step st he hne)
    intro l hl
    obtain rfl := hl.eq_live he
    refine ⟨_, .advance ha, { e with state := st }, ?_, rfl, rfl⟩
    obtain ⟨hring, hold⟩ := entry_eq_ok.mp he
    have hi : id₀.slot < r.slots.length := Lib.lt_of_getElem? hold
    refine entry_eq_ok.mpr ⟨hring, ?_⟩
    show (r.setState id₀ st).slots[id₀.slot]? = _
    rw [slots_setState he st, List.getElem?_set_self hi]
  | @release id₀ e step he hend hslot =>
    refine hv.request hw ?_ (fun id l hne h => h.released step he hne)
    intro l hl
    obtain rfl := hl.eq_live he
    exact ⟨_, .ending hend, matches_over_of_released step he⟩

theorem new_lifeView {slotsReserved freeReserved : Bool} {ring : RingId} {capacity entries : Nat}
    (h : new slotsReserved freeReserved ring capacity entries = .ok r) : LifeView [] r := by
  refine ⟨new_wf h, fun id => ⟨.fresh, .start, ?_⟩⟩
  obtain ⟨-, -, rfl⟩ := new_eq_ok h
  intro _ s hs
  obtain rfl := eq_of_mem_replicate (mem_of_getElem? hs)
  exact ⟨.one, rfl, id.generation.pos, fun hsome => by cases hsome⟩

/-- Every run refines the life cycles. -/
theorem run_lifeView {slotsReserved freeReserved : Bool} {ring : RingId} {capacity entries : Nat}
    (hnew : new slotsReserved freeReserved ring capacity entries = .ok r)
    (calls : List RequestCall) : LifeView (history r calls) (run call r calls) := by
  have hrun : LifeView ([] ++ history r calls) (run call r calls) := by
    refine Lib.run_invariant (I := LifeView) ?_ calls [] r (new_lifeView hnew)
    intro past s c hv
    exact (hv.wf.call_move c).lifeView hv
  exact hrun

/-- Two publishing entries are one entry. -/
theorem WF.publishing_unique (hw : WF r) {i j : Nat} (hs : r.slots[i]? = some s)
    (ht : r.slots[j]? = some t) (he : s.entry = some e) (hf : t.entry = some f)
    (hc : e.state = .publishing c) (hk : f.state = .publishing k) : i = j := by
  have hflight : ∀ {n : Nat} {u : RequestSlot} {x : RequestEntry} {y : Completion},
      r.slots[n]? = some u → u.entry = some x → x.state = .publishing y →
        ∃ g, r.publicationInFlight = some ⟨r.ring, n, g⟩ := by
    intro n u x y hu hx hy
    obtain ⟨g, hg⟩ := isSome_iff_exists.mp (hw.occupied_gen n u hu (by rw [hx]; rfl))
    refine ⟨g, (hw.flight _).mpr ⟨x, y, entry_eq_ok.mpr ⟨rfl, ?_⟩, hy⟩⟩
    obtain ⟨gen, ent⟩ := u
    obtain rfl : gen = some g := hg
    obtain rfl : ent = some x := hx
    exact hu
  obtain ⟨g, hg⟩ := hflight hs he hc
  obtain ⟨g', hg'⟩ := hflight ht hf hk
  rw [hg] at hg'
  exact congrArg RequestId.slot (some.inj hg')

/-- **Single terminal.** Along every run, with any tokens, each request takes at
most one permit and one CQE or discard, its CQE carries the data of its own
reservation and finish, an uncancellable request is only ever completed, and at
most one slot is publishing. -/
theorem run_single_terminal {slotsReserved freeReserved : Bool} {ring : RingId}
    {capacity entries : Nat} {r : RequestRegistry}
    (hnew : new slotsReserved freeReserved ring capacity entries = .ok r)
    (calls : List RequestCall) :
    (∀ id, Life.SingleTerminal (stepsOf id (history r calls))) ∧
      ∀ (i j : Nat) (s t : RequestSlot) (e f : RequestEntry) (c k : Completion),
        (run call r calls).slots[i]? = some s → (run call r calls).slots[j]? = some t →
        s.entry = some e → t.entry = some f → e.state = .publishing c → f.state = .publishing k →
        i = j := by
  have hv := run_lifeView hnew calls
  constructor
  · intro id
    obtain ⟨l, hword, -⟩ := hv.word id
    exact hword.singleTerminal
  · intro i j s t e f c k hs ht he hf hc hk
    exact hv.wf.publishing_unique hs ht he hf hc hk

/-- The theorem at a request that is published twice, rolled back in between. -/
theorem run_single_terminal_republished : ∃ r, new true true ⟨.one⟩ 1 1 = .ok r ∧
    let id : RequestId := ⟨⟨.one⟩, 0, .one⟩
    let publication : CompletionPublication := ⟨id, ⟨7, 0, 0⟩, 0, 1⟩
    let calls := publishingCalls ++
      [.rollbackPublication publication, .publish ⟨id⟩, .commitPublication publication]
    .committed ⟨7, 0, 0⟩ 0 ∈ stepsOf id (history r calls) ∧
      Life.SingleTerminal (stepsOf id (history r calls)) := by
  have hnew : new true true ⟨.one⟩ 1 1 = .ok _ := rfl
  exact ⟨_, hnew, by decide, (run_single_terminal hnew _).1 _⟩

end RequestRegistry

end LinuxAbi.IoUring
