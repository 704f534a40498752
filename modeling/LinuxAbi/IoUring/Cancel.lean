import LinuxAbi.IoUring.Identity
import LinuxAbi.IoUring.Terminal
import Mathlib.Data.List.MinMax

/-!
# Cancellation by user data

`claim_cancel` walks the table in slot order and keeps the candidate with the least
sequence, so it finds the `argmin` of what the slots offer. That the least sequence is the
earliest admission is a fact about runs: sequences are given out in the order in which
requests enter the table.
-/

namespace LinuxAbi.IoUring

open Option
open List
open Lib (NonZeroU64 run)
open Lib.NonZeroU64 (rank_some)

def EntryState.cancellable : EntryState → Bool
  | .prepared | .issued .cancellable => true
  | _ => false

namespace RequestRegistry

variable {r r' r₀ : RequestRegistry} {userData : BitVec 64} {exclude : Option RequestId}
  {id id' : RequestId} {e e' : RequestEntry} {slotsReserved freeReserved : Bool} {ring : RingId}
  {capacity entries : Nat}

/-! ## The walk -/

/-- What a slot adds to the candidates. -/
def offer (ring : RingId) (selector : CancelSelector) (exclude : Option RequestId) :
    RequestSlot × Nat → Option (NonZeroU64 × RequestId)
  | (⟨some generation, some e⟩, slot) =>
    if some { ring, slot, generation } ≠ exclude ∧ selector.matchesDescriptor e.descriptor ∧
      e.state.cancellable then some (e.sequence, { ring, slot, generation }) else none
  | _ => none

theorem scanCancel_eq (ring : RingId) (selector : CancelSelector) (exclude : Option RequestId) :
    ∀ (slots : List RequestSlot) (index : Nat) (candidate : Option (NonZeroU64 × RequestId)),
      (∀ s ∈ slots, s.entry.isSome → s.generation.isSome) → index + slots.length ≤ 2 ^ 32 →
      scanCancel ring selector exclude index slots candidate =
        .ok (((slots.zipIdx index).filterMap (offer ring selector exclude)).foldl
          (List.argAux fun b c => b.1.val < c.1.val) candidate) := by
  intro slots
  induction slots with
  | nil => intro index candidate _ _; rfl
  | cons slot rest ih =>
  intro index candidate hgen hlen
  simp only [length_cons] at hlen
  have ih := fun candidate => ih (index + 1) candidate
    (fun s hs => hgen s (mem_cons_of_mem _ hs)) (by omega)
  obtain ⟨generation, entry⟩ := slot
  rw [zipIdx_cons, scanCancel]
  cases entry with
  | none => simp [ih, offer]
  | some e =>
  obtain ⟨g, rfl⟩ := isSome_iff_exists.mp (hgen _ mem_cons_self rfl)
  have hidx : ¬ index ≥ 2 ^ 32 := by omega
  simp only [hidx, if_false]
  by_cases hskip : some { ring, slot := index, generation := g } = exclude ∨
      ¬ selector.matchesDescriptor e.descriptor
  · have hnone : offer ring selector exclude (⟨some g, some e⟩, index) = none :=
      if_neg fun h => hskip.elim h.1 fun hm => hm h.2.1
    rw [if_pos hskip, ih, filterMap_cons_none hnone]
  · -- only the state is left to decide
    obtain ⟨hother, hmatch⟩ := not_or.mp hskip
    have hoffer : offer ring selector exclude (⟨some g, some e⟩, index) =
        if e.state.cancellable then some (e.sequence, ⟨ring, index, g⟩) else none := by
      simp [offer, hother, not_not.mp hmatch]
    rw [if_neg hskip, filterMap_cons, hoffer]
    cases e.state with
    | prepared => cases candidate <;> simp [ih, EntryState.cancellable, argAux]
    | issued mode =>
      cases mode <;> cases candidate <;> simp [ih, EntryState.cancellable, argAux]
    | _ => simp [ih, EntryState.cancellable]

/-- The request may be cancelled under this user data. -/
def Cancels (r : RequestRegistry) (userData : BitVec 64) (exclude : Option RequestId)
    (id : RequestId) (e : RequestEntry) : Prop :=
  r.entry id = .ok e ∧ some id ≠ exclude ∧ e.descriptor.userData = userData ∧ e.state.cancellable

theorem mem_offers {sequence : NonZeroU64} :
    (sequence, id) ∈ r.slots.zipIdx.filterMap (offer r.ring (.userData userData) exclude) ↔
      ∃ e, r.Cancels userData exclude id e ∧ e.sequence = sequence := by
  simp only [mem_filterMap, Prod.exists, mk_mem_zipIdx_iff_getElem?]
  constructor
  · rintro ⟨⟨_ | g, _ | e⟩, slot, hslot, hoffer⟩
    case some.some =>
      simp only [offer, ite_none_right_eq_some, some.injEq, Prod.mk.injEq] at hoffer
      obtain ⟨⟨hother, hmatch, hst⟩, hseq, rfl⟩ := hoffer
      exact ⟨e, ⟨entry_eq_ok.mpr ⟨rfl, hslot⟩, hother, beq_iff_eq.mp hmatch, hst⟩, hseq⟩
    all_goals cases hoffer
  · rintro ⟨e, ⟨he, hother, hdata, hst⟩, rfl⟩
    obtain ⟨hring, hslot⟩ := entry_eq_ok.mp he
    refine ⟨_, id.slot, hslot, ?_⟩
    have hid : (⟨r.ring, id.slot, id.generation⟩ : RequestId) = id := by rw [← hring]
    simp [offer, hid, hother, CancelSelector.matchesDescriptor, hdata, hst]

/-- Either nothing can be cancelled and nothing happens, or the least sequence is claimed. -/
theorem Identified.claimCancel_cases (h : Identified r) (hlen : r.slots.length ≤ 2 ^ 32)
    (userData : BitVec 64) (exclude : Option RequestId) :
    (∀ id e, ¬ r.Cancels userData exclude id e) ∧
        r.claimCancel (.userData userData) exclude = (.error .cancellationTargetNotFound, r) ∨
      ∃ id e, r.Cancels userData exclude id e ∧
        (∀ id' e', r.Cancels userData exclude id' e' → id' ≠ id →
          e.sequence.val < e'.sequence.val) ∧
        r.claimCancel (.userData userData) exclude =
          (.ok ⟨id, e.descriptor, .cancelled⟩, r.setState id (.terminalClaimed .cancelled)) := by
  have hgen : ∀ s ∈ r.slots, s.entry.isSome → s.generation.isSome := by
    intro s hs
    obtain ⟨i, hi⟩ := getElem?_of_mem hs
    exact h.wf.occupied_gen i s hi
  have hscan : scanCancel r.ring (.userData userData) exclude 0 r.slots none =
      .ok ((r.slots.zipIdx.filterMap (offer r.ring (.userData userData) exclude)).argmin (·.1.val)) :=
    scanCancel_eq r.ring _ exclude r.slots 0 none hgen (by omega)
  simp only [claimCancel, hscan]
  cases hbest : (r.slots.zipIdx.filterMap (offer r.ring (.userData userData) exclude)).argmin
      (·.1.val) with
  | none =>
    refine .inl ⟨fun id e hcans => ?_, rfl⟩
    have hmem := mem_offers.mpr ⟨e, hcans, rfl⟩
    rw [argmin_eq_none.mp hbest] at hmem
    cases hmem
  | some best =>
    obtain ⟨e, hcans, hseq⟩ := mem_offers.mp (argmin_mem hbest)
    refine .inr ⟨best.2, e, hcans, ?_, ?_⟩
    · intro id' e' hcans' hne
      have hle := le_of_mem_argmin (mem_offers.mpr ⟨e', hcans', rfl⟩) hbest
      rw [← hseq] at hle
      refine Nat.lt_of_le_of_ne hle fun heq => hne ?_
      exact h.distinct id' best.2 e' e hcans'.1 hcans.1 (NonZeroU64.ext_val heq.symm)
    · obtain ⟨he, -, -, hst⟩ := hcans
      cases hstate : e.state with
      | issued mode => cases mode <;> simp_all [EntryState.cancellable, claimTerminal]
      | _ => simp_all [EntryState.cancellable, claimTerminal]

/-! ## Admissions -/

/-- At some point of the run the one was in the table and the other was not yet. -/
def AdmittedBefore (r₀ : RequestRegistry) (calls : List RequestCall) (id id' : RequestId) : Prop :=
  ∃ before, before <+: calls ∧ (∃ e, (run call r₀ before).entry id = .ok e) ∧
    ∀ e, (run call r₀ before).entry id' ≠ .ok e

theorem Later.sequence_eq (hlater : Later r r') (he : r.entry id = .ok e)
    (he' : r'.entry id = .ok e') : e.sequence = e'.sequence := by
  obtain ⟨s, hs, hage⟩ := hlater.slots _ _ (entry_eq_ok.mp he).2
  rw [(entry_eq_ok.mp he').2] at hs
  obtain rfl := some.inj hs
  rcases hage with ⟨-, hentry⟩ | hlt
  · obtain ⟨st, hst⟩ := hentry e rfl
    rw [some.inj hst]
  · exact absurd hlt (Nat.lt_irrefl _)

/-- Sequences are given out in the order of admission. -/
theorem admittedBefore_of_lt (h₀ : Identified r₀) (hemp : ∀ id e, r₀.entry id ≠ .ok e)
    (calls : List RequestCall) : ∀ {id id' e e'}, (run call r₀ calls).entry id = .ok e →
      (run call r₀ calls).entry id' = .ok e' → e.sequence.val < e'.sequence.val →
      AdmittedBefore r₀ calls id id' := by
  induction calls using reverseRecOn with
  | nil => intro id id' e e' he; exact absurd he (hemp id e)
  | append_singleton calls c ih =>
  intro id id' e e' he he' hlt
  rw [Lib.run_snoc] at he he'
  have hs : Identified (run call r₀ calls) :=
    Lib.run_preserves (I := Identified) (fun _ c h => h.call c) h₀ calls
  have htouch := hs.wf.call_touch c
  have hpre : calls <+: calls ++ [c] := prefix_append _ _
  rcases htouch.later.older id e he with ⟨e₀, he₀, hseq⟩ | hnew
  · by_cases hold : ∃ e₀', (run call r₀ calls).entry id' = .ok e₀'
    · obtain ⟨e₀', he₀'⟩ := hold
      rw [← hseq, ← htouch.later.sequence_eq he₀' he'] at hlt
      obtain ⟨before, hbef, hin, hout⟩ := ih he₀ he₀' hlt
      exact ⟨before, hbef.trans hpre, hin, hout⟩
    · exact ⟨calls, hpre, ⟨e₀, he₀⟩, fun e h => hold ⟨e, h⟩⟩
  · -- a new request has the greatest sequence
    obtain ⟨fresh, hfresh⟩ := htouch.entries
    rcases hfresh id' e' he' with ⟨e₀, he₀, hseq⟩ | ⟨-, hseq, -⟩
    · have hold := hs.sequenced id' e₀ he₀
      rw [hseq] at hold
      omega
    · rw [hseq, rank_some] at hnew
      omega

/-- A permit is the last one. -/
theorem not_granted_later (hnew : new slotsReserved freeReserved ring capacity entries = .ok r₀)
    (hgrant : registryEvent c ((run call r₀ calls).call c).1 = some (.request id (.granted cause)))
    (later : List RequestCall) (cause' : TerminalCause) :
    .granted cause' ∉ stepsOf id (history ((run call r₀ calls).call c).2 later) := by
  obtain ⟨l, hword, -⟩ := (run_lifeView hnew (calls ++ c :: later)).word id
  have hone := hword.singleTerminal.one_permit
  rw [history, Lib.events_append, stepsOf, filterMap_append, countP_append] at hone
  simp only [Lib.events, hgrant, toList_some, singleton_append, filterMap_cons,
    RegistryEvent.stepOf, if_pos, countP_cons, Life.grants] at hone
  intro hmem
  have hpos : 0 < (stepsOf id (history ((run call r₀ calls).call c).2 later)).countP Life.grants :=
    countP_pos_iff.mpr ⟨_, hmem, rfl⟩
  simp only [stepsOf, history] at hpos
  omega

/-! ## Every run -/

theorem Touch.length_eq (ht : Touch r r') : r'.slots.length = r.slots.length := by
  cases ht with
  | keep _ hslots => rw [hslots]
  | enter => exact length_set
  | advance _ _ hslots => rw [hslots, length_set]
  | release _ _ hslots => rw [hslots]; exact length_set

theorem new_empty (hnew : new slotsReserved freeReserved ring capacity entries = .ok r₀) :
    r₀.slots.length ≤ 2 ^ 32 ∧ ∀ id e, r₀.entry id ≠ .ok e := by
  obtain ⟨-, -, rfl⟩ := new_eq_ok hnew
  constructor
  · unfold new at hnew
    split at hnew
    · cases hnew
    · simp only [maxEntries, length_replicate] at *
      omega
  · intro id e he
    simpa using eq_of_mem_replicate (mem_of_getElem? (entry_eq_ok.mp he).2)

/-- **The oldest request is cancelled.** In every state a registry reaches, a cancellation by
user data fails exactly when there is no candidate, leaving everything as it was. Otherwise it
claims the candidate that was admitted first, leaves the other entries alone, and neither a
completion nor a cancellation is granted for that request again. -/
theorem run_cancel_oldest (hnew : new slotsReserved freeReserved ring capacity entries = .ok r₀)
    (calls : List RequestCall) (userData : BitVec 64) (exclude : Option RequestId) :
    let r := run call r₀ calls
    (∀ id e, ¬ r.Cancels userData exclude id e) ∧
        r.claimCancel (.userData userData) exclude = (.error .cancellationTargetNotFound, r) ∨
      ∃ id e r', r.Cancels userData exclude id e ∧
        r.claimCancel (.userData userData) exclude = (.ok ⟨id, e.descriptor, .cancelled⟩, r') ∧
        (∀ id' e', id' ≠ id → (r.Cancels userData exclude id' e' → AdmittedBefore r₀ calls id id') ∧
          (r'.entry id' = .ok e' ↔ r.entry id' = .ok e')) ∧
        ∀ later cause, .granted cause ∉ stepsOf id (history r' later) := by
  intro r
  have h₀ := new_identified hnew
  obtain ⟨hsmall, hempty⟩ := new_empty hnew
  obtain ⟨hid, hlength⟩ : Identified r ∧ r.slots.length = r₀.slots.length :=
    Lib.run_preserves (I := fun r => Identified r ∧ r.slots.length = r₀.slots.length)
      (fun _ c h => ⟨h.1.call c, (h.1.wf.call_touch c).length_eq.trans h.2⟩) ⟨h₀, rfl⟩ calls
  rcases hid.claimCancel_cases (hlength ▸ hsmall) userData exclude with
    hnone | ⟨id, e, hcancels, hmin, hclaim⟩
  · exact .inl hnone
  refine .inr ⟨id, e, _, hcancels, hclaim, fun id' e' hne => ⟨fun hcancels' => ?_, ?_⟩, ?_⟩
  · exact admittedBefore_of_lt h₀ hempty calls hcancels.1 hcancels'.1 (hmin id' e' hcancels' hne)
  · have hring : (r.setState id (.terminalClaimed .cancelled)).ring = r.ring := rfl
    rw [entry_ok_of_set hring (slots_setState hcancels.1 _) (entry_eq_ok.mp hcancels.1).2]
    by_cases hslot : id'.slot = id.slot
    · -- under this slot there is only the request itself
      refine iff_of_false ?_ fun he => hne (id_eq_of_slot_eq he hcancels.1 hslot)
      rintro (⟨-, hring', heq⟩ | ⟨hno, -⟩)
      · have hown := (entry_eq_ok.mp hcancels.1).1
        cases id
        cases id'
        simp_all
      · exact hno hslot
    · simp [hslot]
  · have hcall : r.call (.claimCancel (.userData userData) exclude) =
        (.ok (.permit ⟨id, e.descriptor, .cancelled⟩), r.setState id (.terminalClaimed .cancelled)) := by
      simp [call, Outcome.tag, hclaim, Except.map]
    have hgrant : registryEvent (.claimCancel (.userData userData) exclude)
        (r.call (.claimCancel (.userData userData) exclude)).1
        = some (.request id (.granted .cancelled)) := by rw [hcall]; rfl
    have hlast := not_granted_later hnew hgrant
    rw [hcall] at hlast
    exact hlast

/-- Two requests with one user data; the older one is in the higher slot, since the lower one
was rolled back and given out again. -/
def reusedCalls : List RequestCall :=
  let d : RequestDescriptor := ⟨7, .nop⟩
  let id (slot : Nat) (generation : NonZeroU64) : RequestId := ⟨⟨.one⟩, slot, generation⟩
  [.reserve d, .reserve d, .rollback ⟨id 0 .one, d⟩, .reserve d, .commit ⟨id 1 .one, d⟩,
    .commit ⟨id 0 ⟨1 + 1, by decide, by decide⟩, d⟩]

theorem run_cancel_oldest_reused : ∃ r₀, new true true ⟨.one⟩ 2 2 = .ok r₀ ∧
    let r := run call r₀ reusedCalls
    (r.claimCancel (.userData 7) none).1.toOption.map (·.id.slot) = some 1 ∧
    ∃ id e, r.Cancels 7 none id e ∧
      ∀ id' e', id' ≠ id → r.Cancels 7 none id' e' → AdmittedBefore r₀ reusedCalls id id' := by
  have hnew : new true true ⟨.one⟩ 2 2 = .ok _ := rfl
  refine ⟨_, hnew, by decide, ?_⟩
  rcases run_cancel_oldest hnew reusedCalls 7 none with ⟨-, hnone⟩ | ⟨id, e, r', hcancels, -, hother, -⟩
  · exact absurd (congrArg (·.1.isOk) hnone) (by decide)
  · exact ⟨id, e, hcancels, fun id' e' hne => (hother id' e' hne).1⟩

end RequestRegistry
end LinuxAbi.IoUring
