import LinuxAbi.Mm.UffdTable

/-!
# Plans, revisions and consumed tokens

Every change of the table moves its revision, until the revision saturates. Below that bound a
plan is good only for the table it was made on. At the bound a plan can still be old, but then
nothing is published any more: a plan is a removal, it holds for every table that has the named
records, and a record that was removed never comes back.
-/

namespace LinuxAbi.Mm

open Nat
open List
open Lib (NonZeroU64 bind_eq_ok)

namespace UffdRegistrationTable

variable {t : UffdRegistrationTable}

/-! ## Revisions -/

variable {removed : List UffdRegistrationId} {requests : List UffdRegistrationRequest}
  {plan : UffdRegistrationPlan} {c : UffdCall} {single : Bool} {id : UffdRegistrationId}

/-- A transaction that publishes nothing only clears slots. -/
theorem Commits.eq_without {new : UffdRegistrationTable} (h : Commits t removed requests new)
    (hpubs : t.publishes removed requests = []) : new = t.without removed := by
  have hfilled := h.filled
  rw [hpubs, numbered_nil] at hfilled
  have hnext := h.advance
  rw [hpubs] at hnext
  have hnext : t.nextId = new.nextId := by
    cases hid : t.nextId <;> rw [hid] at hnext <;> exact Except.ok.inj hnext
  have hrev := h.revision
  simp only [hpubs, and_true] at hrev
  unfold without
  rw [← hfilled.eq, hnext, ← hrev]

theorem without_nil (t : UffdRegistrationTable) : t.without [] = t := by
  unfold without
  rw [cleared_nil]
  rfl

/-- A call that changes the table moves the revision, unless it is saturated. -/
theorem revision_call (h : Sound t) (c : UffdCall) :
    (t.call c).2 = t ∨ t.revision ≤ (t.call c).2.revision
      ∧ (t.revision ≠ maxRevision → t.revision < (t.call c).2.revision) := by
  rcases call_cases h c with ⟨-, hsame⟩ | ⟨-, happ⟩
  · exact .inl hsame
  by_cases hnone : c.tokens t = [] ∧ t.publishes (c.tokens t) c.requests = []
  · left
    rw [happ.commits.eq_without hnone.2, hnone.1, without_nil]
  right
  rw [happ.commits.revision, if_neg hnone]
  have hle := h.revision_le
  unfold saturatingSucc
  omega

theorem revision_le_run (h : Sound t) (later : List UffdCall) :
    t.revision ≤ (Lib.run call t later).revision := by
  let I := fun u : UffdRegistrationTable => Sound u ∧ t.revision ≤ u.revision
  have hstep : ∀ u c, I u → I (call u c).2 := by
    intro u c hu
    refine ⟨hu.1.call c, ?_⟩
    rcases revision_call hu.1 c with hsame | ⟨hle, -⟩
    · rw [hsame]
      exact hu.2
    · exact hu.2.trans hle
  have hinit : I t := ⟨h, le_refl _⟩
  exact (Lib.run_preserves hstep hinit later).2

/-- A run that changes the table at any point ends at a higher revision. -/
theorem revision_lt_run : ∀ {later : List UffdCall} {t : UffdRegistrationTable}, Sound t →
    t.revision ≠ maxRevision → (∃ k, Lib.run call t (later.take k) ≠ t) →
      t.revision < (Lib.run call t later).revision
  | [], t, _, _, ⟨k, hk⟩ => by
    rw [List.take_nil] at hk
    exact absurd rfl hk
  | c :: later, t, h, hmax, ⟨k, hk⟩ => by
    have hnext := h.call c
    show t.revision < (Lib.run call (t.call c).2 later).revision
    rcases revision_call h c with hsame | ⟨-, hlt⟩
    · -- this call changed nothing, so the change comes later
      cases k with
      | zero => exact absurd rfl hk
      | succ k =>
        have hk : Lib.run call (t.call c).2 (later.take k) ≠ t := hk
        rw [hsame] at hk ⊢
        exact revision_lt_run h hmax ⟨k, hk⟩
    · exact lt_of_lt_of_le (hlt hmax) (revision_le_run hnext later)

/-! ## Plans -/

/-- The plan is the answer of a preflight on this table. -/
def Preflighted (t : UffdRegistrationTable) (plan : UffdRegistrationPlan) : Prop :=
  (∃ api requests, t.preflightRegister api requests = .ok plan)
    ∨ (∃ api removed replacements, t.preflightReplace api removed replacements = .ok plan)
    ∨ (∃ removed replacements, t.preflightMappingReplace removed replacements = .ok plan)
    ∨ ∃ removed, t.preflightMappingRemove removed = .ok plan

theorem preflightRegister_inv (h : t.preflightRegister api requests = .ok plan) :
    t.planRequestChanges [] requests true = .ok plan := by
  obtain ⟨-, -, h⟩ := bind_eq_ok.mp h
  split at h
  · cases h
  · exact h

theorem preflightReplace_inv (h : t.preflightReplace api removed replacements = .ok plan) :
    t.planRequestChanges removed replacements true = .ok plan := by
  obtain ⟨-, -, h⟩ := bind_eq_ok.mp h
  split at h
  · cases h
  · exact h

theorem preflightMappingReplace_inv
    (h : t.preflightMappingReplace removed replacements = .ok plan) :
    t.validateMappingReplacements removed replacements = .ok ()
      ∧ t.planRequestChanges removed (replacements.map (·.request)) false = .ok plan := by
  obtain ⟨_, hval, h⟩ := bind_eq_ok.mp h
  exact ⟨hval, h⟩

/-- A plan is bound to the revision it was made at. -/
theorem Preflighted.revision (h : t.Preflighted plan) : plan.revision = t.revision := by
  rcases h with ⟨_, _, h⟩ | ⟨_, _, _, h⟩ | ⟨_, _, h⟩ | ⟨_, h⟩
  · exact (planRequestChanges_inv (preflightRegister_inv h)).revision
  · exact (planRequestChanges_inv (preflightReplace_inv h)).revision
  · exact (planRequestChanges_inv (preflightMappingReplace_inv h).2).revision
  · exact (planRequestChanges_inv (preflightMappingReplace_inv h).2).revision

/-- A call under a plan of another revision is refused. -/
theorem isError_of_revision_ne (h : Sound t) (hplan : c.plan? t = some plan)
    (hne : plan.revision ≠ t.revision) : (t.call c).1.isError = true := by
  rcases call_cases h c with ⟨herror, -⟩ | ⟨-, happ⟩
  · exact herror
  · exact absurd (happ.planned plan hplan).revision hne

/-! ## Removals -/

/-- A pure removal the table can make: the records are there, and a plan is the answer of its
preflight. -/
def Removes (t : UffdRegistrationTable) : UffdCall → Prop
  | .unregister id => ∃ r ∈ t.live, r.id = id
  | .detachHandler _ => True
  | .commitReplace plan removed replacements =>
    replacements = [] ∧ ∃ api, t.preflightReplace api removed [] = .ok plan
  | .replaceBatch api removed replacements =>
    replacements = [] ∧ ∃ plan, t.preflightReplace api removed [] = .ok plan
  | .commitMappingReplace plan removed replacements =>
    replacements = [] ∧ t.preflightMappingReplace removed [] = .ok plan
  | .mappingReplaceBatch removed replacements =>
    replacements = [] ∧ ∃ plan, t.preflightMappingReplace removed [] = .ok plan
  | .commitMappingRemove plan removed => t.preflightMappingRemove removed = .ok plan
  | .register _ _ | .commitRegister _ _ | .registerBatch _ _ => False

/-- The tokens are distinct and name live records that agree on `key`. -/
def Names {κ : Type} (t : UffdRegistrationTable) (key : UffdRegistration → κ)
    (removed : List UffdRegistrationId) : Prop :=
  removed ≠ [] ∧ removed.Nodup ∧ ∃ k, ∀ id ∈ removed, ∃ r ∈ t.live, r.id = id ∧ key r = k

theorem Removes.requests_eq (h : Removes t c) : c.requests = [] := by
  cases c with
  | register | commitRegister | registerBatch => exact h.elim
  | commitReplace | replaceBatch => exact h.1
  | commitMappingReplace | mappingReplaceBatch =>
    rw [h.1]
    rfl
  | commitMappingRemove | unregister | detachHandler => rfl

/-- A commit under the plan the table makes now goes through. -/
theorem commit_not_isError (h : Sound t)
    (hplan : t.planRequestChanges removed requests single = .ok plan) :
    (t.answer .committed (t.commitRequestChanges plan removed requests single)).1.isError
      = false := by
  rcases commitRequestChanges_cases h plan removed requests single with
    ⟨hne, -⟩ | ⟨visited, new, hcom, -⟩
  · exact absurd hplan hne
  · rw [hcom]
    rfl

theorem commitMappingReplace_eq
    (hplan : t.preflightMappingReplace removed replacements = .ok plan) :
    t.commitMappingReplace plan removed replacements
      = t.commitRequestChanges plan removed (replacements.map (·.request)) false := by
  obtain ⟨hval, hmade⟩ := preflightMappingReplace_inv hplan
  have hrev := (planRequestChanges_inv hmade).revision
  unfold commitMappingReplace
  rw [if_neg (not_not.mpr hrev.symm), hval]

theorem Removes.not_isError (h : Sound t) (hc : Removes t c) : (t.call c).1.isError = false := by
  have hmapping {plan removed} (hplan : t.preflightMappingReplace removed [] = .ok plan) :
      (t.answer .committed (t.commitMappingReplace plan removed [])).1.isError = false := by
    rw [commitMappingReplace_eq hplan]
    exact commit_not_isError h (preflightMappingReplace_inv hplan).2
  cases c with
  | register | commitRegister | registerBatch => exact hc.elim
  | commitReplace plan removed replacements =>
    obtain ⟨rfl, api, hplan⟩ := hc
    exact commit_not_isError h (preflightReplace_inv hplan)
  | replaceBatch api removed replacements =>
    obtain ⟨rfl, plan, hplan⟩ := hc
    show (t.answer .committed (t.preflighted _ _)).1.isError = false
    rw [hplan]
    exact commit_not_isError h (preflightReplace_inv hplan)
  | commitMappingReplace plan removed replacements =>
    obtain ⟨rfl, hplan⟩ := hc
    exact hmapping hplan
  | mappingReplaceBatch removed replacements =>
    obtain ⟨rfl, plan, hplan⟩ := hc
    show (t.answer .committed (t.preflighted _ _)).1.isError = false
    rw [hplan]
    exact hmapping hplan
  | commitMappingRemove plan removed => exact hmapping hc
  | unregister id =>
    rcases unregister_cases h id with ⟨e, herror⟩ | ⟨r, -, -, hdone⟩
    · obtain ⟨r, hr, hid⟩ := hc
      unfold unregister at herror
      split at herror
      next hnone =>
        have hno := Lib.locate_eq_none hnone r hr
        rw [decide_eq_false_iff_not] at hno
        exact absurd hid hno
      · cases herror
    · show (UffdReply.registered (t.unregister id).1).isError = false
      rw [hdone]
      rfl
  | detachHandler handler => rfl

/-- A pure removal takes exactly its records out. -/
theorem Removes.call_eq (h : Sound t) (hc : Removes t c) :
    (t.call c).2 = t.without (c.tokens t) := by
  rcases call_cases h c with ⟨herror, -⟩ | ⟨-, happ⟩
  · rw [hc.not_isError h] at herror
    cases herror
  refine happ.commits.eq_without ?_
  rw [hc.requests_eq]
  rfl

/-- The plan of a removal says how many records go, and nothing else about the table. -/
theorem planRemoval_eq_ok :
    t.planRequestChanges removed [] single = .ok plan ↔
      removed ≠ [] ∧ (∃ owner, t.scanRemoved single [] none removed = .ok owner)
        ∧ plan = ⟨t.revision, removed.length, 0, 0, t.nextId⟩ := by
  have hscan : ∀ owner, t.scanRequests removed single [] owner ⟨0, 0, 0⟩ [] = .ok ⟨0, 0, 0⟩ :=
    fun _ => rfl
  have hadv : advanceRegistrationIds t.nextId 0 = .ok t.nextId := by
    cases t.nextId <;> rfl
  unfold planRequestChanges
  constructor
  · intro h
    split at h
    · cases h
    next hnon =>
    obtain ⟨owner, howner, h⟩ := bind_eq_ok.mp h
    refine ⟨fun hnil => hnon ⟨hnil, rfl⟩, ⟨owner, howner⟩, ?_⟩
    rw [hscan] at h
    dsimp only [bind, Except.bind] at h
    split at h
    · cases h
    split at h
    · cases h
    rw [if_neg (not_lt_zero _), if_neg (not_not.mpr rfl), hadv] at h
    dsimp only at h
    exact (Except.ok.inj h).symm
  · rintro ⟨hne, ⟨owner, howner⟩, rfl⟩
    obtain ⟨hnodup, -, hlive⟩ := scanRemoved_inv howner
    have hlen := length_le_of_live hnodup hlive
    have hcapacity : t.live.length ≤ t.records.length := reduceOption_length_le t.records
    rw [if_neg fun hboth => hne hboth.1, howner]
    dsimp only [bind, Except.bind]
    rw [hscan]
    dsimp only
    rw [if_neg (not_lt.mpr hlen), if_neg (by omega), if_neg (not_lt_zero _),
      if_neg (not_not.mpr rfl), hadv]
    dsimp only
    rfl

/-! ## Removals one after the other -/

/-- A record whose token is not among the removed ones is found as before. -/
theorem get_without (hid : id ∉ removed) : (t.without removed).get id = t.get id := by
  have hlive : (t.without removed).live = t.live.filter fun r => r.id ∉ removed :=
    reduceOption_cleared t removed
  have hfind : (t.without removed).live.find? (fun r => r.id = id)
      = t.live.find? (fun r => r.id = id) := by
    rw [hlive, find?_filter]
    congr 1
    funext r
    by_cases hr : r.id = id
    · simp [hr, hid]
    · simp [hr]
  unfold get
  rw [hfind]

theorem scanRemoved_congr {u : UffdRegistrationTable} :
    ∀ {ids previous : List UffdRegistrationId} {owner : Option UffdOwner},
      (∀ id ∈ ids, u.get id = t.get id) →
        u.scanRemoved single previous owner ids = t.scanRemoved single previous owner ids
  | [], _, _, _ => rfl
  | id :: ids, previous, owner, h => by
    obtain ⟨hhere, hrest⟩ := List.forall_mem_cons.mp h
    unfold scanRemoved
    split
    · rfl
    rw [hhere]
    congr 1
    funext r
    congr 1
    funext owner'
    exact scanRemoved_congr hrest

theorem sameAddressSpace_congr {u : UffdRegistrationTable} :
    ∀ {ids : List UffdRegistrationId}, (∀ id ∈ ids, u.get id = t.get id) →
      u.sameAddressSpace space ids = t.sameAddressSpace space ids
  | [], _ => rfl
  | id :: ids, h => by
    obtain ⟨hhere, hrest⟩ := List.forall_mem_cons.mp h
    unfold sameAddressSpace
    rw [hhere, sameAddressSpace_congr hrest]

section Saturated
variable {removed other : List UffdRegistrationId}

/-- At the saturated revision a removal leaves revision and counter alone. -/
theorem revision_without (hmax : t.revision = maxRevision) (removed : List UffdRegistrationId) :
    (t.without removed).revision = t.revision := by
  show (if removed = [] then t.revision else saturatingSucc t.revision) = t.revision
  split
  · rfl
  rw [hmax]
  exact min_eq_right (le_succ _)

variable {plan : UffdRegistrationPlan} {d : UffdCall}

section

variable (hmax : t.revision = maxRevision) (hapart : ∀ id ∈ removed, id ∉ other)
include hmax hapart

theorem planRemoval_without (hplan : t.planRequestChanges removed [] single = .ok plan) :
    (t.without other).planRequestChanges removed [] single = .ok plan := by
  obtain ⟨hne, ⟨owner, howner⟩, hfields⟩ := planRemoval_eq_ok.mp hplan
  refine planRemoval_eq_ok.mpr ⟨hne, ⟨owner, ?_⟩, ?_⟩
  · rw [scanRemoved_congr fun id hid => get_without (hapart id hid)]
    exact howner
  · rw [revision_without hmax]
    exact hfields

theorem preflightReplace_without (hplan : t.preflightReplace api removed [] = .ok plan) :
    (t.without other).preflightReplace api removed [] = .ok plan := by
  obtain ⟨_, hapi, h⟩ := bind_eq_ok.mp hplan
  refine bind_eq_ok.mpr ⟨_, hapi, ?_⟩
  split at h
  · cases h
  next hne =>
  rw [if_neg hne]
  exact planRemoval_without hmax hapart h

theorem preflightMappingReplace_without (hplan : t.preflightMappingReplace removed [] = .ok plan) :
    (t.without other).preflightMappingReplace removed [] = .ok plan := by
  obtain ⟨hval, hmade⟩ := preflightMappingReplace_inv hplan
  refine bind_eq_ok.mpr ⟨(), ?_, planRemoval_without hmax hapart hmade⟩
  cases removed with
  | nil => cases hval
  | cons first rest =>
    have hget : ∀ id ∈ first :: rest, (t.without other).get id = t.get id :=
      fun id hid => get_without (hapart id hid)
    obtain ⟨r, hr, hval⟩ := bind_eq_ok.mp hval
    refine bind_eq_ok.mpr ⟨r, (hget first mem_cons_self).trans hr, ?_⟩
    rw [sameAddressSpace_congr hget]
    exact hval

end

/-- The tokens of a call are the same after a removal that takes none of them. -/
theorem tokens_without (hapart : ∀ id ∈ d.tokens t, id ∉ other) :
    d.tokens (t.without other) = d.tokens t := by
  cases d with
  | detachHandler handler =>
    have hlive : (t.without other).live = t.live.filter fun r => r.id ∉ other :=
      reduceOption_cleared t other
    show ((t.without other).live.filter _).map _ = (t.live.filter _).map _
    rw [hlive, filter_filter]
    congr 1
    refine filter_congr fun r hr => ?_
    by_cases hhdl : r.handler = handler
    · have hid : r.id ∈ (UffdCall.detachHandler handler).tokens t :=
        mem_map_of_mem (mem_filter.mpr ⟨hr, decide_eq_true hhdl⟩)
      simp [hapart r.id hid]
    · simp [hhdl]
  | _ => rfl

/-- A removal can be made as well after another that takes none of its records. -/
theorem Removes.without (hmax : t.revision = maxRevision) (hd : Removes t d)
    (hapart : ∀ id ∈ d.tokens t, id ∉ other) : Removes (t.without other) d := by
  cases d with
  | register | commitRegister | registerBatch => exact hd.elim
  | commitReplace plan removed replacements =>
    obtain ⟨hnil, api, hplan⟩ := hd
    exact ⟨hnil, api, preflightReplace_without hmax hapart hplan⟩
  | replaceBatch api removed replacements =>
    obtain ⟨hnil, plan, hplan⟩ := hd
    exact ⟨hnil, plan, preflightReplace_without hmax hapart hplan⟩
  | commitMappingReplace plan removed replacements =>
    exact ⟨hd.1, preflightMappingReplace_without hmax hapart hd.2⟩
  | mappingReplaceBatch removed replacements =>
    obtain ⟨hnil, plan, hplan⟩ := hd
    exact ⟨hnil, plan, preflightMappingReplace_without hmax hapart hplan⟩
  | commitMappingRemove plan removed => exact preflightMappingReplace_without hmax hapart hd
  | unregister id =>
    obtain ⟨r, hr, hid⟩ := hd
    refine ⟨r, ?_, hid⟩
    have hmem : r ∈ t.retained other := by
      refine mem_retained.mpr ⟨hr, ?_⟩
      rw [hid]
      exact hapart id mem_cons_self
    rw [← reduceOption_cleared] at hmem
    exact hmem
  | detachHandler handler => trivial

/-- Clearing in either order clears the same slots. -/
theorem without_comm (hmax : t.revision = maxRevision) (removed other : List UffdRegistrationId) :
    (t.without removed).without other = (t.without other).without removed := by
  have hrecs : (t.without removed).cleared other = (t.without other).cleared removed := by
    show (t.records.map _).map _ = (t.records.map _).map _
    rw [map_map, map_map]
    refine map_congr_left fun slot _ => ?_
    rw [Function.comp_apply, Function.comp_apply, Option.filter_filter, Option.filter_filter]
    congr 1
    funext r
    exact Bool.and_comm _ _
  have hleft := revision_without ((revision_without hmax removed).trans hmax) other
  have hright := revision_without ((revision_without hmax other).trans hmax) removed
  rw [revision_without hmax] at hleft hright
  exact UffdRegistrationTable.ext hrecs rfl (hleft.trans hright.symm)

/-- Removals of different records commute. -/
theorem Removes.comm (h : Sound t) (hmax : t.revision = maxRevision)
    (hc : Removes t c) (hd : Removes t d) (hapart : ∀ id ∈ c.tokens t, id ∉ d.tokens t) :
    ((t.call c).2.call d).1.isError = false
      ∧ ((t.call c).2.call d).2 = ((t.call d).2.call c).2 := by
  have hapart' : ∀ id ∈ d.tokens t, id ∉ c.tokens t := fun id hd hc => hapart id hc hd
  have hcall := hc.call_eq h
  have hcall' := hd.call_eq h
  have hsound : Sound (t.without (c.tokens t)) := hcall ▸ h.call c
  have hsound' : Sound (t.without (d.tokens t)) := hcall' ▸ h.call d
  have hthen := hd.without hmax hapart'
  have hthen' := hc.without hmax hapart
  rw [hcall, hcall']
  refine ⟨hthen.not_isError hsound, ?_⟩
  rw [hthen.call_eq hsound, hthen'.call_eq hsound', tokens_without hapart', tokens_without hapart]
  exact without_comm hmax _ _

end Saturated

/-! ## Removals that are not refused -/

/-- Distinct live tokens are scanned without an error. -/
theorem scanRemoved_of_names (h : Sound t) (hnodup : removed.Nodup)
    (hlive : ∀ id ∈ removed, ∃ r ∈ t.live, r.id = id ∧ (single = true → r.request.owner = O)) :
    ∃ owner, t.scanRemoved single [] none removed = .ok owner := by
  have hget : ∀ id ∈ removed, ∃ r, t.get id = .ok r ∧ (single = true → r.request.owner = O) := by
    intro id hid
    obtain ⟨r, hr, rfl, hO⟩ := hlive id hid
    exact ⟨r, get_of_mem h.ids_nodup hr, hO⟩
  have hscan : ∃ owner, t.scanRemoved single [] none removed = .ok owner ∧ ∀ o ∈ owner, o = O :=
    scanRemoved_of hnodup (fun _ _ => not_mem_nil) hget (fun o ho => by cases ho)
  obtain ⟨owner, howner, -⟩ := hscan
  exact ⟨owner, howner⟩

/-- Distinct live tokens of one owner can be removed at any revision. -/
theorem preflightReplace_of_names (h : Sound t) (hnames : t.Names (·.request.owner) removed) :
    ∃ plan, t.preflightReplace .initialized removed [] = .ok plan := by
  obtain ⟨hne, hnodup, O, hlive⟩ := hnames
  have hscan : ∃ owner, t.scanRemoved true [] none removed = .ok owner := by
    refine scanRemoved_of_names h (O := O) hnodup fun id hid => ?_
    obtain ⟨r, hr, hid, hO⟩ := hlive id hid
    exact ⟨r, hr, hid, fun _ => hO⟩
  refine ⟨⟨t.revision, removed.length, 0, 0, t.nextId⟩, bind_eq_ok.mpr ⟨(), rfl, ?_⟩⟩
  rw [if_neg hne]
  exact planRemoval_eq_ok.mpr ⟨hne, hscan, rfl⟩

theorem sameAddressSpace_of : ∀ {ids : List UffdRegistrationId},
    (∀ id ∈ ids, ∃ r, t.get id = .ok r ∧ r.addressSpace = space) →
      t.sameAddressSpace space ids = .ok ()
  | [], _ => rfl
  | id :: ids, h => by
    obtain ⟨⟨r, hr, hspace⟩, hrest⟩ := List.forall_mem_cons.mp h
    refine bind_eq_ok.mpr ⟨r, hr, ?_⟩
    rw [if_neg (not_not.mpr hspace)]
    exact sameAddressSpace_of hrest

/-- Distinct live tokens of one address space can be removed at any revision. -/
theorem preflightMappingRemove_of_names (h : Sound t) (hnames : t.Names (·.addressSpace) removed) :
    ∃ plan, t.preflightMappingRemove removed = .ok plan := by
  obtain ⟨hne, hnodup, space, hlive⟩ := hnames
  have hget : ∀ id ∈ removed, ∃ r, t.get id = .ok r ∧ r.addressSpace = space := by
    intro id hid
    obtain ⟨r, hr, rfl, hspace⟩ := hlive id hid
    exact ⟨r, get_of_mem h.ids_nodup hr, hspace⟩
  cases removed with
  | nil => exact absurd rfl hne
  | cons first rest =>
    obtain ⟨r, hr, hspace⟩ := hget first mem_cons_self
    have hscan : ∃ owner, t.scanRemoved false [] none (first :: rest) = .ok owner := by
      refine scanRemoved_of_names h (O := r.request.owner) hnodup fun id hid => ?_
      obtain ⟨r', hr', hid', -⟩ := hlive id hid
      exact ⟨r', hr', hid', fun hfalse => nomatch hfalse⟩
    have hval : t.validateMappingReplacements (first :: rest) [] = .ok () := by
      refine bind_eq_ok.mpr ⟨r, hr, ?_⟩
      rw [hspace, sameAddressSpace_of hget]
      rfl
    refine ⟨⟨t.revision, (first :: rest).length, 0, 0, t.nextId⟩, ?_⟩
    exact bind_eq_ok.mpr ⟨(), hval, planRemoval_eq_ok.mpr ⟨hne, hscan, rfl⟩⟩

/-! ## Consumed tokens -/

/-- The token names nothing and is never issued again. -/
structure Consumed (id : UffdRegistrationId) (t : UffdRegistrationTable) : Prop where
  sound : Sound t
  gone : ∀ r ∈ t.live, r.id ≠ id
  below : ∀ n ∈ t.nextId, id.raw.val < n.val

theorem Consumed.call (h : Consumed id t) (c : UffdCall) :
    Consumed id (t.call c).2 where
  sound := h.sound.call c
  gone := by
    intro r hr hid
    rcases mem_live_call h.sound hr with hold | ⟨n, hn, hle⟩
    · exact h.gone r hold hid
    have hlt := h.below n hn
    rw [hid] at hle
    omega
  below := by
    intro n hn
    obtain ⟨m, hm, hle⟩ := nextId_call h.sound c n hn
    exact lt_of_lt_of_le (h.below m hm) hle

/-- A call that went through consumes its tokens. -/
theorem consumed_of_call (h : Sound t) (hok : (t.call c).1.isError = false)
    (hid : id ∈ c.tokens t) : Consumed id (t.call c).2 := by
  rcases call_cases h c with ⟨herror, -⟩ | ⟨-, happ⟩
  · rw [hok] at herror
    cases herror
  obtain ⟨r, hr, rfl⟩ := happ.tokens_live id hid
  have hbelow := h.ids_below r hr
  refine ⟨h.call c, ?_, ?_⟩
  · intro r' hr' heq
    rcases mem_append.mp (happ.commits.live.mem_iff.mp hr') with hfresh | hkept
    · have hbounds := ((numbered_ids happ.commits.advance).2 r' hfresh).1
      cases hnext : t.nextId with
      | none =>
        rw [hnext, numbered_none] at hfresh
        cases hfresh
      | some n =>
        have hlt := hbelow n hnext
        have hle := hbounds n hnext
        rw [heq] at hle
        omega
    · rw [← heq] at hid
      exact (mem_retained.mp hkept).2 hid
  · intro n hn
    obtain ⟨m, hm, hle⟩ := nextId_call h c n hn
    exact lt_of_lt_of_le (hbelow m hm) hle

/-- A call that names a consumed token is refused. -/
theorem Consumed.isError (h : Consumed id t)
    (hid : id ∈ c.tokens t) : (t.call c).1.isError = true := by
  rcases call_cases h.sound c with ⟨herror, -⟩ | ⟨-, happ⟩
  · exact herror
  · obtain ⟨r, hr, hrid⟩ := happ.tokens_live id hid
    exact absurd hrid (h.gone r hr)

/-! ## Every reachable table -/

/-- Commits are atomic and bound to their plans. A call fails and changes nothing, or does
exactly what `Applied` says. Below the saturated revision a plan commits only while the table
is the one it was made on. At the saturated revision nothing is published, removals whose
records are there go through, and those of different records commute. A token that a call
consumed is refused from then on. -/
theorem run_commits_atomic (capacity : Nat) (firstId : NonZeroU64) (calls : List UffdCall) :
    let t := Lib.run call (new capacity firstId) calls
    (∀ c, (t.call c).1.isError = true ∧ (t.call c).2 = t
        ∨ (t.call c).1.isError = false ∧ Applied t c (t.call c).1 (t.call c).2)
      ∧ (∀ plan later c, t.Preflighted plan → t.revision ≠ maxRevision →
          (∃ k, Lib.run call t (later.take k) ≠ t) →
          c.plan? (Lib.run call t later) = some plan →
            ((Lib.run call t later).call c).1.isError = true)
      ∧ (t.revision = maxRevision →
          (∀ c, t.publishes (c.tokens t) c.requests ≠ [] → (t.call c).1.isError = true)
            ∧ (∀ removed, t.Names (·.addressSpace) removed →
                ∃ plan, t.preflightMappingRemove removed = .ok plan)
            ∧ (∀ removed, t.Names (·.request.owner) removed →
                ∃ plan, t.preflightReplace .initialized removed [] = .ok plan)
            ∧ (∀ c, Removes t c →
                (t.call c).1.isError = false ∧ (t.call c).2 = t.without (c.tokens t))
            ∧ ∀ c d, Removes t c → Removes t d → (∀ id ∈ c.tokens t, id ∉ d.tokens t) →
                ((t.call c).2.call d).1.isError = false
                  ∧ ((t.call c).2.call d).2 = ((t.call d).2.call c).2)
      ∧ ∀ c id, (t.call c).1.isError = false → id ∈ c.tokens t →
          ∀ later d, id ∈ d.tokens (Lib.run call (t.call c).2 later) →
            ((Lib.run call (t.call c).2 later).call d).1.isError = true := by
  intro t
  have hsound : Sound t := sound_run capacity firstId calls
  refine ⟨fun c => call_cases hsound c, ?_, ?_, ?_⟩
  · intro plan later c hmade hmax hchanged hplan
    refine isError_of_revision_ne (Lib.run_preserves (fun _ c h => h.call c) hsound later) hplan ?_
    rw [hmade.revision]
    exact Nat.ne_of_lt (revision_lt_run hsound hmax hchanged)
  · intro hmax
    refine ⟨?_, fun removed => preflightMappingRemove_of_names hsound,
      fun removed => preflightReplace_of_names hsound,
      fun c hc => ⟨hc.not_isError hsound, hc.call_eq hsound⟩,
      fun c d hc hd hapart => hc.comm hsound hmax hd hapart⟩
    intro c hpublishes
    rcases call_cases hsound c with ⟨herror, -⟩ | ⟨-, happlied⟩
    · exact herror
    · exact absurd hmax (happlied.unsealed hpublishes)
  · intro c id hok hid later d hd
    have hconsumed := Lib.run_preserves (I := Consumed id) (fun _ c h => h.call c)
      (consumed_of_call hsound hok hid) later
    exact hconsumed.isError hd

end UffdRegistrationTable

end LinuxAbi.Mm
