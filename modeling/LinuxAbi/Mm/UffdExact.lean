import LinuxAbi.Mm.UffdReplay

/-!
# The registration delta is exact

After a delta was submitted the handler has its old pages and those of the intent that the
VMAs cover, no other record has changed, and the same intent asks for nothing more. All of it
follows from which records the new table has (`Settles`): the VMAs are apart, so a record that
folds in one of them plays no part in another.
-/

namespace LinuxAbi.Mm

open List
open Lib (NonZeroU64 Span)

namespace UffdRegistrationTable

variable {t new : UffdRegistrationTable} {intent : UffdRegistrationIntent} {space : AddressSpaceId}
  {vmas : List MappingSnapshot} {removed : List UffdRegistrationId}
  {requests : List UffdRegistrationRequest}

/-! ## The table after the delta -/

/-- The new table has the records that were not removed, one for each request, and no other. -/
structure Settles (t : UffdRegistrationTable) (removed : List UffdRegistrationId)
    (requests : List UffdRegistrationRequest) (new : UffdRegistrationTable) : Prop where
  sound : Sound new
  kept : ∀ r ∈ t.live, r.id ∉ removed → r ∈ new.live
  made : ∀ q ∈ requests, Present new.live q
  only : ∀ r ∈ new.live, r ∈ t.live ∧ r.id ∉ removed ∨ r.request ∈ requests

/-- Nothing to do leaves the table as it is. -/
theorem settles_nil (h : Sound t) : Settles t [] [] t where
  sound := h
  kept := fun _ hr _ => hr
  made := fun _ hq => absurd hq List.not_mem_nil
  only := fun _ hr => .inl ⟨hr, List.not_mem_nil⟩

theorem Commits.settles (h : Commits t removed requests new) (hsound : Sound new)
    (hpubs : t.publishes removed requests = requests) : Settles t removed requests new := by
  have hadv := h.advance
  have hlive := h.live
  rw [hpubs] at hadv hlive
  refine ⟨hsound, ?_, ?_, ?_⟩
  · intro r hr hstays
    exact hlive.mem_iff.mpr (mem_append_right _ (mem_retained.mpr ⟨hr, hstays⟩))
  · intro q hq
    rw [← map_request_numbered hadv] at hq
    obtain ⟨r, hr, hreq⟩ := mem_map.mp hq
    exact ⟨r, hlive.mem_iff.mpr (mem_append_left _ hr), hreq⟩
  · intro r hr
    rcases mem_append.mp (hlive.mem_iff.mp hr) with hnew | hold
    · exact .inr (numbered_request_mem hadv hnew)
    · exact .inl (mem_retained.mp hold)

section Settled

variable {v : MappingSnapshot} {d : PageRange}

/-- A record is removed for a VMA whose request it folds into. -/
theorem Replays.folded_of_removed (h : Replays t.live intent vmas removed requests) (hsound : Sound t)
    (hr : r ∈ t.live) (hgone : r.id ∈ removed) :
    ∃ v ∈ vmas, ∃ d, Makes t.live intent v d ∧ r ∈ folded intent v d t.live := by
  obtain ⟨v, hv, d, hmakes, r', hr', hid⟩ := h.mem_removed.mp hgone
  obtain rfl : r' = r := inj_on_of_nodup_map hsound.ids_nodup (mem_folded.mp hr').1 hr hid
  exact ⟨v, hv, d, hmakes, hr'⟩

/-- Ranges in different VMAs do not meet. -/
theorem Profile.eq_of_within (h : Profile intent.range space vmas) {w : MappingSnapshot} {a b : Span}
    (hv : v ∈ vmas) (hw : w ∈ vmas) (ha : a.Within v.range.span) (hb : b.Within w.range.span)
    (hmeets : a.Meets b) : v = w := by
  obtain ⟨x, hx, hx'⟩ := Span.meets_iff_exists.mp hmeets
  exact h.eq_of_meets hv hw (Span.meets_iff_exists.mpr ⟨x, ha.mem hx, hb.mem hx'⟩)

variable (h : Settles t removed requests new) (hsound : Sound t)
  (hreplays : Replays t.live intent vmas removed requests)
  (hprofile : Profile intent.range space vmas)

include h hsound hreplays hprofile

/-- The request of every VMA is registered. -/
theorem Settles.present (hv : v ∈ vmas) (hplans : Plans t.live intent v d) :
    Present new.live (desiredRequest intent v d) := by
  by_cases hold : Present t.live (desiredRequest intent v d)
  · have hkeep := hold
    obtain ⟨r, hr, hreq⟩ := hold
    refine ⟨r, h.kept r hr fun hgone => ?_, hreq⟩
    -- a record that another VMA removes would lie in both VMAs
    obtain ⟨w, hw, d', ⟨hplans', hmiss⟩, hr'⟩ := hreplays.folded_of_removed hsound hr hgone
    have hrange : r.range = d := congrArg (·.range) hreq
    have hinside := hplans'.folded_within hr'
    rw [hrange] at hinside
    obtain rfl := hprofile.eq_of_within hv hw hplans.within hinside (Span.Within.refl _).meets
    rw [hplans'.unique hplans] at hmiss
    exact hmiss hkeep
  · exact h.made _ (hreplays.mem_requests.mpr ⟨v, hv, d, ⟨hplans, hold⟩, rfl⟩)

omit h hsound hreplays hprofile

/-- The addresses a handler has registered in an address space. -/
def registeredPages (t : UffdRegistrationTable) (handler : FaultHandlerId)
    (space : AddressSpaceId) : Set Nat :=
  { address | ∃ r ∈ t.live, r.handler = handler ∧ r.addressSpace = space ∧ r.range.Covers address }

/-- The part of the intent that the VMAs cover. -/
def intendedPages (intent : UffdRegistrationIntent) (vmas : List MappingSnapshot) : Set Nat :=
  { address | intent.range.Covers address ∧ ∃ v ∈ vmas, v.range.Covers address }

include h hsound hreplays hprofile

/-- The pages after the delta are the old ones and the intended ones. -/
theorem Settles.pages :
    new.registeredPages intent.handler space
      = t.registeredPages intent.handler space ∪ intendedPages intent vmas := by
  ext address
  constructor
  · rintro ⟨r, hr, hhdl, hspace, hcovers⟩
    rcases h.only r hr with ⟨hold, -⟩ | hmade
    · exact .inl ⟨r, hold, hhdl, hspace, hcovers⟩
    obtain ⟨v, hv, d, ⟨⟨target, htgt, hcan⟩, -⟩, hreq⟩ := hreplays.mem_requests.mp hmade
    have hrange : r.range = d := congrArg (·.range) hreq
    rw [hrange] at hcovers
    rcases hcan.hull.covered address hcovers with hbase | ⟨s, ⟨r', hr', howned, rfl⟩, -, hx⟩
    · obtain ⟨hin, hvma⟩ := (mem_target htgt).mp hbase
      exact .inr ⟨hin, v, hv, hvma⟩
    · refine .inl ⟨r', hr', howned.handler, ?_, hx⟩
      rw [howned.addressSpace, hprofile.addressSpace v hv]
  · -- every address of a planned range is covered by the record with its request
    have hplanned : ∀ v ∈ vmas, ∀ d, Plans t.live intent v d → address ∈ d.span →
        address ∈ new.registeredPages intent.handler space := by
      intro v hv d hplans hmem
      obtain ⟨r, hr, hreq⟩ := h.present hsound hreplays hprofile hv hplans
      refine ⟨r, hr, congrArg (·.handler) hreq, ?_, ?_⟩
      · exact (congrArg (·.addressSpace) hreq).trans (hprofile.addressSpace v hv)
      · have hrange : r.range = d := congrArg (·.range) hreq
        rw [hrange]
        exact hmem
    rintro (⟨r, hr, hhdl, hspace, hcovers⟩ | ⟨hin, v, hv, hvma⟩)
    · by_cases hgone : r.id ∈ removed
      · obtain ⟨v, hv, d, ⟨hplans, -⟩, hr'⟩ := hreplays.folded_of_removed hsound hr hgone
        have hplans' := hplans
        obtain ⟨target, -, hcan⟩ := hplans
        exact hplanned v hv d hplans' ((hcan.within_of_folds hr').mem hcovers)
      · exact ⟨r, h.kept r hr hgone, hhdl, hspace, hcovers⟩
    · obtain ⟨d, hplans⟩ := hreplays.plans v hv
      have hplans' := hplans
      obtain ⟨target, htgt, hcan⟩ := hplans
      have hmem := (mem_target htgt).mpr ⟨hin, hvma⟩
      exact hplanned v hv d hplans' (hcan.hull.base_within.mem hmem)

/-- Records of other handlers, and of other address spaces, are where they were. -/
theorem Settles.others
    (hother : r.handler ≠ intent.handler ∨ r.addressSpace ≠ space) : r ∈ new.live ↔ r ∈ t.live := by
  constructor
  · intro hr
    rcases h.only r hr with ⟨hold, -⟩ | hmade
    · exact hold
    obtain ⟨v, hv, d, -, hreq⟩ := hreplays.mem_requests.mp hmade
    have hhdl : r.handler = intent.handler := congrArg (·.handler) hreq
    have hspace : r.addressSpace = v.addressSpace := congrArg (·.addressSpace) hreq
    rw [hprofile.addressSpace v hv] at hspace
    exact (hother.elim (· hhdl) (· hspace)).elim
  · intro hr
    refine h.kept r hr fun hgone => ?_
    obtain ⟨v, hv, d, -, hr'⟩ := hreplays.folded_of_removed hsound hr hgone
    obtain ⟨-, howned, -⟩ := mem_folded.mp hr'
    have hspace := howned.addressSpace
    rw [hprofile.addressSpace v hv] at hspace
    exact (hother.elim (· howned.handler) (· hspace)).elim

/-! ## The same intent again -/

/-- In the new table only the record of the VMA's request folds into the planner's range. -/
theorem Settles.request_of_folds (hv : v ∈ vmas) (hplans : Plans t.live intent v d)
    (hr : r ∈ folded intent v d new.live) : r.request = desiredRequest intent v d := by
  obtain ⟨hlive, howned, htch⟩ := mem_folded.mp hr
  rcases h.only r hlive with ⟨hold, hstays⟩ | hmade
  · have hfolded := mem_folded.mpr ⟨hold, howned, htch⟩
    by_cases hpres : Present t.live (desiredRequest intent v d)
    · obtain ⟨r', hr', hreq⟩ := hpres
      rw [folded_eq_singleton hsound hplans hr' hreq] at hfolded
      rw [mem_singleton.mp hfolded]
      exact hreq
    · exact absurd (hreplays.mem_removed.mpr ⟨v, hv, d, ⟨hplans, hpres⟩, r, hfolded, rfl⟩) hstays
  · obtain ⟨w, hw, d', ⟨hplans', -⟩, hreq⟩ := hreplays.mem_requests.mp hmade
    have hrange : r.range = d' := congrArg (·.range) hreq
    have hover := rangesOverlap_iff_meets.mp howned.overlap
    rw [hrange] at hover
    obtain rfl := hprofile.eq_of_within hw hv hplans'.within (Span.Within.refl _) hover
    rw [hplans'.unique hplans] at hreq
    exact hreq

/-- The planner's range is the same as before. -/
theorem Settles.plans (hv : v ∈ vmas) (hplans : Plans t.live intent v d) : Plans new.live intent v d := by
  have hfolds := fun r (hr : r ∈ folded intent v d new.live) =>
    h.request_of_folds hsound hreplays hprofile hv hplans hr
  obtain ⟨ρ, hρ, hreq⟩ := h.present hsound hreplays hprofile hv hplans
  have hsize := hplans.pageSize
  have hinside := hplans.within
  have hcur : ∀ r : UffdRegistration, r.request = desiredRequest intent v d → Current v r := by
    intro r hr
    have hrange : r.range = d := congrArg (·.range) hr
    refine ⟨congrArg (·.addressSpace) hr, congrArg (·.mapping) hr, congrArg (·.generation) hr,
      hprofile.kind v hv, ?_, ?_⟩
    · rw [hrange]
      exact hsize.symm
    · rw [hrange]
      exact hinside
  have hρrange : ρ.range = d := congrArg (·.range) hreq
  obtain ⟨target, htgt, hcan⟩ := hplans
  refine ⟨target, htgt, hsize, ?_, ?_, ⟨hcan.hull.base_within, ?_⟩, ?_⟩
  · intro r hr hspace hover
    -- the record meets the one of the request, so it is that one
    have hmeets := (rangesOverlap_iff_meets.mp hover).of_within hcan.hull.base_within
    have hsame : r = ρ := by
      refine h.sound.eq_of_overlap hr hρ ?_ ?_
      · rw [hspace]
        exact (congrArg (·.addressSpace) hreq).symm
      · rw [hρrange]
        exact rangesOverlap_iff_meets.mpr hmeets
    rw [hsame]
    exact ⟨hcur ρ hreq, congrArg (·.handler) hreq⟩
  · intro r hr howned htch
    exact hcur r (hfolds r (mem_folded.mpr ⟨hr, howned, htch⟩))
  · intro x hx
    have howned : Owned intent v ρ := by
      refine ⟨congrArg (·.addressSpace) hreq, congrArg (·.handler) hreq, congrArg (·.mode) hreq,
        ?_, ?_⟩
      · rw [hρrange]
        exact hsize
      · rw [hρrange]
        exact rangesOverlap_iff_meets.mpr hinside.meets
    refine .inr ⟨ρ.range.span, ⟨ρ, hρ, howned, rfl⟩, ?_, ?_⟩
    · rw [hρrange]
      exact Span.Within.refl _
    · rw [hρrange]
      exact hx
  · rintro s ⟨r, hr, howned, rfl⟩ htch
    have hrange : r.range = d := congrArg (·.range) (hfolds r (mem_folded.mpr ⟨hr, howned, htch⟩))
    rw [hrange]
    exact Span.Within.refl _

omit h hsound hreplays hprofile in
/-- Nothing is left to do when every VMA's request is registered. -/
theorem replays_nil {records : List UffdRegistration} : ∀ {vmas : List MappingSnapshot},
    (∀ v ∈ vmas, ∃ d, Plans records intent v d ∧ Present records (desiredRequest intent v d)) →
      Replays records intent vmas [] []
  | [], _ => .nil
  | v :: vmas, h => by
    obtain ⟨⟨d, hplans, hpres⟩, hrest⟩ := List.forall_mem_cons.mp h
    exact .present hplans hpres (replays_nil hrest)

theorem Settles.replays : Replays new.live intent vmas [] [] := by
  refine replays_nil fun v hv => ?_
  obtain ⟨d, hplans⟩ := hreplays.plans v hv
  exact ⟨d, h.plans hsound hreplays hprofile hv hplans,
    h.present hsound hreplays hprofile hv hplans⟩

end Settled

/-- A delta that is empty is planned as a no-op. -/
theorem planRegisterDelta_noop (hsound : Sound t)
    (hval : validateVmaProfile intent.range vmas = .ok space)
    (hreplays : Replays t.live intent vmas [] []) :
    t.planRegisterDelta intent vmas = .ok ⟨t.revision, 0, 0, t.nextId⟩ := by
  have hprofile := validateVmaProfile_inv hval
  refine planRegisterDelta_eq_ok.mpr ⟨⟨space, hval⟩, [], [], ?_, Nat.zero_le _, Nat.zero_le _,
    fun hboth => hboth.1 rfl, ?_, rfl⟩
  · exact (replayVmas_eq_ok hsound hprofile).mpr hreplays
  · cases t.nextId <;> rfl

/-! ## Slot order -/

section Order
variable {records records' : List UffdRegistration}

theorem Plans.congr (h : Plans records intent v d)
    (hmem : ∀ r, r ∈ records' ↔ r ∈ records) : Plans records' intent v d := by
  obtain ⟨target, htgt, hcan⟩ := h
  have hparts : parts records' intent v = parts records intent v := by
    simp only [parts, hmem]
  refine ⟨target, htgt, hcan.pageSize, ?_, ?_, ?_⟩
  · exact fun r hr => hcan.clear r ((hmem r).mp hr)
  · exact fun r hr => hcan.current r ((hmem r).mp hr)
  · rw [hparts]
    exact hcan.hull

/-- The delta of the same records in another order: the same requests, and the same records
to remove. -/
theorem Replays.perm (h : Replays records intent vmas removed requests)
    (hperm : records'.Perm records) :
    ∃ removed', removed'.Perm removed ∧ Replays records' intent vmas removed' requests := by
  have hpres : ∀ q, Present records' q ↔ Present records q := by
    intro q
    unfold Present
    simp only [hperm.mem_iff]
  induction h with
  | nil => exact ⟨[], List.Perm.refl _, .nil⟩
  | present hplans hold _ ih =>
    obtain ⟨removed', hremoved, hreplays⟩ := ih
    exact ⟨removed', hremoved,
      .present (hplans.congr fun _ => hperm.mem_iff) ((hpres _).mpr hold) hreplays⟩
  | missing hplans hmiss _ ih =>
    obtain ⟨removed', hremoved, hreplays⟩ := ih
    refine ⟨_, ?_, .missing (hplans.congr fun _ => hperm.mem_iff)
      (fun hold => hmiss ((hpres _).mp hold)) hreplays⟩
    exact ((hperm.filter _).map _).append hremoved

theorem Sound.perm (h : Sound t) (hlive : u.live.Perm t.live)
    (hnext : u.nextId = t.nextId) (hrev : u.revision = t.revision) : Sound u where
  ids_nodup := (hlive.map _).nodup_iff.mpr h.ids_nodup
  ids_below := by
    intro r hr n hn
    rw [hnext] at hn
    exact h.ids_below r (hlive.mem_iff.mp hr) n hn
  disjoint := (hlive.pairwise_iff fun hab => Std.Symm.symm _ _ hab).mpr h.disjoint
  revision_le := by
    rw [hrev]
    exact h.revision_le

end Order

/-! ## Every reachable table -/

/-- The same records in other slots. -/
structure SameRecords (t u : UffdRegistrationTable) : Prop where
  live : u.live.Perm t.live
  capacity : u.records.length = t.records.length
  nextId : u.nextId = t.nextId
  revision : u.revision = t.revision

theorem preflightRegisterDelta_eq_ok :
    t.preflightRegisterDelta api intent vmas = .ok plan ↔
      requireInitialized api = .ok () ∧ t.planRegisterDelta intent vmas = .ok plan := by
  unfold preflightRegisterDelta
  rw [Lib.bind_eq_ok]
  exact ⟨fun ⟨_, hapi, h⟩ => ⟨hapi, h⟩, fun ⟨hapi, h⟩ => ⟨(), hapi, h⟩⟩

theorem replayRegisterDelta_eq (h : t.planRegisterDelta intent vmas = .ok plan) :
    t.replayRegisterDelta plan intent vmas = t.replayVmas intent vmas := by
  obtain ⟨-, removed, requests, -, -, -, -, -, hplan⟩ := planRegisterDelta_eq_ok.mp h
  have hrev : t.revision = plan.revision := by rw [hplan]
  unfold replayRegisterDelta
  rw [if_neg (not_not.mpr hrev), h]
  dsimp only [bind, Except.bind]
  rw [if_neg (not_not.mpr rfl)]

/-- The order of the slots decides neither the plan nor what is replayed. -/
theorem SameRecords.plan {u : UffdRegistrationTable} (h : SameRecords t u) (hsound : Sound t)
    {plan : UffdRegistrationDeltaPlan} (hplan : t.planRegisterDelta intent vmas = .ok plan)
    (hrpl : t.replayRegisterDelta plan intent vmas = .ok (removed, requests)) :
    u.planRegisterDelta intent vmas = .ok plan
      ∧ ∃ removed', removed'.Perm removed
        ∧ u.replayRegisterDelta plan intent vmas = .ok (removed', requests) := by
  rw [replayRegisterDelta_eq hplan] at hrpl
  obtain ⟨⟨space, hval⟩, _, _, hrpl', hlive, hroom, hsealed, hadv, hfields⟩ :=
    planRegisterDelta_eq_ok.mp hplan
  rw [hrpl] at hrpl'
  cases hrpl'
  have hprofile := validateVmaProfile_inv hval
  have hsound' := hsound.perm h.live h.nextId h.revision
  obtain ⟨removed', hremoved, hreplays⟩ := ((replayVmas_eq_ok hsound hprofile).mp hrpl).perm h.live
  have hrpl' := (replayVmas_eq_ok hsound' hprofile).mpr hreplays
  have hplan' : u.planRegisterDelta intent vmas = .ok plan := by
    refine planRegisterDelta_eq_ok.mpr ⟨⟨space, hval⟩, removed', requests, hrpl', ?_⟩
    rw [hremoved.length_eq, h.live.length_eq, h.capacity, h.nextId, h.revision]
    exact ⟨hlive, hroom, hsealed, hadv, hfields⟩
  exact ⟨hplan', removed', hremoved, (replayRegisterDelta_eq hplan').trans hrpl'⟩

/-- A delta that is not a no-op is submitted without an error. -/
theorem submitDelta_of_plan (hsound : Sound t) (hapi : requireInitialized api = .ok ())
    (hplan : t.planRegisterDelta intent vmas = .ok plan)
    (hrpl : t.replayVmas intent vmas = .ok (removed, requests))
    (hnon : removed ≠ [] ∨ requests ≠ []) :
    ∃ reply new, t.submitDelta api removed requests = some (.ok reply, new)
      ∧ Settles t removed requests new := by
  obtain ⟨⟨space, hval⟩, _, _, hrpl', -, hroom, hsealed, hadv, -⟩ :=
    planRegisterDelta_eq_ok.mp hplan
  rw [hrpl] at hrpl'
  cases hrpl'
  have hprofile := validateVmaProfile_inv hval
  have hreplays := (replayVmas_eq_ok hsound hprofile).mp hrpl
  obtain ⟨batch, hbatch⟩ := hreplays.planRequestChanges hsound hprofile hnon hroom hadv hsealed
  have hplanned := planRequestChanges_inv hbatch
  rw [submitDelta_eq hapi hnon hbatch]
  rcases commitRequestChanges_cases hsound batch removed requests true with
    ⟨hne, -⟩ | ⟨visited, new, hcom, -, hcoms, -⟩
  · exact absurd hbatch hne
  · refine ⟨_, new, hcom, hcoms.settles ?_ (hreplays.publishes_eq hsound hprofile)⟩
    exact hsound.commits hplanned.fits hplanned.apart hcoms

/-- The delta is exact. Its replay emits as many distinct tokens and requests as were planned;
unless it is a no-op its submission goes through, and then the handler has its old pages and
the intended ones, every other record is as it was, and the same intent is a no-op. A delta
that is a no-op finds the table so already. Neither plan nor replay depends on the order of
the slots, and the folding loop ends. -/
theorem run_register_delta_exact (capacity : Nat) (firstId : NonZeroU64) (calls : List UffdCall)
    (api : UffdApiLifecycle) (intent : UffdRegistrationIntent) (vmas : List MappingSnapshot)
    (plan : UffdRegistrationDeltaPlan)
    (hpreflight : (Lib.run call (.new capacity firstId) calls).preflightRegisterDelta api intent vmas
      = .ok plan) :
    let t := Lib.run call (.new capacity firstId) calls
    ∃ space removed requests after, (∀ v ∈ vmas, v.addressSpace = space)
        ∧ t.replayRegisterDelta plan intent vmas = .ok (removed, requests)
        ∧ removed.Nodup ∧ removed.length = plan.removed
        ∧ requests.Nodup ∧ requests.length = plan.replacements
        ∧ (plan.isNoop = true → after = t)
        ∧ (plan.isNoop = false →
          ∃ reply, t.submitDelta api removed requests = some (.ok reply, after))
        ∧ after.registeredPages intent.handler space
          = t.registeredPages intent.handler space ∪ intendedPages intent vmas
        ∧ (∀ r : UffdRegistration, r.handler ≠ intent.handler ∨ r.addressSpace ≠ space →
          (r ∈ after.live ↔ r ∈ t.live))
        ∧ (∃ again, after.preflightRegisterDelta api intent vmas = .ok again
          ∧ again.isNoop = true)
        ∧ (∀ u, SameRecords t u → u.preflightRegisterDelta api intent vmas = .ok plan
          ∧ ∃ removed', removed'.Perm removed
            ∧ u.replayRegisterDelta plan intent vmas = .ok (removed', requests))
        ∧ ∀ v target, FoldStops t.live intent v target (foldLoop t.live intent v target) := by
  intro t
  have hsound : Sound t := sound_run capacity firstId calls
  obtain ⟨hapi, hplan⟩ := preflightRegisterDelta_eq_ok.mp hpreflight
  obtain ⟨⟨space, hvalid⟩, removed, requests, hreplay, -, -, -, -, hfields⟩ :=
    planRegisterDelta_eq_ok.mp hplan
  have hprofile := validateVmaProfile_inv hvalid
  have hreplays := (replayVmas_eq_ok hsound hprofile).mp hreplay
  have hremoved : removed.length = plan.removed := by rw [hfields]
  have hrequests : requests.length = plan.replacements := by rw [hfields]
  have hnoop : plan.isNoop = true ↔ removed = [] ∧ requests = [] := by
    unfold UffdRegistrationDeltaPlan.isNoop
    rw [← hremoved, ← hrequests]
    simp
  -- the table after the delta, submitted or already there
  have hafter : ∃ after, (plan.isNoop = true → after = t)
      ∧ (plan.isNoop = false →
        ∃ reply, t.submitDelta api removed requests = some (.ok reply, after))
      ∧ Settles t removed requests after := by
    cases hcase : plan.isNoop with
    | true =>
      obtain ⟨rfl, rfl⟩ := hnoop.mp hcase
      exact ⟨t, fun _ => rfl, fun hfalse => (nomatch hfalse), settles_nil hsound⟩
    | false =>
      have hnonempty : removed ≠ [] ∨ requests ≠ [] := by
        rw [← not_and_or]
        intro hnil
        rw [hnoop.mpr hnil] at hcase
        cases hcase
      obtain ⟨reply, after, hsubmit, hsettles⟩ :=
        submitDelta_of_plan hsound hapi hplan hreplay hnonempty
      exact ⟨after, fun htrue => (nomatch htrue), fun _ => ⟨reply, hsubmit⟩, hsettles⟩
  obtain ⟨after, hsame, hsubmit, hsettles⟩ := hafter
  have hreplay' := (replayRegisterDelta_eq hplan).trans hreplay
  refine ⟨space, removed, requests, after, hprofile.addressSpace, hreplay',
    hreplays.removed_nodup hsound hprofile, hremoved, hreplays.requests_nodup hprofile, hrequests,
    hsame, hsubmit, hsettles.pages hsound hreplays hprofile,
    fun r hother => hsettles.others hsound hreplays hprofile hother, ?_, ?_,
    fun v target => foldStops t.live target⟩
  · have hagain := planRegisterDelta_noop hsettles.sound hvalid
      (hsettles.replays hsound hreplays hprofile)
    exact ⟨_, preflightRegisterDelta_eq_ok.mpr ⟨hapi, hagain⟩, rfl⟩
  · intro u hu
    obtain ⟨hplan', hrest⟩ := hu.plan hsound hplan hreplay'
    exact ⟨preflightRegisterDelta_eq_ok.mpr ⟨hapi, hplan'⟩, hrest⟩

/-! ## One page, and two that are apart -/

def onePage : PageRange :=
  ⟨⟨2 ^ 12, 2 ^ 13, by decide, by decide⟩, ⟨2 ^ 12, by decide, by decide⟩, by decide, by decide⟩

def oneVma : MappingSnapshot where
  addressSpace := ⟨.one⟩
  mapping := ⟨.one⟩
  generation := ⟨.one⟩
  range := onePage
  access := ⟨true, true, false⟩
  kind := .anonymousPrivate
  longTermPinnable := false
  writableFilePinSupported := false

def oneIntent : UffdRegistrationIntent := ⟨⟨.one⟩, onePage, .missing, rfl⟩

/-- The page is registered. -/
def registerOne : UffdCall := .registerBatch .initialized [desiredRequest oneIntent oneVma onePage]

/-- A plan for the page that removes nothing. -/
def onePlan (revision replacements : Nat) : UffdRegistrationDeltaPlan :=
  ⟨revision, 0, replacements, NonZeroU64.one.checkedSucc⟩

/-- The page after it, the next one, and all three. -/
def gapPage : PageRange :=
  ⟨⟨2 ^ 13, 3 * 2 ^ 12, by decide, by decide⟩, onePage.pageSize, by decide, by decide⟩

def rightPage : PageRange :=
  ⟨⟨0x3000, 0x4000, by decide, by decide⟩, onePage.pageSize, by decide, by decide⟩

def threePages : PageRange :=
  ⟨⟨0x1000, 0x4000, by decide, by decide⟩, onePage.pageSize, by decide, by decide⟩

def wideVma : MappingSnapshot := { oneVma with range := threePages }

def gapIntent : UffdRegistrationIntent := { oneIntent with range := gapPage }

/-- The two outer pages are registered. -/
def registerApart : UffdCall :=
  .registerBatch .initialized
    [desiredRequest oneIntent wideVma onePage, desiredRequest oneIntent wideVma rightPage]

theorem preflight_bridged : ∃ plan, plan.removed = 2 ∧ plan.replacements = 1 ∧
    (Lib.run call (.new 2 .one) [registerApart]).preflightRegisterDelta .initialized gapIntent
      [wideVma] = .ok plan := by
  generalize ht : Lib.run call (.new 2 .one) [registerApart] = t
  -- one pass takes in both records, the next finds no more
  have hfold : foldLoop t.live gapIntent wideVma gapPage = .ok threePages := by
    subst ht
    rw [foldLoop_eq]
    show (if threePages = gapPage then _ else foldLoop _ gapIntent wideVma threePages) = _
    rw [if_neg (by decide), foldLoop_eq]
    rfl
  have hdelta : t.canonicalRegisterDelta gapIntent wideVma
      = .ok ⟨desiredRequest gapIntent wideVma threePages, false⟩ := by
    unfold canonicalRegisterDelta
    show (checkTarget gapIntent wideVma gapPage t.live >>= fun _ =>
      foldLoop t.live gapIntent wideVma gapPage >>= _) = _
    rw [hfold]
    subst ht
    rfl
  refine ⟨⟨2, 2, 1, t.nextId.bind (·.checkedSucc)⟩, rfl, rfl, ?_⟩
  show (t.canonicalRegisterDelta gapIntent wideVma >>= _) >>= _ = _
  rw [hdelta]
  subst ht
  rfl

/-- The page in between is registered: both records go, and one takes their place. -/
theorem register_delta_exact_bridged : ∃ plan removed requests,
    (Lib.run call (.new 2 .one) [registerApart]).preflightRegisterDelta .initialized gapIntent
      [wideVma] = .ok plan ∧
    (Lib.run call (.new 2 .one) [registerApart]).replayRegisterDelta plan gapIntent [wideVma]
      = .ok (removed, requests) ∧ removed.length = 2 ∧ requests.length = 1 := by
  obtain ⟨plan, htwo, hone, hplan⟩ := preflight_bridged
  obtain ⟨_, removed, requests, _, -, hreplay, -, hremoved, -, hrequests, -⟩ :=
    run_register_delta_exact 2 .one [registerApart] .initialized gapIntent [wideVma] plan hplan
  exact ⟨plan, removed, requests, hplan, hreplay, hremoved.trans htwo, hrequests.trans hone⟩

/-- Once the page is registered the delta is a no-op, and a plain batch of no requests is
refused. -/
theorem register_delta_noop_refused :
    let t := Lib.run call (.new 1 .one) [registerOne]
    t.preflightRegisterDelta .initialized oneIntent [oneVma] = .ok (onePlan 2 0)
      ∧ t.replayRegisterDelta (onePlan 2 0) oneIntent [oneVma] = .ok ([], [])
      ∧ t.submitDelta .initialized [] [] = some (.error .zeroLength, t) := by
  intro t
  have hfold : foldLoop [⟨⟨.one⟩, desiredRequest oneIntent oneVma onePage⟩] oneIntent oneVma onePage
      = .ok onePage := by
    rw [foldLoop_eq]
    rfl
  have hdelta : t.canonicalRegisterDelta oneIntent oneVma
      = .ok ⟨desiredRequest oneIntent oneVma onePage, true⟩ := by
    unfold canonicalRegisterDelta
    show (foldLoop [⟨⟨.one⟩, desiredRequest oneIntent oneVma onePage⟩] oneIntent oneVma onePage
      >>= _) = _
    rw [hfold]
    rfl
  have hplan : t.planRegisterDelta oneIntent [oneVma] = .ok (onePlan 2 0) := by
    show (t.canonicalRegisterDelta oneIntent oneVma >>= _) >>= _ = _
    rw [hdelta]
    rfl
  refine ⟨hplan, ?_, rfl⟩
  rw [replayRegisterDelta_eq hplan]
  show (t.canonicalRegisterDelta oneIntent oneVma >>= _) = _
  rw [hdelta]
  rfl

end UffdRegistrationTable

end LinuxAbi.Mm
