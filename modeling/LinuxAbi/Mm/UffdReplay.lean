import LinuxAbi.Mm.UffdAtomic
import LinuxAbi.Mm.UffdFold

/-!
# Replaying and submitting a registration delta

`Replays` is the delta of a list of VMAs over a set of records: which records it removes and
which requests it makes. The planner's counts and the replay's lists are both that delta
(`planVmas_eq`, `replayVmas_eq_ok`). Submitted, it is a batch the table accepts
(`Replays.planRequestChanges`), since the planner's ranges meet no record that stays.
-/

namespace LinuxAbi.Mm

open Nat
open List
open Lib (Span bind_eq_ok)

theorem rangesOverlap_iff_meets :
    rangesOverlap left right = true ↔ left.span.Meets right.span :=
  rangesOverlap_iff

namespace UffdRegistrationTable

variable {t : UffdRegistrationTable} {intent : UffdRegistrationIntent}

/-! ## The VMAs -/

/-- What `validate_vma_profile` checks. -/
structure Profile (range : PageRange) (space : AddressSpaceId) (vmas : List MappingSnapshot) :
    Prop where
  addressSpace : ∀ v ∈ vmas, v.addressSpace = space
  kind : ∀ v ∈ vmas, v.kind = .anonymousPrivate
  target : ∀ v ∈ vmas, ∃ target, pageRangeIntersection range v.range = some target
  ordered : vmas.Pairwise fun v w => v.range.stop ≤ w.range.start

variable {range : PageRange} {space : AddressSpaceId} {vmas : List MappingSnapshot}
  {v : MappingSnapshot}

theorem validateVmas_inv :
    ∀ {vmas : List MappingSnapshot} {previousEnd : Option Nat},
      validateVmas range space previousEnd vmas = .ok () →
        Profile range space vmas ∧ ∀ stop ∈ previousEnd, ∀ v ∈ vmas, stop ≤ v.range.start
  | [], _, _ =>
    ⟨⟨fun v hv => absurd hv not_mem_nil, fun v hv => absurd hv not_mem_nil,
      fun v hv => absurd hv not_mem_nil, Pairwise.nil⟩,
      fun _ _ v hv => absurd hv not_mem_nil⟩
  | v :: vmas, previousEnd, h => by
    unfold validateVmas at h
    split at h
    · cases h
    next hno =>
    simp only [not_or, not_not, ne_eq] at hno
    obtain ⟨hspace, hkind, -, hprev, htgt⟩ := hno
    obtain ⟨hprof, hafter⟩ := validateVmas_inv h
    have hbef : ∀ stop ∈ previousEnd, stop ≤ v.range.start := by
      intro stop hstop
      cases hstop
      simpa using hprev
    refine ⟨⟨?_, ?_, ?_, ?_⟩, ?_⟩
    · exact forall_mem_cons.mpr ⟨hspace, hprof.addressSpace⟩
    · exact forall_mem_cons.mpr ⟨hkind, hprof.kind⟩
    · exact forall_mem_cons.mpr ⟨Option.ne_none_iff_exists'.mp htgt, hprof.target⟩
    · exact pairwise_cons.mpr ⟨hafter v.range.stop rfl, hprof.ordered⟩
    · intro stop hstop
      refine forall_mem_cons.mpr ⟨hbef stop hstop, fun w hw => ?_⟩
      have hle := hbef stop hstop
      have hvle := hafter v.range.stop rfl w hw
      have hlt : v.range.start < v.range.stop := v.range.range.nonempty
      omega

theorem validateVmaProfile_inv (h : validateVmaProfile range vmas = .ok space) :
    Profile range space vmas := by
  cases vmas with
  | nil => cases h
  | cons first rest =>
    obtain ⟨_, hval, h⟩ := bind_eq_ok.mp h
    cases h
    exact (validateVmas_inv hval).1

theorem Profile.tail (h : Profile range space (v :: vmas)) :
    Profile range space vmas where
  addressSpace := (forall_mem_cons.mp h.addressSpace).2
  kind := (forall_mem_cons.mp h.kind).2
  target := (forall_mem_cons.mp h.target).2
  ordered := (pairwise_cons.mp h.ordered).2

/-- Different VMAs share no address. -/
theorem Profile.eq_of_meets (h : Profile range space vmas) (hv : v ∈ vmas)
    (hw : w ∈ vmas) (hmeets : v.range.span.Meets w.range.span) : v = w := by
  by_contra hne
  have hapart : ∀ a b : MappingSnapshot, a.range.stop ≤ b.range.start →
      ¬ a.range.span.Meets b.range.span := fun a b hle hmeets => not_lt.mpr hle hmeets.2
  have hpair : vmas.Pairwise fun a b => ¬ a.range.span.Meets b.range.span :=
    h.ordered.imp fun hle => hapart _ _ hle
  have : Std.Symm fun a b : MappingSnapshot => ¬ a.range.span.Meets b.range.span :=
    ⟨fun _ _ hno hmeets => hno ⟨hmeets.2, hmeets.1⟩⟩
  exact hpair.forall hv hw hne hmeets

/-! ## The delta -/

/-- The planner's range for a VMA. -/
def Plans (records : List UffdRegistration) (intent : UffdRegistrationIntent) (v : MappingSnapshot)
    (d : PageRange) : Prop :=
  ∃ target, pageRangeIntersection intent.range v.range = some target
    ∧ Canonical records intent v target d

/-- What the delta of the VMAs removes and requests. -/
inductive Replays (records : List UffdRegistration) (intent : UffdRegistrationIntent) :
    List MappingSnapshot → List UffdRegistrationId → List UffdRegistrationRequest → Prop
  | nil : Replays records intent [] [] []
  | present (hplans : Plans records intent w d)
      (hpresent : Present records (desiredRequest intent w d))
      (hrest : Replays records intent rest removed requests) :
      Replays records intent (w :: rest) removed requests
  | missing (hplans : Plans records intent w d)
      (hmissing : ¬ Present records (desiredRequest intent w d))
      (hrest : Replays records intent rest removed requests) :
      Replays records intent (w :: rest) ((folded intent w d records).map (·.id) ++ removed)
        (desiredRequest intent w d :: requests)

section Planned
variable {v : MappingSnapshot} {d : PageRange}

variable {records : List UffdRegistration}

section

variable (h : Plans records intent v d)
include h

theorem Plans.within : d.span.Within v.range.span := by
  obtain ⟨target, htgt, hcan⟩ := h
  exact hcan.within (target_within htgt)

theorem Plans.pageSize : d.pageSize = v.range.pageSize := by
  obtain ⟨target, -, hcan⟩ := h
  exact hcan.pageSize

theorem Plans.unique (h' : Plans records intent v e) : d = e := by
  obtain ⟨target, htgt, hcan⟩ := h
  obtain ⟨target', htgt', hcan'⟩ := h'
  rw [htgt] at htgt'
  cases htgt'
  exact hcan.unique hcan'

/-- A record with exactly the planner's request folds into it. -/
theorem Plans.mem_folded (hr : r ∈ records)
    (hreq : r.request = desiredRequest intent v d) : r ∈ folded intent v d records := by
  have hrange : r.range = d := congrArg (·.range) hreq
  refine Mm.mem_folded.mpr ⟨hr, ⟨?_, ?_, ?_, ?_, ?_⟩, ?_⟩
  · exact congrArg (·.addressSpace) hreq
  · exact congrArg (·.handler) hreq
  · exact congrArg (·.mode) hreq
  · rw [hrange]
    exact h.pageSize
  · rw [hrange]
    exact rangesOverlap_iff_meets.mpr h.within.meets
  · rw [hrange]
    exact (Span.Within.refl _).meets.touches

end

/-- Only the record itself meets a record with exactly the planner's request. -/
theorem folded_eq_singleton (h : Sound t) (hplans : Plans t.live intent v d) (hr : r ∈ t.live)
    (hreq : r.request = desiredRequest intent v d) : folded intent v d t.live = [r] := by
  have hmem := hplans.mem_folded hr hreq
  have honly : ∀ r' ∈ folded intent v d t.live, r' = r := by
    intro r' hr'
    obtain ⟨hlive, howned, -⟩ := Mm.mem_folded.mp hr'
    obtain ⟨target, -, hcan⟩ := hplans
    have hwin := hcan.within_of_folds hr'
    have hrange : r.range = d := congrArg (·.range) hreq
    refine h.eq_of_overlap hlive hr ?_ ?_
    · rw [howned.addressSpace]
      exact (congrArg (·.addressSpace) hreq).symm
    · rw [hrange]
      exact rangesOverlap_iff_meets.mpr hwin.meets
  have hnodup : (folded intent v d t.live).Nodup := (h.ids_nodup.of_map _).sublist filter_sublist
  have hrepl := eq_replicate_iff.mpr ⟨rfl, honly⟩
  rw [hrepl] at hnodup hmem ⊢
  have hle := nodup_replicate.mp hnodup
  have hne : (folded intent v d t.live).length ≠ 0 := by
    intro hzero
    rw [hzero] at hmem
    cases hmem
  have hone : (folded intent v d t.live).length = 1 := by omega
  rw [hone]
  rfl

/-- The planner has nothing to do for a VMA exactly when its request is registered. -/
theorem noOp_iff (h : Sound t) (hplans : Plans t.live intent v d) :
    ((folded intent v d t.live).length = 1
      && (folded intent v d t.live).any (·.request = desiredRequest intent v d)) = true
      ↔ Present t.live (desiredRequest intent v d) := by
  constructor
  · intro hnoop
    rw [Bool.and_eq_true, any_eq_true] at hnoop
    obtain ⟨-, r, hr, hreq⟩ := hnoop
    exact ⟨r, (Mm.mem_folded.mp hr).1, of_decide_eq_true hreq⟩
  · rintro ⟨r, hr, hreq⟩
    rw [folded_eq_singleton h hplans hr hreq]
    simp [hreq]

end Planned

/-- The planner counts what the replay emits. -/
theorem countFolded_eq :
    ∀ (records : List UffdRegistration) (removed : Nat),
      countFolded intent v d removed records
        = (emitFolded intent v d records).map fun ids => removed + ids.length
  | [], removed => rfl
  | r :: records, removed => by
    unfold countFolded emitFolded
    cases registrationFoldsInto intent v d r with
    | error e => rfl
    | ok folds =>
      dsimp only [bind, Except.bind]
      cases folds with
      | false =>
        rw [if_neg Bool.false_ne_true, countFolded_eq records]
        cases emitFolded intent v d records <;> rfl
      | true =>
        rw [if_pos rfl, countFolded_eq records]
        cases emitFolded intent v d records with
        | error e => rfl
        | ok ids =>
          show Except.ok (removed + 1 + ids.length) = Except.ok (removed + (ids.length + 1))
          rw [add_assoc, add_comm 1]

theorem planVmas_eq : ∀ (vmas : List MappingSnapshot) (removed replacements : Nat),
    t.planVmas intent removed replacements vmas = (t.replayVmas intent vmas).map
      fun delta => (removed + delta.1.length, replacements + delta.2.length)
  | [], _, _ => rfl
  | v :: vmas, removed, replacements => by
    unfold planVmas replayVmas
    cases t.canonicalRegisterDelta intent v with
    | error e => rfl
    | ok delta =>
      dsimp only [bind, Except.bind]
      split
      · exact planVmas_eq vmas removed replacements
      rw [countFolded_eq]
      cases emitFolded intent v delta.desired.range t.live with
      | error e => rfl
      | ok ids =>
        dsimp only [Except.map]
        rw [planVmas_eq vmas]
        cases t.replayVmas intent vmas with
        | error e => rfl
        | ok rest =>
          dsimp only [Except.map, pure, Except.pure]
          rw [length_append, length_cons, add_assoc, add_assoc, add_comm 1]

/-- The replay emits the delta of the records as a set. -/
theorem replayVmas_eq_ok (h : Sound t) :
    ∀ {vmas : List MappingSnapshot}, Profile intent.range space vmas →
      ∀ {removed : List UffdRegistrationId} {requests : List UffdRegistrationRequest},
        t.replayVmas intent vmas = .ok (removed, requests) ↔
          Replays t.live intent vmas removed requests
  | [], _, removed, requests => by
    constructor
    · intro hrpl
      cases hrpl
      exact .nil
    · intro hreps
      cases hreps
      rfl
  | v :: vmas, hprof, removed, requests => by
    have hkind := hprof.kind v mem_cons_self
    have hrest := hprof.tail
    unfold replayVmas
    rw [bind_eq_ok]
    constructor
    · rintro ⟨delta, hdelta, hrpl⟩
      obtain ⟨target, htgt⟩ := hprof.target v mem_cons_self
      obtain ⟨d, hcan, rfl⟩ := (canonicalRegisterDelta_eq_ok hkind htgt).mp hdelta
      have hplans : Plans t.live intent v d := ⟨target, htgt, hcan⟩
      split at hrpl
      next hnoop =>
        exact .present hplans ((noOp_iff h hplans).mp hnoop) ((replayVmas_eq_ok h hrest).mp hrpl)
      next hop =>
      obtain ⟨ids, hids, hrpl⟩ := bind_eq_ok.mp hrpl
      obtain ⟨-, rfl⟩ := (emitFolded_eq_ok hcan.pageSize).mp hids
      obtain ⟨⟨removed', requests'⟩, hrpl', hrpl⟩ := bind_eq_ok.mp hrpl
      cases hrpl
      exact .missing hplans (fun hpres => hop ((noOp_iff h hplans).mpr hpres))
        ((replayVmas_eq_ok h hrest).mp hrpl')
    · intro hreps
      cases hreps with
      | present hplans hpres hreps =>
        have hnoop := (noOp_iff h hplans).mpr hpres
        obtain ⟨target, htgt, hcan⟩ := hplans
        refine ⟨_, (canonicalRegisterDelta_eq_ok hkind htgt).mpr ⟨_, hcan, rfl⟩, ?_⟩
        rw [if_pos hnoop]
        exact (replayVmas_eq_ok h hrest).mpr hreps
      | missing hplans hmiss hreps =>
        have hop := fun hnoop => hmiss ((noOp_iff h hplans).mp hnoop)
        obtain ⟨target, htgt, hcan⟩ := hplans
        refine ⟨_, (canonicalRegisterDelta_eq_ok hkind htgt).mpr ⟨_, hcan, rfl⟩, ?_⟩
        rw [if_neg hop]
        refine bind_eq_ok.mpr
          ⟨_, (emitFolded_eq_ok hcan.pageSize).mpr ⟨hcan.current, rfl⟩, ?_⟩
        exact bind_eq_ok.mpr ⟨_, (replayVmas_eq_ok h hrest).mpr hreps, rfl⟩

/-- The delta plan: the delta's sizes, with room and identities for it. -/
theorem planRegisterDelta_eq_ok :
    t.planRegisterDelta intent vmas = .ok plan ↔
      (∃ space, validateVmaProfile intent.range vmas = .ok space)
        ∧ ∃ removed requests, t.replayVmas intent vmas = .ok (removed, requests)
          ∧ removed.length ≤ t.live.length
          ∧ requests.length ≤ t.records.length - (t.live.length - removed.length)
          ∧ ¬ (requests.length ≠ 0 ∧ t.revision = maxRevision)
          ∧ advanceRegistrationIds t.nextId requests.length = .ok plan.nextIdAfter
          ∧ plan = ⟨t.revision, removed.length, requests.length, plan.nextIdAfter⟩ := by
  unfold planRegisterDelta
  rw [planVmas_eq, bind_eq_ok]
  constructor
  · rintro ⟨space, hspace, h⟩
    refine ⟨⟨space, hspace⟩, ?_⟩
    cases hrpl : t.replayVmas intent vmas with
    | error e =>
      rw [hrpl] at h
      cases h
    | ok delta =>
      obtain ⟨removed, requests⟩ := delta
      rw [hrpl] at h
      dsimp only [Except.map, bind, Except.bind] at h
      rw [zero_add, zero_add] at h
      split at h
      · cases h
      next hlive =>
      split at h
      · cases h
      split at h
      · cases h
      next hroom =>
      obtain ⟨after, hadv, h⟩ := bind_eq_ok.mp h
      split at h
      · cases h
      next hsealed =>
      cases h
      exact ⟨removed, requests, rfl, Nat.le_of_not_lt hlive, Nat.le_of_not_lt hroom, hsealed,
        hadv, rfl⟩
  · rintro ⟨⟨space, hspace⟩, removed, requests, hrpl, hlive, hroom, hsealed, hadv, hplan⟩
    have hcapacity : t.live.length ≤ t.records.length := reduceOption_length_le t.records
    refine ⟨space, hspace, ?_⟩
    rw [hrpl]
    dsimp only [Except.map, bind, Except.bind]
    rw [zero_add, zero_add, if_neg (not_lt.mpr hlive), if_neg (by omega),
      if_neg (not_lt.mpr hroom), hadv]
    dsimp only
    rw [if_neg hsealed, hplan]
    rfl

/-! ## What the delta names -/

section Delta
variable {space : AddressSpaceId} {vmas : List MappingSnapshot}
  {removed : List UffdRegistrationId} {requests : List UffdRegistrationRequest}

variable {records : List UffdRegistration} {v : MappingSnapshot} {r : UffdRegistration}

theorem Replays.plans (h : Replays records intent vmas removed requests) :
    ∀ v ∈ vmas, ∃ d, Plans records intent v d := by
  induction h with
  | nil => exact fun v hv => absurd hv not_mem_nil
  | present hplans _ _ ih | missing hplans _ _ ih =>
    exact forall_mem_cons.mpr ⟨⟨_, hplans⟩, ih⟩

/-- The planner makes a request for the VMA. -/
def Makes (records : List UffdRegistration) (intent : UffdRegistrationIntent) (v : MappingSnapshot)
    (d : PageRange) : Prop :=
  Plans records intent v d ∧ ¬ Present records (desiredRequest intent v d)

theorem Plans.makes_iff (h : Plans records intent v d) {P : PageRange → Prop} :
    (∃ d', Makes records intent v d' ∧ P d')
      ↔ ¬ Present records (desiredRequest intent v d) ∧ P d := by
  constructor
  · rintro ⟨d', ⟨hplans, hmiss⟩, hd⟩
    rw [hplans.unique h] at hmiss hd
    exact ⟨hmiss, hd⟩
  · exact fun ⟨hmiss, hd⟩ => ⟨d, ⟨h, hmiss⟩, hd⟩

/-- The requests are those of the VMAs whose range is not registered yet. -/
theorem Replays.mem_requests (h : Replays records intent vmas removed requests) :
    q ∈ requests ↔ ∃ v ∈ vmas, ∃ d, Makes records intent v d ∧ q = desiredRequest intent v d := by
  induction h with
  | nil => simp
  | present hplans hpres _ ih =>
    rw [exists_mem_cons_iff, hplans.makes_iff, ← ih]
    simp [hpres]
  | missing hplans hmiss _ ih =>
    rw [exists_mem_cons_iff, hplans.makes_iff, ← ih, mem_cons]
    simp [hmiss]

/-- The removed records are those that fold into one of the requests. -/
theorem Replays.mem_removed (h : Replays records intent vmas removed requests)
    {id : UffdRegistrationId} :
    id ∈ removed ↔ ∃ v ∈ vmas, ∃ d, Makes records intent v d
      ∧ ∃ r ∈ folded intent v d records, r.id = id := by
  induction h with
  | nil => simp
  | present hplans hpres _ ih =>
    rw [exists_mem_cons_iff, hplans.makes_iff, ← ih]
    simp [hpres]
  | missing hplans hmiss _ ih =>
    rw [exists_mem_cons_iff, hplans.makes_iff, ← ih, mem_append, mem_map]
    simp [hmiss]

/-- What lies in one VMA does not reach into a later one. -/
theorem not_meets_of_ordered {w : MappingSnapshot} {s s' : Span}
    (hordered : v.range.stop ≤ w.range.start) (hs : s.Within v.range.span)
    (hs' : s'.Within w.range.span) : ¬ s.Meets s' := by
  intro hmeets
  have hstop : s.stop ≤ v.range.stop := hs.2
  have hstart : w.range.start ≤ s'.start := hs'.1
  have hlt := hmeets.2
  omega

/-- The requests of different VMAs are apart. -/
theorem Replays.requests_apart (h : Replays records intent vmas removed requests)
    (hprof : Profile intent.range space vmas) :
    requests.Pairwise fun p q => rangesOverlap p.range q.range = false := by
  induction h with
  | nil => exact Pairwise.nil
  | present _ _ _ ih => exact ih hprof.tail
  | missing hplans _ hrest ih =>
    refine pairwise_cons.mpr ⟨?_, ih hprof.tail⟩
    intro q hq
    obtain ⟨w, hw, d', ⟨hplans', -⟩, rfl⟩ := hrest.mem_requests.mp hq
    have hordered := (pairwise_cons.mp hprof.ordered).1 w hw
    refine Bool.eq_false_iff.mpr fun hover => ?_
    exact not_meets_of_ordered hordered hplans.within hplans'.within
      (rangesOverlap_iff_meets.mp hover)

theorem Replays.requests_nodup (h : Replays records intent vmas removed requests)
    (hprof : Profile intent.range space vmas) : requests.Nodup := by
  refine (h.requests_apart hprof).imp fun hfalse heq => ?_
  rw [heq, rangesOverlap_self] at hfalse
  cases hfalse

theorem Plans.folded_within (h : Plans records intent v d)
    (hr : r ∈ folded intent v d records) : r.range.span.Within v.range.span := by
  have hwin := h.within
  obtain ⟨target, -, hcan⟩ := h
  exact (hcan.within_of_folds hr).trans hwin

/-- No record is removed twice. -/
theorem Replays.removed_nodup (hsound : Sound t) (h : Replays t.live intent vmas removed requests)
    (hprof : Profile intent.range space vmas) : removed.Nodup := by
  induction h with
  | nil => exact nodup_nil
  | present _ _ _ ih => exact ih hprof.tail
  | missing hplans _ hrest ih =>
    refine nodup_append.mpr ⟨?_, ih hprof.tail, ?_⟩
    · exact hsound.ids_nodup.sublist (Sublist.map _ filter_sublist)
    · intro id hid id' hid' heq
      subst heq
      obtain ⟨r, hr, rfl⟩ := mem_map.mp hid
      obtain ⟨w, hw, d', ⟨hplans', -⟩, r', hr', hsame⟩ := hrest.mem_removed.mp hid'
      have hrecord : r' = r := inj_on_of_nodup_map hsound.ids_nodup (Mm.mem_folded.mp hr').1
        (Mm.mem_folded.mp hr).1 hsame
      subst hrecord
      have hordered := (pairwise_cons.mp hprof.ordered).1 w hw
      exact not_meets_of_ordered hordered (hplans.folded_within hr) (hplans'.folded_within hr')
        (Span.Within.refl _).meets

/-- A record that meets a request folds into it: what lies under the target is the handler's
own, and two records do not overlap. -/
theorem Makes.mem_folded_of_meets (hsound : Sound t) (h : Makes t.live intent v d)
    (hr : r ∈ t.live) (hspace : r.addressSpace = v.addressSpace)
    (hmeets : r.range.span.Meets d.span) : r ∈ folded intent v d t.live := by
  obtain ⟨⟨target, htgt, hcan⟩, -⟩ := h
  obtain ⟨x, hxr, hxd⟩ := Span.meets_iff_exists.mp hmeets
  rcases hcan.hull.covered x hxd with hbase | ⟨s, ⟨r', hr', howned, rfl⟩, -, hx'⟩
  · have hover := rangesOverlap_iff_meets.mpr (Span.meets_iff_exists.mpr ⟨x, hxr, hbase⟩)
    obtain ⟨hcur, hhdl⟩ := hcan.clear r hr hspace hover
    refine Mm.mem_folded.mpr ⟨hr, ⟨hspace, hhdl, ?_, hcur.pageSize.symm, ?_⟩, hmeets.touches⟩
    · exact r.request.isMissing.trans intent.isMissing.symm
    · exact rangesOverlap_iff_meets.mpr hcur.within.meets
  · have hover := rangesOverlap_iff_meets.mpr (Span.meets_iff_exists.mpr ⟨x, hxr, hx'⟩)
    have hsame := hsound.eq_of_overlap hr hr' (hspace.trans howned.addressSpace.symm) hover
    subst hsame
    exact Mm.mem_folded.mpr ⟨hr, howned, hmeets.touches⟩

section

variable (hsound : Sound t) (h : Replays t.live intent vmas removed requests)
include hsound h

theorem Replays.removed_of_meets (hq : q ∈ requests) (hr : r ∈ t.live)
    (hspace : r.addressSpace = q.addressSpace) (hover : rangesOverlap r.range q.range = true) :
    r.id ∈ removed := by
  obtain ⟨v, hv, d, hmakes, rfl⟩ := h.mem_requests.mp hq
  have hmem := hmakes.mem_folded_of_meets hsound hr hspace (rangesOverlap_iff_meets.mp hover)
  exact h.mem_removed.mpr ⟨v, hv, d, hmakes, r, hmem, rfl⟩

/-- All of the delta is published. -/
theorem Replays.publishes_eq (hprof : Profile intent.range space vmas) :
    t.publishes removed requests = requests := by
  unfold publishes wanted
  rw [Lib.novel_eq_self (h.requests_nodup hprof) fun _ _ => not_mem_nil, filter_eq_self]
  intro q hq
  refine decide_eq_true fun hpres => ?_
  obtain ⟨r, hr, hreq⟩ := hpres
  obtain ⟨hlive, hstays⟩ := mem_retained.mp hr
  obtain ⟨hspace, hover⟩ := overlaps_of_request_eq hreq
  exact hstays (h.removed_of_meets hsound hq hlive hspace hover)

/-! ## Submitting the delta -/

/-- The table plans the delta as a batch. -/
theorem Replays.planRequestChanges (hprof : Profile intent.range space vmas)
    (hnon : removed ≠ [] ∨ requests ≠ [])
    (hroom : requests.length ≤ t.records.length - (t.live.length - removed.length))
    {after : Option Lib.NonZeroU64}
    (hadv : advanceRegistrationIds t.nextId requests.length = .ok after)
    (hunsealed : ¬ (requests.length ≠ 0 ∧ t.revision = maxRevision)) :
    ∃ plan, t.planRequestChanges removed requests true = .ok plan := by
  have hpubs := h.publishes_eq hsound hprof
  have hadv' : advanceRegistrationIds t.nextId (t.publishes removed requests).length
      = .ok after := by
    rw [hpubs]
    exact hadv
  refine planRequestChanges_of (O := (intent.handler, space, intent.mode)) hsound.ids_nodup
    hnon (h.removed_nodup hsound hprof) ?_ ?_ ?_ ?_ ?_ hadv' ?_
  · intro id hid
    obtain ⟨v, hv, d, -, r, hr, hrid⟩ := h.mem_removed.mp hid
    obtain ⟨hlive, howned, -⟩ := Mm.mem_folded.mp hr
    refine ⟨r, hlive, hrid, fun _ => ?_⟩
    show (r.handler, r.addressSpace, r.mode) = _
    rw [howned.handler, howned.addressSpace, howned.mode, hprof.addressSpace v hv]
  · intro q hq r hr hspace hover
    obtain ⟨hlive, hstays⟩ := mem_retained.mp hr
    exact absurd (h.removed_of_meets hsound hq hlive hspace hover) hstays
  · exact (h.requests_apart hprof).imp fun hfalse => .inr hfalse
  · intro q hq _
    obtain ⟨v, hv, d, -, rfl⟩ := h.mem_requests.mp hq
    show (intent.handler, v.addressSpace, intent.mode) = _
    rw [hprof.addressSpace v hv]
  · rw [hpubs]
    exact hroom
  · rw [hpubs]
    intro hne hmax
    exact hunsealed ⟨mt eq_nil_of_length_eq_zero hne, hmax⟩

end

theorem submitDelta_eq
    (hapi : requireInitialized api = .ok ()) (hnon : removed ≠ [] ∨ requests ≠ [])
    (hplan : t.planRequestChanges removed requests true = .ok plan) :
    t.submitDelta api removed requests = t.commitRequestChanges plan removed requests true := by
  unfold submitDelta
  split
  next hnil =>
    subst hnil
    have hreqs := hnon.resolve_left fun hne => hne rfl
    have hpreflight : t.preflightRegister api requests = .ok plan := by
      refine bind_eq_ok.mpr ⟨(), hapi, ?_⟩
      rw [if_neg hreqs]
      exact hplan
    unfold registerBatch
    rw [hpreflight]
    rfl
  next hcons =>
  have hpreflight : t.preflightReplace api removed requests = .ok plan := by
    refine bind_eq_ok.mpr ⟨(), hapi, ?_⟩
    rw [if_neg hcons]
    exact hplan
  unfold replaceBatch
  rw [hpreflight]
  rfl

end Delta

end UffdRegistrationTable

end LinuxAbi.Mm
