import LinuxAbi.Lib.Novel
import LinuxAbi.Lib.Outcome
import LinuxAbi.Lib.Tally
import LinuxAbi.Mm.Uffd

/-!
# What a registration plan accepts

The planning pass of the userfaultfd table is two nested scans. This module says what they
decide, over the records as a list: `Fits` is the condition on one request against the records
that stay, `Planned` the condition on a whole batch together with the counts of its plan.
`planRequestChanges_inv` reads a successful plan that way, and `planRequestChanges_of` gives
the plan of a batch that meets the conditions.
-/

namespace LinuxAbi.Mm

open List
open Lib (novel bind_eq_ok)

theorem rangesOverlap_iff :
    rangesOverlap left right = true ↔ left.start < right.stop ∧ right.start < left.stop := by
  simp [rangesOverlap]

theorem rangesOverlap_comm (left right : PageRange) :
    rangesOverlap left right = rangesOverlap right left :=
  Bool.and_comm _ _

theorem PageRange.start_lt_stop (r : PageRange) : r.start < r.stop := r.range.nonempty

/-- A range is nonempty, so it overlaps itself. -/
theorem rangesOverlap_self (r : PageRange) : rangesOverlap r r = true :=
  rangesOverlap_iff.mpr ⟨r.start_lt_stop, r.start_lt_stop⟩

namespace UffdRegistrationTable

/-- The records a batch leaves in the table. -/
def retained (t : UffdRegistrationTable) (removed : List UffdRegistrationId) :
    List UffdRegistration :=
  t.live.filter fun r => r.id ∉ removed

variable {r : UffdRegistration} {q : UffdRegistrationRequest}

theorem mem_retained {t : UffdRegistrationTable}
    : r ∈ t.retained removed ↔ r ∈ t.live ∧ r.id ∉ removed := by
  simp [retained]

/-- The request is already registered. -/
def Present (records : List UffdRegistration) (q : UffdRegistrationRequest) : Prop :=
  ∃ r ∈ records, r.request = q

instance (records : List UffdRegistration) (q : UffdRegistrationRequest) :
    Decidable (Present records q) :=
  inferInstanceAs (Decidable (∃ r ∈ records, _))

/-- The requests a batch publishes under new identities, in order. -/
def wanted (records : List UffdRegistration) (previous requests : List UffdRegistrationRequest) :
    List UffdRegistrationRequest :=
  (novel previous requests).filter fun q => ¬ Present records q

/-- A request meets no record of its address space, except one that is exactly itself. -/
def Fits (records : List UffdRegistration) (q : UffdRegistrationRequest) : Prop :=
  ∀ r ∈ records, r.addressSpace = q.addressSpace →
    rangesOverlap r.range q.range = true → r.request = q

/-- Two requests of a batch are one request, or apart. -/
def Apart (p q : UffdRegistrationRequest) : Prop :=
  p = q ∨ rangesOverlap p.range q.range = false

theorem present_cons {records : List UffdRegistration}
    : Present (r :: records) q ↔ r.request = q ∨ Present records q := by
  simp [Present]

/-- A record that is the request lies where the request lies. -/
theorem overlaps_of_request_eq
    (h : r.request = q) : r.addressSpace = q.addressSpace ∧ rangesOverlap r.range q.range = true := by
  subst h
  exact ⟨rfl, rangesOverlap_self _⟩

/-! ## The scans -/

/-- The scan of the records: it fails exactly when the request does not fit, and else tells
whether the request is present. -/
theorem scanRecords_eq_ok {removed : List UffdRegistrationId}
    {exact : Bool} : ∀ {records : List UffdRegistration},
      scanRecords removed q records = .ok exact ↔
        Fits (records.filter fun r => r.id ∉ removed) q
          ∧ exact = decide (Present (records.filter fun r => r.id ∉ removed) q)
  | [] => by
    constructor
    · intro h
      cases h
      exact ⟨fun r hr => absurd hr not_mem_nil, by simp [Present]⟩
    · rintro ⟨-, rfl⟩
      simp [scanRecords, Present]
  | r :: records => by
    unfold scanRecords
    by_cases hgone : r.id ∈ removed
    · rw [if_pos (.inl hgone), filter_cons_of_neg (by simpa using hgone)]
      exact scanRecords_eq_ok
    rw [filter_cons_of_pos (by simpa using hgone),
      show Fits (r :: _) q ↔ _ from forall_mem_cons]
    by_cases hplace : r.addressSpace = q.addressSpace ∧ rangesOverlap r.range q.range = true
    · have hscan : ¬ (r.id ∈ removed ∨ r.addressSpace ≠ q.addressSpace
          ∨ ¬ rangesOverlap r.range q.range = true) := by
        rw [not_or, not_or, not_not, not_not]
        exact ⟨hgone, hplace⟩
      rw [if_neg hscan]
      split
      next hhdl =>
        -- another handler owns the place
        constructor
        · intro h
          cases h
        · rintro ⟨⟨hsame, -⟩, -⟩
          exact absurd (congrArg UffdRegistrationRequest.handler (hsame hplace.1 hplace.2)) hhdl
      split
      next hsame =>
        rw [bind_eq_ok]
        constructor
        · rintro ⟨found, hrest, hexact⟩
          cases hexact
          exact ⟨⟨fun _ _ => hsame, (scanRecords_eq_ok.mp hrest).1⟩, by simp [present_cons, hsame]⟩
        · rintro ⟨⟨-, hfits⟩, rfl⟩
          exact ⟨_, scanRecords_eq_ok.mpr ⟨hfits, rfl⟩, by simp [present_cons, hsame]; rfl⟩
      next hother =>
      constructor
      · intro h
        cases h
      · rintro ⟨⟨hsame, -⟩, -⟩
        exact absurd (hsame hplace.1 hplace.2) hother
    · have hscan : r.id ∈ removed ∨ r.addressSpace ≠ q.addressSpace
          ∨ ¬ rangesOverlap r.range q.range = true := by
        rw [not_and_or] at hplace
        exact .inr hplace
      have hother : r.request ≠ q := fun h => hplace (overlaps_of_request_eq h)
      rw [if_pos hscan, scanRecords_eq_ok]
      constructor
      · rintro ⟨hfits, rfl⟩
        exact ⟨⟨fun hspace hover => absurd ⟨hspace, hover⟩ hplace, hfits⟩, by
          simp [present_cons, hother]⟩
      · rintro ⟨⟨-, hfits⟩, rfl⟩
        exact ⟨hfits, by simp [present_cons, hother]⟩

theorem any_overlap_eq_false {previous : List UffdRegistrationRequest} :
    previous.any (fun p => p ≠ q && rangesOverlap p.range q.range) = false ↔
      ∀ p ∈ previous, Apart p q := by
  rw [any_eq_false]
  refine forall₂_congr fun p _ => ?_
  simp only [Bool.and_eq_true, decide_eq_true_eq, not_and, Bool.not_eq_true]
  exact or_iff_not_imp_left.symm

/-- A batch of one owner, or one that need not have one, passes the owner check. -/
theorem checkOwner_of (h : ∀ o ∈ owner, o = O) (hcur : single = true → current = O) :
    ∃ owner', checkOwner single owner current = .ok owner' ∧ ∀ o ∈ owner', o = O := by
  unfold checkOwner
  cases single with
  | false => exact ⟨owner, rfl, h⟩
  | true =>
    rw [hcur rfl]
    refine ⟨some O, ?_, ?_⟩
    · cases owner with
      | none => rfl
      | some o => simp [h o rfl]
    · intro o ho
      exact (Option.some.inj ho).symm

section Scan
variable {t : UffdRegistrationTable} {removed : List UffdRegistrationId} {single : Bool}

/-- What a successful scan of the requests has checked and counted. -/
structure ScannedRequests (t : UffdRegistrationTable) (removed : List UffdRegistrationId)
    (previous : List UffdRegistrationRequest) (tally : RequestTally)
    (requests : List UffdRegistrationRequest) (tally' : RequestTally) : Prop where
  fits : ∀ q ∈ novel previous requests, Fits (t.retained removed) q
  apart_previous : ∀ q ∈ requests, ∀ p ∈ previous, Apart p q
  apart : requests.Pairwise Apart
  published : tally'.published
    = tally.published + (wanted (t.retained removed) previous requests).length
  unique : tally'.unique = tally.unique + (novel previous requests).length
  total : tally'.published + tally'.reused
    = tally.published + tally.reused + (novel previous requests).length

variable {requests : List UffdRegistrationRequest} {O : UffdOwner}

/-- One request in front of a scan: counted when it is new, and then published or reused. -/
theorem ScannedRequests.cons {previous : List UffdRegistrationRequest} {q : UffdRegistrationRequest}
    {tally tally' next : RequestTally}
    (h : ScannedRequests t removed (previous ++ [q]) next requests tally')
    (hapart : ∀ p ∈ previous, Apart p q) (hnext : if q ∈ previous then next = tally else
      Fits (t.retained removed) q ∧ next = if Present (t.retained removed) q then
        { tally with unique := tally.unique + 1, reused := tally.reused + 1 }
      else { tally with unique := tally.unique + 1, published := tally.published + 1 }) :
    ScannedRequests t removed previous tally (q :: requests) tally' := by
  have hpairwise : (q :: requests).Pairwise Apart := by
    refine pairwise_cons.mpr ⟨fun q' hq' => ?_, h.apart⟩
    exact h.apart_previous q' hq' q (mem_append_right _ mem_cons_self)
  have hprev : ∀ q' ∈ q :: requests, ∀ p ∈ previous, Apart p q' := by
    intro q' hq' p hp
    rcases mem_cons.mp hq' with rfl | hmem
    · exact hapart p hp
    · exact h.apart_previous q' hmem p (mem_append_left _ hp)
  by_cases hold : q ∈ previous
  · rw [if_pos hold] at hnext
    subst hnext
    have hnovel := Lib.novel_cons_of_mem hold requests
    refine ⟨?_, hprev, hpairwise, ?_, ?_, ?_⟩
    · rw [hnovel]
      exact h.fits
    · unfold wanted
      rw [hnovel]
      exact h.published
    · rw [hnovel]
      exact h.unique
    · rw [hnovel]
      exact h.total
  · rw [if_neg hold] at hnext
    obtain ⟨hfits, hnext⟩ := hnext
    have hnovel := Lib.novel_cons_of_not_mem hold requests
    have hp := h.published
    have hu := h.unique
    have ht := h.total
    have hwanted : (wanted (t.retained removed) previous (q :: requests)).length
        = (if Present (t.retained removed) q then 0 else 1)
          + (wanted (t.retained removed) (previous ++ [q]) requests).length := by
      unfold wanted
      rw [hnovel, filter_cons]
      by_cases hpres : Present (t.retained removed) q
      · simp [hpres]
      · simp [hpres, Nat.add_comm]
    rw [hnext] at hp hu ht
    refine ⟨?_, hprev, hpairwise, ?_, ?_, ?_⟩
    · rw [hnovel]
      exact forall_mem_cons.mpr ⟨hfits, h.fits⟩
    · rw [hp, hwanted]
      split <;> simp only <;> omega
    · rw [hu, hnovel, length_cons]
      split <;> simp only <;> omega
    · rw [ht, hnovel, length_cons]
      split <;> simp only <;> omega

theorem scanRequests_inv : ∀ {requests previous : List UffdRegistrationRequest}
    {owner : Option UffdOwner} {tally tally' : RequestTally},
    t.scanRequests removed single previous owner tally requests = .ok tally' →
      ScannedRequests t removed previous tally requests tally'
  | [], previous, owner, tally, tally', h => by
    cases h
    exact ⟨fun q hq => absurd hq not_mem_nil, fun q hq => absurd hq not_mem_nil,
      Pairwise.nil, rfl, rfl, rfl⟩
  | q :: requests, previous, owner, tally, tally', h => by
    unfold scanRequests at h
    obtain ⟨owner', -, h⟩ := bind_eq_ok.mp h
    split at h
    · cases h
    next hnot =>
    have hapart := any_overlap_eq_false.mp (Bool.eq_false_iff.mpr hnot)
    split at h
    next hold => exact (scanRequests_inv h).cons hapart (by rw [if_pos hold])
    next hnew =>
    obtain ⟨exact, hscan, h⟩ := bind_eq_ok.mp h
    obtain ⟨hfits, hexact⟩ := scanRecords_eq_ok.mp hscan
    refine (scanRequests_inv h).cons hapart ?_
    rw [if_neg hnew]
    refine ⟨hfits, ?_⟩
    rw [hexact]
    simp only [decide_eq_true_eq]
    rfl

theorem scanRequests_of : ∀ {requests previous : List UffdRegistrationRequest}
    {owner : Option UffdOwner} (tally : RequestTally),
    (∀ q ∈ requests, Fits (t.retained removed) q) →
    (∀ q ∈ requests, ∀ p ∈ previous, Apart p q) → requests.Pairwise Apart →
    (∀ o ∈ owner, o = O) → (∀ q ∈ requests, single = true → q.owner = O) →
      ∃ tally', t.scanRequests removed single previous owner tally requests = .ok tally'
  | [], previous, owner, tally, _, _, _, _, _ => ⟨tally, rfl⟩
  | q :: requests, previous, owner, tally, hfits, hprev, hapart, howner, howners => by
    rw [pairwise_cons] at hapart
    have hfits := forall_mem_cons.mp hfits
    have hprev := forall_mem_cons.mp hprev
    have howners := forall_mem_cons.mp howners
    obtain ⟨owner', hcheck, hnext⟩ := checkOwner_of howner howners.1
    have hclear : ¬ previous.any (fun p => p ≠ q && rangesOverlap p.range q.range) = true :=
      Bool.eq_false_iff.mp (any_overlap_eq_false.mpr hprev.1)
    -- the request itself joins the ones compared with later
    have hprev' : ∀ q' ∈ requests, ∀ p ∈ previous ++ [q], Apart p q' := by
      intro q' hq'
      exact Lib.forall_mem_concat (hprev.2 q' hq') (hapart.1 q' hq')
    have hrest := fun tally => scanRequests_of tally hfits.2 hprev' hapart.2 hnext howners.2
    unfold scanRequests
    rw [hcheck]
    dsimp only [bind, Except.bind]
    rw [if_neg hclear]
    split
    · exact hrest tally
    · rw [scanRecords_eq_ok.mpr ⟨hfits.1, rfl⟩]
      exact hrest _

theorem get_eq_ok {id : UffdRegistrationId} (h : t.get id = .ok r) : r ∈ t.live ∧ r.id = id := by
  unfold get at h
  split at h
  next r' hfind =>
    cases h
    exact ⟨mem_of_find?_eq_some hfind, by simpa using find?_some hfind⟩
  · cases h

theorem get_of_mem (hids : (t.live.map (·.id)).Nodup) (h : r ∈ t.live) : t.get r.id = .ok r := by
  unfold get
  split
  next r' hfind =>
    have hid : r'.id = r.id := by simpa using find?_some hfind
    rw [inj_on_of_nodup_map hids (mem_of_find?_eq_some hfind) h hid]
  next hnone =>
  have hnot := find?_eq_none.mp hnone r h
  exact absurd (decide_eq_true rfl) hnot

theorem scanRemoved_inv : ∀ {ids previous : List UffdRegistrationId}
    {owner owner' : Option UffdOwner}, t.scanRemoved single previous owner ids = .ok owner' →
      ids.Nodup ∧ (∀ id ∈ ids, id ∉ previous) ∧ ∀ id ∈ ids, ∃ r ∈ t.live, r.id = id
  | [], _, _, _, _ => ⟨nodup_nil, fun _ h => absurd h not_mem_nil,
      fun _ h => absurd h not_mem_nil⟩
  | id :: ids, previous, owner, owner', h => by
    unfold scanRemoved at h
    split at h
    · cases h
    next hnew =>
    obtain ⟨r, hget, h⟩ := bind_eq_ok.mp h
    obtain ⟨owner'', -, h⟩ := bind_eq_ok.mp h
    obtain ⟨hnodup, hprev, hlive⟩ := scanRemoved_inv h
    refine ⟨nodup_cons.mpr ⟨fun hmem => ?_, hnodup⟩, ?_, ?_⟩
    · exact hprev id hmem (mem_append_right _ mem_cons_self)
    · refine forall_mem_cons.mpr ⟨hnew, fun id' hid' hmem => ?_⟩
      exact hprev id' hid' (mem_append_left _ hmem)
    · exact forall_mem_cons.mpr ⟨⟨r, get_eq_ok hget⟩, hlive⟩

theorem scanRemoved_of : ∀ {ids previous : List UffdRegistrationId}
    {owner : Option UffdOwner}, ids.Nodup → (∀ id ∈ ids, id ∉ previous) →
    (∀ id ∈ ids, ∃ r, t.get id = .ok r ∧ (single = true → r.request.owner = O)) →
    (∀ o ∈ owner, o = O) →
      ∃ owner', t.scanRemoved single previous owner ids = .ok owner' ∧ ∀ o ∈ owner', o = O
  | [], _, owner, _, _, _, howner => ⟨owner, rfl, howner⟩
  | id :: ids, previous, owner, hnodup, hprev, hget, howner => by
    rw [nodup_cons] at hnodup
    have hprev := forall_mem_cons.mp hprev
    have hget := forall_mem_cons.mp hget
    obtain ⟨r, hr, hO⟩ := hget.1
    obtain ⟨owner', hcheck, hnext⟩ := checkOwner_of howner hO
    have hprev' : ∀ id' ∈ ids, id' ∉ previous ++ [id] := by
      intro id' hid' hmem
      rcases mem_append.mp hmem with hmem | hmem
      · exact hprev.2 id' hid' hmem
      · exact hnodup.1 (mem_singleton.mp hmem ▸ hid')
    unfold scanRemoved
    rw [if_neg hprev.1, hr]
    dsimp only [bind, Except.bind]
    rw [hcheck]
    exact scanRemoved_of hnodup.2 hprev' hget.2 hnext

/-! ## Plans -/

/-- The requests a batch publishes, in order. -/
def publishes (t : UffdRegistrationTable) (removed : List UffdRegistrationId)
    (requests : List UffdRegistrationRequest) : List UffdRegistrationRequest :=
  wanted (t.retained removed) [] requests

/-- The conditions a batch is checked against, and the plan it gets. -/
structure Planned (t : UffdRegistrationTable) (removed : List UffdRegistrationId)
    (requests : List UffdRegistrationRequest) (plan : UffdRegistrationPlan) : Prop where
  nonempty : removed ≠ [] ∨ requests ≠ []
  tokens_nodup : removed.Nodup
  tokens_live : ∀ id ∈ removed, ∃ r ∈ t.live, r.id = id
  fits : ∀ q ∈ requests, Fits (t.retained removed) q
  apart : requests.Pairwise Apart
  room : (t.publishes removed requests).length
    ≤ t.records.length - (t.live.length - removed.length)
  advance : advanceRegistrationIds t.nextId (t.publishes removed requests).length
    = .ok plan.nextIdAfter
  unsealed : t.publishes removed requests ≠ [] → t.revision ≠ maxRevision
  revision : plan.revision = t.revision
  removed_eq : plan.removed = removed.length
  published : plan.published = (t.publishes removed requests).length
  registrations : plan.published + plan.reused = (novel [] requests).length

/-- A plan is made only of a batch that meets the conditions. -/
theorem planRequestChanges_inv (h : t.planRequestChanges removed requests single = .ok plan) :
    Planned t removed requests plan := by
  unfold planRequestChanges at h
  split at h
  · cases h
  next hnon =>
  obtain ⟨owner, hremoved, h⟩ := bind_eq_ok.mp h
  obtain ⟨tally, hreqs, h⟩ := bind_eq_ok.mp h
  obtain ⟨hnodup, -, hlive⟩ := scanRemoved_inv hremoved
  have hscan := scanRequests_inv hreqs
  have hpub : tally.published = (t.publishes removed requests).length := by
    rw [hscan.published, Nat.zero_add]
    rfl
  split at h
  · cases h
  dsimp only at h
  split at h
  · cases h
  split at h
  · cases h
  next hroom =>
  split at h
  · cases h
  obtain ⟨after, hadv, h⟩ := bind_eq_ok.mp h
  split at h
  · cases h
  next hsealed =>
  cases h
  refine ⟨?_, hnodup, hlive, ?_, hscan.apart, ?_, ?_, ?_, rfl, rfl, hpub, ?_⟩
  · rwa [not_and_or] at hnon
  · intro q hq
    exact hscan.fits q (Lib.mem_novel.mpr ⟨hq, not_mem_nil⟩)
  · rw [← hpub]
    exact Nat.le_of_not_lt hroom
  · rw [← hpub]
    exact hadv
  · intro hne hmax
    rw [hpub] at hsealed
    exact hsealed ⟨mt eq_nil_of_length_eq_zero hne, hmax⟩
  · rw [hscan.total]
    simp

/-- Distinct live tokens are at most as many as the records. -/
theorem length_le_of_live (hnodup : removed.Nodup)
    (hlive : ∀ id ∈ removed, ∃ r ∈ t.live, r.id = id) : removed.length ≤ t.live.length := by
  have hsub : removed ⊆ t.live.map (·.id) := by
    intro id hid
    obtain ⟨r, hr, rfl⟩ := hlive id hid
    exact mem_map_of_mem hr
  have hle := (hnodup.subperm hsub).length_le
  rwa [length_map] at hle

/-- A batch that meets the conditions, under one owner where that is asked for, is planned. -/
theorem planRequestChanges_of {after : Option Lib.NonZeroU64} (hids : (t.live.map (·.id)).Nodup)
    (hnon : removed ≠ [] ∨ requests ≠ []) (hnodup : removed.Nodup)
    (htoks : ∀ id ∈ removed, ∃ r ∈ t.live, r.id = id ∧ (single = true → r.request.owner = O))
    (hfits : ∀ q ∈ requests, Fits (t.retained removed) q) (hapart : requests.Pairwise Apart)
    (howners : ∀ q ∈ requests, single = true → q.owner = O)
    (hroom : (t.publishes removed requests).length
      ≤ t.records.length - (t.live.length - removed.length))
    (hadv : advanceRegistrationIds t.nextId (t.publishes removed requests).length = .ok after)
    (hunsealed : t.publishes removed requests ≠ [] → t.revision ≠ maxRevision) :
    ∃ plan, t.planRequestChanges removed requests single = .ok plan := by
  have hget : ∀ id ∈ removed, ∃ r, t.get id = .ok r ∧ (single = true → r.request.owner = O) := by
    intro id hid
    obtain ⟨r, hr, rfl, hO⟩ := htoks id hid
    exact ⟨r, get_of_mem hids hr, hO⟩
  have hscan : ∃ owner, t.scanRemoved single [] none removed = .ok owner ∧ ∀ o ∈ owner, o = O :=
    scanRemoved_of hnodup (fun _ _ => not_mem_nil) hget (fun o ho => by cases ho)
  obtain ⟨owner, hremoved, howner⟩ := hscan
  obtain ⟨tally, hreqs⟩ := scanRequests_of ⟨0, 0, 0⟩ hfits
    (fun q _ p hp => absurd hp not_mem_nil) hapart howner howners
  have hscan := scanRequests_inv hreqs
  have hpub : tally.published = (t.publishes removed requests).length := by
    rw [hscan.published, Nat.zero_add]
    rfl
  have hunique : tally.unique = tally.published + tally.reused := by
    rw [hscan.unique, hscan.total]
    simp
  have hlen : ¬ t.live.length < removed.length := by
    refine Nat.not_lt.mpr (length_le_of_live hnodup fun id hid => ?_)
    obtain ⟨r, hr, hid, -⟩ := htoks id hid
    exact ⟨r, hr, hid⟩
  have hcapacity : ¬ t.records.length < t.live.length - removed.length := by
    have hle := reduceOption_length_le t.records
    exact Nat.not_lt.mpr ((Nat.sub_le _ _).trans hle)
  have hseal : ¬ (tally.published ≠ 0 ∧ t.revision = maxRevision) := by
    rintro ⟨hne, hmax⟩
    refine hunsealed (fun hnil => hne ?_) hmax
    rw [hpub, hnil]
    rfl
  rw [← hpub] at hroom hadv
  unfold planRequestChanges
  rw [if_neg (by rwa [not_and_or]), hremoved]
  dsimp only [bind, Except.bind]
  rw [hreqs]
  dsimp only
  rw [if_neg hlen, if_neg hcapacity, if_neg (Nat.not_lt.mpr hroom), if_neg (not_not.mpr hunique),
    hadv]
  dsimp only
  rw [if_neg hseal]
  exact ⟨_, rfl⟩

end Scan

end UffdRegistrationTable

end LinuxAbi.Mm
