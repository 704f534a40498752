import LinuxAbi.Lib.Tally
import LinuxAbi.Mm.PinLedger

/-!
# The pin registry keeps its accounts

`Accounted` connects the registry to the ledger of `PinLedger`: the slots hold a balanced
ledger, and every record is charged for the pages that cover its request. From it a record
can always be removed (`removeRecord_eq`), the teardown loop cancels every reservation
(`cancelAll_eq`), and a call that fails changes nothing but what `revalidate_next` drops.
-/

namespace LinuxAbi.Mm

open PageRange
open Option
open List
open Lib (NonZeroU64 live_take live_set_free live_replace mem_live_of_getElem?)

/-- A record covers its request, is charged for that, and is validated up to a point inside
its range, one page or more a segment. -/
structure PinRecord.Sound (pageSize : PageSize) (record : PinRecord) : Prop where
  covering : covering record.request.range pageSize = .ok record.range
  snapshot : record.snapshot.range = record.range
  charge : record.charge = .forRange record.range
  start : record.range.start ≤ record.validatedUntil
  stop : record.validatedUntil ≤ record.range.stop
  segments : record.validatedMappings + record.range.start ≤ record.validatedUntil

theorem PinRecord.Sound.pageSize_eq {pageSize : PageSize} {record : PinRecord}
    (h : record.Sound pageSize) : record.range.pageSize = pageSize :=
  (covering_eq_ok h.covering).1

/-- A record with one more validated segment. -/
def PinRecord.advance (record : PinRecord) (covered : PageRange) : PinRecord :=
  { record with
    validatedUntil := covered.stop
    validatedMappings := record.validatedMappings + 1 }

namespace PinRegistry

/-- The configured accounts. -/
def accounts (r : PinRegistry) : List OwnerAccount := r.owners.reduceOption

structure Accounted (r : PinRegistry) : Prop where
  balanced : Balanced r.globalQuota r.globalUsage r.accounts r.live r.nextToken
  sound : ∀ record ∈ r.live, record.Sound r.pageSize
  closed : r.state = .closed → r.live = []

/-- The accounts have the owners and quotas they had, and nothing but usages, records and
the life cycle is different. -/
structure SameOwners (r r' : PinRegistry) : Prop where
  pageSize : r'.pageSize = r.pageSize
  globalQuota : r'.globalQuota = r.globalQuota
  nextToken : r'.nextToken = r.nextToken
  owners : r'.owners.map (Option.map fun account => (account.owner, account.quota)) =
    r.owners.map (Option.map fun account => (account.owner, account.quota))

/-- Exactly the records that meet the condition are gone, and exactly their charges. -/
structure Refunded (gone : PinRecord → Bool) (r r' : PinRegistry) : Prop where
  same : SameOwners r r'
  records : r'.records = r.records.map (Option.filter fun record => !gone record)
  globalUsage : r.globalUsage = r'.globalUsage + totalCharge (r.live.filter gone)
  usage : ∀ (i : Nat) (account : OwnerAccount), r.owners[i]? = some (some account) →
    ∃ usage, r'.owners[i]? = some (some { account with usage }) ∧
      account.usage = usage + ownerCharge account.owner (r.live.filter gone)

variable {r r' : PinRegistry}

theorem SameOwners.refl (r : PinRegistry) : SameOwners r r := ⟨rfl, rfl, rfl, rfl⟩

theorem SameOwners.trans (h : SameOwners r r') (h' : SameOwners r' r'') :
    SameOwners r r'' :=
  ⟨h'.pageSize.trans h.pageSize, h'.globalQuota.trans h.globalQuota,
    h'.nextToken.trans h.nextToken, h'.owners.trans h.owners⟩

/-! ## Removal -/

theorem recordIndex_eq_some (h : r.recordIndex token = some (i, record)) :
    r.records[i]? = some (some record) ∧ record.token = token := by
  obtain ⟨hslot, htok⟩ := Lib.locate_eq_some h
  exact ⟨hslot, beq_iff_eq.mp htok⟩

theorem ownerIndex_eq_some (h : r.ownerIndex owner = some (i, account)) :
    r.owners[i]? = some (some account) ∧ account.owner = owner := by
  obtain ⟨hslot, howner⟩ := Lib.locate_eq_some h
  exact ⟨hslot, beq_iff_eq.mp howner⟩

/-- The owner of a live record is found. -/
theorem Accounted.ownerIndex (h : Accounted r) (hmem : record ∈ r.live) :
    ∃ i account, r.ownerIndex record.request.owner = some (i, account) := by
  cases hfound : r.ownerIndex record.request.owner with
  | some found => exact ⟨found.1, found.2, rfl⟩
  | none =>
    obtain ⟨account, haccount, howner⟩ := mem_map.mp (h.balanced.configured record hmem)
    have hno := Lib.locate_eq_none hfound account haccount
    rw [beq_eq_false_iff_ne] at hno
    exact absurd howner hno

/-- A slot is cleared and its record refunded. -/
structure Removes (r : PinRegistry) (i : Nat) (record : PinRecord) (r' : PinRegistry) : Prop where
  slot : r.records[i]? = some (some record)
  accounted : Accounted r'
  same : SameOwners r r'
  records : r'.records = r.records.set i none
  state : r'.state = r.state

/-- What is left was there. -/
theorem Removes.live_subset (h : Removes r i record r') : ∀ other ∈ r'.live, other ∈ r.live := by
  intro other hlive
  rw [live, h.records] at hlive
  exact (live_take h.slot).mem_iff.mpr (mem_cons_of_mem _ hlive)

theorem Accounted.not_closed (h : Accounted r) (hmem : record ∈ r.live) : r.state ≠ .closed := by
  intro hclosed
  rw [h.closed hclosed] at hmem
  cases hmem

/-- Removing a record does not fail. -/
theorem Accounted.removeRecord_eq (h : Accounted r) (hslot : r.records[i]? = some (some record)) :
    ∃ r', r.removeRecord i = (.ok (), r') ∧ Removes r i record r' := by
  obtain ⟨j, account, hidx⟩ := h.ownerIndex (mem_live_of_getElem? hslot)
  obtain ⟨hj, howner⟩ := ownerIndex_eq_some hidx
  obtain ⟨ownerUsage, globalUsage, husage, hglobal, hbalanced⟩ :=
    (h.balanced.perm (live_take hj) (live_take hslot)).remove howner
  refine ⟨{ r with
    records := r.records.set i none
    owners := r.owners.set j (some { account with usage := ownerUsage })
    globalUsage }, ?_, hslot, ?_, ?_, rfl, rfl⟩
  · unfold removeRecord
    rw [hslot]
    have hidx' : ({ r with records := r.records.set i none } : PinRegistry).ownerIndex
        record.request.owner = some (j, account) := hidx
    have hsub : account.usage.checkedSub record.charge = .ok ownerUsage := by
      rw [husage, PinAccounting.checkedSub_add]
    have hsubGlobal : r.globalUsage.checkedSub record.charge = .ok globalUsage := by
      rw [hglobal, PinAccounting.checkedSub_add]
    simp only [Option.join_some, hidx', hsub, hsubGlobal]
  · refine ⟨hbalanced.perm (live_replace hj _).symm (Perm.refl _), ?_, ?_⟩
    · intro other hother
      exact h.sound other ((live_take hslot).mem_iff.mpr (mem_cons_of_mem _ hother))
    · intro hclosed
      exact absurd hclosed (h.not_closed (mem_live_of_getElem? hslot))
  · exact ⟨rfl, rfl, rfl, Lib.map_set_of_eq hj rfl⟩

/-- The usages follow from the records that are left. -/
theorem Accounted.refunded (h : Accounted r) (h' : Accounted r') (hsame : SameOwners r r')
    (hrecs : r'.records = r.records.map (Option.filter fun record => !gone record)) :
    Refunded gone r r' := by
  have hlive : r.live.Perm (r'.live ++ r.live.filter gone) := by
    unfold live
    rw [hrecs, Lib.live_filter]
    exact (perm_append_comm.trans (filter_append_perm gone _)).symm
  refine ⟨hsame, hrecs, ?_, ?_⟩
  · rw [h.balanced.total, h'.balanced.total, totalCharge_perm hlive]
    unfold totalCharge
    rw [map_append, sum_append]
  · intro i account hslot
    have howner := congrArg (·[i]?) hsame.owners
    simp only [getElem?_map, hslot] at howner
    obtain ⟨slot', hslot', howner⟩ := map_eq_some_iff.mp howner
    obtain ⟨account', rfl, hkey⟩ := map_eq_some_iff.mp howner
    have hname : account'.owner = account.owner := congrArg Prod.fst hkey
    have hquota : account'.quota = account.quota := congrArg Prod.snd hkey
    refine ⟨account'.usage, ?_, ?_⟩
    · rw [hslot', ← hname, ← hquota]
    · rw [h.balanced.share account (mem_live_of_getElem? hslot),
        h'.balanced.share account' (mem_live_of_getElem? hslot'), hname,
        ownerCharge_perm account.owner hlive]
      unfold ownerCharge totalCharge
      rw [filter_append, map_append, sum_append]

/-- The reservation a token names. -/
def isReservation (token : PinToken) (record : PinRecord) : Bool :=
  record.token == token && record.state == .reserved

theorem Accounted.set_none_eq (h : Accounted r) (hslot : r.records[i]? = some (some record))
    (hst : record.state = .reserved) :
    r.records.set i none =
      r.records.map (Option.filter fun other => !isReservation record.token other) := by
  refine Lib.set_none_eq_filter hslot ?_ ?_
  · simp [isReservation, hst]
  · intro j other hother hnamed
    rw [isReservation, Bool.and_eq_true, beq_iff_eq] at hnamed
    exact Lib.slot_inj h.balanced.tokens hother hslot hnamed.1

/-! ## The teardown loop -/

theorem cancelAll_eq : ∀ {indices : List Nat} {r : PinRegistry} (cancelled : Nat), Accounted r →
    indices.Nodup → cancelled + indices.length < 2 ^ 64 →
    ∃ r', r.cancelAll indices cancelled = (.ok (cancelled + indices.countP r.isReservedAt), r') ∧
      Accounted r' ∧ SameOwners r r' ∧ r'.state = r.state ∧
      ∀ j, r'.records[j]? = if j ∈ indices then
          r.records[j]?.map (Option.filter fun record => !(record.state == .reserved))
        else r.records[j]?
  | [], r, cancelled, h, _, _ => ⟨r, rfl, h, .refl r, rfl, fun _ => rfl⟩
  | index :: rest, r, cancelled, h, hnodup, hlt => by
    obtain ⟨hnot, hnodup⟩ := nodup_cons.mp hnodup
    rw [length_cons] at hlt
    unfold cancelAll
    by_cases hres : r.isReservedAt index = true
    · -- the slot holds a reservation, which can be removed
      obtain ⟨record, hjoin, hst⟩ := (any_eq_true _ _).mp hres
      have hslot := join_eq_some_iff.mp hjoin
      obtain ⟨r₁, hremove, -, h₁, hsame₁, hrecs₁, hst₁⟩ := h.removeRecord_eq hslot
      have hsame : ∀ j ∈ rest, r₁.isReservedAt j = r.isReservedAt j := by
        intro j hj
        have hne : index ≠ j := by
          rintro rfl
          exact hnot hj
        unfold isReservedAt
        rw [hrecs₁, getElem?_set_ne hne]
      obtain ⟨r', hrest, h', hsame', hst', hrecs'⟩ :=
        cancelAll_eq (cancelled + 1) h₁ hnodup (by omega)
      refine ⟨r', ?_, h', hsame₁.trans hsame', hst'.trans hst₁, ?_⟩
      · rw [if_pos hres, hremove]
        simp only
        rw [if_pos (by omega), hrest, countP_congr fun j hj => by rw [hsame j hj],
          countP_cons, if_pos hres]
        simp only [Nat.add_assoc, Nat.add_comm 1]
      · intro j
        rw [hrecs' j, hrecs₁]
        by_cases heq : j = index
        · subst heq
          rw [if_neg hnot, if_pos List.mem_cons_self, hslot,
            Lib.getElem?_set_of_some hslot]
          simp [filter_some, hst]
        · rw [List.getElem?_set_ne (Ne.symm heq)]
          simp [heq]
    · obtain ⟨r', hrest, h', hsame', hst', hrecs'⟩ := cancelAll_eq cancelled h hnodup (by omega)
      refine ⟨r', ?_, h', hsame', hst', ?_⟩
      · rw [if_neg hres, hrest, countP_cons, if_neg hres]
        rfl
      · intro j
        rw [hrecs' j]
        by_cases heq : j = index
        · subst heq
          rw [if_neg hnot, if_pos mem_cons_self]
          -- nothing to clear: the slot is empty or holds an active pin
          cases hslot : r.records[j]? with
          | none => rfl
          | some slot =>
            cases slot with
            | none => rfl
            | some record =>
              unfold isReservedAt at hres
              rw [hslot] at hres
              simpa [filter_some] using hres
        · simp [heq]

theorem Accounted.setState (h : Accounted r) {state : PinRegistryState}
    (hclosed : state = .closed → r.live = []) : Accounted { r with state } :=
  ⟨h.balanced, h.sound, hclosed⟩

/-- Forced teardown cancels every reservation and refunds it. -/
theorem Accounted.beginTeardown_eq (h : Accounted r) (hcap : r.records.length < 2 ^ 64)
    (hopen : r.state ≠ .closed) :
    ∃ r', r.beginTeardown = (.ok ⟨r.reservedCount, r'.activeCount⟩, r') ∧ Accounted r' ∧
      r'.state = .tearingDown ∧ Refunded (fun record => record.state == .reserved) r r' := by
  have h₀ : Accounted { r with state := .tearingDown } := h.setState nofun
  obtain ⟨r', hloop, h', hsame, hst, hrecs⟩ :=
    cancelAll_eq 0 h₀ (nodup_range (n := r.records.length))
      (by rw [length_range, Nat.zero_add]; exact hcap)
  have hcount : (range r.records.length).countP
      (isReservedAt { r with state := .tearingDown }) = r.reservedCount :=
    Lib.countP_slots _ r.records
  refine ⟨r', ?_, h', hst, ?_⟩
  · unfold beginTeardown
    rw [if_neg hopen, hloop, hcount, Nat.zero_add]
  · refine h.refunded h' ⟨hsame.pageSize, hsame.globalQuota, hsame.nextToken, hsame.owners⟩ ?_
    apply ext_getElem?
    intro j
    rw [hrecs j, getElem?_map]
    split
    · rfl
    next hout =>
    rw [mem_range, Nat.not_lt] at hout
    rw [getElem?_eq_none hout]
    rfl

/-! ## What one call can do -/

/-- The record of a new reservation. -/
def reservedRecord (token : PinToken) (request : PinRequest) (range : PageRange)
    (addressSpace : AddressSpaceId) : PinRecord where
  token
  request
  range
  snapshot := { addressSpace, range }
  validatedUntil := range.start
  validatedMappings := 0
  charge := .forRange range
  state := .reserved

/-- What `revalidate_next` checked of a segment. -/
structure SegmentValid (r : PinRegistry) (record : PinRecord) (expected : ExpectedMapping)
    (current : MappingSnapshot) (covered : PageRange) : Prop where
  pageSize : covered.pageSize = r.pageSize
  start : covered.start = record.validatedUntil
  contained : record.range.contains covered = true
  addressSpace : expected.addressSpace = record.snapshot.addressSpace
  unchanged : expected.Unchanged current covered
  mapping : r.validateMapping record.request covered current = .ok ()

/-- The reservation that a call revalidates. -/
def revalidated : PinCall → Option PinToken
  | .revalidateNext reservation _ _ _ => some reservation.token
  | _ => none

/-- The calls that take a record out. -/
inductive Removal (record : PinRecord) : PinCall → PinReply → Prop
  /-- a segment did not pass, and its reservation is rolled back -/
  | rollback {reservation : PinReservation} (htoken : record.token = reservation.token)
      (hstate : record.state = .reserved) :
    Removal record (.revalidateNext reservation expected current covered) (.failed error)
  | cancel {reservation : PinReservation} (htoken : record.token = reservation.token)
      (hstate : record.state = .reserved) : Removal record (.cancelReservation reservation) .done
  | release (htoken : record.token = token) (hstate : record.state = .active) :
    Removal record (.release token) .done

/-- Every way a call can end. -/
inductive Move (r : PinRegistry) : PinCall → PinReply → PinRegistry → Prop
  /-- an error, with nothing written -/
  | refused (hrevalidate : ∀ token ∈ revalidated c, ∀ record ∈ r.live,
        isReservation token record = false) :
    Move r c (.failed error) r
  | requota {quota : PinQuota} (hslot : r.owners[i]? = some (some account))
      (hadmits : quota.admits account.usage = true) :
    Move r (.configureOwner owner quota) .done
      { r with owners := r.owners.set i (some { account with quota }) }
  | addOwner (hfree : r.owners[i]? = some none) (hnew : owner ∉ r.accounts.map (·.owner)) :
    Move r (.configureOwner owner quota) .done
      { r with owners := r.owners.set i (some { owner, quota, usage := 0 }) }
  | removeOwner (hslot : r.owners[i]? = some (some account)) (hidle : account.usage = 0) :
    Move r (.removeOwner owner) .done { r with owners := r.owners.set i none }
  | reserve {request : PinRequest} {space : AddressSpaceId} {range : PageRange} {i j : Nat}
      {account : OwnerAccount} {token : NonZeroU64} (hstate : r.state = .open)
      (hrange : covering request.range r.pageSize = .ok range)
      (hoverlap : r.validateOverlap request range space = .ok ())
      (hslot : r.owners[i]? = some (some account)) (howner : account.owner = request.owner)
      (hfree : r.records[j]? = some none) (htoken : r.nextToken = some token)
      (hquota : account.quota.admits (account.usage + .forRange range) = true)
      (hglobal : r.globalQuota.admits (r.globalUsage + .forRange range) = true) :
    Move r (.reserve request space) (.reserved ⟨⟨token⟩⟩) { r with
      nextToken := token.checkedSucc
      owners := r.owners.set i (some { account with usage := account.usage + .forRange range })
      globalUsage := r.globalUsage + .forRange range
      records := r.records.set j (some (reservedRecord ⟨token⟩ request range space)) }
  | removed (why : Removal record c reply) (hremoves : Removes r i record r₁) : Move r c reply r₁
  | validate {reservation : PinReservation} (hslot : r.records[i]? = some (some record))
      (htoken : record.token = reservation.token)
      (hstate : record.state = .reserved) (hsegment : SegmentValid r record expected current covered) :
    Move r (.revalidateNext reservation expected current covered) .done
      { r with records := r.records.set i (some (record.advance covered)) }
  | commit {reservation : PinReservation} (hslot : r.records[i]? = some (some record))
      (htoken : record.token = reservation.token)
      (hstate : record.state = .reserved) (hcomplete : record.validatedUntil = record.range.stop) :
    Move r (.commit reservation) (.committed record.token)
      { r with records := r.records.set i (some { record with state := .active }) }
  | admitted (hclear : r.firstMutationBlocker invalidation = none) :
    Move r (.admitMutation invalidation) .done r
  | close (hstate : r.state ≠ .closed) :
    Move r .beginClose (.progress r.progress) { r with state := .closing }
  | teardown {r' : PinRegistry} (haccounted : Accounted r') (hstate : r'.state = .tearingDown)
      (hrefunded : Refunded (fun record => record.state == .reserved) r r') :
    Move r .beginTeardown (.report ⟨r.reservedCount, r'.activeCount⟩) r'
  | stayClosed (hstate : r.state = .closed) : Move r .finishTeardown .done r
  | finish (hempty : r.live = []) : Move r .finishTeardown .done { r with state := .closed }

variable {i : Nat} {record : PinRecord} {expected : ExpectedMapping} {current : MappingSnapshot}
  {covered : PageRange} {c : PinCall} {reply : PinReply}

/-- The move a call makes. -/
abbrev CallMove (r : PinRegistry) (c : PinCall) : Prop := Move r c (r.call c).1 (r.call c).2

theorem move_configureOwner (r : PinRegistry) (owner : PinOwner) (quota : PinQuota) :
    CallMove r (.configureOwner owner quota) := by
  dsimp only [CallMove, call, configureOwner]
  split
  · exact .refused nofun
  split
  · next i account hidx =>
    split
    · next hadm => exact .requota (ownerIndex_eq_some hidx).1 hadm
    · exact .refused nofun
  next hidx =>
  split
  · exact .refused nofun
  next i hfree =>
  refine .addOwner (Lib.firstFree_eq_some hfree) ?_
  intro hmem
  obtain ⟨account, haccount, howner⟩ := mem_map.mp hmem
  have hno := Lib.locate_eq_none hidx account haccount
  rw [beq_eq_false_iff_ne] at hno
  exact hno howner

theorem move_removeOwner (r : PinRegistry) (owner : PinOwner) : CallMove r (.removeOwner owner) := by
  dsimp only [CallMove, call, removeOwner]
  split
  · exact .refused nofun
  split
  · exact .refused nofun
  next i account hidx =>
  split
  · exact .refused nofun
  next hidle => exact .removeOwner (ownerIndex_eq_some hidx).1 (not_not.mp hidle)

theorem move_reserve (r : PinRegistry) (request : PinRequest) (space : AddressSpaceId) :
    CallMove r (.reserve request space) := by
  dsimp only [CallMove, call, PinRegistry.reserve]
  split
  · exact .refused nofun
  next hopen =>
  split
  · exact .refused nofun
  next range hrange =>
  split
  · exact .refused nofun
  next hover =>
  split
  · exact .refused nofun
  next i account hidx =>
  split
  · exact .refused nofun
  next j hfree =>
  split
  · exact .refused nofun
  next ownerUsage husage =>
  split
  · exact .refused nofun
  next globalUsage hglobal =>
  split
  · exact .refused nofun
  next hquota =>
  rw [not_or, not_not, not_not] at hquota
  rw [PinAccounting.checkedAdd_eq_ok husage, PinAccounting.checkedAdd_eq_ok hglobal] at hquota ⊢
  split
  · exact .refused nofun
  next token next htok =>
  unfold allocateToken at htok
  split at htok
  · cases htok
  next raw hraw =>
  cases htok
  have hst : r.state = .open := by
    unfold ensureOpen at hopen
    split at hopen
    · assumption
    all_goals cases hopen
  obtain ⟨hslot, howner⟩ := ownerIndex_eq_some hidx
  exact .reserve hst hrange hover hslot howner (Lib.firstFree_eq_some hfree) hraw hquota.1 hquota.2

theorem validateSegment_eq_ok (h : r.validateSegment record expected current covered = .ok ()) :
    SegmentValid r record expected current covered := by
  unfold validateSegment at h
  split at h
  · cases h
  next hcovered =>
  rw [not_or, not_or, not_not, not_not, not_not] at hcovered
  split at h
  · cases h
  next hspace =>
  split at h
  · cases h
  next hrange =>
  exact ⟨hcovered.1, hcovered.2.1, hcovered.2.2, not_not.mp hspace,
    ExpectedMapping.revalidateRange_eq_ok hrange, h⟩

theorem SegmentValid.advance (h : SegmentValid r record expected current covered)
    (hs : record.Sound r.pageSize) : (record.advance covered).Sound r.pageSize := by
  obtain ⟨-, -, hstop⟩ := contains_iff.mp h.contained
  have hnon : covered.start < covered.stop := covered.range.nonempty
  have hstart := h.start
  have hsegments := hs.segments
  refine ⟨hs.covering, hs.snapshot, hs.charge, ?_, hstop, ?_⟩
  · show record.range.start ≤ covered.stop
    omega
  · show record.validatedMappings + 1 + record.range.start ≤ covered.stop
    omega

/-- No count of segments overflows: each is at least one byte of a range below `2 ^ 64`. -/
theorem SegmentValid.no_overflow (h : SegmentValid r record expected current covered)
    (hs : record.Sound r.pageSize) : record.validatedMappings + 1 < 2 ^ 64 := by
  have hsegments := (h.advance hs).segments
  have hlt : covered.stop < 2 ^ 64 := covered.range.lt
  change record.validatedMappings + 1 + record.range.start ≤ covered.stop at hsegments
  omega

theorem Accounted.move_revalidateNext (h : Accounted r) (reservation : PinReservation)
    (expected : ExpectedMapping) (current : MappingSnapshot) (covered : PageRange) :
    CallMove r (.revalidateNext reservation expected current covered) := by
  dsimp only [CallMove, call, revalidateNext]
  split
  · next hidx =>
    refine .refused ?_
    rintro _ ⟨⟩ record hmem
    have hno := Lib.locate_eq_none hidx record hmem
    simp [isReservation, hno]
  next i record hidx =>
  obtain ⟨hslot, htok⟩ := recordIndex_eq_some hidx
  split
  · next hst =>
    refine .refused ?_
    rintro _ ⟨⟩ other hother
    -- the token is that of an active pin, and of no other record
    obtain ⟨j, hj⟩ := mem_iff_getElem?.mp (reduceOption_mem_iff.mp hother)
    by_contra hnamed
    rw [Bool.not_eq_false, isReservation, Bool.and_eq_true, beq_iff_eq, beq_iff_eq] at hnamed
    have hsame := Lib.slot_inj h.balanced.tokens hj hslot (hnamed.1.trans htok.symm)
    subst hsame
    rw [hslot] at hj
    cases hj
    exact hst hnamed.2
  next hst =>
  rw [not_not] at hst
  split
  · obtain ⟨r', hremove, hrem⟩ := h.removeRecord_eq hslot
    rw [hremove]
    exact .removed (.rollback htok hst) hrem
  next hval =>
  have hseg := validateSegment_eq_ok hval
  have hlt := hseg.no_overflow (h.sound record (mem_live_of_getElem? hslot))
  rw [if_pos hlt]
  exact .validate hslot htok hst hseg

theorem move_commit (r : PinRegistry) (reservation : PinReservation) :
    CallMove r (.commit reservation) := by
  dsimp only [CallMove, call, PinRegistry.commit]
  split
  · exact .refused nofun
  next i record hidx =>
  obtain ⟨hslot, htok⟩ := recordIndex_eq_some hidx
  split
  · exact .refused nofun
  next hst =>
  split
  · exact .refused nofun
  next hcomplete =>
  rw [not_or, not_not] at hcomplete
  exact .commit hslot htok (not_not.mp hst) hcomplete.1

theorem Accounted.move_cancelReservation (h : Accounted r) (reservation : PinReservation) :
    CallMove r (.cancelReservation reservation) := by
  dsimp only [CallMove, call, cancelReservation]
  split
  · exact .refused nofun
  next i record hidx =>
  obtain ⟨hslot, htok⟩ := recordIndex_eq_some hidx
  split
  · exact .refused nofun
  next hst =>
  obtain ⟨r', hremove, hrem⟩ := h.removeRecord_eq hslot
  rw [hremove]
  exact .removed (.cancel htok (not_not.mp hst)) hrem

theorem Accounted.move_release (h : Accounted r) (token : PinToken) :
    CallMove r (.release token) := by
  dsimp only [CallMove, call, PinRegistry.release]
  split
  · exact .refused nofun
  next i record hidx =>
  obtain ⟨hslot, htok⟩ := recordIndex_eq_some hidx
  split
  · exact .refused nofun
  next hst =>
  obtain ⟨r', hremove, hrem⟩ := h.removeRecord_eq hslot
  rw [hremove]
  exact .removed (.release htok (not_not.mp hst)) hrem

theorem move_beginClose (r : PinRegistry) : CallMove r .beginClose := by
  dsimp only [CallMove, call, beginClose]
  split
  · next hst => exact .close (by rw [hst]; decide)
  · next hst =>
    have hmove := Move.close (r := r) (by rw [hst]; decide)
    rwa [← hst] at hmove
  · exact .refused nofun
  · exact .refused nofun

/-- Every record is a reservation or an active pin. -/
theorem live_eq_nil_of_progress (h : r.progress.active + r.progress.reserved = 0) : r.live = [] := by
  have hcount : r.activeCount + r.reservedCount = 0 := h
  rw [eq_nil_iff_forall_not_mem]
  intro record hmem
  cases hst : record.state with
  | reserved =>
    have hpos : 0 < r.reservedCount := countP_pos_iff.mpr ⟨record, hmem, by simp [hst]⟩
    omega
  | active =>
    have hpos : 0 < r.activeCount := countP_pos_iff.mpr ⟨record, hmem, by simp [hst]⟩
    omega

theorem move_finishTeardown (r : PinRegistry) : CallMove r .finishTeardown := by
  dsimp only [CallMove, call, finishTeardown]
  split
  · exact .refused nofun
  · next hst => exact .stayClosed hst
  all_goals
    split
    · exact .refused nofun
    · next hzero => exact .finish (live_eq_nil_of_progress (not_not.mp hzero))

/-- Every call on an accounted registry is one of the moves. -/
theorem Accounted.move (h : Accounted r) (hcap : r.records.length < 2 ^ 64) (c : PinCall) :
    Move r c (r.call c).1 (r.call c).2 := by
  cases c with
  | configureOwner owner quota => exact r.move_configureOwner owner quota
  | removeOwner owner => exact r.move_removeOwner owner
  | reserve request space => exact r.move_reserve request space
  | revalidateNext reservation expected current covered =>
    exact h.move_revalidateNext reservation expected current covered
  | commit reservation => exact r.move_commit reservation
  | cancelReservation reservation => exact h.move_cancelReservation reservation
  | release token => exact h.move_release token
  | admitMutation invalidation =>
    dsimp only [call, admitMutation]
    split
    · exact .refused nofun
    next hclear =>
    rw [isSome_iff_ne_none, not_not] at hclear
    exact .admitted hclear
  | beginClose => exact r.move_beginClose
  | beginTeardown =>
    dsimp only [call]
    by_cases hclosed : r.state = .closed
    · unfold beginTeardown
      rw [if_pos hclosed]
      exact .refused nofun
    · obtain ⟨r', heq, h', hst, href⟩ := h.beginTeardown_eq hcap hclosed
      rw [heq]
      exact .teardown h' hst href
  | finishTeardown => exact r.move_finishTeardown

/-! ## The invariant along runs -/

theorem Accounted.setRecord (h : Accounted r) {new : PinRecord}
    (hslot : r.records[i]? = some (some record)) (htok : new.token = record.token)
    (hrequest : new.request = record.request) (hchg : new.charge = record.charge)
    (hsound : new.Sound r.pageSize) :
    Accounted { r with records := r.records.set i (some new) } := by
  refine ⟨?_, ?_, ?_⟩
  · exact ((h.balanced.perm (Perm.refl _) (live_take hslot)).revise htok hrequest
      hchg).perm (Perm.refl _) (live_replace hslot new).symm
  · intro other hother
    rcases mem_cons.mp ((live_replace hslot new).mem_iff.mp hother) with rfl | hrest
    · exact hsound
    · exact h.sound other ((live_take hslot).mem_iff.mpr (mem_cons_of_mem _ hrest))
  · intro hclosed
    exact absurd hclosed (h.not_closed (mem_live_of_getElem? hslot))

theorem sound_reservedRecord {pageSize : PageSize} {request : PinRequest} {range : PageRange}
    (hrange : covering request.range pageSize = .ok range) (token : PinToken)
    (space : AddressSpaceId) : (reservedRecord token request range space).Sound pageSize where
  covering := hrange
  snapshot := rfl
  charge := rfl
  start := Nat.le_refl _
  stop := Nat.le_of_lt range.range.nonempty
  segments := Nat.le_of_eq (Nat.zero_add _)

theorem Accounted.of_move (h : Accounted r) (hmove : Move r c reply r') : Accounted r' := by
  cases hmove with
  | refused | admitted | stayClosed => exact h
  | requota hslot hadm =>
    refine ⟨?_, h.sound, h.closed⟩
    exact ((h.balanced.perm (live_take hslot) (Perm.refl _)).requota hadm).perm
      (live_replace hslot _).symm (Perm.refl _)
  | addOwner hfree hnew =>
    refine ⟨?_, h.sound, h.closed⟩
    exact (h.balanced.addOwner hnew _).perm (live_set_free hfree _).symm (Perm.refl _)
  | removeOwner hslot hidle =>
    refine ⟨(h.balanced.perm (live_take hslot) (Perm.refl _)).removeOwner hidle ?_,
      h.sound, h.closed⟩
    intro record hmem
    rw [(h.sound record hmem).charge]
    rfl
  | @reserve request space range i j account token hst hrange hover hslot howner hfree htok
      hquota hglobal =>
    refine ⟨?_, ?_, ?_⟩
    · have hbalanced := (h.balanced.perm (live_take hslot) (Perm.refl _)).reserve
        (reservedRecord ⟨token⟩ request range space) howner hquota hglobal htok
      exact hbalanced.perm (live_replace hslot _).symm (live_set_free hfree _).symm
    · intro record hmem
      rcases mem_cons.mp ((live_set_free hfree _).mem_iff.mp hmem) with rfl | hold
      · exact sound_reservedRecord hrange ⟨token⟩ space
      · exact h.sound record hold
    · intro hclosed
      have hopen : r.state = .closed := hclosed
      rw [hst] at hopen
      cases hopen
  | removed _ hrem => exact hrem.accounted
  | validate hslot _ _ hseg =>
    exact h.setRecord hslot rfl rfl rfl (hseg.advance (h.sound _ (mem_live_of_getElem? hslot)))
  | commit hslot _ _ _ =>
    have hsound := h.sound _ (mem_live_of_getElem? hslot)
    exact h.setRecord hslot rfl rfl rfl
      ⟨hsound.covering, hsound.snapshot, hsound.charge, hsound.start, hsound.stop, hsound.segments⟩
  | close => exact h.setState nofun
  | teardown haccounted => exact haccounted
  | finish hemp => exact h.setState fun _ => hemp

/-- No call adds a slot or changes the page size. -/
theorem shape_of_move (hmove : Move r c reply r') :
    r'.records.length = r.records.length ∧ r'.pageSize = r.pageSize := by
  cases hmove with
  | reserve | validate | commit => exact ⟨length_set, rfl⟩
  | removed _ hrem => exact ⟨by rw [hrem.records, length_set], hrem.same.pageSize⟩
  | teardown _ _ href => exact ⟨by rw [href.records, length_map], href.same.pageSize⟩
  | _ => exact ⟨rfl, rfl⟩

/-- The tokens that a call hands out. -/
def issued : PinCall → PinReply → List PinToken
  | _, .reserved reservation => [reservation.token]
  | _, _ => []

/-- A call hands out the next token or none. -/
theorem issued_of_move (hmove : Move r c reply r') :
    (issued c reply = [] ∧ r'.nextToken = r.nextToken) ∨
      ∃ token, issued c reply = [⟨token⟩] ∧ r.nextToken = some token ∧
        r'.nextToken = token.checkedSucc := by
  cases hmove with
  | reserve _ _ _ _ _ _ htok => exact .inr ⟨_, rfl, htok, rfl⟩
  | removed why hrem => exact .inl ⟨by cases why <;> rfl, hrem.same.nextToken⟩
  | teardown _ _ href => exact .inl ⟨rfl, href.same.nextToken⟩
  | _ => exact .inl ⟨rfl, rfl⟩

/-- A record and what it was before a call. -/
structure Descends (old new : PinRecord) : Prop where
  token : new.token = old.token
  request : new.request = old.request
  range : new.range = old.range
  snapshot : new.snapshot = old.snapshot
  fences : old.fencesMutation = false → new.fencesMutation = false

theorem Descends.refl (record : PinRecord) : Descends record record := ⟨rfl, rfl, rfl, rfl, id⟩

/-- What stays, or moves on, of the live records; a reservation adds one. -/
theorem descends_of_move (hmove : Move r c reply r') (hmem : record ∈ r'.live) :
    (∃ old ∈ r.live, Descends old record) ∨ record.token ∈ issued c reply := by
  have hrevised : ∀ {i old new}, r.records[i]? = some (some old) →
      record ∈ (r.records.set i (some new)).reduceOption → Descends old new →
      ∃ old ∈ r.live, Descends old record := by
    intro i old new hslot hlive hdescends
    rcases mem_cons.mp ((live_replace hslot new).mem_iff.mp hlive) with rfl | hrest
    · exact ⟨old, mem_live_of_getElem? hslot, hdescends⟩
    · exact ⟨record, (live_take hslot).mem_iff.mpr (mem_cons_of_mem _ hrest), .refl record⟩
  cases hmove with
  | reserve _ _ _ _ _ hfree =>
    rcases mem_cons.mp ((live_set_free hfree _).mem_iff.mp hmem) with rfl | hold
    · exact .inr mem_cons_self
    · exact .inl ⟨record, hold, .refl record⟩
  | removed _ hrem => exact .inl ⟨record, hrem.live_subset record hmem, .refl record⟩
  | validate hslot => exact .inl (hrevised hslot hmem ⟨rfl, rfl, rfl, rfl, id⟩)
  | commit hslot _ hst =>
    refine .inl (hrevised hslot hmem ⟨rfl, rfl, rfl, rfl, ?_⟩)
    -- a reservation fences every mutation
    intro hfences
    rw [PinRecord.fencesMutation, hst] at hfences
    cases hfences
  | teardown _ _ href =>
    rw [live, href.records, Lib.live_filter] at hmem
    exact .inl ⟨record, (mem_filter.mp hmem).1, .refl record⟩
  | _ => exact .inl ⟨record, hmem, .refl record⟩

/-- The tokens handed out so far are different, the live ones are among them, and the next
one is none of them. -/
structure Issued (past : List PinToken) (r : PinRegistry) : Prop where
  nodup : past.Nodup
  live : ∀ record ∈ r.live, record.token ∈ past
  fresh : ∀ token ∈ past, ∀ next, r.nextToken = some next → token.raw.val < next.val

theorem Issued.of_move (h : Issued past r)
    (hmove : Move r c reply r') : Issued (past ++ issued c reply) r' := by
  refine ⟨?_, ?_, ?_⟩
  · rcases issued_of_move hmove with ⟨hnone, -⟩ | ⟨token, hone, hnext, -⟩
    · rw [hnone, append_nil]
      exact h.nodup
    · rw [hone, ← concat_eq_append, nodup_concat]
      refine ⟨?_, h.nodup⟩
      intro hmem
      exact Nat.lt_irrefl _ (h.fresh _ hmem token hnext)
  · intro record hmem
    rcases descends_of_move hmove hmem with ⟨old, hlive, hold⟩ | hnew
    · rw [hold.token]
      exact mem_append_left _ (h.live old hlive)
    · exact mem_append_right _ hnew
  · intro old hold next hnext
    rcases issued_of_move hmove with ⟨hnone, hsame⟩ | ⟨token, hone, hcur, hsucc⟩
    · rw [hnone, append_nil] at hold
      exact h.fresh old hold next (hsame ▸ hnext)
    rw [hsucc] at hnext
    have hval := NonZeroU64.val_checkedSucc hnext
    rw [hone] at hold
    rcases Lib.mem_concat_cases hold with hpast | rfl
    · have hlt := h.fresh old hpast token hcur
      omega
    · rw [hval]
      exact Nat.lt_succ_self _

/-- A failed call leaves the registry as it was; a failed revalidation may take the
reservation it was for. -/
theorem Accounted.of_failed (h : Accounted r) (hmove : Move r c (.failed error) r') :
    match revalidated c with
    | none => r' = r
    | some token => Refunded (isReservation token) r r' ∧ r'.state = r.state := by
  cases hmove with
  | refused hrevalidate =>
    cases hc : revalidated c with
    | none => rfl
    | some token =>
      exact ⟨h.refunded h (.refl r) (Lib.filter_eq_self (hrevalidate token hc)).symm, rfl⟩
  | removed why hrem =>
    obtain ⟨htok, hst⟩ := why
    refine ⟨h.refunded hrem.accounted hrem.same ?_, hrem.state⟩
    rw [hrem.records, h.set_none_eq hrem.slot hst, htok]

/-- What holds of a registry and of the tokens handed out so far. -/
structure Kept (past : List PinToken) (r : PinRegistry) : Prop where
  balanced : Balanced r.globalQuota r.globalUsage r.accounts r.live r.nextToken
  issued : Issued past r
  removable : ∀ (i : Nat) record, r.records[i]? = some (some record) → (r.removeRecord i).1 = .ok ()
  teardown : r.state ≠ .closed → ∃ r', r.beginTeardown = (.ok ⟨r.reservedCount, r'.activeCount⟩, r') ∧
    Refunded (fun record => record.state == .reserved) r r'
  closed : r.state = .closed → r.globalUsage = 0 ∧ ∀ account ∈ r.accounts, account.usage = 0
  failed : ∀ c error, (r.call c).1 = .failed error →
    match revalidated c with
    | none => (r.call c).2 = r
    | some token => Refunded (isReservation token) r (r.call c).2 ∧ (r.call c).2.state = r.state

theorem accounted_new {ownerCapacity tokenCapacity pageSize firstToken : Nat}
    (hnew : new ownerCapacity tokenCapacity pageSize quota firstToken = .ok r) :
    Accounted r ∧ r.records.length = tokenCapacity ∧ Issued [] r := by
  unfold new at hnew
  split at hnew
  · cases hnew
  split at hnew
  · cases hnew
    refine ⟨⟨?_, ?_, fun h => by cases h⟩, length_replicate, ⟨nodup_nil, ?_, by simp⟩⟩
    · show Balanced quota 0 (replicate ownerCapacity none).reduceOption
        (replicate tokenCapacity none).reduceOption _
      rw [reduceOption_replicate_none, reduceOption_replicate_none]
      exact .empty quota _
    all_goals
      intro record hmem
      rw [live, reduceOption_replicate_none] at hmem
      cases hmem
  · cases hnew

/-- What moves preserve holds along a run, and with it the accounts. -/
theorem run_moves {ε : Type} {note : PinCall → PinReply → List ε}
    {I : List ε → PinRegistry → Prop} (hstep : ∀ {past r c reply r'}, Accounted r → I past r →
      Move r c reply r' → I (past ++ note c reply) r')
    (h : Accounted r₀) (hlen : r₀.records.length < 2 ^ 64) (hstart : I [] r₀)
    (calls : List PinCall) :
    Accounted (Lib.run PinRegistry.call r₀ calls) ∧
      (Lib.run PinRegistry.call r₀ calls).records.length < 2 ^ 64 ∧
      I (Lib.events PinRegistry.call note r₀ calls) (Lib.run PinRegistry.call r₀ calls) := by
  refine Lib.run_invariant (I := fun past r => Accounted r ∧ r.records.length < 2 ^ 64 ∧ I past r)
    ?_ calls [] r₀ ⟨h, hlen, hstart⟩
  rintro past r c ⟨h, hlen, hpast⟩
  have hmove := h.move hlen c
  exact ⟨h.of_move hmove, (shape_of_move hmove).1 ▸ hlen, hstep h hpast hmove⟩

/-- In every registry that any sequence of calls leads to, with any tokens, the accounts are
balanced, tokens are never handed out twice, removal does not fail, teardown refunds the
reservations it cancels, a closed registry is charged nothing, and a failed call writes
nothing, except that a failed revalidation removes its reservation. -/
theorem run_pin_accounts {ownerCapacity tokenCapacity pageSize firstToken : Nat} {quota : PinQuota}
    {r₀ : PinRegistry} (hcap : tokenCapacity < 2 ^ 64)
    (hnew : new ownerCapacity tokenCapacity pageSize quota firstToken = .ok r₀)
    (calls : List PinCall) :
    Kept (Lib.events PinRegistry.call issued r₀ calls) (Lib.run PinRegistry.call r₀ calls) := by
  obtain ⟨haccounted, hlength, hissued⟩ := accounted_new hnew
  obtain ⟨h, hlength, hissued⟩ :=
    run_moves (fun _ h => h.of_move) haccounted (hlength ▸ hcap) hissued calls
  refine ⟨h.balanced, hissued, ?_, ?_, ?_, ?_⟩
  · intro i record hslot
    obtain ⟨r', heq, -⟩ := h.removeRecord_eq hslot
    rw [heq]
  · intro hopen
    obtain ⟨r', heq, -, -, hrefunded⟩ := h.beginTeardown_eq hlength hopen
    exact ⟨r', heq, hrefunded⟩
  · intro hclosed
    have hempty := h.closed hclosed
    refine ⟨?_, ?_⟩
    · rw [h.balanced.total, hempty]
      rfl
    · intro account hmem
      rw [h.balanced.share account hmem, hempty]
      rfl
  · intro c error hfailed
    have hmove := h.move hlength c
    rw [hfailed] at hmove
    exact h.of_failed hmove

/-- One owner and two records, with pages of 4 KiB. -/
def smallPins : PinRegistry where
  pageSize := ⟨4096, by decide, by decide⟩
  globalQuota := ⟨8, 32768, 4⟩
  globalUsage := 0
  owners := [none]
  records := [none, none]
  nextToken := some NonZeroU64.one
  state := .open

theorem new_smallPins : new 1 2 4096 ⟨8, 32768, 4⟩ 1 = .ok smallPins := rfl

/-- Reads the byte at `0x1800` through the page at `0x1000`. -/
def smallRequest : PinRequest where
  range := ⟨0x1800, 0x1801, by decide, by decide⟩
  access := .read
  duration := .synchronous
  useKind := .userCopy
  owner := ⟨NonZeroU64.one⟩

/-- The owner is configured and the request reserved in address space 1. -/
def reserveSmall : List PinCall :=
  [.configureOwner ⟨NonZeroU64.one⟩ ⟨4, 16384, 2⟩, .reserve smallRequest ⟨NonZeroU64.one⟩]

theorem run_pin_accounts_small :
    (Lib.run PinRegistry.call smallPins reserveSmall).globalUsage = ⟨1, 4096, 1⟩ ∧
      Kept (Lib.events PinRegistry.call issued smallPins reserveSmall)
        (Lib.run PinRegistry.call smallPins reserveSmall) :=
  ⟨by decide +kernel, run_pin_accounts (by decide) new_smallPins reserveSmall⟩

end PinRegistry

end LinuxAbi.Mm
