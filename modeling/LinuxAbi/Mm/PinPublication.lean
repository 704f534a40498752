import LinuxAbi.Mm.PinAccounts

/-!
# What a published pin rests on

The registry's records are read against the history of its calls: which reservations were
made, which segments were revalidated for them, and which invalidations were admitted.

`Traced` is the invariant of one record: it was reserved at some point of the history, the
segments validated for its token tile its range up to `validated_until`, each against an
unchanged mapping with enough access, and while it is a reservation no overlapping
invalidation of its page size has been admitted. `Separate` is the invariant of two.
-/

namespace LinuxAbi.Mm

open PageRange
open List
open Lib (NonZeroU64 live_take)

/-! ## Histories -/

/-- A successful revalidation of one segment. -/
structure PinSegment where
  expected : ExpectedMapping
  current : MappingSnapshot
  covered : PageRange

/-- What is noted of a call that succeeds. -/
inductive PinEvent
  | reserved (token : PinToken) (request : PinRequest) (addressSpace : AddressSpaceId)
  | validated (token : PinToken) (segment : PinSegment)
  | admitted (invalidation : InvalidationRange)
  | committed (token : PinToken)

namespace PinEvent

def ofCall : PinCall → PinReply → List PinEvent
  | .reserve request addressSpace, .reserved reservation =>
    [.reserved reservation.token request addressSpace]
  | .revalidateNext reservation expected current covered, .done =>
    [.validated reservation.token { expected, current, covered }]
  | .admitMutation invalidation, .done => [.admitted invalidation]
  | .commit _, .committed token => [.committed token]
  | _, _ => []

/-- The segment that an event validates for a token. -/
def segment? (token : PinToken) : PinEvent → Option PinSegment
  | .validated other segment => if other = token then some segment else none
  | _ => none

/-- The token that an event reserves. -/
def reserved? : PinEvent → Option PinToken
  | .reserved token _ _ => some token
  | _ => none

/-- The token that an event is about while it is a reservation. -/
def token? : PinEvent → Option PinToken
  | .reserved token _ _ | .validated token _ => some token
  | _ => none

end PinEvent

/-- The segments validated for a token, in order. -/
def segments (token : PinToken) (past : List PinEvent) : List PinSegment :=
  past.filterMap (PinEvent.segment? token)

/-- The mapping has the access the request is for. -/
structure PinRequest.Sufficient (request : PinRequest) (snapshot : MappingSnapshot) : Prop where
  read : request.access = .read → snapshot.access.readable = true
  write : request.access = .write → snapshot.access.writable = true
  longTerm : request.duration = .longTerm → snapshot.longTermPinnable = true
  dma : request.useKind = .dma → request.duration = .longTerm
  file : request.duration = .longTerm → request.access = .write → snapshot.kind = .fileShared →
    snapshot.writableFilePinSupported = true
  kind : request.duration = .longTerm → snapshot.kind ≠ .device ∧ snapshot.kind ≠ .special

theorem PinRegistry.validateMapping_eq_ok {r : PinRegistry} {request : PinRequest}
    {range : PageRange} {snapshot : MappingSnapshot}
    (h : r.validateMapping request range snapshot = .ok ()) : request.Sufficient snapshot := by
  unfold PinRegistry.validateMapping at h
  split at h
  · cases h
  split at h
  · cases h
  next hread =>
  split at h
  · cases h
  next hwrite =>
  split at h
  · cases h
  next hlong =>
  split at h
  · cases h
  next hdma =>
  split at h
  · cases h
  next hfile =>
  split at h
  · cases h
  next hkind =>
  refine ⟨?_, ?_, ?_, ?_, ?_, ?_⟩
  · intro haccess
    by_contra hno
    exact hread ⟨haccess, hno⟩
  · intro haccess
    by_contra hno
    exact hwrite ⟨haccess, hno⟩
  · intro hduration
    by_contra hno
    exact hlong ⟨hduration, hno⟩
  · intro huse
    by_contra hno
    exact hdma ⟨huse, hno⟩
  · intro hduration haccess hshared
    by_contra hno
    exact hfile ⟨hduration, haccess, hshared, hno⟩
  · intro hduration
    exact ⟨fun hdevice => hkind ⟨.inl hdevice, hduration⟩,
      fun hspecial => hkind ⟨.inr hspecial, hduration⟩⟩

/-- A segment that was checked for a reservation. -/
structure PinSegment.Valid (pageSize : PageSize) (request : PinRequest) (space : AddressSpaceId)
    (segment : PinSegment) : Prop where
  pageSize : segment.covered.pageSize = pageSize
  addressSpace : segment.expected.addressSpace = space
  unchanged : segment.expected.Unchanged segment.current segment.covered
  sufficient : request.Sufficient segment.current

/-! ## One record -/

/-- What the history says about a live record. -/
structure Traced (pageSize : PageSize) (past : List PinEvent) (record : PinRecord) : Prop where
  reserved : ∃ before after,
    past = before ++ .reserved record.token record.request record.snapshot.addressSpace :: after ∧
    (record.state = .reserved → ∀ invalidation, .admitted invalidation ∈ after →
      invalidation.expected.addressSpace = record.snapshot.addressSpace →
      record.range.overlaps invalidation.range = false)
  tiles : Tiles pageSize record.range.start record.validatedUntil
    ((segments record.token past).map (·.covered))
  valid : ∀ segment ∈ segments record.token past,
    segment.Valid pageSize record.request record.snapshot.addressSpace

variable {pageSize : PageSize} {past news : List PinEvent} {record : PinRecord}

theorem segments_append (token : PinToken) (past news : List PinEvent) :
    segments token (past ++ news) = segments token past ++ segments token news :=
  filterMap_append

/-- Something else is noted. -/
theorem Traced.extend (h : Traced pageSize past record)
    (hsegments : segments record.token news = [])
    (hadm : record.state = .reserved → ∀ invalidation, .admitted invalidation ∈ news →
      invalidation.expected.addressSpace = record.snapshot.addressSpace →
      record.range.overlaps invalidation.range = false) :
    Traced pageSize (past ++ news) record := by
  obtain ⟨before, after, hpast, hclear⟩ := h.reserved
  refine ⟨⟨before, after ++ news, ?_, ?_⟩, ?_, ?_⟩
  · rw [hpast, append_assoc, cons_append]
  · intro hst invalidation hmem
    rcases mem_append.mp hmem with hold | hnew
    · exact hclear hst invalidation hold
    · exact hadm hst invalidation hnew
  · rw [segments_append, hsegments, append_nil]
    exact h.tiles
  · rw [segments_append, hsegments, append_nil]
    exact h.valid

/-- A segment is validated for the record. -/
theorem Traced.advance (h : Traced pageSize past record) (segment : PinSegment)
    (hstart : segment.covered.start = record.validatedUntil)
    (hval : segment.Valid pageSize record.request record.snapshot.addressSpace) :
    Traced pageSize (past ++ [.validated record.token segment]) (record.advance segment.covered) := by
  have hone : segments record.token [.validated record.token segment] = [segment] := by
    simp [segments, PinEvent.segment?]
  obtain ⟨before, after, hpast, hclear⟩ := h.reserved
  refine ⟨⟨before, after ++ [.validated record.token segment], ?_, ?_⟩, ?_, ?_⟩
  · rw [hpast, append_assoc, cons_append]
    rfl
  · intro hst invalidation hmem
    rcases mem_append.mp hmem with hold | hnew
    · exact hclear hst invalidation hold
    · simp at hnew
  · show Tiles pageSize record.range.start segment.covered.stop
      ((segments record.token _).map _)
    rw [segments_append, hone, map_append]
    exact h.tiles.concat hval.pageSize hstart
  · show ∀ other ∈ segments record.token _, _
    rw [segments_append, hone]
    exact Lib.forall_mem_concat h.valid hval

/-- A fresh reservation: nothing is validated for it yet. -/
theorem traced_reserved {token : PinToken} {request : PinRequest} {range : PageRange}
    {space : AddressSpaceId} (hfresh : segments token past = []) :
    Traced pageSize (past ++ [.reserved token request space])
      (PinRegistry.reservedRecord token request range space) := by
  have hnone : segments token (past ++ [.reserved token request space]) = [] := by
    rw [segments_append, hfresh]
    rfl
  refine ⟨⟨past, [], rfl, fun _ _ hmem => absurd hmem not_mem_nil⟩, ?_, ?_⟩
  · show Tiles pageSize range.start range.start ((segments token _).map _)
    rw [hnone]
    rfl
  · show ∀ segment ∈ segments token _, _
    rw [hnone]
    exact fun _ hmem => absurd hmem not_mem_nil

theorem Traced.commit (h : Traced pageSize past record) :
    Traced pageSize (past ++ [.committed record.token]) { record with state := .active } := by
  have hsame : Traced pageSize past { record with state := .active } := by
    obtain ⟨before, after, hpast, -⟩ := h.reserved
    exact ⟨⟨before, after, hpast, fun hst => by cases hst⟩, h.tiles, h.valid⟩
  exact hsame.extend rfl fun hst => by cases hst

/-! ## The records of a registry -/

namespace PinRegistry

variable {r r' : PinRegistry}

/-- The later of two overlapping records, one of them a write pin, was reserved past the
earlier one only because that is an active long-term pin. Tokens are in the order of the
reservations. -/
def Separate (live : List PinRecord) : Prop :=
  ∀ a ∈ live, ∀ b ∈ live, a.token.raw.val < b.token.raw.val →
    a.snapshot.addressSpace = b.snapshot.addressSpace → a.range.overlaps b.range = true →
    (a.request.access = .write ∨ b.request.access = .write) → a.fencesMutation = false

theorem Separate.descend {live live' : List PinRecord} (h : Separate live)
    (hlive : ∀ new ∈ live', ∃ old ∈ live, Descends old new) : Separate live' := by
  intro a ha b hb
  obtain ⟨a₀, ha₀, hda⟩ := hlive a ha
  obtain ⟨b₀, hb₀, hdb⟩ := hlive b hb
  rw [hda.token, hdb.token, hda.snapshot, hdb.snapshot, hda.range, hdb.range, hda.request,
    hdb.request]
  intro horder hspace hover hwrite
  exact hda.fences (h a₀ ha₀ b₀ hb₀ horder hspace hover hwrite)

variable {record : PinRecord} {c : PinCall} {reply : PinReply}

theorem validateOverlap_eq_ok {request : PinRequest} {range : PageRange} {space : AddressSpaceId}
    (h : r.validateOverlap request range space = .ok ()) (hmem : record ∈ r.live)
    (hspace : record.snapshot.addressSpace = space) (hover : record.range.overlaps range = true)
    (hwrite : record.request.access = .write ∨ request.access = .write) :
    record.fencesMutation = false := by
  unfold validateOverlap at h
  split at h
  · cases h
  next hclear =>
  by_contra hfences
  rw [Bool.not_eq_false] at hfences
  refine hclear (any_eq_true.mpr ⟨record, hmem, ?_⟩)
  rcases hwrite with hwrite | hwrite <;> simp [hspace, hover, hwrite, hfences]

/-- A new record comes last and overlaps nothing it may not. -/
theorem Separate.reserve {live : List PinRecord} (h : Separate live) (new : PinRecord)
    (hlast : ∀ record ∈ live, record.token.raw.val < new.token.raw.val)
    (hclear : ∀ record ∈ live, record.snapshot.addressSpace = new.snapshot.addressSpace →
      record.range.overlaps new.range = true →
      (record.request.access = .write ∨ new.request.access = .write) →
      record.fencesMutation = false) : Separate (new :: live) := by
  intro a ha b hb horder
  rcases mem_cons.mp ha with hnew | hold
  · -- nothing was reserved after the new record
    exfalso
    rw [hnew] at horder
    rcases mem_cons.mp hb with hnew' | hold'
    · rw [hnew'] at horder
      exact Nat.lt_irrefl _ horder
    · exact Nat.lt_asymm horder (hlast b hold')
  · rcases mem_cons.mp hb with hnew' | hold'
    · rw [hnew']
      exact hclear a hold
    · exact h a hold b hold' horder

theorem Separate.of_move (h : Separate r.live) (ha : Accounted r)
    (hmove : Move r c reply r') : Separate r'.live := by
  by_cases hissued : issued c reply = []
  · refine h.descend fun new hmem => (descends_of_move hmove hmem).resolve_right ?_
    rw [hissued]
    exact not_mem_nil
  cases hmove with
  | @reserve request space range i j account token hst hrange hover hslot howner hfree htok =>
    have hall := h.reserve (reservedRecord ⟨token⟩ request range space)
      (fun record hmem => ha.balanced.fresh record hmem token htok)
      (fun record hmem => validateOverlap_eq_ok hover hmem)
    have hlive := Lib.live_set_free hfree (reservedRecord ⟨token⟩ request range space)
    intro a hmema b hmemb
    exact hall a (hlive.mem_iff.mp hmema) b (hlive.mem_iff.mp hmemb)
  | removed why => cases why <;> exact absurd rfl hissued
  | _ => exact absurd rfl hissued

/-! ## Along a run -/

theorem Removal.ofCall (why : Removal record c reply) : PinEvent.ofCall c reply = [] := by
  cases why <;> rfl

theorem ofCall_failed (c : PinCall) (error : MmError) : PinEvent.ofCall c (.failed error) = [] := by
  cases c <;> rfl

theorem firstMutationBlocker_eq_none : r.firstMutationBlocker invalidation = none ↔
      ∀ record ∈ r.live, record.fencesMutation = true →
        record.snapshot.addressSpace = invalidation.expected.addressSpace →
        record.range.overlaps invalidation.range = false := by
  unfold firstMutationBlocker
  rw [find?_eq_none]
  simp

/-- The tokens of the history are below the next one. -/
def Below (past : List PinEvent) (next : Option NonZeroU64) : Prop :=
  ∀ event ∈ past, ∀ token ∈ event.token?, ∀ raw, next = some raw → token.raw.val < raw.val

theorem segments_of_below (h : Below past (some raw)) : segments ⟨raw⟩ past = [] := by
  unfold segments
  rw [filterMap_eq_nil_iff]
  intro event hevent
  cases event with
  | validated token segment =>
    have hlt := h _ hevent token rfl raw rfl
    have hne : token ≠ ⟨raw⟩ := by
      rintro rfl
      exact Nat.lt_irrefl _ hlt
    exact if_neg hne
  | _ => rfl

/-- What holds of the history and the registry between two calls. -/
structure Trace (past : List PinEvent) (r : PinRegistry) : Prop where
  below : Below past r.nextToken
  order : (past.filterMap PinEvent.reserved?).Pairwise fun a b => a.raw.val < b.raw.val
  traced : ∀ record ∈ r.live, Traced r.pageSize past record
  separate : Separate r.live

theorem Below.of_move (h : Below past r.nextToken) (ha : Accounted r) (hmove : Move r c reply r') :
    Below (past ++ PinEvent.ofCall c reply) r'.nextToken := by
  intro event hevent token htok raw hraw
  -- the next token only grows
  have hgrows : ∀ old : PinToken, (∀ raw, r.nextToken = some raw → old.raw.val < raw.val) →
      old.raw.val < raw.val := by
    intro old hold
    rcases issued_of_move hmove with ⟨-, hsame⟩ | ⟨last, -, hlast, hnext⟩
    · exact hold raw (hsame ▸ hraw)
    rw [hnext] at hraw
    have hsucc := NonZeroU64.val_checkedSucc hraw
    have hlt := hold last hlast
    omega
  rcases mem_append.mp hevent with hold | hnew
  · exact hgrows token (h event hold token htok)
  cases hmove with
  | refused =>
    rw [ofCall_failed] at hnew
    exact absurd hnew not_mem_nil
  | removed why =>
    rw [why.ofCall] at hnew
    exact absurd hnew not_mem_nil
  | reserve =>
    rw [mem_singleton.mp hnew] at htok
    cases htok
    have hsucc := NonZeroU64.val_checkedSucc hraw
    rw [hsucc]
    exact Nat.lt_succ_self _
  | validate hslot hname =>
    rw [mem_singleton.mp hnew] at htok
    cases htok
    rw [← hname]
    exact hgrows _ (ha.balanced.fresh _ (Lib.mem_live_of_getElem? hslot))
  | commit | admitted =>
    rw [mem_singleton.mp hnew] at htok
    cases htok
  | _ => exact absurd hnew not_mem_nil

theorem order_of_move
    (h : (past.filterMap PinEvent.reserved?).Pairwise fun a b => a.raw.val < b.raw.val)
    (hbelow : Below past r.nextToken) (hmove : Move r c reply r') :
    ((past ++ PinEvent.ofCall c reply).filterMap PinEvent.reserved?).Pairwise
      fun a b => a.raw.val < b.raw.val := by
  rw [filterMap_append]
  cases hmove with
  | refused =>
    rw [ofCall_failed, filterMap_nil, append_nil]
    exact h
  | removed why =>
    rw [why.ofCall, filterMap_nil, append_nil]
    exact h
  | @reserve request space range i j account token _ _ _ _ _ _ htok =>
    refine pairwise_append.mpr ⟨h, pairwise_singleton _ _, ?_⟩
    intro old hold new hnew
    rw [mem_singleton.mp hnew]
    obtain ⟨event, hevent, hres⟩ := mem_filterMap.mp hold
    refine hbelow event hevent old ?_ token htok
    cases event with
    | reserved => exact hres
    | _ => cases hres
  | _ =>
    show (_ ++ []).Pairwise _
    rw [append_nil]
    exact h

theorem Trace.traced_of_move (h : Trace past r) (ha : Accounted r) (hmove : Move r c reply r')
    (hmem : record ∈ r'.live) : Traced r.pageSize (past ++ PinEvent.ofCall c reply) record := by
  -- a record that was there before and of which nothing is noted
  have hkeep : ∀ {record}, record ∈ r.live → Traced r.pageSize (past ++ []) record := by
    intro record hold
    rw [append_nil]
    exact h.traced record hold
  cases hmove with
  | refused =>
    rw [ofCall_failed]
    exact hkeep hmem
  | @reserve request space range i j account token _ _ _ _ _ hfree htok =>
    rcases mem_cons.mp ((Lib.live_set_free hfree _).mem_iff.mp hmem) with rfl | hold
    · exact traced_reserved (segments_of_below (htok ▸ h.below))
    · exact (h.traced record hold).extend rfl fun _ _ hnew => by
        cases mem_singleton.mp hnew
  | removed why hrem =>
    rw [why.ofCall]
    exact hkeep (hrem.live_subset record hmem)
  | @validate i old expected current covered reservation hslot htok hst hseg =>
    rcases mem_cons.mp ((Lib.live_replace hslot _).mem_iff.mp hmem) with rfl | hrest
    · have hadv := (h.traced old (Lib.mem_live_of_getElem? hslot)).advance
        ⟨expected, current, covered⟩ hseg.start
        ⟨hseg.pageSize, hseg.addressSpace, hseg.unchanged,
          validateMapping_eq_ok hseg.mapping⟩
      rw [htok] at hadv
      exact hadv
    · have hold := (live_take hslot).mem_iff.mpr (mem_cons_of_mem _ hrest)
      refine (h.traced record hold).extend ?_ fun _ _ hnew => by
        cases mem_singleton.mp hnew
      -- the segment is another token's
      have hnodup := ((live_take hslot).map (·.token)).nodup_iff.mp ha.balanced.tokens
      have hfirst : old.token ∉ ((r.records.set i none).reduceOption).map (·.token) :=
        (nodup_cons.mp hnodup).1
      have hne : reservation.token ≠ record.token := by
        rw [← htok]
        intro heq
        rw [heq] at hfirst
        exact hfirst (mem_map_of_mem hrest)
      simp [segments, PinEvent.ofCall, PinEvent.segment?, hne]
  | commit hslot =>
    rcases mem_cons.mp ((Lib.live_replace hslot _).mem_iff.mp hmem) with rfl | hrest
    · exact (h.traced _ (Lib.mem_live_of_getElem? hslot)).commit
    have hold := (live_take hslot).mem_iff.mpr (mem_cons_of_mem _ hrest)
    exact (h.traced record hold).extend rfl fun _ _ hnew => by
      cases mem_singleton.mp hnew
  | admitted hclear =>
    refine (h.traced record hmem).extend rfl ?_
    intro hst invalidation hnew hspace
    cases mem_singleton.mp hnew
    refine firstMutationBlocker_eq_none.mp hclear record hmem ?_ hspace.symm
    rw [PinRecord.fencesMutation, hst]
    rfl
  | teardown _ _ href =>
    rw [live, href.records, Lib.live_filter] at hmem
    exact hkeep (mem_filter.mp hmem).1
  | _ => exact hkeep hmem

theorem Trace.of_move (h : Trace past r) (ha : Accounted r)
    (hmove : Move r c reply r') : Trace (past ++ PinEvent.ofCall c reply) r' where
  below := h.below.of_move ha hmove
  order := order_of_move h.order h.below hmove
  traced _ hmem := (shape_of_move hmove).2 ▸ h.traced_of_move ha hmove hmem
  separate := h.separate.of_move ha hmove

theorem run_trace {ownerCapacity tokenCapacity pageSize firstToken : Nat}
    (hcap : tokenCapacity < 2 ^ 64)
    (hnew : new ownerCapacity tokenCapacity pageSize quota firstToken = .ok r₀)
    (calls : List PinCall) :
    Accounted (Lib.run PinRegistry.call r₀ calls) ∧
      Trace (Lib.events PinRegistry.call PinEvent.ofCall r₀ calls)
        (Lib.run PinRegistry.call r₀ calls) := by
  obtain ⟨haccounted, hlen, hissued⟩ := accounted_new hnew
  have hemp : ∀ record, record ∉ r₀.live := by
    intro record hmem
    exact absurd (hissued.live record hmem) not_mem_nil
  have htrace : Trace [] r₀ :=
    ⟨fun _ hevent => absurd hevent not_mem_nil, Pairwise.nil,
      fun record hmem => absurd hmem (hemp record), fun a hmem => absurd hmem (hemp a)⟩
  obtain ⟨h, -, htrace⟩ :=
    run_moves (fun ha h => h.of_move ha) haccounted (hlen ▸ hcap) htrace calls
  exact ⟨h, htrace⟩

/-! ## Publication -/

/-- What the commit of a record rests on: segments that tile the covering range of its
request, each validated against an unchanged mapping with enough access, and no overlapping
invalidation admitted since its reservation. -/
structure PublishedFrom (pageSize : PageSize) (past : List PinEvent) (record : PinRecord) :
    Prop where
  covering : covering record.request.range pageSize = .ok record.range
  tiles : Tiles pageSize record.range.start record.range.stop
    ((segments record.token past).map (·.covered))
  valid : ∀ segment ∈ segments record.token past,
    segment.Valid pageSize record.request record.snapshot.addressSpace
  fenced : ∃ before after,
    past = before ++ .reserved record.token record.request record.snapshot.addressSpace :: after ∧
    ∀ invalidation, .admitted invalidation ∈ after → invalidation.range.pageSize = pageSize →
      invalidation.expected.addressSpace = record.snapshot.addressSpace →
      ∀ address, record.range.Covers address → ¬ invalidation.range.Covers address

/-- The commit hands out the token of the reservation: the reserved record of this token
becomes active, and nothing else changes. -/
def Publishes (past : List PinEvent) (r : PinRegistry) (reservation : PinReservation)
    (token : PinToken) : Prop :=
  token = reservation.token ∧ ∃ i record, r.records[i]? = some (some record) ∧
    record.token = token ∧ record.state = .reserved ∧ PublishedFrom r.pageSize past record ∧
    (r.commit reservation).2 =
      { r with records := r.records.set i (some { record with state := .active }) }

/-- One token was handed out before another. -/
def ReservedBefore (past : List PinEvent) (a b : PinToken) : Prop :=
  [a, b].Sublist (past.filterMap PinEvent.reserved?)

theorem Trace.published (h : Trace past r) (ha : Accounted r) (hmem : record ∈ r.live)
    (hstate : record.state = .reserved) (hcomplete : record.validatedUntil = record.range.stop) :
    PublishedFrom r.pageSize past record := by
  have hsound := ha.sound record hmem
  have htraced := h.traced record hmem
  obtain ⟨before, after, hpast, hclear⟩ := htraced.reserved
  refine ⟨hsound.covering, hcomplete ▸ htraced.tiles, htraced.valid, before, after, hpast, ?_⟩
  intro invalidation hadm hsize hspace address hcovers hcovers'
  have hno := hclear hstate invalidation hadm hspace
  have hyes := overlaps_iff.mpr
    ⟨hsound.pageSize_eq.trans hsize.symm, address, hcovers, hcovers'⟩
  rw [hno] at hyes
  cases hyes

theorem Trace.publishes (h : Trace past r) (ha : Accounted r)
    (hcom : (r.commit reservation).1 = .ok token) : Publishes past r reservation token := by
  have hmove : Move r _ (.of .committed (r.commit reservation).1) (r.commit reservation).2 :=
    r.move_commit reservation
  rw [hcom] at hmove
  unfold Publishes
  generalize (r.commit reservation).2 = r' at hmove ⊢
  cases hmove with
  | @commit i record _ hslot htoken hstate hcomplete =>
    exact ⟨htoken, i, record, hslot, rfl, hstate,
      h.published ha (Lib.mem_live_of_getElem? hslot) hstate hcomplete, rfl⟩
  | removed why => cases why

theorem pair_sublist {α : Type} {a b : α} (hne : a ≠ b) : ∀ {l : List α}, a ∈ l → b ∈ l →
    [a, b].Sublist l ∨ [b, a].Sublist l
  | x :: l, ha, hb => by
    rcases mem_cons.mp ha with rfl | ha'
    · rcases mem_cons.mp hb with rfl | hb'
      · exact absurd rfl hne
      · exact .inl ((singleton_sublist.mpr hb').cons_cons a)
    · rcases mem_cons.mp hb with rfl | hb'
      · exact .inr ((singleton_sublist.mpr ha').cons_cons b)
      · exact (pair_sublist hne ha' hb').imp (·.cons x) (·.cons x)

theorem Trace.reservedBefore (h : Trace past r) (ha : Accounted r) {a b : PinRecord}
    (hmema : a ∈ r.live) (hmemb : b ∈ r.live) (hne : a ≠ b) :
    ReservedBefore past a.token b.token ∨ ReservedBefore past b.token a.token := by
  have hres : ∀ record ∈ r.live, record.token ∈ past.filterMap PinEvent.reserved? := by
    intro record hmem
    obtain ⟨before, after, hpast, -⟩ := (h.traced record hmem).reserved
    refine mem_filterMap.mpr
      ⟨.reserved record.token record.request record.snapshot.addressSpace, ?_, rfl⟩
    rw [hpast]
    exact mem_append_right _ mem_cons_self
  refine pair_sublist ?_ (hres a hmema) (hres b hmemb)
  intro heq
  exact hne (inj_on_of_nodup_map ha.balanced.tokens hmema hmemb heq)

/-- In every run, a commit succeeds only on a reservation whose range was revalidated in
full, segment by segment, with no overlapping invalidation of the registry's page size
admitted since, and it is the record of this reservation that it makes active; and of two
overlapping live records of one address space, one of them a write pin, the one reserved
earlier is an active long-term pin. -/
theorem run_pin_publication {ownerCapacity tokenCapacity pageSize firstToken : Nat}
    {quota : PinQuota} {r₀ : PinRegistry} (hcap : tokenCapacity < 2 ^ 64)
    (hnew : new ownerCapacity tokenCapacity pageSize quota firstToken = .ok r₀)
    (calls : List PinCall) :
    let past := Lib.events PinRegistry.call PinEvent.ofCall r₀ calls
    let r := Lib.run PinRegistry.call r₀ calls
    (∀ reservation token, (r.commit reservation).1 = .ok token →
      Publishes past r reservation token) ∧
    ∀ a ∈ r.live, ∀ b ∈ r.live, a ≠ b →
      a.snapshot.addressSpace = b.snapshot.addressSpace →
      (∃ address, a.range.Covers address ∧ b.range.Covers address) →
      (a.request.access = .write ∨ b.request.access = .write) →
      (ReservedBefore past a.token b.token ∨ ReservedBefore past b.token a.token) ∧
      (ReservedBefore past a.token b.token →
        a.state = .active ∧ a.request.duration = .longTerm) := by
  intro past r
  obtain ⟨h, htrace⟩ := run_trace hcap hnew calls
  refine ⟨fun reservation token hcommit => htrace.publishes h hcommit, ?_⟩
  intro a hmema b hmemb hne hspace hshared hwrite
  refine ⟨htrace.reservedBefore h hmema hmemb hne, ?_⟩
  intro hbefore
  -- tokens are handed out in increasing order
  have horder : a.token.raw.val < b.token.raw.val :=
    rel_of_pairwise_cons (htrace.order.sublist hbefore) mem_cons_self
  have hoverlap : a.range.overlaps b.range = true := overlaps_iff.mpr
    ⟨(h.sound a hmema).pageSize_eq.trans (h.sound b hmemb).pageSize_eq.symm, hshared⟩
  have hfences := htrace.separate a hmema b hmemb horder hspace hoverlap hwrite
  rw [PinRecord.fencesMutation, Bool.or_eq_false_iff, beq_eq_false_iff_ne] at hfences
  constructor
  · cases hstate : a.state with
    | reserved => exact absurd hstate hfences.1
    | active => rfl
  · simpa using hfences.2

/-- A readable mapping of the page at `0x1000`. -/
def smallMapping : MappingSnapshot where
  addressSpace := ⟨NonZeroU64.one⟩
  mapping := ⟨NonZeroU64.one⟩
  generation := ⟨NonZeroU64.one⟩
  range := ⟨⟨0x1000, 0x2000, by decide, by decide⟩, smallPins.pageSize, by decide, by decide⟩
  access := ⟨true, false, false⟩
  kind := .anonymousPrivate
  longTermPinnable := false
  writableFilePinSupported := false

/-- The one segment of the small request. -/
def validateSmall : List PinCall :=
  reserveSmall ++
    [.revalidateNext ⟨⟨NonZeroU64.one⟩⟩ smallMapping.expected smallMapping smallMapping.range]

theorem run_pin_publication_small :
    let r := Lib.run PinRegistry.call smallPins validateSmall
    (r.commit ⟨⟨NonZeroU64.one⟩⟩).1 = .ok ⟨NonZeroU64.one⟩ ∧
      Publishes (Lib.events PinRegistry.call PinEvent.ofCall smallPins validateSmall) r
        ⟨⟨NonZeroU64.one⟩⟩ ⟨NonZeroU64.one⟩ :=
  ⟨by decide +kernel, (run_pin_publication (by decide) new_smallPins validateSmall).1
    ⟨⟨NonZeroU64.one⟩⟩ _ (by decide +kernel)⟩

/-! ## The mutation fence -/

/-- No reservation and no short-lived pin of the address space has a byte of the range. -/
def Clear (r : PinRegistry) (invalidation : InvalidationRange) : Prop :=
  ∀ record ∈ r.live, record.snapshot.addressSpace = invalidation.expected.addressSpace →
    (record.state = .reserved ∨ record.request.duration ≠ .longTerm) →
    ∀ address, invalidation.range.Covers address → ¬ record.range.Covers address

theorem admitMutation_eq_ok :
    r.admitMutation invalidation = .ok () ↔ r.firstMutationBlocker invalidation = none := by
  unfold admitMutation
  cases r.firstMutationBlocker invalidation <;> simp

/-- Among ranges of one page size the fence is a comparison of bytes. -/
theorem clear_of_admitted (h : Accounted r) (hsize : invalidation.range.pageSize = r.pageSize)
    (hadmitted : r.admitMutation invalidation = .ok ()) : r.Clear invalidation := by
  intro record hmem hspace hfences address hcovers hcovers'
  have hfence : record.fencesMutation = true := by
    unfold PinRecord.fencesMutation
    rcases hfences with hstate | hduration
    · simp [hstate]
    · simp [hduration]
  have hno := firstMutationBlocker_eq_none.mp (admitMutation_eq_ok.mp hadmitted) record hmem
    hfence hspace
  have hyes := overlaps_iff.mpr
    ⟨(h.sound record hmem).pageSize_eq.trans hsize.symm, address, hcovers', hcovers⟩
  rw [hno] at hyes
  cases hyes

/-- Ranges of different page sizes never overlap for the registry, whatever they cover. -/
theorem admitted_of_pageSize_ne (h : Accounted r)
    (hsize : invalidation.range.pageSize ≠ r.pageSize) :
    r.admitMutation invalidation = .ok () := by
  refine admitMutation_eq_ok.mpr (firstMutationBlocker_eq_none.mpr ?_)
  intro record hmem _ _
  refine Bool.eq_false_iff.mpr fun hyes => hsize ?_
  exact (overlaps_iff.mp hyes).1.symm.trans (h.sound record hmem).pageSize_eq

/-- In every reachable registry an admitted invalidation touches no byte of a reservation or
of a short-lived pin exactly if it has the registry's page size or there is no such byte:
an invalidation of another page size is always admitted. -/
theorem run_mutation_fence {ownerCapacity tokenCapacity pageSize firstToken : Nat}
    {quota : PinQuota} {r₀ : PinRegistry} (hcap : tokenCapacity < 2 ^ 64)
    (hnew : new ownerCapacity tokenCapacity pageSize quota firstToken = .ok r₀)
    (calls : List PinCall) (invalidation : InvalidationRange) :
    let r := Lib.run PinRegistry.call r₀ calls
    (r.admitMutation invalidation = .ok () → r.Clear invalidation) ↔
      invalidation.range.pageSize = r.pageSize ∨ r.Clear invalidation := by
  intro r
  obtain ⟨h, -⟩ := run_trace hcap hnew calls
  constructor
  · intro hfenced
    by_cases hsize : invalidation.range.pageSize = r.pageSize
    · exact .inl hsize
    · exact .inr (hfenced (admitted_of_pageSize_ne h hsize))
  · rintro (hsize | hclear) hadmitted
    · exact clear_of_admitted h hsize hadmitted
    · exact hclear

/-- The page after the reserved one. -/
def nextPage : InvalidationRange where
  expected := { smallMapping.expected with
    range := ⟨⟨0x1000, 0x3000, by decide, by decide⟩, smallPins.pageSize, by decide, by decide⟩ }
  range := ⟨⟨0x2000, 0x3000, by decide, by decide⟩, smallPins.pageSize, by decide, by decide⟩
  reason := .unmap
  contained := by decide

theorem run_mutation_fence_next :
    let r := Lib.run PinRegistry.call smallPins reserveSmall
    r.admitMutation nextPage = .ok () ∧ r.Clear nextPage :=
  ⟨by decide +kernel, (run_mutation_fence (by decide) new_smallPins reserveSmall nextPage).mpr
    (.inl (by decide +kernel)) (by decide +kernel)⟩

/-- The first two megabytes, as one huge page of the same address space. -/
def hugePage : InvalidationRange where
  expected := { smallMapping.expected with
    range := ⟨⟨0, 0x200000, by decide, by decide⟩, ⟨0x200000, by decide, by decide⟩, by decide, by decide⟩ }
  range := ⟨⟨0, 0x200000, by decide, by decide⟩, ⟨0x200000, by decide, by decide⟩, by decide, by decide⟩
  reason := .unmap
  contained := by decide

/-- The registry compares ranges of one page size only: unmapping a huge page is admitted
although it covers the reserved byte. -/
theorem huge_page_not_fenced :
    (Lib.run PinRegistry.call smallPins reserveSmall).admitMutation hugePage = .ok () ∧
      ∃ record ∈ (Lib.run PinRegistry.call smallPins reserveSmall).live,
        record.snapshot.addressSpace = hugePage.expected.addressSpace ∧
        record.state = .reserved ∧ hugePage.range.Covers 0x1800 ∧ record.range.Covers 0x1800 := by
  refine ⟨by decide +kernel, ?_⟩
  refine ⟨(Lib.run PinRegistry.call smallPins reserveSmall).live.head (by decide +kernel),
    head_mem _, by decide +kernel, by decide +kernel, by decide +kernel, by decide +kernel⟩

end PinRegistry

end LinuxAbi.Mm
