import LinuxAbi.Lib.Hull
import LinuxAbi.Lib.Outcome
import LinuxAbi.Mm.Uffd

/-!
# The registration delta

The planner of `UFFDIO_REGISTER` in `crates/mm/src/userfaultfd.rs`: for every VMA under the
requested range it computes the one registration that range and the handler's registrations
around it fold into, and which records that registration replaces.

Mirroring notes:
- `records.iter().flatten()` is the argument `records`, in slot order.
- The folding loop is `foldLoop`, and its body `foldPass`. A pass never shrinks the range and
  the range ends below `2 ^ 64`, which is why the loop ends (`foldPass_grows`).
- The planner counts what the replay emits; the two loops are kept apart as in the source. The
  callbacks of the replay are the two lists it returns.
-/

namespace LinuxAbi.Mm

open PageRange
open Lib (Span bind_eq_ok)

/-- The interval of a page range. -/
def PageRange.span (r : PageRange) : Span := ⟨r.start, r.stop, r.range.nonempty⟩

/-- A page range is its interval and its page size. -/
theorem PageRange.ext_span {r r' : PageRange} (hspan : r.span = r'.span)
    (hsize : r.pageSize = r'.pageSize) : r = r' := by
  obtain ⟨⟨start', stop', _, _⟩, pageSize', _, _⟩ := r'
  cases hsize
  cases hspan
  rfl

/-! ## Folding -/

/-- `UffdRegistrationTable::registration_folds_into`. -/
def registrationFoldsInto (intent : UffdRegistrationIntent) (snapshot : MappingSnapshot)
    (desired : PageRange) (registration : UffdRegistration) : Except MmError Bool :=
  if registration.addressSpace ≠ snapshot.addressSpace ∨ registration.handler ≠ intent.handler
      ∨ registration.mode ≠ intent.mode ∨ ¬ rangesTouch registration.range desired
      ∨ ¬ rangesOverlap registration.range snapshot.range then .ok false
  else do
    registration.revalidate snapshot
    return true

/-- The record belongs to the intent's handler and lies, in part, in the VMA. -/
structure Owned (intent : UffdRegistrationIntent) (snapshot : MappingSnapshot)
    (r : UffdRegistration) : Prop where
  addressSpace : r.addressSpace = snapshot.addressSpace
  handler : r.handler = intent.handler
  mode : r.mode = intent.mode
  pageSize : r.range.pageSize = snapshot.range.pageSize
  overlap : rangesOverlap r.range snapshot.range = true

/-- The record is current: it names the mapping as it is and lies inside it. -/
structure Current (snapshot : MappingSnapshot) (r : UffdRegistration) : Prop where
  addressSpace : r.addressSpace = snapshot.addressSpace
  mapping : r.request.mapping = snapshot.mapping
  generation : r.request.generation = snapshot.generation
  kind : snapshot.kind = .anonymousPrivate
  pageSize : snapshot.range.pageSize = r.range.pageSize
  within : r.range.span.Within snapshot.range.span

variable {snapshot : MappingSnapshot}

theorem revalidate_eq_ok : r.revalidate snapshot = .ok () ↔ Current snapshot r := by
  unfold UffdRegistration.revalidate
  constructor
  · intro h
    split at h
    · cases h
    next hsame =>
    split at h
    · cases h
    next hkind =>
    split at h
    · cases h
    next hcont =>
    rw [not_or, not_or, not_not, not_not, not_not] at hsame
    rw [not_not] at hkind hcont
    obtain ⟨hsize, hwin⟩ := contains_iff.mp hcont
    exact ⟨hsame.1, hsame.2.1, hsame.2.2, hkind, hsize, hwin⟩
  · intro h
    have hcont := contains_iff.mpr ⟨h.pageSize, h.within⟩
    rw [if_neg, if_neg (not_not.mpr h.kind), if_neg (not_not.mpr hcont)]
    rw [not_or, not_or, not_not, not_not, not_not]
    exact ⟨h.addressSpace, h.mapping, h.generation⟩

theorem rangesTouch_iff : rangesTouch left right = true ↔
    left.pageSize = right.pageSize ∧ left.span.Touches right.span := by
  unfold rangesTouch
  simp [Span.Touches, span, and_assoc]

/-- Whether a record folds: it is owned, and it touches. A record that folds is current. -/
theorem registrationFoldsInto_eq_ok
    (hsize : desired.pageSize = snapshot.range.pageSize) :
    registrationFoldsInto intent snapshot desired r = .ok folds ↔
      (folds = true ↔ Owned intent snapshot r ∧ r.range.span.Touches desired.span)
        ∧ (folds = true → Current snapshot r) := by
  unfold registrationFoldsInto
  by_cases hfolds : Owned intent snapshot r ∧ r.range.span.Touches desired.span
  · obtain ⟨howned, htch⟩ := hfolds
    have htouch : rangesTouch r.range desired = true :=
      rangesTouch_iff.mpr ⟨howned.pageSize.trans hsize.symm, htch⟩
    rw [if_neg (by simp [howned.addressSpace, howned.handler, howned.mode, htouch, howned.overlap])]
    constructor
    · intro h
      obtain ⟨_, hval, h⟩ := bind_eq_ok.mp h
      cases h
      exact ⟨⟨fun _ => ⟨howned, htch⟩, fun _ => rfl⟩, fun _ => revalidate_eq_ok.mp hval⟩
    · rintro ⟨hiff, hcur⟩
      have htrue := hiff.mpr ⟨howned, htch⟩
      rw [revalidate_eq_ok.mpr (hcur htrue), htrue]
      rfl
  · rw [if_pos]
    · constructor
      · intro h
        cases h
        exact ⟨⟨fun h => (nomatch h), fun h => absurd h hfolds⟩, fun h => (nomatch h)⟩
      · rintro ⟨hiff, -⟩
        rw [Bool.eq_false_iff.mpr fun htrue => hfolds (hiff.mp htrue)]
    · by_contra hno
      simp only [not_or, not_not] at hno
      obtain ⟨hspace, hhdl, hmode, htouch, hover⟩ := hno
      obtain ⟨htsize, htch⟩ := rangesTouch_iff.mp htouch
      exact hfolds ⟨⟨hspace, hhdl, hmode, htsize.trans hsize, hover⟩, htch⟩

/-- One pass of the folding loop of `canonical_register_delta`. -/
def foldPass (intent : UffdRegistrationIntent) (snapshot : MappingSnapshot) :
    PageRange → List UffdRegistration → Except MmError PageRange
  | desired, [] => .ok desired
  | desired, registration :: rest => do
    let folds ← registrationFoldsInto intent snapshot desired registration
    if folds then do
      let start := min desired.start registration.range.start
      let stop := max desired.stop registration.range.stop
      let desired ← withPageSize start (stop - start) snapshot.range.pageSize
      foldPass intent snapshot desired rest
    else foldPass intent snapshot desired rest

/-- A pass keeps the page size and never shrinks the range. -/
theorem foldPass_grows : ∀ {records : List UffdRegistration} {desired after : PageRange},
      foldPass intent snapshot desired records = .ok after →
        after.pageSize = desired.pageSize ∧ desired.span.Within after.span
  | [], desired, after, h => by
    cases h
    exact ⟨rfl, Span.Within.refl _⟩
  | r :: records, desired, after, h => by
    unfold foldPass at h
    obtain ⟨folds, hfolds, h⟩ := bind_eq_ok.mp h
    cases folds with
    | false => exact foldPass_grows h
    | true =>
      obtain ⟨joined, hjoined, h⟩ := bind_eq_ok.mp h
      obtain ⟨hsize, hwin⟩ := foldPass_grows h
      obtain ⟨hjsize, hjstart, hjstop⟩ := withPageSize_eq_ok hjoined
      -- the record touches the range and is current, so all three page sizes agree
      unfold registrationFoldsInto at hfolds
      split at hfolds
      · cases hfolds
      next hno =>
      simp only [not_or, not_not, ne_eq] at hno
      obtain ⟨_, hval, -⟩ := bind_eq_ok.mp hfolds
      have hcur := revalidate_eq_ok.mp hval
      have htouch := (rangesTouch_iff.mp hno.2.2.2.1).1
      have hlt : desired.start < desired.stop := desired.range.nonempty
      refine ⟨?_, Span.Within.trans ⟨?_, ?_⟩ hwin⟩
      · rw [hsize, hjsize, hcur.pageSize, htouch]
      · show joined.start ≤ desired.start
        omega
      · show desired.stop ≤ joined.stop
        omega

/-- The folding loop of `canonical_register_delta`. -/
def foldLoop (records : List UffdRegistration) (intent : UffdRegistrationIntent)
    (snapshot : MappingSnapshot) (desired : PageRange) : Except MmError PageRange :=
  match _hpass : foldPass intent snapshot desired records with
  | .error e => .error e
  | .ok after =>
    if _hsame : after = desired then .ok desired else foldLoop records intent snapshot after
termination_by desired.start + (2 ^ 64 - desired.stop)
decreasing_by
  obtain ⟨hsize, hwithin⟩ := foldPass_grows _hpass
  have hlt : after.stop < 2 ^ 64 := after.range.lt
  have hne : ¬ (desired.start = after.start ∧ desired.stop = after.stop) := by
    rintro ⟨hstart, hstop⟩
    refine _hsame (ext_span (Span.ext_iff'.mpr ⟨?_, hwithin⟩) hsize)
    exact ⟨Nat.le_of_eq hstart, Nat.le_of_eq hstop.symm⟩
  obtain ⟨hle, hle'⟩ : after.start ≤ desired.start ∧ desired.stop ≤ after.stop := hwithin
  omega

/-! ## One VMA -/

structure CanonicalRegistrationDelta where
  desired : UffdRegistrationRequest
  noOp : Bool

/-- The first loop of `canonical_register_delta`: what lies under the target is the handler's
own, and current. -/
def checkTarget (intent : UffdRegistrationIntent) (snapshot : MappingSnapshot)
    (target : PageRange) : List UffdRegistration → Except MmError Unit
  | [] => .ok ()
  | registration :: rest =>
    if registration.addressSpace = snapshot.addressSpace
        ∧ rangesOverlap registration.range target then do
      registration.revalidate snapshot
      if registration.handler ≠ intent.handler then .error .busy
      else checkTarget intent snapshot target rest
    else checkTarget intent snapshot target rest

/-- The last loop of `canonical_register_delta`: `connected` and `exact`. -/
def countConnected (intent : UffdRegistrationIntent) (snapshot : MappingSnapshot)
    (desired : UffdRegistrationRequest) :
    Nat → Bool → List UffdRegistration → Except MmError (Nat × Bool)
  | connected, exact, [] => .ok (connected, exact)
  | connected, exact, registration :: rest => do
    let folds ← registrationFoldsInto intent snapshot desired.range registration
    if folds then
      countConnected intent snapshot desired (connected + 1)
        (exact || registration.request = desired) rest
    else countConnected intent snapshot desired connected exact rest

namespace UffdRegistrationTable

def canonicalRegisterDelta (t : UffdRegistrationTable) (intent : UffdRegistrationIntent)
    (snapshot : MappingSnapshot) : Except MmError CanonicalRegistrationDelta :=
  match pageRangeIntersection intent.range snapshot.range with
  | none => .error .rangeNotMapped
  | some target => do
    checkTarget intent snapshot target t.live
    let range ← foldLoop t.live intent snapshot target
    let desired ← UffdRegistrationRequest.new intent.handler snapshot range intent.mode
    let (connected, exact) ← countConnected intent snapshot desired 0 false t.live
    return { desired, noOp := connected = 1 && exact }

/-! ## All VMAs -/

/-- The loop of `validate_vma_profile`. -/
def validateVmas (range : PageRange) (addressSpace : AddressSpaceId) :
    Option Nat → List MappingSnapshot → Except MmError Unit
  | _, [] => .ok ()
  | previousEnd, snapshot :: rest =>
    if snapshot.addressSpace ≠ addressSpace ∨ snapshot.kind ≠ .anonymousPrivate
        ∨ snapshot.range.pageSize ≠ range.pageSize
        ∨ previousEnd.any (fun stop => snapshot.range.start < stop)
        ∨ pageRangeIntersection range snapshot.range = none then
      .error .invalidUffdRegistrationBatch
    else validateVmas range addressSpace (some snapshot.range.stop) rest

def validateVmaProfile (range : PageRange) (vmas : List MappingSnapshot) :
    Except MmError AddressSpaceId :=
  match vmas with
  | [] => .error .rangeNotMapped
  | first :: _ => do
    validateVmas range first.addressSpace none vmas
    return first.addressSpace

/-- The inner loop of `plan_register_delta`: it counts the records that fold. -/
def countFolded (intent : UffdRegistrationIntent) (snapshot : MappingSnapshot)
    (desired : PageRange) : Nat → List UffdRegistration → Except MmError Nat
  | removed, [] => .ok removed
  | removed, registration :: rest => do
    let folds ← registrationFoldsInto intent snapshot desired registration
    if folds then countFolded intent snapshot desired (removed + 1) rest
    else countFolded intent snapshot desired removed rest

/-- The loop of `plan_register_delta`. -/
def planVmas (t : UffdRegistrationTable) (intent : UffdRegistrationIntent) :
    Nat → Nat → List MappingSnapshot → Except MmError (Nat × Nat)
  | removed, replacements, [] => .ok (removed, replacements)
  | removed, replacements, snapshot :: rest => do
    let delta ← t.canonicalRegisterDelta intent snapshot
    if delta.noOp then planVmas t intent removed replacements rest
    else do
      let removed ← countFolded intent snapshot delta.desired.range removed t.live
      planVmas t intent removed (replacements + 1) rest

def planRegisterDelta (t : UffdRegistrationTable) (intent : UffdRegistrationIntent)
    (vmas : List MappingSnapshot) : Except MmError UffdRegistrationDeltaPlan := do
  let _ ← validateVmaProfile intent.range vmas
  let (removed, replacements) ← t.planVmas intent 0 0 vmas
  if t.live.length < removed then .error .inconsistentAccounting
  else
    let retained := t.live.length - removed
    if t.records.length < retained then .error .inconsistentAccounting
    else if replacements > t.records.length - retained then .error .capacityExceeded
    else do
      let nextIdAfter ← advanceRegistrationIds t.nextId replacements
      if replacements ≠ 0 ∧ t.revision = maxRevision then .error .idExhausted
      else return { revision := t.revision, removed, replacements, nextIdAfter }

def preflightRegisterDelta (t : UffdRegistrationTable) (api : UffdApiLifecycle)
    (intent : UffdRegistrationIntent) (vmas : List MappingSnapshot) :
    Except MmError UffdRegistrationDeltaPlan := do
  requireInitialized api
  t.planRegisterDelta intent vmas

/-- The inner loop of `replay_register_delta`: it emits the records that fold. -/
def emitFolded (intent : UffdRegistrationIntent) (snapshot : MappingSnapshot)
    (desired : PageRange) : List UffdRegistration → Except MmError (List UffdRegistrationId)
  | [] => .ok []
  | registration :: rest => do
    let folds ← registrationFoldsInto intent snapshot desired registration
    let emitted ← emitFolded intent snapshot desired rest
    return if folds then registration.id :: emitted else emitted

/-- The loop of `replay_register_delta`. -/
def replayVmas (t : UffdRegistrationTable) (intent : UffdRegistrationIntent) :
    List MappingSnapshot → Except MmError (List UffdRegistrationId × List UffdRegistrationRequest)
  | [] => .ok ([], [])
  | snapshot :: rest => do
    let delta ← t.canonicalRegisterDelta intent snapshot
    if delta.noOp then replayVmas t intent rest
    else do
      let folded ← emitFolded intent snapshot delta.desired.range t.live
      let (removed, requests) ← replayVmas t intent rest
      return (folded ++ removed, delta.desired :: requests)

def replayRegisterDelta (t : UffdRegistrationTable) (plan : UffdRegistrationDeltaPlan)
    (intent : UffdRegistrationIntent) (vmas : List MappingSnapshot) :
    Except MmError (List UffdRegistrationId × List UffdRegistrationRequest) :=
  if t.revision ≠ plan.revision then .error .staleGeneration
  else do
    let current ← t.planRegisterDelta intent vmas
    if current ≠ plan then .error .staleGeneration else t.replayVmas intent vmas

/-- The submission `replay_register_delta` documents for its caller: a plain batch when no
record is removed, a replacement batch else. -/
def submitDelta (t : UffdRegistrationTable) (api : UffdApiLifecycle)
    (removed : List UffdRegistrationId) (requests : List UffdRegistrationRequest) :
    Option (CommitReply × UffdRegistrationTable) :=
  if removed = [] then t.registerBatch api requests else t.replaceBatch api removed requests

end UffdRegistrationTable

end LinuxAbi.Mm
