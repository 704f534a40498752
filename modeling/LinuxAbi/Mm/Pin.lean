import LinuxAbi.Lib.Run
import LinuxAbi.Lib.Slots
import LinuxAbi.Mm.Mapping

/-!
# The pin registry

`PinRegistry` of `crates/mm/src/pin.rs`: a fixed table of owner accounts, a fixed table of
reservations and active pins, and the life cycle of the registry. The two capacities are the
lengths of the tables.

Mirroring notes:
- A method on `&mut self` is a function to its result and the registry it leaves, also when
  the result is an error: what was written before the error stays written.
- `expect("located record")` and `expect("located owner")` read the slot that was found just
  before; `locate` gives the slot and the row at once.
- The registry takes no lock and makes no callback; its runs are sequences of calls.
-/

namespace LinuxAbi.Mm

open Lib (NonZeroU64 locate firstFree)

/-! ## Requests, quotas and charges -/

inductive PinAccess
  | read
  | write
deriving DecidableEq

inductive PinDuration
  | synchronous
  | asyncIo
  | longTerm
deriving DecidableEq

inductive PinUse
  | userCopy
  | blockIo
  | networkIo
  | dma
  | other
deriving DecidableEq

structure PinRequest where
  range : UserRange
  access : PinAccess
  duration : PinDuration
  useKind : PinUse
  owner : PinOwner
deriving DecidableEq

@[ext] structure PinAccounting where
  pages : Nat
  bytes : Nat
  tokens : Nat
deriving DecidableEq

structure PinQuota where
  maxPages : Nat
  maxBytes : Nat
  maxTokens : Nat

def PinQuota.admits (q : PinQuota) (accounting : PinAccounting) : Bool :=
  accounting.pages ≤ q.maxPages && accounting.bytes ≤ q.maxBytes && accounting.tokens ≤ q.maxTokens

namespace PinAccounting

instance : Zero PinAccounting := ⟨0, 0, 0⟩

instance : Add PinAccounting := ⟨fun a b => ⟨a.pages + b.pages, a.bytes + b.bytes, a.tokens + b.tokens⟩⟩

/-- `u64::checked_add`. -/
def checkedAddWord (a b : Nat) : Except MmError Nat :=
  if a + b < 2 ^ 64 then .ok (a + b) else .error .overflow

/-- `u64::checked_sub`. -/
def checkedSubWord (a b : Nat) : Except MmError Nat := if b ≤ a then .ok (a - b) else .error .overflow

def checkedAdd (a charge : PinAccounting) : Except MmError PinAccounting := do
  let pages ← checkedAddWord a.pages charge.pages
  let bytes ← checkedAddWord a.bytes charge.bytes
  let tokens ← checkedAddWord a.tokens charge.tokens
  return ⟨pages, bytes, tokens⟩

def checkedSub (a charge : PinAccounting) : Except MmError PinAccounting := do
  let pages ← checkedSubWord a.pages charge.pages
  let bytes ← checkedSubWord a.bytes charge.bytes
  let tokens ← checkedSubWord a.tokens charge.tokens
  return ⟨pages, bytes, tokens⟩

/-- `PinAccounting::for_range`; a `usize` always fits. -/
def forRange (range : PageRange) : PinAccounting := ⟨range.pageCount, range.len, 1⟩

end PinAccounting

/-! ## Records -/

structure PinToken where
  raw : NonZeroU64
deriving DecidableEq

structure PinReservation where
  token : PinToken

inductive RecordState
  | reserved
  | active
deriving DecidableEq

structure PinSnapshot where
  addressSpace : AddressSpaceId
  range : PageRange
deriving DecidableEq

structure PinRecord where
  token : PinToken
  request : PinRequest
  range : PageRange
  snapshot : PinSnapshot
  validatedUntil : Nat
  validatedMappings : Nat
  charge : PinAccounting
  state : RecordState
deriving DecidableEq

/-- A reservation or a short-lived pin: what stands in the way of a mutation. -/
def PinRecord.fencesMutation (record : PinRecord) : Bool :=
  record.state == .reserved || record.request.duration != .longTerm

structure OwnerAccount where
  owner : PinOwner
  quota : PinQuota
  usage : PinAccounting

inductive PinRegistryState
  | open
  | closing
  | tearingDown
  | closed
deriving DecidableEq

structure LifecycleProgress where
  active : Nat
  reserved : Nat

structure TeardownReport where
  cancelledReservations : Nat
  activeRemaining : Nat

structure PinRegistry where
  pageSize : PageSize
  globalQuota : PinQuota
  globalUsage : PinAccounting
  owners : List (Option OwnerAccount)
  records : List (Option PinRecord)
  nextToken : Option NonZeroU64
  state : PinRegistryState

namespace PinRegistry

def new (ownerCapacity tokenCapacity pageSize : Nat) (globalQuota : PinQuota) (firstToken : Nat) :
    Except MmError PinRegistry :=
  match PageSize.new pageSize with
  | .error error => .error error
  | .ok pageSize =>
    if h : 0 < firstToken ∧ firstToken < 2 ^ 64 then
      .ok {
        pageSize, globalQuota, globalUsage := 0
        owners := List.replicate ownerCapacity none
        records := List.replicate tokenCapacity none
        nextToken := some ⟨firstToken, h.1, h.2⟩
        state := .open }
    else .error .invalidIdentity

variable (r : PinRegistry)

/-! ## Lookups -/

def ensureOpen : Except MmError Unit :=
  match r.state with
  | .open => .ok ()
  | .closing => .error .closing
  | .tearingDown => .error .tearingDown
  | .closed => .error .closed

/-- `PinRegistry::owner_index`, with the account found. -/
def ownerIndex (owner : PinOwner) : Option (Nat × OwnerAccount) :=
  locate (fun account => account.owner == owner) r.owners

/-- `PinRegistry::record_index`, with the record found. -/
def recordIndex (token : PinToken) : Option (Nat × PinRecord) :=
  locate (fun record => record.token == token) r.records

/-- The live records: `records.iter().flatten()`. -/
def live : List PinRecord := r.records.reduceOption

def activeCount : Nat := r.live.countP fun record => record.state == .active

def reservedCount : Nat := r.live.countP fun record => record.state == .reserved

def progress : LifecycleProgress := { active := r.activeCount, reserved := r.reservedCount }

def firstMutationBlocker (invalidation : InvalidationRange) : Option PinRecord :=
  r.live.find? fun record => record.fencesMutation &&
    record.snapshot.addressSpace == invalidation.expected.addressSpace &&
    record.range.overlaps invalidation.range

def admitMutation (invalidation : InvalidationRange) : Except MmError Unit :=
  if (r.firstMutationBlocker invalidation).isSome then .error .mappingPinned else .ok ()

def validateMapping (request : PinRequest) (range : PageRange) (snapshot : MappingSnapshot) :
    Except MmError Unit :=
  if snapshot.range.pageSize ≠ r.pageSize ∨ ¬ snapshot.range.contains range then
    .error .rangeNotMapped
  else if request.access = .read ∧ ¬ snapshot.access.readable then .error .accessDenied
  else if request.access = .write ∧ ¬ snapshot.access.writable then .error .accessDenied
  else if request.duration = .longTerm ∧ ¬ snapshot.longTermPinnable then .error .unsupportedPin
  else if request.useKind = .dma ∧ request.duration ≠ .longTerm then .error .unsupportedPin
  else if request.duration = .longTerm ∧ request.access = .write ∧ snapshot.kind = .fileShared ∧
      ¬ snapshot.writableFilePinSupported then .error .unsupportedPin
  else if (snapshot.kind = .device ∨ snapshot.kind = .special) ∧ request.duration = .longTerm then
    .error .unsupportedPin
  else .ok ()

def validateOverlap (request : PinRequest) (range : PageRange) (addressSpace : AddressSpaceId) :
    Except MmError Unit :=
  if r.live.any fun record => record.snapshot.addressSpace == addressSpace &&
      record.range.overlaps range &&
      (record.request.access == .write || request.access == .write) && record.fencesMutation then
    .error .pinOverlap
  else .ok ()

/-! ## Owners -/

def configureOwner (owner : PinOwner) (quota : PinQuota) : Except MmError Unit × PinRegistry :=
  match r.ensureOpen with
  | .error error => (.error error, r)
  | .ok () =>
    match r.ownerIndex owner with
    | some (index, account) =>
      if quota.admits account.usage then
        (.ok (), { r with owners := r.owners.set index (some { account with quota }) })
      else (.error .ownerBusy, r)
    | none =>
      match firstFree r.owners with
      | none => (.error .capacityExceeded, r)
      | some index =>
        (.ok (), { r with owners := r.owners.set index (some { owner, quota, usage := 0 }) })

def removeOwner (owner : PinOwner) : Except MmError Unit × PinRegistry :=
  match r.ensureOpen with
  | .error error => (.error error, r)
  | .ok () =>
    match r.ownerIndex owner with
    | none => (.error .ownerNotConfigured, r)
    | some (index, account) =>
      if account.usage ≠ 0 then (.error .ownerBusy, r)
      else (.ok (), { r with owners := r.owners.set index none })

/-! ## Reservations and pins -/

def allocateToken : Except MmError (PinToken × Option NonZeroU64) :=
  match r.nextToken with
  | none => .error .idExhausted
  | some raw => .ok (⟨raw⟩, raw.checkedSucc)

def reserve (request : PinRequest) (addressSpace : AddressSpaceId) :
    Except MmError PinReservation × PinRegistry :=
  match r.ensureOpen with
  | .error error => (.error error, r)
  | .ok () =>
    match PageRange.covering request.range r.pageSize with
    | .error error => (.error error, r)
    | .ok range =>
      match r.validateOverlap request range addressSpace with
      | .error error => (.error error, r)
      | .ok () =>
        match r.ownerIndex request.owner with
        | none => (.error .ownerNotConfigured, r)
        | some (ownerIndex, owner) =>
          match firstFree r.records with
          | none => (.error .capacityExceeded, r)
          | some recordIndex =>
            let charge := PinAccounting.forRange range
            match owner.usage.checkedAdd charge with
            | .error error => (.error error, r)
            | .ok newOwnerUsage =>
              match r.globalUsage.checkedAdd charge with
              | .error error => (.error error, r)
              | .ok newGlobalUsage =>
                if ¬ owner.quota.admits newOwnerUsage ∨ ¬ r.globalQuota.admits newGlobalUsage then
                  (.error .quotaExceeded, r)
                else
                  match r.allocateToken with
                  | .error error => (.error error, r)
                  | .ok (token, nextToken) =>
                    (.ok { token }, { r with
                      nextToken
                      owners := r.owners.set ownerIndex (some { owner with usage := newOwnerUsage })
                      globalUsage := newGlobalUsage
                      records := r.records.set recordIndex (some {
                        token, request, range, snapshot := { addressSpace, range }
                        validatedUntil := range.start, validatedMappings := 0, charge
                        state := .reserved }) })

def removeRecord (index : Nat) : Except MmError Unit × PinRegistry :=
  match r.records[index]?.join with
  | none => (.error .unknownToken, r)
  | some record =>
    let r := { r with records := r.records.set index none }
    match r.ownerIndex record.request.owner with
    | none => (.error .ownerNotConfigured, r)
    | some (ownerIndex, owner) =>
      match owner.usage.checkedSub record.charge with
      | .error error => (.error error, r)
      | .ok usage =>
        let r := { r with owners := r.owners.set ownerIndex (some { owner with usage }) }
        match r.globalUsage.checkedSub record.charge with
        | .error error => (.error error, r)
        | .ok globalUsage => (.ok (), { r with globalUsage })

/-- The checks of `PinRegistry::revalidate_next` on one segment. -/
def validateSegment (record : PinRecord) (expected : ExpectedMapping) (current : MappingSnapshot)
    (covered : PageRange) : Except MmError Unit :=
  if covered.pageSize ≠ r.pageSize ∨ covered.start ≠ record.validatedUntil ∨
      ¬ record.range.contains covered then .error .nonContiguousCoverage
  else if expected.addressSpace ≠ record.snapshot.addressSpace then .error .staleGeneration
  else
    match expected.revalidateRange current covered with
    | .error error => .error error
    | .ok () => r.validateMapping record.request covered current

def revalidateNext (reservation : PinReservation) (expected : ExpectedMapping)
    (current : MappingSnapshot) (covered : PageRange) : Except MmError Unit × PinRegistry :=
  match r.recordIndex reservation.token with
  | none => (.error .unknownToken, r)
  | some (index, record) =>
    if record.state ≠ .reserved then (.error .invalidTokenState, r)
    else
      match r.validateSegment record expected current covered with
      | .error error =>
        match r.removeRecord index with
        | (.error error, r) => (.error error, r)
        | (.ok (), r) => (.error error, r)
      | .ok () =>
        let record := { record with validatedUntil := covered.stop }
        if record.validatedMappings + 1 < 2 ^ 64 then
          let record := { record with validatedMappings := record.validatedMappings + 1 }
          (.ok (), { r with records := r.records.set index (some record) })
        else (.error .overflow, { r with records := r.records.set index (some record) })

def commit (reservation : PinReservation) : Except MmError PinToken × PinRegistry :=
  match r.recordIndex reservation.token with
  | none => (.error .unknownToken, r)
  | some (index, record) =>
    if record.state ≠ .reserved then (.error .invalidTokenState, r)
    else if record.validatedUntil ≠ record.range.stop ∨ record.validatedMappings = 0 then
      (.error .incompleteRevalidation, r)
    else
      (.ok record.token,
        { r with records := r.records.set index (some { record with state := .active }) })

def cancelReservation (reservation : PinReservation) : Except MmError Unit × PinRegistry :=
  match r.recordIndex reservation.token with
  | none => (.error .unknownToken, r)
  | some (index, record) =>
    if record.state ≠ .reserved then (.error .invalidTokenState, r) else r.removeRecord index

def release (token : PinToken) : Except MmError Unit × PinRegistry :=
  match r.recordIndex token with
  | none => (.error .unknownToken, r)
  | some (index, record) =>
    if record.state ≠ .active then (.error .invalidTokenState, r) else r.removeRecord index

/-! ## Life cycle -/

def beginClose : Except MmError LifecycleProgress × PinRegistry :=
  match r.state with
  | .open => (.ok r.progress, { r with state := .closing })
  | .closing => (.ok r.progress, r)
  | .tearingDown => (.error .tearingDown, r)
  | .closed => (.error .closed, r)

/-- Whether a slot holds a reservation. -/
def isReservedAt (index : Nat) : Bool :=
  r.records[index]?.join.any fun record => record.state == .reserved

/-- The loop of `PinRegistry::begin_teardown` over the given slots. -/
def cancelAll (r : PinRegistry) : List Nat → Nat → Except MmError Nat × PinRegistry
  | [], cancelled => (.ok cancelled, r)
  | index :: rest, cancelled =>
    if r.isReservedAt index then
      match r.removeRecord index with
      | (.error error, r) => (.error error, r)
      | (.ok (), r) =>
        if cancelled + 1 < 2 ^ 64 then r.cancelAll rest (cancelled + 1) else (.error .overflow, r)
    else r.cancelAll rest cancelled

def beginTeardown : Except MmError TeardownReport × PinRegistry :=
  if r.state = .closed then (.error .closed, r)
  else
    match cancelAll { r with state := .tearingDown } (List.range r.records.length) 0 with
    | (.error error, r) => (.error error, r)
    | (.ok cancelled, r) =>
      (.ok { cancelledReservations := cancelled, activeRemaining := r.activeCount }, r)

def finishTeardown : Except MmError Unit × PinRegistry :=
  match r.state with
  | .open => (.error .busy, r)
  | .closed => (.ok (), r)
  | .closing | .tearingDown =>
    if r.progress.active + r.progress.reserved ≠ 0 then (.error .busy, r)
    else (.ok (), { r with state := .closed })

end PinRegistry

/-! ## Runs -/

/-- The public operations that can change a registry, and the mutation fence. -/
inductive PinCall
  | configureOwner (owner : PinOwner) (quota : PinQuota)
  | removeOwner (owner : PinOwner)
  | reserve (request : PinRequest) (addressSpace : AddressSpaceId)
  | revalidateNext (reservation : PinReservation) (expected : ExpectedMapping)
      (current : MappingSnapshot) (covered : PageRange)
  | commit (reservation : PinReservation)
  | cancelReservation (reservation : PinReservation)
  | release (token : PinToken)
  | admitMutation (invalidation : InvalidationRange)
  | beginClose
  | beginTeardown
  | finishTeardown

/-- What an operation returns. -/
inductive PinReply
  | done
  | reserved (reservation : PinReservation)
  | committed (token : PinToken)
  | progress (progress : LifecycleProgress)
  | report (report : TeardownReport)
  | failed (error : MmError)

/-- The reply for a result. -/
def PinReply.of {α : Type} (onOk : α → PinReply) : Except MmError α → PinReply
  | .ok a => onOk a
  | .error error => .failed error

/-- One operation. -/
def PinRegistry.call (r : PinRegistry) : PinCall → PinReply × PinRegistry
  | .configureOwner owner quota => (r.configureOwner owner quota).map (.of fun _ => .done) id
  | .removeOwner owner => (r.removeOwner owner).map (.of fun _ => .done) id
  | .reserve request addressSpace => (r.reserve request addressSpace).map (.of .reserved) id
  | .revalidateNext reservation expected current covered =>
    (r.revalidateNext reservation expected current covered).map (.of fun _ => .done) id
  | .commit reservation => (r.commit reservation).map (.of .committed) id
  | .cancelReservation reservation => (r.cancelReservation reservation).map (.of fun _ => .done) id
  | .release token => (r.release token).map (.of fun _ => .done) id
  | .admitMutation invalidation => (.of (fun _ => .done) (r.admitMutation invalidation), r)
  | .beginClose => r.beginClose.map (.of .progress) id
  | .beginTeardown => r.beginTeardown.map (.of .report) id
  | .finishTeardown => r.finishTeardown.map (.of fun _ => .done) id

end LinuxAbi.Mm
