import LinuxAbi.Lib.Run
import LinuxAbi.Lib.Slots
import LinuxAbi.Mm.Mapping

/-!
# The userfaultfd registration table

`UffdRegistrationTable` of `crates/mm/src/userfaultfd.rs`: a fixed table of address intervals,
each owned by one fault handler, with a counter of fresh identities and a revision that
optimistic plans are bound to.

Mirroring notes:
- The capacity is the length of the table; `iter().flatten()` is `live`.
- A request list is walked together with the requests before it, `previous`; a request is a
  duplicate when it is among them.
- The callback of a commit is the list of the registrations it is called with.
- An `expect` that fires is `none` in the commit functions and `panicked` as a reply.
- Counters count elements of slices, so their `checked_add` cannot overflow and is `+`.
-/

namespace LinuxAbi.Mm

open Lib (NonZeroU64 locate firstFree)

/-! ## Registrations -/

/-- `UffdApiLifecycle`, the one field of `UffdApiState` the table reads. -/
inductive UffdApiLifecycle
  | created
  | initialized
deriving DecidableEq

inductive UffdRegisterMode
  | missing
  | wp
  | minor
deriving DecidableEq

structure UffdRegistrationId where
  raw : NonZeroU64
deriving DecidableEq

/-- `UffdRegistrationRequest`; every constructor checks the mode. -/
structure UffdRegistrationRequest where
  handler : FaultHandlerId
  addressSpace : AddressSpaceId
  mapping : MappingId
  generation : MappingGeneration
  range : PageRange
  mode : UffdRegisterMode
  isMissing : mode = .missing
deriving DecidableEq

def UffdRegistrationRequest.new (handler : FaultHandlerId) (mapping : MappingSnapshot)
    (range : PageRange) (mode : UffdRegisterMode) : Except MmError UffdRegistrationRequest :=
  if mapping.kind ≠ .anonymousPrivate then .error .unsupportedUffdMapping
  else if ¬ mapping.range.contains range then .error .rangeNotMapped
  else if h : mode = .missing then
    .ok {
      handler, range, mode, isMissing := h
      addressSpace := mapping.addressSpace
      mapping := mapping.mapping
      generation := mapping.generation }
  else .error .unsupportedUffdMode

structure UffdRegistration where
  id : UffdRegistrationId
  request : UffdRegistrationRequest
deriving DecidableEq

namespace UffdRegistration

def handler (r : UffdRegistration) : FaultHandlerId := r.request.handler
def addressSpace (r : UffdRegistration) : AddressSpaceId := r.request.addressSpace
def range (r : UffdRegistration) : PageRange := r.request.range
def mode (r : UffdRegistration) : UffdRegisterMode := r.request.mode

def revalidate (r : UffdRegistration) (current : MappingSnapshot) : Except MmError Unit :=
  if r.addressSpace ≠ current.addressSpace ∨ r.request.mapping ≠ current.mapping
      ∨ r.request.generation ≠ current.generation then .error .staleGeneration
  else if current.kind ≠ .anonymousPrivate then .error .unsupportedUffdMapping
  else if ¬ current.range.contains r.range then .error .rangeNotMapped
  else .ok ()

end UffdRegistration

structure UffdRegistrationReplacement where
  source : UffdRegistrationId
  request : UffdRegistrationRequest

/-- `UffdRegistrationIntent`; its constructor checks the mode. -/
structure UffdRegistrationIntent where
  handler : FaultHandlerId
  range : PageRange
  mode : UffdRegisterMode
  isMissing : mode = .missing

def UffdRegistrationIntent.new (handler : FaultHandlerId) (range : PageRange)
    (mode : UffdRegisterMode) : Except MmError UffdRegistrationIntent :=
  if h : mode = .missing then .ok { handler, range, mode, isMissing := h }
  else .error .unsupportedUffdMode

structure UffdRegistrationPlan where
  revision : Nat
  removed : Nat
  published : Nat
  reused : Nat
  nextIdAfter : Option NonZeroU64
deriving DecidableEq

def UffdRegistrationPlan.changesTable (plan : UffdRegistrationPlan) : Bool :=
  plan.removed ≠ 0 || plan.published ≠ 0

structure UffdRegistrationCommit where
  removed : Nat
  published : Nat
  reused : Nat

structure UffdRegistrationDeltaPlan where
  revision : Nat
  removed : Nat
  replacements : Nat
  nextIdAfter : Option NonZeroU64
deriving DecidableEq

def UffdRegistrationDeltaPlan.isNoop (plan : UffdRegistrationDeltaPlan) : Bool :=
  plan.removed = 0 && plan.replacements = 0

def rangesOverlap (left right : PageRange) : Bool :=
  left.start < right.stop && right.start < left.stop

def rangesTouch (left right : PageRange) : Bool :=
  left.pageSize = right.pageSize && left.start ≤ right.stop && right.start ≤ left.stop

def pageRangeIntersection (left right : PageRange) : Option PageRange :=
  if left.pageSize ≠ right.pageSize then none
  else
    let start := max left.start right.start
    let stop := min left.stop right.stop
    if start ≥ stop then none else (PageRange.withPageSize start (stop - start) left.pageSize).toOption

def advanceRegistrationIds : Option NonZeroU64 → Nat → Except MmError (Option NonZeroU64)
  | next, 0 => .ok next
  | none, _ + 1 => .error .idExhausted
  | some raw, count + 1 => advanceRegistrationIds raw.checkedSucc count

/-! ## The table -/

/-- `u64::MAX`. -/
def maxRevision : Nat := 2 ^ 64 - 1

/-- `UffdRegistrationTable`. -/
@[ext]
structure UffdRegistrationTable where
  records : List (Option UffdRegistration)
  nextId : Option NonZeroU64
  revision : Nat

namespace UffdRegistrationTable

/-- `UffdRegistrationTable::new`, with the capacity. -/
def new (capacity : Nat) (firstId : NonZeroU64) : UffdRegistrationTable where
  records := List.replicate capacity none
  nextId := some firstId
  revision := 1

/-- `self.records.iter().flatten()`. -/
def live (t : UffdRegistrationTable) : List UffdRegistration := t.records.reduceOption

def get (t : UffdRegistrationTable) (id : UffdRegistrationId) : Except MmError UffdRegistration :=
  match t.live.find? (fun r => r.id = id) with
  | some r => .ok r
  | none => .error .unknownUffdRegistration

end UffdRegistrationTable

/-- The owner a batch is bound to. -/
abbrev UffdOwner := FaultHandlerId × AddressSpaceId × UffdRegisterMode

def UffdRegistrationRequest.owner (q : UffdRegistrationRequest) : UffdOwner :=
  (q.handler, q.addressSpace, q.mode)

namespace UffdRegistrationTable

/-! ## Planning -/

/-- The owner check of both loops of `plan_request_changes`. -/
def checkOwner (single : Bool) (owner : Option UffdOwner) (current : UffdOwner) :
    Except MmError (Option UffdOwner) :=
  if single then
    if owner.any (· ≠ current) then .error .invalidUffdRegistrationBatch else .ok (some current)
  else .ok owner

/-- The first loop of `plan_request_changes`, over the removed tokens. -/
def scanRemoved (t : UffdRegistrationTable) (single : Bool) :
    List UffdRegistrationId → Option UffdOwner → List UffdRegistrationId →
      Except MmError (Option UffdOwner)
  | _, owner, [] => .ok owner
  | previous, owner, id :: rest =>
    if id ∈ previous then .error .invalidUffdRegistrationBatch
    else do
      let registration ← t.get id
      let owner ← checkOwner single owner registration.request.owner
      scanRemoved t single (previous ++ [id]) owner rest

/-- The inner loop over the records: whether one of them is exactly the request. -/
def scanRecords (removed : List UffdRegistrationId) (request : UffdRegistrationRequest) :
    List UffdRegistration → Except MmError Bool
  | [] => .ok false
  | registered :: rest =>
    if registered.id ∈ removed ∨ registered.addressSpace ≠ request.addressSpace
        ∨ ¬ rangesOverlap registered.range request.range then
      scanRecords removed request rest
    else if registered.handler ≠ request.handler then .error .busy
    else if registered.request = request then do
      let _ ← scanRecords removed request rest
      return true
    else .error .uffdRegistrationOverlap

/-- The counters of `plan_request_changes`. -/
structure RequestTally where
  unique : Nat
  published : Nat
  reused : Nat

/-- The second loop of `plan_request_changes`, over the requests. -/
def scanRequests (t : UffdRegistrationTable) (removed : List UffdRegistrationId) (single : Bool) :
    List UffdRegistrationRequest → Option UffdOwner → RequestTally →
      List UffdRegistrationRequest → Except MmError RequestTally
  | _, _, tally, [] => .ok tally
  | previous, owner, tally, request :: rest => do
    let owner ← checkOwner single owner request.owner
    if previous.any (fun p => p ≠ request && rangesOverlap p.range request.range) then
      .error .invalidUffdRegistrationBatch
    else if request ∈ previous then
      scanRequests t removed single (previous ++ [request]) owner tally rest
    else do
      let exact ← scanRecords removed request t.live
      let tally :=
        if exact then { tally with unique := tally.unique + 1, reused := tally.reused + 1 }
        else { tally with unique := tally.unique + 1, published := tally.published + 1 }
      scanRequests t removed single (previous ++ [request]) owner tally rest

variable (t : UffdRegistrationTable)

def planRequestChanges (removed : List UffdRegistrationId)
    (requests : List UffdRegistrationRequest) (single : Bool) :
    Except MmError UffdRegistrationPlan :=
  if removed = [] ∧ requests = [] then .error .zeroLength
  else do
    let owner ← t.scanRemoved single [] none removed
    let tally ← t.scanRequests removed single [] owner ⟨0, 0, 0⟩ requests
    if t.live.length < removed.length then .error .inconsistentAccounting
    else
      let retained := t.live.length - removed.length
      if t.records.length < retained then .error .inconsistentAccounting
      else if tally.published > t.records.length - retained then .error .capacityExceeded
      else if tally.unique ≠ tally.published + tally.reused then .error .inconsistentAccounting
      else do
        let nextIdAfter ← advanceRegistrationIds t.nextId tally.published
        if tally.published ≠ 0 ∧ t.revision = maxRevision then .error .idExhausted
        else return {
          revision := t.revision
          removed := removed.length
          published := tally.published
          reused := tally.reused
          nextIdAfter }

/-! ## Committing -/

/-- The publishing loop of `commit_request_changes`. -/
def publishRequests : List UffdRegistrationRequest → List (Option UffdRegistration) →
    Option NonZeroU64 → List UffdRegistrationRequest →
      Option (List (Option UffdRegistration) × Option NonZeroU64)
  | _, slots, nextId, [] => some (slots, nextId)
  | previous, slots, nextId, request :: rest =>
    if request ∈ previous ∨ slots.reduceOption.any (fun r => r.request = request) then
      publishRequests (previous ++ [request]) slots nextId rest
    else
      match nextId, firstFree slots with
      | some raw, some slot =>
        publishRequests (previous ++ [request]) (slots.set slot (some ⟨⟨raw⟩, request⟩))
          raw.checkedSucc rest
      | _, _ => none

/-- The visiting loop of `commit_request_changes`. -/
def visitRequests (registered : List UffdRegistration) : List UffdRegistrationRequest →
    List UffdRegistrationRequest → Option (List UffdRegistration)
  | _, [] => some []
  | previous, request :: rest =>
    if request ∈ previous then visitRequests registered (previous ++ [request]) rest
    else do
      let registration ← registered.find? (fun r => r.request = request)
      let visited ← visitRequests registered (previous ++ [request]) rest
      return registration :: visited

/-- What a commit answers: its counts and the registrations it visited. -/
abbrev CommitReply := Except MmError (UffdRegistrationCommit × List UffdRegistration)

def commitRequestChanges (plan : UffdRegistrationPlan)
    (removed : List UffdRegistrationId) (requests : List UffdRegistrationRequest) (single : Bool) :
    Option (CommitReply × UffdRegistrationTable) :=
  if t.revision ≠ plan.revision then some (.error .staleGeneration, t)
  else
    match t.planRequestChanges removed requests single with
    | .error e => some (.error e, t)
    | .ok current =>
      if current ≠ plan then some (.error .staleGeneration, t)
      else do
        let cleared := t.records.map (Option.filter fun r => r.id ∉ removed)
        let (records, _) ← publishRequests [] cleared t.nextId requests
        let table : UffdRegistrationTable := {
          records
          nextId := plan.nextIdAfter
          revision :=
            if plan.changesTable ∧ t.revision ≠ maxRevision then t.revision + 1 else t.revision }
        let visited ← visitRequests table.live [] requests
        return (.ok (⟨plan.removed, plan.published, plan.reused⟩, visited), table)

/-! ## The public transactions -/

def requireInitialized (api : UffdApiLifecycle) : Except MmError Unit :=
  if api = .initialized then .ok () else .error .uffdNotInitialized

def preflightRegister (api : UffdApiLifecycle)
    (requests : List UffdRegistrationRequest) : Except MmError UffdRegistrationPlan := do
  requireInitialized api
  if requests = [] then .error .zeroLength else t.planRequestChanges [] requests true

def commitRegister (plan : UffdRegistrationPlan)
    (requests : List UffdRegistrationRequest) : Option (CommitReply × UffdRegistrationTable) :=
  t.commitRequestChanges plan [] requests true

def preflightReplace (api : UffdApiLifecycle)
    (removed : List UffdRegistrationId) (replacements : List UffdRegistrationRequest) :
    Except MmError UffdRegistrationPlan := do
  requireInitialized api
  if removed = [] then .error .zeroLength else t.planRequestChanges removed replacements true

def commitReplace (plan : UffdRegistrationPlan)
    (removed : List UffdRegistrationId) (replacements : List UffdRegistrationRequest) :
    Option (CommitReply × UffdRegistrationTable) :=
  t.commitRequestChanges plan removed replacements true

/-- The loop of `validate_mapping_replacements` over the removed tokens. -/
def sameAddressSpace (t : UffdRegistrationTable) (addressSpace : AddressSpaceId) :
    List UffdRegistrationId → Except MmError Unit
  | [] => .ok ()
  | id :: rest => do
    let registration ← t.get id
    if registration.addressSpace ≠ addressSpace then .error .invalidUffdRegistrationBatch
    else sameAddressSpace t addressSpace rest

/-- The loop of `validate_mapping_replacements` over the replacements. -/
def validateSources (t : UffdRegistrationTable) (removed : List UffdRegistrationId) :
    List UffdRegistrationReplacement → Except MmError Unit
  | [] => .ok ()
  | replacement :: rest =>
    if replacement.source ∉ removed then .error .invalidUffdRegistrationBatch
    else do
      let source ← t.get replacement.source
      if source.request.owner ≠ replacement.request.owner then
        .error .invalidUffdRegistrationBatch
      else validateSources t removed rest

def validateMappingReplacements (removed : List UffdRegistrationId)
    (replacements : List UffdRegistrationReplacement) : Except MmError Unit :=
  match removed with
  | [] => .error .zeroLength
  | first :: _ => do
    let registration ← t.get first
    t.sameAddressSpace registration.addressSpace removed
    t.validateSources removed replacements

def preflightMappingReplace (removed : List UffdRegistrationId)
    (replacements : List UffdRegistrationReplacement) : Except MmError UffdRegistrationPlan := do
  t.validateMappingReplacements removed replacements
  t.planRequestChanges removed (replacements.map (·.request)) false

def commitMappingReplace (plan : UffdRegistrationPlan)
    (removed : List UffdRegistrationId) (replacements : List UffdRegistrationReplacement) :
    Option (CommitReply × UffdRegistrationTable) :=
  if t.revision ≠ plan.revision then some (.error .staleGeneration, t)
  else
    match t.validateMappingReplacements removed replacements with
    | .error e => some (.error e, t)
    | .ok () => t.commitRequestChanges plan removed (replacements.map (·.request)) false

/-- A preflight followed by its commit: `register_batch`, `replace_batch` and
`mapping_replace_batch`. -/
def preflighted (preflight : Except MmError UffdRegistrationPlan)
    (commit : UffdRegistrationPlan → Option (CommitReply × UffdRegistrationTable)) :
    Option (CommitReply × UffdRegistrationTable) :=
  match preflight with
  | .error e => some (.error e, t)
  | .ok plan => commit plan

def registerBatch (api : UffdApiLifecycle)
    (requests : List UffdRegistrationRequest) : Option (CommitReply × UffdRegistrationTable) :=
  t.preflighted (t.preflightRegister api requests) fun plan => t.commitRegister plan requests

def replaceBatch (api : UffdApiLifecycle)
    (removed : List UffdRegistrationId) (replacements : List UffdRegistrationRequest) :
    Option (CommitReply × UffdRegistrationTable) :=
  t.preflighted (t.preflightReplace api removed replacements) fun plan =>
    t.commitReplace plan removed replacements

def mappingReplaceBatch (removed : List UffdRegistrationId)
    (replacements : List UffdRegistrationReplacement) :
    Option (CommitReply × UffdRegistrationTable) :=
  t.preflighted (t.preflightMappingReplace removed replacements) fun plan =>
    t.commitMappingReplace plan removed replacements

def preflightMappingRemove (removed : List UffdRegistrationId) :
    Except MmError UffdRegistrationPlan :=
  t.preflightMappingReplace removed []

def commitMappingRemove (plan : UffdRegistrationPlan)
    (removed : List UffdRegistrationId) : Option (CommitReply × UffdRegistrationTable) :=
  t.commitMappingReplace plan removed []

/-- `UffdRegistrationTable::register`: the last registration the callback saw. -/
def register (api : UffdApiLifecycle)
    (request : UffdRegistrationRequest) :
    Option (Except MmError UffdRegistration × UffdRegistrationTable) := do
  let (reply, table) ← t.registerBatch api [request]
  match reply with
  | .error e => return (.error e, table)
  | .ok (_, visited) =>
    match visited.getLast? with
    | none => return (.error .inconsistentAccounting, table)
    | some registration => return (.ok registration, table)

/-- `u64::saturating_add(1)`. -/
def saturatingSucc (revision : Nat) : Nat := min (revision + 1) maxRevision

def unregister (id : UffdRegistrationId) :
    Except MmError UffdRegistration × UffdRegistrationTable :=
  match locate (fun r => r.id = id) t.records with
  | none => (.error .unknownUffdRegistration, t)
  | some (slot, registration) =>
    (.ok registration,
      { t with records := t.records.set slot none, revision := saturatingSucc t.revision })

/-- `UffdRegistrationTable::detach_handler`; it never fails. -/
def detachHandler (handler : FaultHandlerId) :
    Nat × UffdRegistrationTable :=
  let removed := (t.live.filter fun r => r.handler = handler).length
  if removed = 0 then (0, t)
  else
    (removed,
      { t with
        records := t.records.map (Option.filter fun r => r.handler ≠ handler)
        revision := saturatingSucc t.revision })

end UffdRegistrationTable

/-! ## Calls -/

/-- The calls that may change a table. A plan is whatever the caller kept from a preflight on
this table or on an earlier state of it. -/
inductive UffdCall
  | register (api : UffdApiLifecycle) (request : UffdRegistrationRequest)
  | commitRegister (plan : UffdRegistrationPlan) (requests : List UffdRegistrationRequest)
  | registerBatch (api : UffdApiLifecycle) (requests : List UffdRegistrationRequest)
  | commitReplace (plan : UffdRegistrationPlan) (removed : List UffdRegistrationId)
      (replacements : List UffdRegistrationRequest)
  | replaceBatch (api : UffdApiLifecycle) (removed : List UffdRegistrationId)
      (replacements : List UffdRegistrationRequest)
  | commitMappingReplace (plan : UffdRegistrationPlan) (removed : List UffdRegistrationId)
      (replacements : List UffdRegistrationReplacement)
  | mappingReplaceBatch (removed : List UffdRegistrationId)
      (replacements : List UffdRegistrationReplacement)
  | commitMappingRemove (plan : UffdRegistrationPlan) (removed : List UffdRegistrationId)
  | unregister (id : UffdRegistrationId)
  | detachHandler (handler : FaultHandlerId)

/-- What a call answers. -/
inductive UffdReply
  | committed (reply : UffdRegistrationTable.CommitReply)
  | registered (reply : Except MmError UffdRegistration)
  | detached (removed : Nat)
  | panicked

namespace UffdRegistrationTable

/-- The reply of a commit function, a fired `expect` included. -/
def answer {α : Type} (t : UffdRegistrationTable) (reply : α → UffdReply) :
    Option (α × UffdRegistrationTable) → UffdReply × UffdRegistrationTable
  | none => (.panicked, t)
  | some (a, table) => (reply a, table)

/-- One call. -/
def call (t : UffdRegistrationTable) : UffdCall → UffdReply × UffdRegistrationTable
  | .register api request => t.answer .registered (t.register api request)
  | .commitRegister plan requests => t.answer .committed (t.commitRegister plan requests)
  | .registerBatch api requests => t.answer .committed (t.registerBatch api requests)
  | .commitReplace plan removed replacements =>
    t.answer .committed (t.commitReplace plan removed replacements)
  | .replaceBatch api removed replacements =>
    t.answer .committed (t.replaceBatch api removed replacements)
  | .commitMappingReplace plan removed replacements =>
    t.answer .committed (t.commitMappingReplace plan removed replacements)
  | .mappingReplaceBatch removed replacements =>
    t.answer .committed (t.mappingReplaceBatch removed replacements)
  | .commitMappingRemove plan removed => t.answer .committed (t.commitMappingRemove plan removed)
  | .unregister id =>
    let (reply, table) := t.unregister id
    (.registered reply, table)
  | .detachHandler handler =>
    let (removed, table) := t.detachHandler handler
    (.detached removed, table)

end UffdRegistrationTable

end LinuxAbi.Mm
