import LinuxAbi.IoUring.Types
import LinuxAbi.Lib.Run

/-!
# The io-uring request registry

`crates/io-uring/src/request.rs`, function by function. Every public operation
of `RequestRegistry` is a function from the registry to a reply and the next
registry: an operation that fails half way through leaves whatever it has
already written, exactly as `?` does on a `&mut self` method.

Mirroring notes:
- `usize::try_from` on a `u32` cannot fail on the supported 64-bit targets and
  has no counterpart; `u32::try_from` of a slot index is kept.
- `Vec::last`/`Vec::pop`/`Vec::push` are `List.getLast?`/`List.dropLast`/`++ [·]`.
- `cq_head` and `cq_tail` are free-running 32-bit counters and stay `BitVec 32`;
  `terminal_credits` and `cq_entries` are only ever compared, incremented and
  decremented with checks, and are `Nat` with the check written out.
- The two `try_reserve_exact` calls of `RequestRegistry::new` are the two
  Boolean arguments of `new`.
- Tokens (`RequestReservation`, `PreparedRequest`, `TerminalPermit`, ...) are
  plain records here, so every theorem below is about arbitrary tokens, forged
  and stale ones included.
-/

namespace LinuxAbi.IoUring

open Lib (NonZeroU64 span)

/-! ## Data -/

inductive CancellationMode
  | cancellable
  | uncancellable
deriving DecidableEq

inductive RequestOperation
  | nop
  | read
  | write
  | pollAdd
  | asyncCancel
  | rejected (opcode : BitVec 8)
deriving DecidableEq

def RequestOperation.cancellationMode : RequestOperation → CancellationMode
  | .pollAdd => .cancellable
  | .nop | .read | .write | .asyncCancel | .rejected _ => .uncancellable

structure RequestDescriptor where
  userData : BitVec 64
  operation : RequestOperation
deriving DecidableEq

structure RequestId where
  ring : RingId
  slot : Nat
  generation : NonZeroU64
deriving DecidableEq

inductive RequestState
  | reserved
  | prepared
  | issued (mode : CancellationMode)
  | terminalClaimed
  | completionPending
  | publishing
deriving DecidableEq

inductive RequestLifecycle
  | opened
  | closing
  | draining
  | closed
deriving DecidableEq

inductive TerminalCause
  | completed
  | cancelled
  | closing
  | preparationFailed
deriving DecidableEq

inductive CancelSelector
  | userData (value : BitVec 64)
  | request (id : RequestId)

structure Completion where
  userData : BitVec 64
  result : BitVec 32
  flags : BitVec 32
deriving DecidableEq

structure RequestReservation where
  id : RequestId
  descriptor : RequestDescriptor

structure PreparedRequest where
  id : RequestId
  descriptor : RequestDescriptor

structure IssuedRequest where
  id : RequestId
  descriptor : RequestDescriptor
  cancellationMode : CancellationMode

structure RequestIssueError where
  error : IoUringError
  prepared : PreparedRequest

structure TerminalPermit where
  id : RequestId
  descriptor : RequestDescriptor
  cause : TerminalCause

structure CompletionToken where
  id : RequestId

structure CompletionPublication where
  id : RequestId
  completion : Completion
  slot : Nat
  newTail : BitVec 32

structure RequestProgress where
  lifecycle : RequestLifecycle
  reserved : Nat
  prepared : Nat
  issued : Nat
  uncancellableIssued : Nat
  terminalClaimed : Nat
  completionPending : Nat
  publishing : Nat
  terminalCredits : Nat
  published : Nat

inductive EntryState
  | reserved
  | prepared
  | issued (mode : CancellationMode)
  | terminalClaimed (cause : TerminalCause)
  | completionPending (completion : Completion)
  | publishing (completion : Completion)
deriving DecidableEq

/-- `EntryState::public`. -/
def EntryState.toPublic : EntryState → RequestState
  | .reserved => .reserved
  | .prepared => .prepared
  | .issued mode => .issued mode
  | .terminalClaimed _ => .terminalClaimed
  | .completionPending _ => .completionPending
  | .publishing _ => .publishing

structure RequestEntry where
  descriptor : RequestDescriptor
  sequence : NonZeroU64
  state : EntryState

structure RequestSlot where
  generation : Option NonZeroU64
  entry : Option RequestEntry

structure RequestRegistry where
  ring : RingId
  capacity : Nat
  slots : List RequestSlot
  freeSlots : List Nat
  nextSequence : Option NonZeroU64
  lifecycle : RequestLifecycle
  cqEntries : Nat
  cqHead : BitVec 32
  cqTail : BitVec 32
  terminalCredits : Nat
  publicationInFlight : Option RequestId

/-- `CancelSelector::matches`. -/
def CancelSelector.matchesDescriptor : CancelSelector → RequestDescriptor → Bool
  | .userData value, descriptor => descriptor.userData == value
  | .request _, _ => false

/-- A reply together with the registry left behind. -/
abbrev Outcome (α : Type) := Except IoUringError α × RequestRegistry

namespace RequestRegistry

/-! ## Construction and private helpers -/

def new (slotsReserved freeReserved : Bool) (ring : RingId)
    (requestCapacity cqEntries : Nat) : Except IoUringError RequestRegistry :=
  if requestCapacity = 0 ∨ requestCapacity > maxEntries then
    .error .requestCapacityExceeded
  else if cqEntries = 0 ∨ ¬ cqEntries.isPowerOfTwo ∨ cqEntries > maxCqEntries then
    .error .invalidQueueGeometry
  else if ¬ slotsReserved then
    .error .allocationFailed
  else if ¬ freeReserved then
    .error .allocationFailed
  else
    .ok {
      ring
      capacity := requestCapacity
      slots := List.replicate requestCapacity { generation := some .one, entry := none }
      -- pushed from the highest index down, so slot 0 is popped first
      freeSlots := (List.range requestCapacity).reverse
      nextSequence := some .one
      lifecycle := .opened
      cqEntries
      cqHead := 0
      cqTail := 0
      terminalCredits := 0
      publicationInFlight := none }

variable (r : RequestRegistry)

/-- `RequestRegistry::entry`; `entry_mut` makes the same checks. -/
def entry (id : RequestId) : Except IoUringError RequestEntry :=
  if id.ring ≠ r.ring then .error .unknownRequest
  else
    match r.slots[id.slot]? with
    | none => .error .unknownRequest
    | some slot =>
      if slot.generation ≠ some id.generation then .error .unknownRequest
      else
        match slot.entry with
        | none => .error .unknownRequest
        | some e => .ok e

/-- The write `entry.state = state` through the reference of `entry_mut`. -/
def setState (id : RequestId) (state : EntryState) : RequestRegistry :=
  { r with
    slots := r.slots.modify id.slot fun s => { s with entry := s.entry.map ({ · with state }) } }

def requireState (id : RequestId) (state : RequestState) :
    Except IoUringError Unit :=
  match r.entry id with
  | .error error => .error error
  | .ok e => if e.state.toPublic = state then .ok () else .error .invalidRequestState

def clearSlot (id : RequestId) : Outcome Unit :=
  if id.ring ≠ r.ring then (.error .unknownRequest, r)
  else
    match r.slots[id.slot]? with
    | none => (.error .unknownRequest, r)
    | some slot =>
      if slot.generation ≠ some id.generation ∨ slot.entry.isNone then
        (.error .unknownRequest, r)
      else
        let r := { r with
          slots := r.slots.set id.slot { generation := id.generation.checkedSucc, entry := none } }
        if id.generation.checkedSucc.isSome then
          if r.freeSlots.length ≥ r.slots.length then (.error .invalidRequestState, r)
          else (.ok (), { r with freeSlots := r.freeSlots ++ [id.slot] })
        else (.ok (), r)

def publishedCount : Except IoUringError Nat :=
  if span r.cqHead r.cqTail ≤ r.cqEntries then .ok (span r.cqHead r.cqTail)
  else .error .invalidQueueGeometry

def refundCredits (count : Nat) : Outcome Unit :=
  if count ≤ r.terminalCredits then
    (.ok (), { r with terminalCredits := r.terminalCredits - count })
  else (.error .invalidCompletionConsumption, r)

/-- `cq_tail & (cq_entries - 1)`. -/
def tailSlot : Nat := r.cqTail.toNat &&& (r.cqEntries - 1)

/-- The counting loop of `RequestRegistry::progress`. -/
def countEntry (p : RequestProgress) (slot : RequestSlot) : RequestProgress :=
  match slot.entry.map RequestEntry.state with
  | some .reserved => { p with reserved := p.reserved + 1 }
  | some .prepared => { p with prepared := p.prepared + 1 }
  | some (.issued .uncancellable) =>
    { p with issued := p.issued + 1, uncancellableIssued := p.uncancellableIssued + 1 }
  | some (.issued .cancellable) => { p with issued := p.issued + 1 }
  | some (.terminalClaimed _) => { p with terminalClaimed := p.terminalClaimed + 1 }
  | some (.completionPending _) => { p with completionPending := p.completionPending + 1 }
  | some (.publishing _) => { p with publishing := p.publishing + 1 }
  | none => p

def progress : Except IoUringError RequestProgress :=
  match r.publishedCount with
  | .error error => .error error
  | .ok published =>
    .ok (r.slots.foldl countEntry {
      lifecycle := r.lifecycle
      reserved := 0
      prepared := 0
      issued := 0
      uncancellableIssued := 0
      terminalClaimed := 0
      completionPending := 0
      publishing := 0
      terminalCredits := r.terminalCredits
      published })

/-! ## Admission -/

def reserve (descriptor : RequestDescriptor) : Outcome RequestReservation :=
  match r.lifecycle with
  | .closing => (.error .closing, r)
  | .draining => (.error .draining, r)
  | .closed => (.error .closed, r)
  | .opened =>
    if r.terminalCredits ≥ r.cqEntries then (.error .completionQueueFull, r)
    else
      match r.nextSequence with
      | none => (.error .generationExhausted, r)
      | some sequence =>
        match r.freeSlots.getLast? with
        | none =>
          (.error (if r.slots.any (·.entry.isSome) then .requestCapacityExceeded
            else .generationExhausted), r)
        | some slotIndex =>
          match r.slots[slotIndex]? with
          | none => (.error .requestCapacityExceeded, r)
          | some slot =>
            if slot.entry.isSome then (.error .invalidRequestState, r)
            else
              match slot.generation with
              | none => (.error .generationExhausted, r)
              | some generation =>
                if r.terminalCredits + 1 ≥ 2 ^ 32 then (.error .overflow, r)
                else
                  -- `pop` removes the element `last` has just returned, so the
                  -- comparison of the two has no failing branch here
                  (.ok { id := { ring := r.ring, slot := slotIndex, generation }, descriptor },
                    { r with
                      terminalCredits := r.terminalCredits + 1
                      nextSequence := sequence.checkedSucc
                      freeSlots := r.freeSlots.dropLast
                      slots := r.slots.set slotIndex
                        { slot with entry := some { descriptor, sequence, state := .reserved } } })

def rollback (reservation : RequestReservation) : Outcome Unit :=
  match r.requireState reservation.id .reserved with
  | .error error => (.error error, r)
  | .ok () =>
    match r.clearSlot reservation.id with
    | (.error error, r) => (.error error, r)
    | (.ok (), r) => r.refundCredits 1

def commit (reservation : RequestReservation) : Outcome PreparedRequest :=
  match r.entry reservation.id with
  | .error error => (.error error, r)
  | .ok e =>
    if e.state ≠ .reserved then (.error .invalidRequestState, r)
    else
      (.ok { id := reservation.id, descriptor := e.descriptor },
        r.setState reservation.id .prepared)

def issue (prepared : PreparedRequest) :
    Except RequestIssueError IssuedRequest × RequestRegistry :=
  match r.entry prepared.id with
  | .error error => (.error { error, prepared }, r)
  | .ok e =>
    match e.state with
    | .prepared =>
      let cancellationMode := e.descriptor.operation.cancellationMode
      (.ok { id := prepared.id, descriptor := e.descriptor, cancellationMode },
        r.setState prepared.id (.issued cancellationMode))
    | .terminalClaimed _ | .completionPending _ | .publishing _ =>
      (.error { error := .terminalAlreadyClaimed, prepared }, r)
    | .reserved | .issued _ => (.error { error := .invalidRequestState, prepared }, r)

/-! ## Terminal ownership -/

def claimTerminal (id : RequestId) (cause : TerminalCause) :
    Outcome TerminalPermit :=
  match r.entry id with
  | .error error => (.error error, r)
  | .ok e =>
    let granted : Outcome TerminalPermit :=
      (.ok { id, descriptor := e.descriptor, cause }, r.setState id (.terminalClaimed cause))
    match e.state with
    | .prepared => granted
    | .issued .uncancellable =>
      if cause ≠ .completed then (.error .requestUncancellable, r) else granted
    | .issued .cancellable => granted
    | .terminalClaimed _ | .completionPending _ | .publishing _ =>
      (.error .terminalAlreadyClaimed, r)
    | .reserved => (.error .invalidRequestState, r)

/-- The candidate loop of `RequestRegistry::claim_cancel`, at slot `index`. -/
def scanCancel (ring : RingId) (selector : CancelSelector) (exclude : Option RequestId) :
    Nat → List RequestSlot → Option (NonZeroU64 × RequestId) →
      Except IoUringError (Option (NonZeroU64 × RequestId))
  | _, [], candidate => .ok candidate
  | index, slot :: rest, candidate =>
    match slot.entry with
    | none => scanCancel ring selector exclude (index + 1) rest candidate
    | some e =>
      match slot.generation with
      | none => .error .generationExhausted
      | some generation =>
        if index ≥ 2 ^ 32 then .error .overflow
        else
          let id : RequestId := { ring, slot := index, generation }
          if some id = exclude ∨ ¬ selector.matchesDescriptor e.descriptor then
            scanCancel ring selector exclude (index + 1) rest candidate
          else
            match e.state with
            | .prepared | .issued .cancellable =>
              let older : Bool := match candidate with
                | some (sequence, _) => e.sequence.val < sequence.val
                | none => true
              scanCancel ring selector exclude (index + 1) rest
                (if older then some (e.sequence, id) else candidate)
            | .terminalClaimed _ | .completionPending _ | .publishing _ | .reserved
            | .issued .uncancellable =>
              scanCancel ring selector exclude (index + 1) rest candidate

def claimCancel (selector : CancelSelector) (exclude : Option RequestId) :
    Outcome TerminalPermit :=
  match selector with
  | .request id =>
    if some id = exclude then (.error .cancellationTargetNotFound, r)
    else
      match r.claimTerminal id .cancelled with
      | (.error .unknownRequest, r) | (.error .terminalAlreadyClaimed, r)
      | (.error .requestUncancellable, r) => (.error .cancellationTargetNotFound, r)
      | result => result
  | .userData _ =>
    match scanCancel r.ring selector exclude 0 r.slots none with
    | .error error => (.error error, r)
    | .ok (some (_, id)) => r.claimTerminal id .cancelled
    | .ok none => (.error .cancellationTargetNotFound, r)

def finishTerminal (permit : TerminalPermit) (result flags : BitVec 32) :
    Outcome CompletionToken :=
  match r.entry permit.id with
  | .error error => (.error error, r)
  | .ok e =>
    if e.state ≠ .terminalClaimed permit.cause then (.error .invalidRequestState, r)
    else
      (.ok { id := permit.id },
        r.setState permit.id
          (.completionPending { userData := e.descriptor.userData, result, flags }))

/-! ## Two-phase publication -/

def publish (token : CompletionToken) : Outcome CompletionPublication :=
  if r.lifecycle = .draining then (.error .draining, r)
  else if r.lifecycle = .closed then (.error .closed, r)
  else if r.publicationInFlight.isSome then (.error .publicationInFlight, r)
  else
    match r.entry token.id with
    | .error error => (.error error, r)
    | .ok e =>
      match e.state with
      | .completionPending completion =>
        match r.publishedCount with
        | .error error => (.error error, r)
        | .ok published =>
          if published ≥ r.cqEntries then (.error .completionQueueFull, r)
          else
            (.ok { id := token.id, completion, slot := r.tailSlot, newTail := r.cqTail + 1 },
              { r.setState token.id (.publishing completion) with
                publicationInFlight := some token.id })
      | .reserved | .prepared | .issued _ | .terminalClaimed _ | .publishing _ =>
        (.error .completionNotPending, r)

def commitPublication (publication : CompletionPublication) : Outcome Unit :=
  if r.publicationInFlight ≠ some publication.id then (.error .publicationInFlight, r)
  else if publication.slot ≠ r.tailSlot ∨ publication.newTail ≠ r.cqTail + 1 then
    (.error .invalidQueueGeometry, r)
  else
    match r.entry publication.id with
    | .error error => (.error error, r)
    | .ok e =>
      if e.state ≠ .publishing publication.completion then (.error .invalidRequestState, r)
      else
        match r.clearSlot publication.id with
        | (.error error, r) => (.error error, r)
        | (.ok (), r) =>
          (.ok (), { r with cqTail := publication.newTail, publicationInFlight := none })

def rollbackPublication (publication : CompletionPublication) :
    Outcome CompletionToken :=
  if r.publicationInFlight ≠ some publication.id then (.error .publicationInFlight, r)
  else
    match r.entry publication.id with
    | .error error => (.error error, r)
    | .ok e =>
      if e.state ≠ .publishing publication.completion then (.error .invalidRequestState, r)
      else
        (.ok { id := publication.id },
          { r.setState publication.id (.completionPending publication.completion) with
            publicationInFlight := none })

def observeCompletionHead (userHead : BitVec 32) : Outcome Nat :=
  if r.publicationInFlight.isSome then (.error .publicationInFlight, r)
  else
    match r.publishedCount with
    | .error error => (.error error, r)
    | .ok published =>
      let consumed := span r.cqHead userHead
      if consumed > published then (.error .corruptCompletionHead, r)
      else
        match { r with cqHead := userHead }.refundCredits consumed with
        | (.error error, r) => (.error error, r)
        | (.ok (), r) => (.ok consumed, r)

/-! ## Close -/

def beginClose : Outcome RequestProgress :=
  let r := match r.lifecycle with
    | .opened => { r with lifecycle := .closing }
    | .closing | .draining | .closed => r
  (r.progress, r)

def beginDraining : Outcome RequestProgress :=
  if r.lifecycle = .draining then (r.progress, r)
  else if r.lifecycle ≠ .closing then (.error .invalidLifecycleTransition, r)
  else if r.slots.any (fun slot => slot.entry.any fun e => match e.state with
      | .completionPending _ => false
      | .reserved | .prepared | .issued _ | .terminalClaimed _ | .publishing _ => true) then
    (.error .busy, r)
  else
    let r := { r with lifecycle := .draining }
    (r.progress, r)

def discardCompletion (token : CompletionToken) : Outcome Unit :=
  if r.lifecycle ≠ .draining then (.error .invalidLifecycleTransition, r)
  else
    match r.requireState token.id .completionPending with
    | .error error => (.error error, r)
    | .ok () =>
      match r.clearSlot token.id with
      | (.error error, r) => (.error error, r)
      | (.ok (), r) => r.refundCredits 1

def discardPublished : Outcome Nat :=
  if r.lifecycle ≠ .draining then (.error .invalidLifecycleTransition, r)
  else if r.publicationInFlight.isSome then (.error .publicationInFlight, r)
  else
    match r.publishedCount with
    | .error error => (.error error, r)
    | .ok published =>
      match { r with cqHead := r.cqTail }.refundCredits published with
      | (.error error, r) => (.error error, r)
      | (.ok (), r) => (.ok published, r)

def finishClose : Outcome Unit :=
  match r.lifecycle with
  | .opened => (.error .invalidLifecycleTransition, r)
  | .closed => (.ok (), r)
  | .closing | .draining =>
    if r.publicationInFlight.isSome ∨ r.slots.any (·.entry.isSome) ∨ r.terminalCredits ≠ 0 then
      (.error .busy, r)
    else (.ok (), { r with lifecycle := .closed })

end RequestRegistry

/-! ## The registry as one object -/

/-- One call of a public operation. -/
inductive RequestCall
  | reserve (descriptor : RequestDescriptor)
  | rollback (reservation : RequestReservation)
  | commit (reservation : RequestReservation)
  | issue (prepared : PreparedRequest)
  | claimTerminal (id : RequestId) (cause : TerminalCause)
  | claimCancel (selector : CancelSelector) (exclude : Option RequestId)
  | finishTerminal (permit : TerminalPermit) (result flags : BitVec 32)
  | publish (token : CompletionToken)
  | commitPublication (publication : CompletionPublication)
  | rollbackPublication (publication : CompletionPublication)
  | observeCompletionHead (userHead : BitVec 32)
  | beginClose
  | beginDraining
  | discardCompletion (token : CompletionToken)
  | discardPublished
  | finishClose

/-- The value a successful call returns. -/
inductive RequestReply
  | done
  | reserved (reservation : RequestReservation)
  | prepared (prepared : PreparedRequest)
  | issued (issued : IssuedRequest)
  | permit (permit : TerminalPermit)
  | token (token : CompletionToken)
  | publication (publication : CompletionPublication)
  | count (count : Nat)
  | progress (progress : RequestProgress)

/-- Tags the successful value of one operation. -/
def Outcome.tag {α : Type} (wrap : α → RequestReply) (o : Outcome α) :
    Except IoUringError RequestReply × RequestRegistry :=
  (o.1.map wrap, o.2)

/-- Runs one call. `issue` also returns the prepared proof on failure; the
error it carries is the reply here. -/
def RequestRegistry.call (r : RequestRegistry) :
    RequestCall → Except IoUringError RequestReply × RequestRegistry
  | .reserve descriptor => Outcome.tag .reserved (r.reserve descriptor)
  | .rollback reservation => Outcome.tag (fun _ => .done) (r.rollback reservation)
  | .commit reservation => Outcome.tag .prepared (r.commit reservation)
  | .issue prepared =>
    (((r.issue prepared).1.map RequestReply.issued).mapError (·.error), (r.issue prepared).2)
  | .claimTerminal id cause => Outcome.tag .permit (r.claimTerminal id cause)
  | .claimCancel selector exclude => Outcome.tag .permit (r.claimCancel selector exclude)
  | .finishTerminal permit result flags =>
    Outcome.tag .token (r.finishTerminal permit result flags)
  | .publish token => Outcome.tag .publication (r.publish token)
  | .commitPublication publication =>
    Outcome.tag (fun _ => .done) (r.commitPublication publication)
  | .rollbackPublication publication => Outcome.tag .token (r.rollbackPublication publication)
  | .observeCompletionHead userHead => Outcome.tag .count (r.observeCompletionHead userHead)
  | .beginClose => Outcome.tag .progress r.beginClose
  | .beginDraining => Outcome.tag .progress r.beginDraining
  | .discardCompletion token => Outcome.tag (fun _ => .done) (r.discardCompletion token)
  | .discardPublished => Outcome.tag .count r.discardPublished
  | .finishClose => Outcome.tag (fun _ => .done) r.finishClose

end LinuxAbi.IoUring
