import LinuxAbi.Fd.Types
import LinuxAbi.Lib.Ring
import LinuxAbi.Lib.Run

/-!
# The epoll core

`crates/fd/src/epoll.rs`, operation by operation. A `&mut self` method is a
function from the core to its reply and the next core; what was written before a
failing `?` stays written.

Mirroring notes:
- `ReadyQueue` is the ring buffer of `Lib.Ring` with the error its `push`
  reports. The index `self.items[self.head]` of `peek` is a total lookup here;
  it is in range whenever the queue is not empty.
- `next_generation`, `next_delivery` and `next_rescan` are `u64` counters that
  are only incremented with an overflow check, hence `Nat` with the check
  written out.
- The two `try_reserve_exact` calls of `try_new` are its two Boolean arguments.
- `U`, `S` and `V` are the user data, subscription and event payload types, as
  in the source; the core never looks inside them.
- The `while let` loop of `prepare_delivery` pops one item per round and is
  given the queue length as its number of rounds.
-/

namespace LinuxAbi.Fd

open Lib (RingBuffer)

universe u

/-! ## Data -/

structure EpollKey where
  ofd : OfdId
  fd : FdNumber
deriving DecidableEq

structure EpollInterest (U S : Type u) where
  key : EpollKey
  interest : InterestMask
  mode : InterestMode
  userData : U
  subscription : S
deriving DecidableEq

structure EpollToken where
  epoll : EpollId
  slot : Nat
  generation : Nat
deriving DecidableEq

structure DeliveryToken where
  interest : EpollToken
  serial : Nat
  events : ReadyMask
deriving DecidableEq

structure DeliveryPreparation where
  interest : EpollToken

structure ReadyEvent (V : Type u) where
  delivery : DeliveryToken
  events : ReadyMask
  userData : V

inductive DeliveryOutcome
  | copied (stillReady : ReadyMask)
  | suppressed
  | fault
deriving DecidableEq

inductive NotifyOutcome
  | enqueued
  | coalesced
  | ignored

inductive EpollError
  | noMemory
  | capacity
  | duplicate
  | notFound
  | staleToken
  | unsupportedMode
  | generationExhausted
  | readyQueueFull
  | rescanRequired
deriving DecidableEq

structure RescanProgress where
  scanned : Nat
  enqueued : Nat
  complete : Bool

structure EpollPublishError (U S : Type u) where
  error : EpollError
  interest : EpollInterest U S
deriving DecidableEq

structure DeliveryCommitError (V : Type u) where
  error : EpollError
  userData : V
deriving DecidableEq

structure RescanToken where
  epoll : EpollId
  generation : Nat
deriving DecidableEq

structure Entry (U S : Type u) where
  generation : Nat
  interest : EpollInterest U S
  enabled : Bool
  queued : Bool
  inDelivery : Option Nat
  ready : ReadyMask
  duringDelivery : ReadyMask

abbrev ReadyQueue := RingBuffer EpollToken

def ReadyQueue.tryNew (reserved : Bool) (capacity : Nat) (filler : EpollToken) :
    Except EpollError ReadyQueue :=
  if ¬ reserved then .error .noMemory
  else .ok { items := List.replicate capacity filler, head := 0, len := 0 }

structure RescanState where
  generation : Nat
  cursor : Nat
  remaining : Nat

structure EpollCore (U S : Type u) where
  id : EpollId
  entries : List (Option (Entry U S))
  ready : ReadyQueue
  nextGeneration : Nat
  nextDelivery : Nat
  nextRescan : Nat
  rescan : Option RescanState

/-- The entry `add` and `modify` publish. -/
def Entry.fresh {U S : Type u} (generation : Nat) (interest : EpollInterest U S) : Entry U S :=
  { generation, interest, enabled := true, queued := false, inDelivery := none
    ready := .empty, duringDelivery := .empty }

/-- What `finish_delivery` writes to the entry before it decides about the queue. -/
def Entry.finished {U S : Type u} (e : Entry U S) (events : ReadyMask) :
    DeliveryOutcome → Entry U S
  | .fault =>
    { e with
      inDelivery := none
      ready := e.ready ||| (events ||| e.duringDelivery)
      duringDelivery := .empty }
  | .suppressed =>
    { e with
      inDelivery := none
      ready := e.ready ||| e.duringDelivery
      duringDelivery := .empty }
  | .copied stillReady =>
    { e with
      inDelivery := none
      ready :=
        if ¬ e.interest.mode.edge then
          e.ready ||| e.duringDelivery ||| stillReady.deliverable e.interest.interest
        else e.ready ||| e.duringDelivery
      enabled := if e.interest.mode.oneShot then false else e.enabled
      duringDelivery := .empty }

namespace EpollCore

variable {U S V : Type u}

/-! ## Construction and private helpers -/

def tryNew (readyReserved entriesReserved : Bool) (id : EpollId) (capacity : Nat) :
    Except EpollError (EpollCore U S) :=
  if capacity = 2 ^ 64 - 1 then .error .capacity
  else
    match ReadyQueue.tryNew readyReserved capacity { epoll := id, slot := 0, generation := 0 } with
    | .error error => .error error
    | .ok ready =>
      if ¬ entriesReserved then .error .noMemory
      else
        .ok { id, entries := List.replicate capacity none, ready
              nextGeneration := 1, nextDelivery := 1, nextRescan := 1, rescan := none }

variable (c : EpollCore U S)

def needsRescan : Bool := c.rescan.isSome

def allocateGeneration : Except EpollError Nat × EpollCore U S :=
  if c.nextGeneration + 1 < 2 ^ 64 then
    (.ok c.nextGeneration, { c with nextGeneration := c.nextGeneration + 1 })
  else (.error .generationExhausted, c)

def allocateDelivery : Except EpollError Nat × EpollCore U S :=
  if c.nextDelivery + 1 < 2 ^ 64 then
    (.ok c.nextDelivery, { c with nextDelivery := c.nextDelivery + 1 })
  else (.error .generationExhausted, c)

def startRescan : Except EpollError Unit × EpollCore U S :=
  if c.nextRescan + 1 < 2 ^ 64 then
    (.ok (), { c with
      nextRescan := c.nextRescan + 1
      rescan := some { generation := c.nextRescan, cursor := 0, remaining := c.entries.length } })
  else (.error .generationExhausted, c)

def validateMode (mode : InterestMode) : Except EpollError Unit :=
  if mode.exclusive then .error .unsupportedMode else .ok ()

/-- `EpollCore::entry`; `entry_mut` makes the same checks. -/
def entry (token : EpollToken) : Except EpollError (Entry U S) :=
  if token.epoll ≠ c.id then .error .staleToken
  else
    match c.entries[token.slot]? with
    | some (some e) => if e.generation = token.generation then .ok e else .error .staleToken
    | _ => .error .staleToken

/-- The write through the reference of `entry_mut`, and `entries[slot] = Some(..)`. -/
def setEntry (slot : Nat) (e : Entry U S) : EpollCore U S :=
  { c with entries := c.entries.set slot (some e) }

/-- The queueing tail that `notify` and `finish_delivery` share: push, or ask for
a rescan; then set the queued flag. -/
def enqueue (token : EpollToken) : Except EpollError Unit × EpollCore U S :=
  match c.ready.push token with
  | none =>
    match c.startRescan with
    | (.error error, c) => (.error error, c)
    | (.ok (), c) => (.error .readyQueueFull, c)
  | some ready =>
    let c := { c with ready }
    match c.entry token with
    | .error error => (.error error, c)
    | .ok e => (.ok (), c.setEntry token.slot { e with queued := true })

/-! ## Interest control -/

def add (interest : EpollInterest U S) :
    Except (EpollPublishError U S) EpollToken × EpollCore U S :=
  match validateMode interest.mode with
  | .error error => (.error { error, interest }, c)
  | .ok () =>
    if c.entries.any (fun entry => entry.any fun e => e.interest.key = interest.key) then
      (.error { error := .duplicate, interest }, c)
    else
      match c.entries.findIdx? Option.isNone with
      | none => (.error { error := .capacity, interest }, c)
      | some slot =>
        match c.allocateGeneration with
        | (.error error, c) => (.error { error, interest }, c)
        | (.ok generation, c) =>
          (.ok { epoll := c.id, slot, generation }, c.setEntry slot (.fresh generation interest))

def modify (token : EpollToken) (replacement : EpollInterest U S) :
    Except (EpollPublishError U S) (EpollToken × EpollInterest U S) × EpollCore U S :=
  match validateMode replacement.mode with
  | .error error => (.error { error, interest := replacement }, c)
  | .ok () =>
    let keyMatches : Bool := match c.entry token with
      | .ok e => e.interest.key = replacement.key
      | .error _ => false
    if ¬ keyMatches then (.error { error := .staleToken, interest := replacement }, c)
    else
      match c.allocateGeneration with
      | (.error error, c) => (.error { error, interest := replacement }, c)
      | (.ok generation, c) =>
        let c := { c with ready := c.ready.remove token }
        match c.entries[token.slot]? with
        | some (some old) =>
          (.ok ({ epoll := c.id, slot := token.slot, generation }, old.interest),
            c.setEntry token.slot (.fresh generation replacement))
        | _ => (.error { error := .staleToken, interest := replacement }, c)

def remove (token : EpollToken) :
    Except EpollError (EpollInterest U S) × EpollCore U S :=
  match c.entry token with
  | .error error => (.error error, c)
  | .ok _ =>
    let c := { c with ready := c.ready.remove token }
    match c.entries[token.slot]? with
    | some (some e) => (.ok e.interest, { c with entries := c.entries.set token.slot none })
    | _ => (.error .staleToken, c)

/-! ## Readiness and delivery -/

def notify (token : EpollToken) (ready : ReadyMask) :
    Except EpollError NotifyOutcome × EpollCore U S :=
  match c.entry token with
  | .error error => (.error error, c)
  | .ok e =>
    if ¬ e.enabled then (.ok .ignored, c)
    else
      let deliverable := ready.deliverable e.interest.interest
      if deliverable = .empty then (.ok .ignored, c)
      else if e.inDelivery.isSome then
        (.ok .coalesced,
          c.setEntry token.slot { e with duringDelivery := e.duringDelivery ||| deliverable })
      else
        let c := c.setEntry token.slot { e with ready := e.ready ||| deliverable }
        if e.queued then (.ok .coalesced, c)
        else
          match c.enqueue token with
          | (.error error, c) => (.error error, c)
          | (.ok (), c) => (.ok .enqueued, c)

/-- `self.entry(token).is_ok_and(|entry| entry.queued)`. -/
def isQueued (token : EpollToken) : Bool :=
  match c.entry token with
  | .ok e => e.queued
  | .error _ => false

/-- The loop of `EpollCore::prepare_delivery`: drops stale records until a valid
candidate is at the head. -/
def prepareLoop : Nat → EpollCore U S → Option EpollToken × EpollCore U S
  | 0, c => (none, c)
  | rounds + 1, c =>
    match c.ready.peek with
    | none => (none, c)
    | some token =>
      if ¬ c.isQueued token then prepareLoop rounds { c with ready := c.ready.pop }
      else (some token, c)

def prepareDelivery :
    Except EpollError (Option DeliveryPreparation) × EpollCore U S :=
  match prepareLoop c.ready.len c with
  | (some token, c) => (.ok (some { interest := token }), c)
  | (none, c) => if c.rescan.isSome then (.error .rescanRequired, c) else (.ok none, c)

def commitDelivery (preparation : DeliveryPreparation) (userData : V) :
    Except (DeliveryCommitError V) (ReadyEvent V) × EpollCore U S :=
  let token := preparation.interest
  if ¬ (c.ready.peek = some token ∧ c.isQueued token) then
    (.error { error := .staleToken, userData }, c)
  else
    match c.allocateDelivery with
    | (.error error, c) => (.error { error, userData }, c)
    | (.ok serial, c) =>
      let c := { c with ready := c.ready.pop }
      match c.entry token with
      | .error error => (.error { error, userData }, c)
      | .ok e =>
        (.ok { delivery := { interest := token, serial, events := e.ready }
               events := e.ready, userData },
          c.setEntry token.slot
            { e with queued := false, inDelivery := some serial, ready := .empty })

def beginDelivery : Except EpollError (Option (ReadyEvent U)) × EpollCore U S :=
  match c.prepareDelivery with
  | (.error error, c) => (.error error, c)
  | (.ok none, c) => (.ok none, c)
  | (.ok (some preparation), c) =>
    match c.entry preparation.interest with
    | .error error => (.error error, c)
    | .ok e =>
      match c.commitDelivery preparation e.interest.userData with
      | (.error error, c) => (.error error.error, c)
      | (.ok event, c) => (.ok (some event), c)

def finishDelivery (delivery : DeliveryToken) (outcome : DeliveryOutcome) :
    Except EpollError Unit × EpollCore U S :=
  let token := delivery.interest
  match c.entry token with
  | .error error => (.error error, c)
  | .ok e =>
    if e.inDelivery ≠ some delivery.serial then (.error .staleToken, c)
    else
      let e := e.finished delivery.events outcome
      let c := c.setEntry token.slot e
      if e.enabled ∧ e.ready ≠ .empty ∧ ¬ e.queued then c.enqueue token else (.ok (), c)

/-! ## Rescan -/

/-- The loop of `EpollCore::rescan_ready`, with the rounds left to `target`. -/
def rescanLoop : Nat → EpollCore U S → RescanState → Nat →
    Except EpollError (RescanState × Nat) × EpollCore U S
  | 0, c, state, enqueued => (.ok (state, enqueued), c)
  | rounds + 1, c, state, enqueued =>
    let next : RescanState :=
      { state with
        cursor := (state.cursor + 1) % c.entries.length
        remaining := state.remaining - 1 }
    let slot := state.cursor
    match c.entries[slot]? with
    | some (some e) =>
      if e.enabled ∧ e.ready ≠ .empty ∧ ¬ e.queued ∧ e.inDelivery.isNone then
        let readyToken : EpollToken := { epoll := c.id, slot, generation := e.generation }
        match c.ready.push readyToken with
        | none => (.error .readyQueueFull, { c with rescan := some state })
        | some ready =>
          let c := { c with ready }
          match c.entry readyToken with
          | .error error => (.error error, c)
          | .ok e =>
            rescanLoop rounds (c.setEntry slot { e with queued := true }) next (enqueued + 1)
      else rescanLoop rounds c next enqueued
    | _ => rescanLoop rounds c next enqueued

def rescanReady (token : RescanToken) (maxEntries : Nat) :
    Except EpollError RescanProgress × EpollCore U S :=
  match c.rescan with
  | none => (.error .staleToken, c)
  | some state =>
    if token.epoll ≠ c.id ∨ token.generation ≠ state.generation then (.error .staleToken, c)
    else if c.entries.isEmpty ∨ state.remaining = 0 then
      (.ok { scanned := 0, enqueued := 0, complete := true }, { c with rescan := none })
    else if maxEntries = 0 then (.ok { scanned := 0, enqueued := 0, complete := false }, c)
    else
      let target := min maxEntries state.remaining
      match rescanLoop target c state 0 with
      | (.error error, c) => (.error error, c)
      | (.ok (state, enqueued), c) =>
        let complete : Bool := state.remaining = 0
        (.ok { scanned := target, enqueued, complete },
          { c with rescan := if complete then none else some state })

end EpollCore

/-! ## The core as one object -/

/-- One call of a public operation. -/
inductive EpollCall (U S V : Type u)
  | add (interest : EpollInterest U S)
  | modify (token : EpollToken) (replacement : EpollInterest U S)
  | remove (token : EpollToken)
  | notify (token : EpollToken) (ready : ReadyMask)
  | prepareDelivery
  | commitDelivery (preparation : DeliveryPreparation) (userData : V)
  | beginDelivery
  | finishDelivery (delivery : DeliveryToken) (outcome : DeliveryOutcome)
  | rescanReady (token : RescanToken) (maxEntries : Nat)

/-- The value a successful call returns. -/
inductive EpollReply (U S V : Type u)
  | done
  | token (token : EpollToken)
  | replaced (token : EpollToken) (old : EpollInterest U S)
  | interest (interest : EpollInterest U S)
  | notified (outcome : NotifyOutcome)
  | prepared (preparation : Option DeliveryPreparation)
  | committed (event : ReadyEvent V)
  | begun (event : Option (ReadyEvent U))
  | rescanned (progress : RescanProgress)

/-- Runs one call. A failed `add`, `modify` or `commit_delivery` also hands its
argument back; the error is the reply here. -/
def EpollCore.call {U S V : Type u} (c : EpollCore U S) :
    EpollCall U S V → Except EpollError (EpollReply U S V) × EpollCore U S
  | .add interest =>
    (((c.add interest).1.map .token).mapError (·.error), (c.add interest).2)
  | .modify token replacement =>
    (((c.modify token replacement).1.map fun r => .replaced r.1 r.2).mapError (·.error),
      (c.modify token replacement).2)
  | .remove token => ((c.remove token).1.map .interest, (c.remove token).2)
  | .notify token ready => ((c.notify token ready).1.map .notified, (c.notify token ready).2)
  | .prepareDelivery => (c.prepareDelivery.1.map .prepared, c.prepareDelivery.2)
  | .commitDelivery preparation userData =>
    (((c.commitDelivery preparation userData).1.map .committed).mapError (·.error),
      (c.commitDelivery preparation userData).2)
  | .beginDelivery => (c.beginDelivery.1.map .begun, c.beginDelivery.2)
  | .finishDelivery delivery outcome =>
    ((c.finishDelivery delivery outcome).1.map fun _ => .done,
      (c.finishDelivery delivery outcome).2)
  | .rescanReady token maxEntries =>
    ((c.rescanReady token maxEntries).1.map .rescanned, (c.rescanReady token maxEntries).2)

end LinuxAbi.Fd
