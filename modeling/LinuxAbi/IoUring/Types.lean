import LinuxAbi.Lib.Word

/-!
# `thekernel-linux-io-uring`: identities, limits and errors

`crates/io-uring/src/error.rs` and the constants and `RingId` of `setup.rs`.
-/

namespace LinuxAbi.IoUring

open Lib (NonZeroU64)

/-- `setup::IORING_MAX_ENTRIES`. -/
def maxEntries : Nat := 32768

/-- `setup::IORING_MAX_CQ_ENTRIES`. -/
def maxCqEntries : Nat := 65536

/-- `setup::RingId`: caller-allocated stable identity for one ring instance. -/
structure RingId where
  raw : NonZeroU64
deriving DecidableEq

/-- `error::IoUringError`, the variants that setup, requests and cancellation return. -/
inductive IoUringError
  | zeroEntries
  | submissionEntriesTooLarge
  | zeroCompletionEntries
  | completionEntriesTooLarge
  | completionEntriesTooSmall
  | overflow
  | allocationFailed
  | generationExhausted
  | invalidQueueGeometry
  | corruptCompletionHead
  | completionQueueFull
  | requestCapacityExceeded
  | unknownRequest
  | invalidRequestState
  | requestUncancellable
  | terminalAlreadyClaimed
  | completionNotPending
  | publicationInFlight
  | invalidCompletionConsumption
  | closing
  | draining
  | closed
  | invalidLifecycleTransition
  | busy
  | cancellationTargetNotFound
deriving DecidableEq

end LinuxAbi.IoUring
