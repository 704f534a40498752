import LinuxAbi.Lib.Word

/-!
# Shared descriptor and readiness types

The part of `crates/fd/src/types.rs` that the epoll core and the epoll graph
read. Masks are plain 32-bit words: the strict decoder of `InterestMask` runs
before the core is called, and nothing in the core depends on it.
-/

namespace LinuxAbi.Fd

open Lib (NonZeroU64)

structure FdNumber where
  raw : BitVec 32
deriving DecidableEq

structure OfdId where
  raw : NonZeroU64
deriving DecidableEq

structure EpollId where
  raw : NonZeroU64
deriving DecidableEq

structure EpollGraphId where
  raw : NonZeroU64
deriving DecidableEq

abbrev InterestMask := BitVec 32

abbrev ReadyMask := BitVec 32

namespace ReadyMask

def empty : ReadyMask := 0

/-- `ReadyMask::UNCONDITIONAL`: error, hangup and invalid descriptor. -/
def unconditional : ReadyMask := 0x0008 ||| 0x0010 ||| 0x0020

def deliverable (ready : ReadyMask) (interest : InterestMask) : ReadyMask :=
  ready &&& (interest ||| unconditional)

end ReadyMask

structure InterestMode where
  edge : Bool
  oneShot : Bool
  exclusive : Bool
deriving DecidableEq

end LinuxAbi.Fd
