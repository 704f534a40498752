import Mathlib.Data.BitVec

/-!
# Signal numbers, signal sets and dispositions

`crates/signal/src/types.rs` and `crates/signal/src/action.rs`.

Mirroring notes:
- `Signo` has the 31 standard numbers by name and the real-time ones by their
  distance from `SIGRTMIN`, which is the index of their queue.
- `SignalSet` is the 64-bit word of the source with its own bit operations.
- `SignalInfo` is a 128-byte union; the model keeps the header the signal paths
  read (`signo`, `code`) and the sender of a user signal.
- The flag word keeps every bit; `from_bits_truncate` is the mask `known`.
-/

namespace LinuxAbi.Signal

open BitVec

/-! ## Signal numbers -/

/-- What a signal does by default. -/
inductive DefaultSignalAction
  | terminate
  | ignore
  | coreDump
  | stop
  | continue
deriving DecidableEq

/-- What is left to the OS after a signal was handled. -/
inductive SignalOSAction
  | terminate
  | coreDump
  | stop
  | continue
  | handler
deriving DecidableEq

instance neZeroRealtime : NeZero 33 := ⟨by decide⟩

/-- `Signo`; `sigrt n` is signal number `32 + n`. -/
inductive Signo
  | sighup | sigint | sigquit | sigill | sigtrap | sigabrt | sigbus | sigfpe
  | sigkill | sigusr1 | sigsegv | sigusr2 | sigpipe | sigalrm | sigterm | sigstkflt
  | sigchld | sigcont | sigstop | sigtstp | sigttin | sigttou | sigurg | sigxcpu
  | sigxfsz | sigvtalrm | sigprof | sigwinch | sigio | sigpwr | sigsys
  | sigrt (n : Fin 33)
deriving DecidableEq

namespace Signo

/-- `signo as u8`. -/
def num : Signo → Nat
  | sighup => 1 | sigint => 2 | sigquit => 3 | sigill => 4 | sigtrap => 5 | sigabrt => 6
  | sigbus => 7 | sigfpe => 8 | sigkill => 9 | sigusr1 => 10 | sigsegv => 11 | sigusr2 => 12
  | sigpipe => 13 | sigalrm => 14 | sigterm => 15 | sigstkflt => 16 | sigchld => 17
  | sigcont => 18 | sigstop => 19 | sigtstp => 20 | sigttin => 21 | sigttou => 22
  | sigurg => 23 | sigxcpu => 24 | sigxfsz => 25 | sigvtalrm => 26 | sigprof => 27
  | sigwinch => 28 | sigio => 29 | sigpwr => 30 | sigsys => 31
  | sigrt n => 32 + n

/-- The signal of a number from 1 to 64. -/
def fromRepr : Nat → Option Signo
  | 1 => some sighup | 2 => some sigint | 3 => some sigquit | 4 => some sigill
  | 5 => some sigtrap | 6 => some sigabrt | 7 => some sigbus | 8 => some sigfpe
  | 9 => some sigkill | 10 => some sigusr1 | 11 => some sigsegv | 12 => some sigusr2
  | 13 => some sigpipe | 14 => some sigalrm | 15 => some sigterm | 16 => some sigstkflt
  | 17 => some sigchld | 18 => some sigcont | 19 => some sigstop | 20 => some sigtstp
  | 21 => some sigttin | 22 => some sigttou | 23 => some sigurg | 24 => some sigxcpu
  | 25 => some sigxfsz | 26 => some sigvtalrm | 27 => some sigprof | 28 => some sigwinch
  | 29 => some sigio | 30 => some sigpwr | 31 => some sigsys
  | n => if h : 32 ≤ n ∧ n ≤ 64 then some (sigrt ⟨n - 32, by omega⟩) else none

/-- Numbers from 32 on. -/
def isRealtime : Signo → Bool
  | sigrt _ => true
  | _ => false

/-- The default of each signal. -/
def defaultAction : Signo → DefaultSignalAction
  | sighup | sigint | sigkill | sigusr1 | sigusr2 | sigpipe | sigalrm | sigterm | sigstkflt
  | sigvtalrm | sigprof | sigio | sigpwr => .terminate
  | sigquit | sigill | sigtrap | sigabrt | sigbus | sigfpe | sigsegv | sigxcpu | sigxfsz
  | sigsys => .coreDump
  | sigchld | sigurg | sigwinch => .ignore
  | sigcont => .continue
  | sigstop | sigtstp | sigttin | sigttou => .stop
  | sigrt _ => .terminate

theorem num_pos (s : Signo) : 1 ≤ s.num := by
  cases s <;> simp only [num] <;> omega

theorem num_le (s : Signo) : s.num ≤ 64 := by
  cases s with
  | sigrt n => simp only [num]; omega
  | _ => decide

/-- A signal is the one of its number. -/
theorem fromRepr_num (s : Signo) : fromRepr s.num = some s := by
  cases s with
  | sigrt n =>
    have h : ∀ n : Fin 33, fromRepr (sigrt n).num = some (sigrt n) := by decide
    exact h n
  | _ => rfl

/-- Signals are told apart by their numbers. -/
theorem num_injective {s t : Signo} (h : s.num = t.num) : s = t := by
  have hs := fromRepr_num s
  rw [h, fromRepr_num t] at hs
  exact (Option.some.inj hs).symm

/-- Every number from 1 to 64 is a signal. -/
theorem fromRepr_succ (h : n < 64) : ∃ s, fromRepr (n + 1) = some s ∧ s.num = n + 1 := by
  have hall : ∀ m : Fin 64, (fromRepr (m.val + 1)).map num = some (m.val + 1) := by decide
  exact Option.map_eq_some_iff.mp (hall ⟨n, h⟩)

end Signo

/-! ## Signal sets -/

/-- The bits of a `SignalSet`; signal number `n` is bit `n - 1`. -/
abbrev SignalSet := BitVec 64

namespace SignalSet

/-- The bit of a signal. -/
def signoBit (signal : Signo) : BitVec 64 := 1#64 <<< (signal.num - 1)

/-- Membership. -/
def has (set : SignalSet) (signal : Signo) : Bool := set &&& signoBit signal != 0#64

/-- Adds a signal, and says whether it is new. -/
def add (set : SignalSet) (signal : Signo) : Bool × SignalSet :=
  if set &&& signoBit signal != 0#64 then (false, set) else (true, set ||| signoBit signal)

/-- Removes a signal, and says whether it was there. -/
def remove (set : SignalSet) (signal : Signo) : Bool × SignalSet :=
  if set &&& signoBit signal == 0#64 then (false, set) else (true, set &&& ~~~ signoBit signal)

/-- `SignalSet::dequeue`: the lowest number of the set that is in the mask. -/
def dequeue (set mask : SignalSet) : Option Signo × SignalSet :=
  let bits := set &&& mask
  if bits == 0#64 then (none, set)
  else
    let signal := bits.ctz.toNat
    (Signo.fromRepr (signal + 1), set &&& ~~~ (1#64 <<< signal))

/-- It is the only bit set. -/
theorem getLsbD_signoBit (signal : Signo) (i : Nat) :
    (signoBit signal).getLsbD i = decide (i = signal.num - 1) := by
  have hle := signal.num_le
  unfold signoBit
  rw [getLsbD_shiftLeft, getLsbD_one]
  rcases Nat.lt_trichotomy i (signal.num - 1) with h | h | h
  · simp [h, Nat.ne_of_lt h]
  · simp [h]
    omega
  rw [decide_eq_false (Nat.ne_of_gt h), decide_eq_false (show ¬ i - (signal.num - 1) = 0 by omega)]
  simp

/-- Membership is one bit of the word. -/
theorem has_eq (set : SignalSet) (signal : Signo) :
    set.has signal = set.getLsbD (signal.num - 1) := by
  unfold has
  by_cases h : set.getLsbD (signal.num - 1) = true
  · rw [h]
    refine bne_iff_ne.mpr ?_
    intro hzero
    have hbit := congrArg (fun b : BitVec 64 => b.getLsbD (signal.num - 1)) hzero
    simp [getLsbD_signoBit, h] at hbit
  · rw [Bool.not_eq_true] at h
    rw [h, bne_eq_false_iff_eq]
    apply eq_of_getLsbD_eq
    intro i _
    rw [getLsbD_and, getLsbD_signoBit]
    by_cases hi : i = signal.num - 1
    · simp [hi, h]
    · simp [hi]

@[simp] theorem has_zero (signal : Signo) : has 0#64 signal = false := by
  simp [has_eq]

@[simp] theorem has_and (a b : SignalSet) (signal : Signo) :
    has (a &&& b) signal = (a.has signal && b.has signal) := by
  simp [has_eq]

@[simp] theorem has_or (a b : SignalSet) (signal : Signo) :
    has (a ||| b) signal = (a.has signal || b.has signal) := by
  simp [has_eq]

@[simp] theorem has_not (a : SignalSet) (signal : Signo) : has (~~~ a) signal = !a.has signal := by
  have hle := signal.num_le
  rw [has_eq, has_eq, getLsbD_not]
  simp
  omega

@[simp] theorem has_signoBit (signal other : Signo) :
    has (signoBit signal) other = decide (other = signal) := by
  have hpos := signal.num_pos
  have hpos' := other.num_pos
  rw [has_eq, getLsbD_signoBit]
  refine decide_eq_decide.mpr ⟨?_, ?_⟩
  · intro h
    exact Signo.num_injective (by omega)
  · intro h
    rw [h]

/-- Adding changes one signal. -/
@[simp] theorem has_add (set : SignalSet) (signal other : Signo) :
    (set.add signal).2.has other = (set.has other || decide (other = signal)) := by
  unfold add
  split
  · next h =>
    have hin : set.has signal = true := h
    by_cases heq : other = signal
    · rw [heq, hin]
      rfl
    · simp [heq]
  · simp

/-- So does removing. -/
@[simp] theorem has_remove (set : SignalSet) (signal other : Signo) :
    (set.remove signal).2.has other = (set.has other && decide (other ≠ signal)) := by
  unfold remove
  split
  · next h =>
    have hout : set.has signal = false := by
      exact bne_eq_false_iff_eq.mpr (eq_of_beq h)
    by_cases heq : other = signal
    · rw [heq, hout]
      rfl
    · simp [heq]
  · simp

/-- When nothing is taken, no signal of the set is in the mask. -/
theorem dequeue_none {set mask rest : SignalSet} (h : set.dequeue mask = (none, rest)) :
    rest = set ∧ ∀ s, ¬ (set.has s = true ∧ mask.has s = true) := by
  unfold dequeue at h
  dsimp only at h
  split at h
  · next hzero =>
    refine ⟨(congrArg Prod.snd h).symm, ?_⟩
    intro s hs
    have hbits := has_and set mask s
    rw [eq_of_beq hzero, has_zero, hs.1, hs.2] at hbits
    cases hbits
  · next hne =>
    have hctz : (set &&& mask).ctz.toNat < 64 := by
      have hlt := ctz_lt_iff_ne_zero.mpr (fun heq => hne (beq_iff_eq.mpr heq))
      simpa [lt_def] using hlt
    obtain ⟨s, hs, -⟩ := Signo.fromRepr_succ hctz
    rw [hs] at h
    cases h

/-- A dequeued number was in both sets and is gone; every other one stays. -/
theorem dequeue_some {set mask rest : SignalSet} (h : set.dequeue mask = (some signal, rest)) :
    set.has signal = true ∧ mask.has signal = true ∧
      ∀ other, rest.has other = (set.has other && decide (other ≠ signal)) := by
  unfold dequeue at h
  dsimp only at h
  split at h
  · cases h
  next hne =>
  have hne' : set &&& mask ≠ 0#64 := fun heq => hne (beq_iff_eq.mpr heq)
  have hctz : (set &&& mask).ctz.toNat < 64 := by
    have hlt := ctz_lt_iff_ne_zero.mpr hne'
    simpa [lt_def] using hlt
  obtain ⟨s, hs, hnum⟩ := Signo.fromRepr_succ hctz
  rw [hs] at h
  obtain rfl := Option.some.inj (congrArg Prod.fst h)
  have hbit : (set &&& mask).has s = true := by
    rw [has_eq, hnum]
    exact getLsbD_true_ctz_of_ne_zero hne'
  rw [has_and, Bool.and_eq_true] at hbit
  refine ⟨hbit.1, hbit.2, ?_⟩
  intro other
  have hrest : rest = set &&& ~~~ signoBit s := by
    unfold signoBit
    rw [hnum]
    exact (congrArg Prod.snd h).symm
  rw [hrest]
  simp

end SignalSet

/-! ## Records and dispositions -/

/-- The fields of a siginfo that the crate reads. -/
structure SignalInfo where
  signo : Signo
  code : Int
  pid : Nat
  uid : Nat
deriving DecidableEq

def SignalInfo.newUser (signo : Signo) (code : Int) (pid uid : Nat) : SignalInfo :=
  { signo, code, pid, uid }

/-- The `SA_*` flags. -/
abbrev SignalActionFlags := BitVec 64

namespace SignalActionFlags

def noCldStop : SignalActionFlags := 0x00000001#64
def noCldWait : SignalActionFlags := 0x00000002#64
def sigInfo : SignalActionFlags := 0x00000004#64
def restorer : SignalActionFlags := 0x04000000#64
def onStack : SignalActionFlags := 0x08000000#64
def restart : SignalActionFlags := 0x10000000#64
def noDefer : SignalActionFlags := 0x40000000#64
def resetHand : SignalActionFlags := 0x80000000#64

/-- All bits of the other are set. -/
def contains (flags other : SignalActionFlags) : Bool := flags &&& other == other

/-- Unknown bits are dropped. -/
def fromBitsTruncate (bits : BitVec 64) : SignalActionFlags :=
  bits &&& (sigInfo ||| noCldStop ||| noCldWait ||| noDefer ||| resetHand ||| restart ||| onStack
    ||| restorer)

end SignalActionFlags

/-- What a process does with a signal. -/
inductive SignalDisposition
  | default
  | ignore
  | handler (address : BitVec 64)
deriving DecidableEq

/-- Whether the disposition is a userspace handler. -/
def SignalDisposition.isHandler : SignalDisposition → Bool
  | .handler _ => true
  | _ => false

/-- A disposition with its flags and mask. -/
structure SignalAction where
  flags : SignalActionFlags
  mask : SignalSet
  disposition : SignalDisposition
  restorer : Option (BitVec 64)
deriving DecidableEq

def SignalAction.default : SignalAction :=
  { flags := 0#64, mask := 0#64, disposition := .default, restorer := none }

/-- `RawSignalAction`, the record `rt_sigaction` copies from userspace. -/
structure RawSignalAction where
  handler : BitVec 64
  flags : BitVec 64
  restorer : BitVec 64
  mask : SignalSet

/-- `From<RawSignalAction> for SignalAction`. -/
def SignalAction.ofRaw (value : RawSignalAction) : SignalAction :=
  let flags := SignalActionFlags.fromBitsTruncate value.flags
  { flags
    mask := value.mask
    disposition :=
      if value.handler = 0#64 then .default
      else if value.handler = 1#64 then .ignore
      else .handler value.handler
    restorer := if flags.contains SignalActionFlags.restorer then some value.restorer else none }

end LinuxAbi.Signal
