import LinuxAbi.Signal.Types

/-!
# The signal action table

`SignalActions` of `crates/signal/src/api/process.rs`: the dispositions one
sighand owner holds, their generations, and the outstanding `SA_RESETHAND`
claims.

Mirroring notes:
- The three arrays indexed by `signo - 1` are functions of the signal number.
- A `ResetClaim` is its generation.
-/

namespace LinuxAbi.Signal

open Function

inductive SignalActionUpdateError
  | noMemory
  | generationExhausted
  | uncatchableSignal
deriving DecidableEq

structure ResetDeliveryClaim where
  signo : Signo
  generation : Nat
deriving DecidableEq

structure SignalActions where
  actions : Signo → SignalAction
  generations : Signo → Nat
  resetClaims : Signo → Option Nat

namespace SignalActions

def default : SignalActions where
  actions _ := SignalAction.default
  generations _ := 0
  resetClaims _ := none

def isUncatchable (signo : Signo) : Bool := signo == .sigkill || signo == .sigstop

variable (a : SignalActions)

def resetClaimIsCurrent (signo : Signo) : Bool :=
  a.resetClaims signo == some (a.generations signo)

def effectiveAction (signo : Signo) : SignalAction :=
  if isUncatchable signo then SignalAction.default
  else if a.resetClaimIsCurrent signo then SignalAction.default
  else a.actions signo

def replace (signo : Signo) (action : SignalAction) :
    Except SignalActionUpdateError SignalAction × SignalActions :=
  if isUncatchable signo then (.error .uncatchableSignal, a)
  else if a.generations signo + 1 < 2 ^ 64 then
    (.ok (a.effectiveAction signo),
      { a with
        generations := update a.generations signo (a.generations signo + 1)
        actions := update a.actions signo action })
  else (.error .generationExhausted, a)

def claimDelivery (signo : Signo) :
    (SignalAction × Option ResetDeliveryClaim) × SignalActions :=
  if isUncatchable signo then ((SignalAction.default, none), a)
  else if a.resetClaimIsCurrent signo then ((SignalAction.default, none), a)
  else
    let action := a.actions signo
    if action.disposition.isHandler ∧ action.flags.contains SignalActionFlags.resetHand then
      let generation := a.generations signo
      ((action, some { signo, generation }),
        { a with resetClaims := update a.resetClaims signo (some generation) })
    else ((action, none), a)

def finishDelivery (reservation : ResetDeliveryClaim) (commit : Bool) :
    SignalActions :=
  let signo := reservation.signo
  if a.resetClaims signo ≠ some reservation.generation then a
  else
    let a := { a with resetClaims := update a.resetClaims signo none }
    if commit ∧ a.generations signo = reservation.generation then
      { a with actions := update a.actions signo SignalAction.default }
    else a

def snapshot : SignalActions where
  actions signo := if a.resetClaimIsCurrent signo then SignalAction.default else a.actions signo
  generations _ := 0
  resetClaims _ := none

def execSnapshot : SignalActions where
  actions signo :=
    let action := if a.resetClaimIsCurrent signo then SignalAction.default else a.actions signo
    match action.disposition with
    | .handler _ | .default => SignalAction.default
    | .ignore => { SignalAction.default with disposition := .ignore }
  generations _ := 0
  resetClaims _ := none

/-- `ProcessSignalManager::action_ignored`. -/
def actionIgnored (signo : Signo) : Bool :=
  match (a.effectiveAction signo).disposition with
  | .ignore => true
  | .default => signo.defaultAction == .ignore
  | .handler _ => false

end SignalActions

def jobControlStopSignals : List Signo := [.sigstop, .sigtstp, .sigttin, .sigttou]

/-- `ProcessSignalManager::has_generation_effect`. -/
def hasGenerationEffect (signo : Signo) : Bool :=
  signo == .sigcont || jobControlStopSignals.contains signo

/-- The signals a generated `signo` takes out of the pending queues. -/
def generationFlush (signo : Signo) : List Signo :=
  if signo = .sigcont then jobControlStopSignals
  else if jobControlStopSignals.contains signo then [.sigcont]
  else []

end LinuxAbi.Signal
