import Firefly.Firmware

/-!
# The work parameters: frequency and amount

How many sync periods lie between work, and how much work is done each time. The period is
set from a number or from the code that the provisioning client sends; the amount is moved
in steps of `ChangeAmount`, or set outright.
-/

namespace Firefly

variable {M : Type}

namespace WorkFrequency

/-- `WorkFrequency::setSyncPeriodsBetweenWork`: zero means infinitely often and is not allowed. -/
def setSyncPeriodsBetweenWork (periods : UInt32) (u : Firmware M) :
    Except Fault (Firmware M × List Event) :=
  let logged := [.log "Set work frequency\n", .logInt periods]
  if periods > 0 then
    .ok ({ u with syncPeriodsBetweenWork := periods }, logged)
  else
    -- the fault ends the unit: what it logged and changed on the way is not kept
    .error .breakIntoDebuggerOrHardfault

/-- The period that a provisioned frequency code stands for. -/
def decodeWorkFreq (workFreqCode : UInt32) : UInt32 :=
  match workFreqCode with
  | 0 => 1
  | 1 => 2
  | 2 => 4
  | _ => defaultSyncsBetweenWork

/-- `WorkFrequency::setSyncPeriodsBetweenWorkCoded` -/
def setSyncPeriodsBetweenWorkCoded (workFreqCode : UInt32) (u : Firmware M) :
    Except Fault (Firmware M × List Event) :=
  setSyncPeriodsBetweenWork (decodeWorkFreq workFreqCode) u

/-- A nonzero period is installed, and nothing else changes. -/
theorem setSyncPeriodsBetweenWork_ok {periods : UInt32} (h : periods ≠ 0) (u : Firmware M) :
    setSyncPeriodsBetweenWork periods u =
      .ok ({ u with syncPeriodsBetweenWork := periods },
        [.log "Set work frequency\n", .logInt periods]) :=
  if_pos (UInt32.pos_iff_ne_zero.mpr h)

/-- Every code stands for one, two or four sync periods. -/
theorem decodeWorkFreq_cases (code : UInt32) :
    decodeWorkFreq code = 1 ∨ decodeWorkFreq code = 2 ∨ decodeWorkFreq code = 4 := by
  unfold decodeWorkFreq
  split
  · exact .inl rfl
  · exact .inr (.inl rfl)
  · exact .inr (.inr rfl)
  · exact .inr (.inr rfl)

end WorkFrequency

namespace WorkAmount

/-- `WorkAmount::AmountPerceivable` -/
def amountPerceivable : UInt32 := 20

/-- `WorkAmount::AmountEasilyPerceivable` -/
def amountEasilyPerceivable : UInt32 := 50

/-- `WorkAmount::ChangeAmount` -/
def changeAmount : UInt32 := 20

/-- `WorkAmount::setManagedAmount` -/
def setManagedAmount (amount : UInt32) (u : Firmware M) : Firmware M :=
  { u with managedAmount := amount }

/-- `WorkAmount::init` -/
def init (initialAmount : UInt32) (u : Firmware M) : Firmware M := setManagedAmount initialAmount u

/-- `WorkAmount::setLeastAmount` -/
def setLeastAmount (u : Firmware M) : Firmware M := setManagedAmount amountEasilyPerceivable u

/-- `WorkAmount::increaseAmountWithoutExceedingTimerLimit`, for a given `Worker::maxWorkAmount` -/
def increaseAmountWithoutExceedingTimerLimit (maxWorkAmount : UInt32) (u : Firmware M) :
    Firmware M :=
  if u.managedAmount < maxWorkAmount then
    { u with managedAmount := u.managedAmount + changeAmount }
  else u

/-- `WorkAmount::decreaseAmount` -/
def decreaseAmount (u : Firmware M) : Firmware M :=
  if u.managedAmount > changeAmount then
    { u with managedAmount := u.managedAmount - changeAmount }
  else u

/-- `WorkAmount::maintainAmount` -/
def maintainAmount (u : Firmware M) : Firmware M := u

/-- An increase touches no variable but the work amount. -/
theorem increaseAmount_frame (maxWorkAmount : UInt32) (u : Firmware M) :
    ∃ amount, increaseAmountWithoutExceedingTimerLimit maxWorkAmount u =
      { u with managedAmount := amount } := by
  unfold increaseAmountWithoutExceedingTimerLimit
  split
  · exact ⟨_, rfl⟩
  · exact ⟨u.managedAmount, rfl⟩

/-- A decrease touches no variable but the work amount. -/
theorem decreaseAmount_frame (u : Firmware M) :
    ∃ amount, decreaseAmount u = { u with managedAmount := amount } := by
  unfold decreaseAmount
  split
  · exact ⟨_, rfl⟩
  · exact ⟨u.managedAmount, rfl⟩

end WorkAmount

namespace Worker

/-- `Worker::workManagedAmount`: flash the LED by the managed amount. -/
def workManagedAmount (u : Firmware M) : Firmware M × List Event :=
  (u, [.flashLEDByAmount u.managedAmount])

/-- `Worker::maxWorkAmount` -/
def maxWorkAmount (build : Build) : UInt32 := build.maxFlashAmount

end Worker

end Firefly
