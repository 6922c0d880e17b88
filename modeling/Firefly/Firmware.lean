import Firefly.Platform

/-!
# The variables of one unit

The firmware keeps its state in the static variables of its modules. One record collects
them, with their initialisers as field defaults; the two mailboxes belong to the facilitator
and are handed to the other modules by address.
-/

namespace Firefly

/-- `DEFAULT_SYNCS_BETWEEN_WORK` -/
def defaultSyncsBetweenWork : UInt32 := 4

/-- The static variables of the firmware, over a mailbox type. -/
structure Firmware (M : Type) where
  /-- `_counter` of the work clock -/
  workClockCounter : UInt32 := 0
  /-- `_syncPeriodsBetweenWork` -/
  syncPeriodsBetweenWork : UInt32 := defaultSyncsBetweenWork
  /-- `_counter` of the work sync maintenance clock -/
  maintenanceCounter : UInt32 := 0
  /-- `regularWorkCounter` -/
  regularWorkCounter : UInt32 := 0
  /-- `_managedAmount` -/
  managedAmount : UInt32 := 1
  /-- `myOutMailbox` -/
  outMailbox : M
  /-- `myInMailbox` -/
  inMailbox : M
  deriving DecidableEq, Repr

/-- Alternative ways to use more or less energy, chosen when the firmware is built. -/
inductive EnergyStrategy
  | workOnly
  | workAndFish
  deriving DecidableEq, Repr

/-- What is fixed when the firmware is built. -/
structure Build where
  /-- `LEDFlasherTask::MaxFlashAmount` -/
  maxFlashAmount : UInt32
  /-- the `EnergyStrategy` macro -/
  energyStrategy : EnergyStrategy

end Firefly
