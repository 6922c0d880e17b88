import Firefly.Work.Distributed

/-!
# Managing excess power with work

The power adjuster turns the energy use up or down through the energy strategy that the build
chose. The excess-power strategy looks at the voltage range once a sync period, adjusts the
usage, and in three of the seven ranges lets the nested distributed strategy run as well.
-/

namespace Firefly

variable {M : Type}

namespace WorkOnlyEnergyStrategy

/-- `WorkOnlyEnergyStrategy::increaseUsage` -/
def increaseUsage (build : Build) (u : Firmware M) : Firmware M × List Event :=
  (WorkAmount.increaseAmountWithoutExceedingTimerLimit (Worker.maxWorkAmount build) u, [])

/-- `WorkOnlyEnergyStrategy::decreaseUsage` -/
def decreaseUsage (u : Firmware M) : Firmware M × List Event := (WorkAmount.decreaseAmount u, [])

/-- `WorkOnlyEnergyStrategy::maintainUsage` -/
def maintainUsage (u : Firmware M) : Firmware M × List Event := (WorkAmount.maintainAmount u, [])

/-- `WorkOnlyEnergyStrategy::setLeastUsage` -/
def setLeastUsage (u : Firmware M) : Firmware M × List Event := (WorkAmount.setLeastAmount u, [])

end WorkOnlyEnergyStrategy

namespace WorkAndFishEnergyStrategy

/-- `WorkAndFishEnergyStrategy::increaseUsage` -/
def increaseUsage (u : Firmware M) : Firmware M × List Event :=
  (u, [.incrementFishSessionDuration 1])

/-- `WorkAndFishEnergyStrategy::decreaseUsage` -/
def decreaseUsage (u : Firmware M) : Firmware M × List Event :=
  (u, [.decrementFishSessionDuration 1])

/-- `WorkAndFishEnergyStrategy::maintainUsage` -/
def maintainUsage (u : Firmware M) : Firmware M × List Event := (u, [])

/-- `WorkAndFishEnergyStrategy::setLeastUsage` -/
def setLeastUsage (u : Firmware M) : Firmware M × List Event := (u, [.setDurationToMinDuration])

end WorkAndFishEnergyStrategy

namespace PowerAdjuster

/-- `PowerAdjuster::increaseUsage` -/
def increaseUsage (build : Build) (u : Firmware M) : Firmware M × List Event :=
  match build.energyStrategy with
  | .workOnly => WorkOnlyEnergyStrategy.increaseUsage build u
  | .workAndFish => WorkAndFishEnergyStrategy.increaseUsage u

/-- `PowerAdjuster::decreaseUsage` -/
def decreaseUsage (build : Build) (u : Firmware M) : Firmware M × List Event :=
  match build.energyStrategy with
  | .workOnly => WorkOnlyEnergyStrategy.decreaseUsage u
  | .workAndFish => WorkAndFishEnergyStrategy.decreaseUsage u

/-- `PowerAdjuster::maintainUsage` -/
def maintainUsage (build : Build) (u : Firmware M) : Firmware M × List Event :=
  match build.energyStrategy with
  | .workOnly => WorkOnlyEnergyStrategy.maintainUsage u
  | .workAndFish => WorkAndFishEnergyStrategy.maintainUsage u

/-- `PowerAdjuster::setLeastUsage` -/
def setLeastUsage (build : Build) (u : Firmware M) : Firmware M × List Event :=
  match build.energyStrategy with
  | .workOnly => WorkOnlyEnergyStrategy.setLeastUsage u
  | .workAndFish => WorkAndFishEnergyStrategy.setLeastUsage u

/-- `increaseUsageAndWorkLocally` -/
def increaseUsageAndWorkLocally (build : Build) (u : Firmware M) : Firmware M × List Event :=
  let increased := increaseUsage build u
  let worked := Worker.workManagedAmount increased.1
  (worked.1, increased.2 ++ worked.2)

/-- `PowerAdjuster::onExcessVoltage` -/
def onExcessVoltage (build : Build) (u : Firmware M) : Firmware M × List Event :=
  increaseUsageAndWorkLocally build u

end PowerAdjuster

namespace ExcessPowerWorkStrategy

/-- `doNestedWorkStrategy` -/
def doNestedWorkStrategy [Mailbox M] (r : Readings) (u : Firmware M) :
    Except Fault (Firmware M × List Event) :=
  WorkStrategyDistributed.manageWorkSynchronizedDistributed r u

/-- Run the nested strategy after a usage adjustment, keeping the events in order. -/
def adjustThenNested [Mailbox M] (r : Readings) (adjusted : Firmware M × List Event) :
    Except Fault (Firmware M × List Event) := do
  let nested ← doNestedWorkStrategy r adjusted.1
  return (nested.1, adjusted.2 ++ nested.2)

/-- `ExcessPowerWorkStrategy::manageExcessPowerWithWork` -/
def manageExcessPowerWithWork [Mailbox M] (build : Build) (r : Readings) (u : Firmware M) :
    Except Fault (Firmware M × List Event) :=
  match r.voltageRange with
  | .aboveExcess | .nearExcess => .ok (PowerAdjuster.onExcessVoltage build u)
  | .highToNearExcess | .mediumToHigh => adjustThenNested r (PowerAdjuster.maintainUsage build u)
  | .lowToMedium => adjustThenNested r (PowerAdjuster.decreaseUsage build u)
  -- the two lowest ranges adjust the usage without running the nested strategy
  | .ultraLowToLow => .ok (PowerAdjuster.decreaseUsage build u)
  | .belowUltraLow => .ok (PowerAdjuster.setLeastUsage build u)

end ExcessPowerWorkStrategy

end Firefly
