import Firefly.Foundation.Mealy
import Firefly.Work.Distributed

/-!
# One unit and its inputs

The facilitator connects the firmware to the sleep synchronisation agent. The agent calls it
once a sync period and whenever a WorkSync is heard, the provisioner sets the clock and the
frequency, and the agent empties the outbox at times of its own.

These are the inputs of a machine whose state is the running firmware or the fault that
stopped it.
-/

namespace Firefly

open Foundation

variable {M : Type}

namespace WorkSupervisor

/-- `WorkSupervisor::init` -/
def init (u : Firmware M) : Firmware M := WorkAmount.init WorkAmount.amountPerceivable u

/-- `WorkSupervisor::manageVoltageAndWork`, in the builds without `SOLAR_EXCEEDS_VMAX` -/
def manageVoltageAndWork [Mailbox M] (r : Readings) (u : Firmware M) :
    Except Fault (Firmware M × List Event) :=
  WorkStrategyDistributed.manageWorkSynchronizedDistributed r u

/-- `WorkSupervisor::onWorkSyncMsg` -/
def onWorkSyncMsg (r : Readings) (work : MailContents) (u : Firmware M) :
    Except Fault (Firmware M × List Event) :=
  WorkStrategyDistributed.onWorkSyncMsg r work u

end WorkSupervisor

namespace WorkFacilitator

/-- `WorkFacilitator::init` -/
def init (u : Firmware M) : Firmware M := WorkSupervisor.init u

/-- `WorkFacilitator::onPreSyncSlot` -/
def onPreSyncSlot [Mailbox M] (r : Readings) (u : Firmware M) :
    Except Fault (Firmware M × List Event) :=
  WorkSupervisor.manageVoltageAndWork r u

/-- `WorkFacilitator::onWorkSyncMsg` -/
def onWorkSyncMsg (r : Readings) (work : MailContents) (u : Firmware M) :
    Except Fault (Firmware M × List Event) :=
  WorkSupervisor.onWorkSyncMsg r work u

end WorkFacilitator

/-- The firmware at power-on, once it is initialised, with the given mailboxes. -/
def Firmware.powerOn (outMailbox inMailbox : M) : Firmware M :=
  WorkFacilitator.init { outMailbox := outMailbox, inMailbox := inMailbox }

/-- What reaches one unit from outside. -/
inductive Input (M : Type)
  /-- The agent calls at the start of a sync period. -/
  | onPreSyncSlot (r : Readings)
  /-- The agent passes on a WorkSync that it heard. -/
  | onWorkSyncMsg (r : Readings) (work : MailContents)
  /-- The work cycle is provisioned. -/
  | setSyncPeriodsBetweenWorkCoded (workFreqCode : UInt32)
  /-- The work time is provisioned. -/
  | syncToPast (clockAdvance : UInt32)
  /-- The agent leaves the outbox as given. -/
  | setOutMailbox (box : M)

/-- The callback that answers an input. -/
def Firmware.handle [Mailbox M] (u : Firmware M) :
    Input M → Except Fault (Firmware M × List Event)
  | .onPreSyncSlot r => WorkFacilitator.onPreSyncSlot r u
  | .onWorkSyncMsg r work => WorkFacilitator.onWorkSyncMsg r work u
  | .setSyncPeriodsBetweenWorkCoded code => WorkFrequency.setSyncPeriodsBetweenWorkCoded code u
  | .syncToPast clockAdvance => .ok (WorkClock.syncToPast clockAdvance u, [])
  | .setOutMailbox box => .ok ({ u with outMailbox := box }, [])

/-- A unit: running firmware, or the fault that stopped it. -/
abbrev UnitState (M : Type) := Except Fault (Firmware M)

/-- One unit as a machine over its inputs. -/
def unitMachine (M : Type) [Mailbox M] : Mealy (UnitState M) (Input M) (List Event) :=
  Mealy.ofExcept Firmware.handle

end Firefly
