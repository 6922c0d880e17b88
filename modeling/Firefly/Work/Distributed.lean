import Firefly.Work.Parameters

/-!
# The distributed work strategy

Every unit works on its own clock, which ticks once a sync period and alarms when it is time
to work. The alarm also ticks a slower maintenance clock, on the master alone, whose alarm
puts a WorkSync in the outbox. A slave that receives a WorkSync sets its clock to zero and
takes over the period.

The routines follow the call order of the source. Those that cannot stop are total; those
that divide by the period, check an assertion or refuse a zero period may end in a fault.
-/

namespace Firefly

variable {M : Type}

namespace WorkSyncMaintainer

/-- `isPowerOfTwo`, on a byte that the first test keeps from being zero. -/
def isPowerOfTwo (x : UInt8) : Bool := x != 0 && (x &&& (x - 1)) == 0

/-- `WorkSyncMaintainer::onWorkSyncMaintenanceAlarm`: mail the period, narrowed to a byte. -/
def onWorkSyncMaintenanceAlarm [Mailbox M] (u : Firmware M) : Firmware M × List Event :=
  let work : MailContents := u.syncPeriodsBetweenWork.toUInt8
  let put := Mailbox.tryPut u.outMailbox work
  ({ u with outMailbox := put.2 },
    .tryPutWorkSync work put.1 :: if put.1 then [] else [.log "Fail mail WorkSync\n"])

end WorkSyncMaintainer

namespace WorkSyncMaintenanceClock

/-- `_workMaintenancePeriod` -/
def workMaintenancePeriod : UInt8 := 5

/-- `WorkSyncMaintenanceClock::tick` -/
def tick [Mailbox M] (u : Firmware M) : Firmware M × List Event :=
  let u := { u with maintenanceCounter := u.maintenanceCounter + 1 }
  if u.maintenanceCounter % workMaintenancePeriod.toUInt32 = 0 then
    WorkSyncMaintainer.onWorkSyncMaintenanceAlarm u
  else (u, [])

end WorkSyncMaintenanceClock

/-- `WorkSyncMaintainer::onWorkAlarm`: only a master maintains sync for others. -/
def WorkSyncMaintainer.onWorkAlarm [Mailbox M] (r : Readings) (u : Firmware M) :
    Firmware M × List Event :=
  if r.isSelfMaster then WorkSyncMaintenanceClock.tick u else (u, [])

/-- `DistributedSynchronizedWorker::onWorkAlarm` -/
def DistributedSynchronizedWorker.onWorkAlarm (r : Readings) (u : Firmware M) :
    Firmware M × List Event :=
  if r.isPowerForWork then Worker.workManagedAmount u else (u, [])

namespace WorkClock

/-- `onWorkClockAlarm`: work first, then maintain the sync of others. -/
def onWorkClockAlarm [Mailbox M] (r : Readings) (u : Firmware M) : Firmware M × List Event :=
  let worked := DistributedSynchronizedWorker.onWorkAlarm r u
  let maintained := WorkSyncMaintainer.onWorkAlarm r worked.1
  (maintained.1, .workAlarm :: (worked.2 ++ maintained.2))

/-- `WorkClock::tickSyncPeriod` -/
def tickSyncPeriod [Mailbox M] (r : Readings) (u : Firmware M) :
    Except Fault (Firmware M × List Event) := do
  let u := { u with workClockCounter := u.workClockCounter + 1 }
  let phase ← modulo u.workClockCounter u.syncPeriodsBetweenWork
  if phase = 0 then return onWorkClockAlarm r u else return (u, [])

/-- `WorkClock::syncToNow` -/
def syncToNow (period : UInt32) (u : Firmware M) : Except Fault (Firmware M × List Event) :=
  WorkFrequency.setSyncPeriodsBetweenWork period { u with workClockCounter := 0 }

/-- `WorkClock::convertPeriodsElapsedToClockAdvance` -/
def convertPeriodsElapsedToClockAdvance (elapsedSyncPeriods : UInt32) (u : Firmware M) :
    Except Fault UInt32 :=
  modulo elapsedSyncPeriods u.syncPeriodsBetweenWork

/-- `WorkClock::syncToPast` -/
def syncToPast (clockAdvance : UInt32) (u : Firmware M) : Firmware M :=
  { u with workClockCounter := u.workClockCounter + clockAdvance }

end WorkClock

/-- `WorkSyncMaintainer::onWorkSyncFromMaster`: both assertions come before the clock is set. -/
def WorkSyncMaintainer.onWorkSyncFromMaster (r : Readings) (newPeriod : UInt8) (u : Firmware M) :
    Except Fault (Firmware M × List Event) :=
  if r.isSelfSlave = false then .error (.assertion .isSelfSlave)
  else if isPowerOfTwo newPeriod = false then .error (.assertion .isPowerOfTwo)
  else WorkClock.syncToNow newPeriod.toUInt32 u

namespace WorkStrategyDistributed

/-- `WorkStrategyDistributed::manageWorkSynchronizedDistributed` -/
def manageWorkSynchronizedDistributed [Mailbox M] (r : Readings) (u : Firmware M) :
    Except Fault (Firmware M × List Event) :=
  WorkClock.tickSyncPeriod r u

/-- `WorkStrategyDistributed::onWorkSyncMsg` -/
def onWorkSyncMsg (r : Readings) (work : MailContents) (u : Firmware M) :
    Except Fault (Firmware M × List Event) :=
  WorkSyncMaintainer.onWorkSyncFromMaster r work u

end WorkStrategyDistributed

end Firefly
