import Firefly.Work.Parameters

/-!
# The group work strategy

Alternative to the distributed strategy: the master initiates work for the whole group, by
mailing it to the others and queueing it for itself. Regular work counts the calls since
work was last initiated; the counter starts again at zero before it is incremented.
-/

namespace Firefly

variable {M : Type} [Mailbox M]

namespace WorkFactory

/-- `WorkFactory::make`: the payload reports the sender's transmit power. -/
def make (r : Readings) : MailContents := r.rawXmitPower

end WorkFactory

namespace GroupWork

/-- `tellOthersInGroupToWork` -/
def tellOthersInGroupToWork (work : MailContents) (u : Firmware M) : Firmware M × List Event :=
  let put := Mailbox.tryPut u.outMailbox work
  ({ u with outMailbox := put.2 },
    .tryPutGroupWork work put.1 :: if put.1 then [] else [.log "Fail mail group work\n"])

/-- `GroupWork::queueLocalWork` -/
def queueLocalWork (work : MailContents) (u : Firmware M) : Firmware M × List Event :=
  let put := Mailbox.tryPut u.inMailbox work
  ({ u with inMailbox := put.2 },
    .tryPutLocalWork work put.1 :: if put.1 then [] else [.log "Fail mail self work\n"])

/-- `GroupWork::initiateGroupWork`: tell the others, then queue the work for oneself. -/
def initiateGroupWork (work : MailContents) (u : Firmware M) : Firmware M × List Event :=
  let told := tellOthersInGroupToWork work u
  let queued := queueLocalWork work told.1
  (queued.1, .initiateGroupWork work :: (told.2 ++ queued.2))

end GroupWork

namespace WorkStrategyGroup

/-- `WorkStrategyGroup::doRegularWork` -/
def doRegularWork (r : Readings) (u : Firmware M) : Firmware M × List Event :=
  let worked :=
    if u.regularWorkCounter > u.syncPeriodsBetweenWork then
      let initiated := GroupWork.initiateGroupWork (WorkFactory.make r) u
      ({ initiated.1 with regularWorkCounter := 0 }, initiated.2)
    else (u, [])
  ({ worked.1 with regularWorkCounter := worked.1.regularWorkCounter + 1 }, worked.2)

/-- `WorkStrategyGroup::manageWorkOnlyRegularlyIfPowerAndMaster` -/
def manageWorkOnlyRegularlyIfPowerAndMaster (r : Readings) (u : Firmware M) :
    Firmware M × List Event :=
  if r.isSelfMaster && r.isPowerForWork then doRegularWork r u else (u, [])

/-- `WorkStrategyGroup::doRandomWork`, by the answer of `Random::eventWInverseProbability`. -/
def doRandomWork (eventWInverseProbability : UInt32 → Bool) (r : Readings) (u : Firmware M) :
    Firmware M × List Event :=
  if eventWInverseProbability u.syncPeriodsBetweenWork then
    GroupWork.initiateGroupWork (WorkFactory.make r) u
  else (u, [])

/-- `WorkStrategyGroup::manageWorkOnlyRandomlyIfPowerAndMaster` -/
def manageWorkOnlyRandomlyIfPowerAndMaster (eventWInverseProbability : UInt32 → Bool)
    (r : Readings) (u : Firmware M) : Firmware M × List Event :=
  if r.isSelfMaster && r.isPowerForWork then doRandomWork eventWInverseProbability r u
  else (u, [])

/-- `WorkStrategyGroup::onWorkMsg`: queue the work, to be done later. -/
def onWorkMsg (work : MailContents) (u : Firmware M) : Firmware M × List Event :=
  GroupWork.queueLocalWork work u

end WorkStrategyGroup

omit [Mailbox M] in
/-- `WorkSupervisor::tryWorkLocally` -/
def WorkSupervisor.tryWorkLocally (r : Readings) (u : Firmware M) : Firmware M × List Event :=
  if r.isPowerForWork then
    let worked := Worker.workManagedAmount u
    (worked.1, .log " App LED." :: worked.2)
  else (u, [.log "\nNo power to work."])

end Firefly
