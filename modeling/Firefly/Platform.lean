/-!
# What the firmware sees of its libraries

The sleep synchronisation agent, the power manager, the LED flasher, the mailboxes, the
loggers and the fault handlers are linked from other projects. Here they appear only through
what the firmware reads from them, what it asks of them and how they stop it.

Readings are arbitrary unless a result says otherwise. A mailbox is any type with a
`tryPut`; the one-item mailbox adds the behaviour that the message-level results rely on.
-/

namespace Firefly

/-- A mailed work item, an `unsigned char`. -/
abbrev MailContents := UInt8

/-- The ranges that the power manager sorts the supply voltage into, lowest first. -/
inductive VoltageRange
  | belowUltraLow
  | ultraLowToLow
  | lowToMedium
  | mediumToHigh
  | highToNearExcess
  | nearExcess
  | aboveExcess
  deriving DecidableEq, Repr

/-- What the libraries answer if they are asked during one callback. -/
structure Readings where
  /-- `SyncAgent::isSelfMaster` -/
  isSelfMaster : Bool
  /-- `SyncAgent::isSelfSlave` -/
  isSelfSlave : Bool
  /-- `SyncPowerManager::isPowerForWork` -/
  isPowerForWork : Bool
  /-- `SyncPowerManager::getVoltageRange` -/
  voltageRange : VoltageRange
  /-- `XmitPower::rawXmitPower` of the current transmit power -/
  rawXmitPower : MailContents
  deriving DecidableEq, Repr

/-- The assertions made on a received WorkSync. -/
inductive Assertion
  | isSelfSlave
  | isPowerOfTwo
  deriving DecidableEq, Repr

/-- The ways the firmware stops for good. -/
inductive Fault
  | assertion (failed : Assertion)
  | breakIntoDebuggerOrHardfault
  | divisionByZero
  deriving DecidableEq, Repr

/-- What one call does besides changing its own variables, in order. -/
inductive Event
  /-- The work clock alarms: `onWorkClockAlarm` is entered. -/
  | workAlarm
  /-- The LED is flashed by an amount. -/
  | flashLEDByAmount (amount : UInt32)
  /-- A WorkSync is offered to the outbox, which takes it or not. -/
  | tryPutWorkSync (work : MailContents) (taken : Bool)
  /-- `GroupWork::initiateGroupWork` is entered. -/
  | initiateGroupWork (work : MailContents)
  /-- Group work is offered to the outbox. -/
  | tryPutGroupWork (work : MailContents) (taken : Bool)
  /-- Local work is offered to the inbox. -/
  | tryPutLocalWork (work : MailContents) (taken : Bool)
  | incrementFishSessionDuration (slots : UInt32)
  | decrementFishSessionDuration (slots : UInt32)
  | setDurationToMinDuration
  | log (text : String)
  | logInt (value : UInt32)
  deriving DecidableEq, Repr

/-- The work alarm was raised during a call. -/
def raisesWorkAlarm (events : List Event) : Bool := events.contains .workAlarm

/-- The WorkSyncs offered to the outbox during a call. -/
def workSyncPuts (events : List Event) : List MailContents :=
  events.filterMap fun
    | .tryPutWorkSync work _ => some work
    | _ => none

/-- A mailbox, as a client that only puts sees it. -/
class Mailbox (M : Type) where
  /-- Offer an item; the answer says whether it was taken. -/
  tryPut : M → MailContents → Bool × M

/-- A mailbox that holds one item: a put on an empty box is taken, a put on a full box fails
and leaves the pending item, and fetching empties the box. -/
class OneItemMailbox (M : Type) extends Mailbox M where
  /-- The pending item, if any. -/
  mail : M → Option MailContents
  /-- What is left once the pending item was fetched. -/
  fetched : M → M
  tryPut_of_empty : ∀ box work, mail box = none →
    (tryPut box work).1 = true ∧ mail (tryPut box work).2 = some work
  tryPut_of_full : ∀ box work pending, mail box = some pending → tryPut box work = (false, box)
  mail_fetched : ∀ box, mail (fetched box) = none

/-- The plainest one-item mailbox is its own pending item. -/
instance : OneItemMailbox (Option MailContents) where
  tryPut
    | none, work => (true, some work)
    | some pending, _ => (false, some pending)
  mail box := box
  fetched _ := none
  tryPut_of_empty := by rintro _ work rfl; exact ⟨rfl, rfl⟩
  tryPut_of_full := by rintro _ work pending rfl; rfl
  mail_fetched _ := rfl

/-- `x % y` on `unsigned int`, which has no value for a zero divisor. -/
def modulo (x y : UInt32) : Except Fault UInt32 :=
  if y = 0 then .error .divisionByZero else .ok (x % y)

end Firefly
