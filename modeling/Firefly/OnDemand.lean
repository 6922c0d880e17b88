import Firefly.Foundation.Ledger
import Firefly.Flashes
import Firefly.GroupCadence

/-!
# A unit that works on demand

In the design that works on demand a unit does not work when it decides to. It mails the work to
the others and queues it for itself, as it queues what it hears, and works it at the start of the
next sync period if there is power then.

So in any order of what happens to a unit, each work item that its inbox took was worked by one
flash, or dropped for want of power, or is still queued.
-/

namespace Firefly

open Foundation

variable {M : Type} [OneItemMailbox M]

/-- `doReceivedWork`: fetch the mail without looking at it, and work. -/
def WorkFacilitator.doReceivedWork (r : Readings) (u : Firmware M) : Firmware M × List Event :=
  if (OneItemMailbox.mail u.inMailbox).isSome then
    WorkSupervisor.tryWorkLocally r { u with inMailbox := OneItemMailbox.fetched u.inMailbox }
  else (u, [])

/-- The strategies of `WorkSupervisor::manageVoltageAndWork` that are for the group. -/
inductive GroupStrategy
  | doRandomWork
  | manageWorkOnlyRandomlyIfPowerAndMaster
  | manageWorkOnlyRegularlyIfPowerAndMaster

/-- The call of a strategy, given the answer of `Random::eventWInverseProbability`. -/
def GroupStrategy.manage (eventWInverseProbability : UInt32 → Bool) (r : Readings)
    (u : Firmware M) : GroupStrategy → Firmware M × List Event
  | .doRandomWork => WorkStrategyGroup.doRandomWork eventWInverseProbability r u
  | .manageWorkOnlyRandomlyIfPowerAndMaster =>
    WorkStrategyGroup.manageWorkOnlyRandomlyIfPowerAndMaster eventWInverseProbability r u
  | .manageWorkOnlyRegularlyIfPowerAndMaster =>
    WorkStrategyGroup.manageWorkOnlyRegularlyIfPowerAndMaster r u

/-- `WorkFacilitator::onPreSyncSlot` in the design on demand, put together from what the comments
say of it: `doReceivedWork` first, then one of the strategies for the group. -/
def WorkFacilitator.onPreSyncSlotOnDemand (strategy : GroupStrategy)
    (eventWInverseProbability : UInt32 → Bool) (r : Readings) (u : Firmware M) :
    Firmware M × List Event :=
  let received := doReceivedWork r u
  let managed := strategy.manage eventWInverseProbability r received.1
  (managed.1, received.2 ++ managed.2)

/-- What reaches a unit that works on demand. -/
inductive DemandInput
  /-- The agent calls at the start of a sync period. -/
  | onPreSyncSlot (r : Readings) (eventWInverseProbability : UInt32 → Bool)
  /-- The agent passes on group work that it heard. -/
  | onWorkMsg (work : MailContents)
  /-- The agent fetches the mail from the outbox. -/
  | fetch

/-- A unit that works on demand, as a machine over its inputs. -/
def demandUnit (M : Type) [OneItemMailbox M] (strategy : GroupStrategy) :
    Mealy (Firmware M) DemandInput (List Event) where
  step u
    | .onPreSyncSlot r eventWInverseProbability =>
      WorkFacilitator.onPreSyncSlotOnDemand strategy eventWInverseProbability r u
    | .onWorkMsg work => WorkStrategyGroup.onWorkMsg work u
    | .fetch => ({ u with outMailbox := OneItemMailbox.fetched u.outMailbox }, [])

/-- The work items that the inbox took during a call. -/
def takenLocalWork (events : List Event) : List MailContents :=
  events.filterMap fun
    | .tryPutLocalWork work true => some work
    | _ => none

theorem takenLocalWork_append (first second : List Event) :
    takenLocalWork (first ++ second) = takenLocalWork first ++ takenLocalWork second :=
  List.filterMap_append

/-- How often work was dropped during a call because there was no power for it. -/
def droppedWork (events : List Event) : ℕ :=
  events.countP fun
    | .log text => text == "\nNo power to work."
    | _ => false

/-- The number of items in the inbox. -/
def inboxCount (u : Firmware M) : ℕ := (OneItemMailbox.mail u.inMailbox).toList.length

section Calls

variable {r : Readings} {u : Firmware M}

/-- Queueing work puts it in an empty inbox, and does nothing else. -/
theorem queueLocalWork_spec (work : MailContents) (u : Firmware M) :
    let queued := GroupWork.queueLocalWork work u
    (∃ box, queued.1 = { u with inMailbox := box } ∧
      OneItemMailbox.mail box = some ((OneItemMailbox.mail u.inMailbox).getD work)) ∧
      takenLocalWork queued.2 = (if OneItemMailbox.mail u.inMailbox = none then [work] else []) ∧
      flashes queued.2 = [] ∧ droppedWork queued.2 = 0 ∧ initiatesGroupWork queued.2 = false := by
  dsimp only [GroupWork.queueLocalWork]
  cases hmail : OneItemMailbox.mail u.inMailbox with
  | none =>
    obtain ⟨htaken, hput⟩ := OneItemMailbox.tryPut_of_empty u.inMailbox work hmail
    rw [htaken]
    exact ⟨⟨_, rfl, hput⟩, rfl, rfl, rfl, rfl⟩
  | some pending =>
    rw [OneItemMailbox.tryPut_of_full _ work _ hmail]
    exact ⟨⟨_, rfl, hmail⟩, rfl, rfl, rfl, rfl⟩

/-- Queueing work adds to the inbox the items that it took. -/
theorem queueLocalWork_balance (work : MailContents) (u : Firmware M) :
    inboxCount u + (takenLocalWork (GroupWork.queueLocalWork work u).2).length =
      inboxCount (GroupWork.queueLocalWork work u).1 := by
  obtain ⟨⟨box, hstate, hbox⟩, htaken, -⟩ := queueLocalWork_spec work u
  rw [htaken, hstate, inboxCount, inboxCount, hbox]
  cases OneItemMailbox.mail u.inMailbox <;> rfl

/-- Initiating group work queues it, once it was offered to the outbox. -/
theorem initiateGroupWork_spec (work : MailContents) (u : Firmware M) :
    let initiated := GroupWork.initiateGroupWork work u
    let told := (Mailbox.tryPut u.outMailbox work).2
    let queued := GroupWork.queueLocalWork work { u with outMailbox := told }
    initiated.1 = queued.1 ∧ takenLocalWork initiated.2 = takenLocalWork queued.2 ∧
      flashes initiated.2 = [] ∧ droppedWork initiated.2 = 0 ∧
      initiatesGroupWork initiated.2 = true := by
  intro initiated told queued
  obtain ⟨-, -, hdark, hkept, -⟩ := queueLocalWork_spec work { u with outMailbox := told }
  have hevents : ∃ before, initiated.2 = .initiateGroupWork work :: (before ++ queued.2) ∧
      takenLocalWork before = [] ∧ flashes before = [] ∧ droppedWork before = 0 := by
    refine ⟨(GroupWork.tellOthersInGroupToWork work u).2, rfl, ?_⟩
    dsimp only [GroupWork.tellOthersInGroupToWork]
    split <;> exact ⟨rfl, rfl, rfl⟩
  obtain ⟨before, hevents, hnothing, hbefore, hnone⟩ := hevents
  rw [hevents]
  refine ⟨rfl, ?_, ?_, ?_, rfl⟩
  · exact (takenLocalWork_append before queued.2).trans (by rw [hnothing, List.nil_append])
  · exact (flashes_append before queued.2).trans (by rw [hbefore, hdark]; rfl)
  · have hcount : droppedWork (.initiateGroupWork work :: (before ++ queued.2)) =
        droppedWork before + droppedWork queued.2 := List.countP_append
    rw [hcount, hnone, hkept]

/-- Receiving empties the inbox, and an item that was there is flashed or dropped. -/
theorem doReceivedWork_spec (r : Readings) (u : Firmware M) :
    let received := WorkFacilitator.doReceivedWork r u
    (∃ box, received.1 = { u with inMailbox := box } ∧ OneItemMailbox.mail box = none) ∧
      flashes received.2 = (if (OneItemMailbox.mail u.inMailbox).isSome && r.isPowerForWork then
        [u.managedAmount] else []) ∧
      (flashes received.2).length + droppedWork received.2 = inboxCount u ∧
      takenLocalWork received.2 = [] ∧ initiatesGroupWork received.2 = false := by
  dsimp only [WorkFacilitator.doReceivedWork, inboxCount]
  cases hmail : OneItemMailbox.mail u.inMailbox with
  | none => exact ⟨⟨u.inMailbox, rfl, hmail⟩, rfl, rfl, rfl, rfl⟩
  | some work =>
    have hempty := OneItemMailbox.mail_fetched u.inMailbox
    dsimp only [WorkSupervisor.tryWorkLocally]
    cases r.isPowerForWork <;> exact ⟨⟨_, rfl, hempty⟩, rfl, rfl, rfl, rfl⟩

/-- A strategy at most counts, or initiates group work, the latter only as a working master unless
it works at random for everyone. -/
theorem manage_cases (strategy : GroupStrategy) (eventWInverseProbability : UInt32 → Bool)
    (r : Readings) (u : Firmware M) :
    let managed := strategy.manage eventWInverseProbability r u
    let initiated := GroupWork.initiateGroupWork (WorkFactory.make r) u
    (∃ counter, managed = ({ u with regularWorkCounter := counter }, [])) ∨
      ∃ counter, managed = ({ initiated.1 with regularWorkCounter := counter }, initiated.2) ∧
        (strategy ≠ .doRandomWork → r.Working) := by
  intro managed initiated
  cases strategy with
  | doRandomWork =>
    by_cases hevent : eventWInverseProbability u.syncPeriodsBetweenWork = true
    · exact .inr ⟨initiated.1.regularWorkCounter, if_pos hevent, fun h => absurd rfl h⟩
    · exact .inl ⟨u.regularWorkCounter, if_neg hevent⟩
  | manageWorkOnlyRandomlyIfPowerAndMaster =>
    by_cases hr : (r.isSelfMaster && r.isPowerForWork) = true
    · by_cases hevent : eventWInverseProbability u.syncPeriodsBetweenWork = true
      · exact .inr ⟨initiated.1.regularWorkCounter, (if_pos hr).trans (if_pos hevent),
          fun _ => Bool.and_eq_true_iff.mp hr⟩
      · exact .inl ⟨u.regularWorkCounter, (if_pos hr).trans (if_neg hevent)⟩
    · exact .inl ⟨u.regularWorkCounter, if_neg hr⟩
  | manageWorkOnlyRegularlyIfPowerAndMaster =>
    by_cases hr : (r.isSelfMaster && r.isPowerForWork) = true
    · have hcall : managed = WorkStrategyGroup.doRegularWork r u := if_pos hr
      rw [hcall, WorkStrategyGroup.doRegularWork]
      by_cases hover : u.regularWorkCounter > u.syncPeriodsBetweenWork
      · rw [if_pos hover]
        exact .inr ⟨0 + 1, rfl, fun _ => Bool.and_eq_true_iff.mp hr⟩
      · rw [if_neg hover]
        exact .inl ⟨u.regularWorkCounter + 1, rfl⟩
    · exact .inl ⟨u.regularWorkCounter, if_neg hr⟩

/-- A strategy queues what it initiates, and works nothing at once. -/
theorem manage_balance (strategy : GroupStrategy) (eventWInverseProbability : UInt32 → Bool)
    (r : Readings) (u : Firmware M) :
    let managed := strategy.manage eventWInverseProbability r u
    inboxCount u + (takenLocalWork managed.2).length = inboxCount managed.1 ∧
      flashes managed.2 = [] ∧ droppedWork managed.2 = 0 := by
  intro managed
  rcases manage_cases strategy eventWInverseProbability r u with
    ⟨counter, hmanaged⟩ | ⟨counter, hmanaged, -⟩
  · rw [show managed = _ from hmanaged]
    exact ⟨rfl, rfl, rfl⟩
  · obtain ⟨hstate, htaken, hdark, hkept, -⟩ := initiateGroupWork_spec (WorkFactory.make r) u
    rw [show managed = _ from hmanaged]
    have hbalance := queueLocalWork_balance (WorkFactory.make r)
      { u with outMailbox := (Mailbox.tryPut u.outMailbox (WorkFactory.make r)).2 }
    rw [← hstate, ← htaken] at hbalance
    exact ⟨hbalance, hdark, hkept⟩

/-- A call with an empty outbox works what was queued. It leaves an item in either box exactly when
it initiates group work. -/
theorem onPreSyncSlotOnDemand_spec (strategy : GroupStrategy)
    (eventWInverseProbability : UInt32 → Bool) (r : Readings) {u : Firmware M}
    (hbox : OneItemMailbox.mail u.outMailbox = none) :
    let called :=
      WorkFacilitator.onPreSyncSlotOnDemand strategy eventWInverseProbability r u
    called.1.managedAmount = u.managedAmount ∧
      flashes called.2 = (if (OneItemMailbox.mail u.inMailbox).isSome && r.isPowerForWork then
        [u.managedAmount] else []) ∧
      (OneItemMailbox.mail called.1.outMailbox).isSome = initiatesGroupWork called.2 ∧
      (OneItemMailbox.mail called.1.inMailbox).isSome = initiatesGroupWork called.2 ∧
      (initiatesGroupWork called.2 = true → strategy ≠ .doRandomWork → r.Working) := by
  intro called
  obtain ⟨⟨box, hstate, hempty⟩, hflash, -, -, hwaits⟩ := doReceivedWork_spec r u
  have hinitiates (events : List Event) :
      initiatesGroupWork ((WorkFacilitator.doReceivedWork r u).2 ++ events) =
        initiatesGroupWork events := by
    rw [initiatesGroupWork, List.any_append, ← initiatesGroupWork, hwaits, Bool.false_or]
    rfl
  have hcalled : called =
      ((strategy.manage eventWInverseProbability r { u with inMailbox := box }).1,
        (WorkFacilitator.doReceivedWork r u).2 ++
          (strategy.manage eventWInverseProbability r { u with inMailbox := box }).2) := by
    rw [← hstate]
    rfl
  rw [hcalled]
  rcases manage_cases strategy eventWInverseProbability r { u with inMailbox := box } with
    ⟨counter, hmanaged⟩ | ⟨counter, hmanaged, hworking⟩
  · rw [hmanaged, hinitiates, List.append_nil]
    exact ⟨rfl, hflash, by rw [hbox]; rfl, by rw [hempty]; rfl, nofun⟩
  · obtain ⟨hsame, -, hdark, -, hnow⟩ :=
      initiateGroupWork_spec (WorkFactory.make r) { u with inMailbox := box }
    have hout := (OneItemMailbox.tryPut_of_empty _ (WorkFactory.make r) hbox).2
    obtain ⟨⟨queued, hqueued, hmail⟩, -⟩ := queueLocalWork_spec (WorkFactory.make r)
      { u with inMailbox := box,
               outMailbox := (Mailbox.tryPut u.outMailbox (WorkFactory.make r)).2 }
    have hstate' := hsame.trans hqueued
    rw [hmanaged, hinitiates, hnow, flashes_append, hdark, List.append_nil, hstate']
    exact ⟨rfl, hflash, by rw [hout]; rfl, by rw [hmail]; rfl, fun _ => hworking⟩

end Calls

/-- A unit that works on demand keeps a ledger of its inbox. -/
theorem inbox_ledger (strategy : GroupStrategy) :
    (demandUnit M strategy).Ledger (fun _ => True) (fun _ => True) inboxCount
      (fun events => (takenLocalWork events).length)
      fun events => (flashes events).length + droppedWork events where
  step := by
    intro u input _ _
    refine ⟨trivial, ?_⟩
    cases input with
    | onPreSyncSlot r eventWInverseProbability =>
      obtain ⟨⟨box, hstate, hbox⟩, -, hworked, hnothing, -⟩ := doReceivedWork_spec r u
      obtain ⟨hmanaged, hdark, hkept⟩ :=
        manage_balance strategy eventWInverseProbability r (WorkFacilitator.doReceivedWork r u).1
      have hempty : inboxCount (WorkFacilitator.doReceivedWork r u).1 = 0 := by
        rw [hstate, inboxCount, hbox]
        rfl
      change inboxCount u + (takenLocalWork (_ ++ _)).length =
        (flashes (_ ++ _)).length + droppedWork (_ ++ _) + inboxCount (strategy.manage _ _ _).1
      rw [takenLocalWork_append, hnothing, List.nil_append, flashes_append, hdark, List.append_nil,
        droppedWork, List.countP_append, ← droppedWork, ← droppedWork, hkept, add_zero, hworked,
        ← hmanaged, hempty, zero_add]
    | onWorkMsg work =>
      obtain ⟨-, -, hdark, hkept, -⟩ := queueLocalWork_spec work u
      change _ = (flashes (GroupWork.queueLocalWork work u).2).length +
        droppedWork (GroupWork.queueLocalWork work u).2 + _
      rw [hdark, hkept, List.length_nil, zero_add, zero_add]
      exact queueLocalWork_balance work u
    | fetch => exact (Nat.zero_add _).symm

/-- A strategy leaves the work amount alone. -/
theorem manage_amount (strategy : GroupStrategy) (eventWInverseProbability : UInt32 → Bool)
    (r : Readings) (u : Firmware M) :
    (strategy.manage eventWInverseProbability r u).1.managedAmount = u.managedAmount := by
  rcases manage_cases strategy eventWInverseProbability r u with
    ⟨counter, hmanaged⟩ | ⟨counter, hmanaged, -⟩
  · exact congrArg (fun managed => managed.1.managedAmount) hmanaged
  · exact congrArg (fun managed => managed.1.managedAmount) hmanaged

/-- Whatever reaches a unit on demand leaves the work amount alone, and makes it flash once at
most, by that amount. -/
theorem demandUnit_amount (strategy : GroupStrategy) (u : Firmware M) (input : DemandInput) :
    ((demandUnit M strategy).step u input).1.managedAmount = u.managedAmount ∧
      (flashes ((demandUnit M strategy).step u input).2 = [] ∨
        flashes ((demandUnit M strategy).step u input).2 = [u.managedAmount]) := by
  cases input with
  | onPreSyncSlot r eventWInverseProbability =>
    obtain ⟨⟨box, hstate, -⟩, hflash, -⟩ := doReceivedWork_spec r u
    obtain ⟨-, hdark, -⟩ :=
      manage_balance strategy eventWInverseProbability r (WorkFacilitator.doReceivedWork r u).1
    constructor
    · exact (manage_amount strategy eventWInverseProbability r _).trans (by rw [hstate])
    · change flashes (_ ++ _) = [] ∨ flashes (_ ++ _) = [u.managedAmount]
      rw [flashes_append, hdark, List.append_nil, hflash]
      split
      · exact .inr rfl
      · exact .inl rfl
  | onWorkMsg work =>
    obtain ⟨-, -, hdark, -⟩ := queueLocalWork_spec work u
    exact ⟨rfl, .inl hdark⟩
  | fetch => exact ⟨rfl, .inl rfl⟩

/-- Work on demand is conserved. In every order of sync periods, heard work and fetches, with
whatever strategy for the group, the items that the inbox took are as many as the flashes, the
items dropped for want of power and the one that may still be queued. A call flashes once at most,
and by the amount that the unit started with. -/
theorem work_on_demand_conserved (strategy : GroupStrategy) (u : Firmware M)
    (inputs : List DemandInput) :
    let outs := (demandUnit M strategy).outputs u inputs
    let v := (demandUnit M strategy).after u inputs
    inboxCount u + (outs.map fun events => (takenLocalWork events).length).sum =
        (outs.map fun events => (flashes events).length + droppedWork events).sum +
          inboxCount v ∧
      inboxCount v ≤ 1 ∧
      ∀ events ∈ outs, flashes events = [] ∨ flashes events = [u.managedAmount] := by
  intro outs v
  refine ⟨(inbox_ledger strategy).run (fun _ _ => trivial) trivial, ?_, ?_⟩
  · rw [inboxCount]
    cases OneItemMailbox.mail v.inMailbox with
    | none => exact Nat.zero_le 1
    | some work => exact Nat.le_refl 1
  · refine (demandUnit M strategy).outputs_invariant (P := fun _ => True)
      (I := fun w => w.managedAmount = u.managedAmount)
      (Q := fun events => flashes events = [] ∨ flashes events = [u.managedAmount])
      (fun w input _ hw => ?_) (fun _ _ => trivial) rfl
    obtain ⟨hamount, hflash⟩ := demandUnit_amount strategy w input
    rw [hw] at hamount hflash
    exact ⟨hamount, hflash⟩

end Firefly
