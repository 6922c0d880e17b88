import Firefly.Amount.Monotone
import Firefly.Flashes

/-!
# The excess-power strategy refines an ideal unit

What a unit with the excess-power strategy is for can be said without machine words: count the
sync periods that are not spent at the edges of the voltage, adjust the use of energy by the
voltage, and flash by the adjusted amount when there is power to shed or when it is time to work.

The firmware does this with a counter and an amount of 32 bits. In every run it flashes, alarms
and asks for fishing as the ideal unit does, and what its words hold is the ideal clock modulo
`2 ^ 32` and the ideal amount itself.
-/

namespace Firefly

open Foundation

variable {M : Type} {build : Build}

/-- An ideal unit: a clock with an unbounded counter, and an unbounded work amount. -/
structure IdealUnit where
  clock : Clock
  amount : ℕ

/-- What can be seen of a unit in one sync period. -/
structure Behaviour where
  /-- The work alarm was raised. -/
  alarm : Bool
  /-- The LED was flashed, by an amount. -/
  flash : Option ℕ
  /-- A change of the fishing sessions was asked for. -/
  fish : Option Adjustment

/-- The ranges in which there is power to shed. -/
def VoltageRange.sheds : VoltageRange → Bool
  | .aboveExcess | .nearExcess => true
  | _ => false

/-- In the ranges in which there is power to shed the clock does not tick. -/
theorem VoltageRange.not_delegates_of_sheds {range : VoltageRange} (h : range.sheds = true) :
    ¬ range.delegates = true := by
  cases range with
  | nearExcess => exact Bool.false_ne_true
  | aboveExcess => exact Bool.false_ne_true
  | _ => cases h

/-- What an adjustment means for the work amount, for a build. -/
def Build.amountAdjustment (build : Build) (op : Adjustment) : Adjustment :=
  match build.energyStrategy with
  | .workOnly => op
  | .workAndFish => .maintain

/-- What an adjustment means for the fishing sessions, for a build. -/
def Build.fishAdjustment (build : Build) (op : Adjustment) : Option Adjustment :=
  match build.energyStrategy, op with
  | .workOnly, _ | .workAndFish, .maintain => none
  | .workAndFish, op => some op

/-- The ideal unit as a machine over sync periods. -/
def idealUnit (build : Build) : Mealy IdealUnit Readings Behaviour where
  step d r :=
    let range := r.voltageRange
    let op : ClockOp := if range.delegates then .tick else .idle
    let clock := op.apply d.clock
    let amount := (workRegulator build.maxFlashAmount).adjust
      (build.amountAdjustment range.adjustment) d.amount
    (⟨clock, amount⟩,
      { alarm := op.alarms clock
        flash := if range.sheds || (op.alarms clock && r.isPowerForWork) then some amount else none
        fish := build.fishAdjustment range.adjustment })

/-- The changes of the fishing sessions that were asked for during a call, in order. -/
def fishRequests (events : List Event) : List Adjustment :=
  events.filterMap fun
    | .incrementFishSessionDuration _ => some .increase
    | .decrementFishSessionDuration _ => some .decrease
    | .setDurationToMinDuration => some .setLeast
    | _ => none

theorem fishRequests_append (first second : List Event) :
    fishRequests (first ++ second) = fishRequests first ++ fishRequests second :=
  List.filterMap_append ..

/-- The events of a call show a behaviour: the alarm as it is, and at most one flash and one
request, those of the behaviour. -/
structure Shows (events : List Event) (b : Behaviour) : Prop where
  alarm : raisesWorkAlarm events = b.alarm
  flash : (flashes events).map UInt32.toNat = b.flash.toList
  fish : fishRequests events = b.fish.toList

section Steps

variable [Mailbox M] {u v : Firmware M} {r : Readings} {events : List Event}

/-- The adjustment of the usage that goes with an adjustment of the regulator. -/
def PowerAdjuster.adjust (build : Build) : Adjustment → Firmware M → Firmware M × List Event
  | .increase, u => increaseUsage build u
  | .decrease, u => decreaseUsage build u
  | .maintain, u => maintainUsage build u
  | .setLeast, u => setLeastUsage build u

omit [Mailbox M] in
/-- An adjustment of the usage moves the work amount or asks for fishing, as the build has it, and
shows nothing else. -/
theorem adjust_shows (build : Build) (op : Adjustment) (u : Firmware M) :
    (∃ amount, (PowerAdjuster.adjust build op u).1 = { u with managedAmount := amount }) ∧
      (PowerAdjuster.adjust build op u).1.managedAmount = (WorkAmount.adjust
        build.maxFlashAmount (build.amountAdjustment op) u).managedAmount ∧
      raisesWorkAlarm (PowerAdjuster.adjust build op u).2 = false ∧
      flashes (PowerAdjuster.adjust build op u).2 = [] ∧
      fishRequests (PowerAdjuster.adjust build op u).2 = (build.fishAdjustment op).toList := by
  obtain ⟨maxFlashAmount, energyStrategy⟩ := build
  cases energyStrategy with
  | workOnly =>
    cases op with
    | increase => exact ⟨WorkAmount.increaseAmount_frame _ u, rfl, rfl, rfl, rfl⟩
    | decrease => exact ⟨WorkAmount.decreaseAmount_frame u, rfl, rfl, rfl, rfl⟩
    | maintain => exact ⟨⟨u.managedAmount, rfl⟩, rfl, rfl, rfl, rfl⟩
    | setLeast => exact ⟨⟨_, rfl⟩, rfl, rfl, rfl, rfl⟩
  | workAndFish => cases op <;> exact ⟨⟨u.managedAmount, rfl⟩, rfl, rfl, rfl, rfl⟩

/-- A tick asks for no fishing. -/
theorem tickSyncPeriod_fish (h : WorkClock.tickSyncPeriod r u = .ok (v, events)) :
    fishRequests events = [] := by
  have hworked (u : Firmware M) :
      fishRequests (DistributedSynchronizedWorker.onWorkAlarm r u).2 = [] := by
    unfold DistributedSynchronizedWorker.onWorkAlarm
    split <;> rfl
  have hmaintained (u : Firmware M) :
      fishRequests (WorkSyncMaintainer.onWorkAlarm r u).2 = [] := by
    unfold WorkSyncMaintainer.onWorkAlarm
    split
    · dsimp only [WorkSyncMaintenanceClock.tick]
      split
      · dsimp only [WorkSyncMaintainer.onWorkSyncMaintenanceAlarm]
        split <;> rfl
      · rfl
    · rfl
  rcases tickSyncPeriod_inv h with ⟨-, -, rfl⟩ | ⟨-, -, rfl⟩
  · change fishRequests ((DistributedSynchronizedWorker.onWorkAlarm r _).2 ++ _) = []
    rw [fishRequests_append, hworked, hmaintained, List.append_nil]
  · rfl

/-- What a tick shows after an adjustment. -/
theorem adjustThenNested_shows {adjusted : Firmware M × List Event}
    (hpos : 0 < adjusted.1.clock.period) :
    ∃ v events, ExcessPowerWorkStrategy.adjustThenNested r adjusted =
        .ok (v, adjusted.2 ++ events) ∧
      v.clock = (ClockOp.tick.apply adjusted.1.clock).wrap counterModulus ∧
      v.managedAmount = adjusted.1.managedAmount ∧
      raisesWorkAlarm events = ClockOp.tick.alarms v.clock ∧
      flashes events =
        (if raisesWorkAlarm events && r.isPowerForWork then [adjusted.1.managedAmount] else []) ∧
      fishRequests events = [] := by
  obtain ⟨⟨v, events⟩, h⟩ := handle_ok hpos (i := .onPreSyncSlot r) trivial
  have htick : WorkClock.tickSyncPeriod r adjusted.1 = .ok (v, events) := h
  obtain ⟨hclock, halarm⟩ := tickSyncPeriod_clock htick
  refine ⟨v, events, ?_, hclock, tickSyncPeriod_amount htick, halarm, handle_flashes h,
    tickSyncPeriod_fish htick⟩
  change (WorkClock.tickSyncPeriod r adjusted.1 >>= _) = _
  rw [htick]
  rfl

/-- The call of the strategy is an adjustment of the usage, and after it a flash, a tick or
nothing, by the voltage range. -/
theorem manageExcessPowerWithWork_cases (build : Build) (r : Readings) (u : Firmware M) :
    let adjusted := PowerAdjuster.adjust build r.voltageRange.adjustment u
    ExcessPowerWorkStrategy.manageExcessPowerWithWork build r u =
      if r.voltageRange.sheds then
        .ok (adjusted.1, adjusted.2 ++ [.flashLEDByAmount adjusted.1.managedAmount])
      else if r.voltageRange.delegates then
        ExcessPowerWorkStrategy.adjustThenNested r adjusted
      else .ok adjusted := by
  unfold ExcessPowerWorkStrategy.manageExcessPowerWithWork
  cases r.voltageRange <;> rfl

/-- The words of a running unit hold an ideal unit. -/
def Holds (s : UnitState M) (d : IdealUnit) : Prop :=
  ∃ u, s = .ok u ∧ 0 < u.clock.period ∧ u.managedAmount.toNat = d.amount ∧
    InPhase counterModulus 0 counterModulus u.clock d.clock

omit [Mailbox M] in
/-- An operation that installs no period keeps the clocks in step, with one alarm. -/
theorem inPhase_step {c d : Clock} (h : InPhase counterModulus 0 counterModulus c d)
    {op : ClockOp} (hop : op.Installs counterModulus counterModulus) :
    InPhase counterModulus 0 counterModulus ((op.apply c).wrap counterModulus) (op.apply d) ∧
      op.alarms ((op.apply c).wrap counterModulus) = op.alarms (op.apply d) := by
  have hnext := (inPhase_simulation (dvd_refl counterModulus) (Nat.dvd_zero counterModulus)).step h
    ⟨rfl, hop, hop.mono (Nat.dvd_zero _) (dvd_refl _)⟩
  rwa [← idealClock_eq] at hnext

omit [Mailbox M] in
/-- Of a unit that holds an ideal one, an adjustment leaves the clock, and moves the amount as that
of the ideal unit. -/
theorem Holds.adjust (hmax : build.maxFlashAmount.toNat ≤ 2 ^ 32 - 20) {d : IdealUnit}
    (h : Holds (.ok u) d) (op : Adjustment) :
    ∃ w before, PowerAdjuster.adjust build op u = (w, before) ∧
      Holds (.ok w) ⟨d.clock, (workRegulator build.maxFlashAmount).adjust
        (build.amountAdjustment op) d.amount⟩ ∧
      raisesWorkAlarm before = false ∧ flashes before = [] ∧
      fishRequests before = (build.fishAdjustment op).toList := by
  obtain ⟨_, hu, hpos, hamount, hphase⟩ := h
  cases hu
  obtain ⟨⟨amount, hframe⟩, hadjusted, hshows⟩ := adjust_shows build op u
  have hclock : (PowerAdjuster.adjust build op u).1.clock = u.clock := by
    rw [hframe]
    rfl
  have hword : (PowerAdjuster.adjust build op u).1.managedAmount.toNat =
      (workRegulator build.maxFlashAmount).adjust (build.amountAdjustment op) d.amount := by
    rw [← hamount, ← adjust_toNat hmax]
    exact congrArg UInt32.toNat hadjusted
  exact ⟨_, _, rfl, ⟨_, rfl, hclock ▸ hpos, hword, hclock ▸ hphase⟩, hshows⟩

/-- A call of the strategy is a step of the ideal unit. -/
theorem manageExcessPowerWithWork_ideal (hmax : build.maxFlashAmount.toNat ≤ 2 ^ 32 - 20)
    {d : IdealUnit} (h : Holds (.ok u) d) (r : Readings) :
    ∃ v events, ExcessPowerWorkStrategy.manageExcessPowerWithWork build r u = .ok (v, events) ∧
      Holds (.ok v) ((idealUnit build).step d r).1 ∧
      Shows events ((idealUnit build).step d r).2 := by
  obtain ⟨w, before, hadjust, hholds, hsilent, hdark, hfish⟩ :=
    h.adjust hmax r.voltageRange.adjustment
  obtain ⟨_, hw, hpos, hword, hphase⟩ := hholds
  cases hw
  dsimp only at hword hphase
  rw [manageExcessPowerWithWork_cases, hadjust]
  by_cases hsheds : r.voltageRange.sheds = true
  · -- the clock stands still, and the flash is made at once
    have hstands : r.voltageRange.delegates = false :=
      Bool.eq_false_iff.mpr (VoltageRange.not_delegates_of_sheds hsheds)
    rw [if_pos hsheds]
    simp only [idealUnit, hsheds, hstands, Bool.false_eq_true, if_false, Bool.true_or, if_true]
    refine ⟨w, _, rfl, ⟨w, rfl, hpos, hword, hphase⟩, ?_, ?_, ?_⟩
    · rw [raisesWorkAlarm_append, hsilent]
      rfl
    · rw [flashes_append, hdark, ← hword]
      rfl
    · rw [fishRequests_append, hfish]
      exact List.append_nil _
  by_cases hticks : r.voltageRange.delegates = true
  · -- the clock ticks, and the flash is that of the alarm
    obtain ⟨v, events, hnested, hvclock, hvamount, halarm, hflash, hnofish⟩ :=
      adjustThenNested_shows (r := r) (show 0 < (w, before).1.clock.period from hpos)
    have hticking : ClockOp.tick.Installs counterModulus counterModulus := trivial
    obtain ⟨hnext, halarms⟩ := inPhase_step hphase hticking
    rw [hvclock, halarms] at halarm
    rw [if_neg hsheds, if_pos hticks, hnested]
    rw [Bool.not_eq_true] at hsheds
    simp only [idealUnit, hsheds, hticks, if_true, Bool.false_or]
    refine ⟨v, _, rfl, ⟨v, rfl, ?_, ?_, hvclock ▸ hnext⟩, ?_, ?_, ?_⟩
    · rw [hvclock]
      exact hpos
    · rw [hvamount]
      exact hword
    · rw [raisesWorkAlarm_append, hsilent, halarm]
      rfl
    · rw [flashes_append, hdark, hflash, halarm, ← hword]
      cases ClockOp.tick.alarms (ClockOp.tick.apply d.clock) && r.isPowerForWork <;> rfl
    · rw [fishRequests_append, hfish, hnofish]
      exact List.append_nil _
  · -- the clock stands still, and there is no flash
    rw [if_neg hsheds, if_neg hticks]
    rw [Bool.not_eq_true] at hsheds hticks
    simp only [idealUnit, hsheds, hticks, Bool.false_eq_true, if_false, Bool.false_or]
    refine ⟨w, _, rfl, ⟨w, rfl, hpos, hword, hphase⟩, hsilent, ?_, hfish⟩
    rw [hdark]
    rfl

/-- A unit with the excess-power strategy is simulated by the ideal unit. -/
theorem idealUnit_simulation (hmax : build.maxFlashAmount.toNat ≤ 2 ^ 32 - 20) :
    Mealy.Simulation (excessMachine M build) (idealUnit build) Eq Shows Holds where
  step := by
    rintro s d r _ hs rfl
    obtain ⟨u, rfl, hrest⟩ := hs
    obtain ⟨v, events, hcall, hholds, hshows⟩ :=
      manageExcessPowerWithWork_ideal hmax ⟨u, rfl, hrest⟩ r
    rw [excessMachine, Mealy.ofExcept_step_ok hcall]
    exact ⟨hholds, hshows⟩

end Steps

/-- A unit with the excess-power strategy refines the ideal unit. From any state with a sound
period, with either energy strategy and any readings, it shows in every sync period the alarm, the
flash and the request for fishing of the ideal unit, none more and none less. After every run its
words hold the ideal clock modulo `2 ^ 32` and the ideal amount. -/
theorem excessPower_refines_ideal [Mailbox M] (hmax : build.maxFlashAmount.toNat ≤ 2 ^ 32 - 20)
    {u : Firmware M} (hu : SoundPeriod u.clock.period) (rs : List Readings) :
    let start : IdealUnit := ⟨u.clock, u.managedAmount.toNat⟩
    List.Forall₂ Shows ((excessMachine M build).outputs (.ok u) rs)
        ((idealUnit build).outputs start rs) ∧
      ∃ v, (excessMachine M build).after (.ok u) rs = .ok v ∧
        v.clock = ((idealUnit build).after start rs).clock.wrap counterModulus ∧
        v.managedAmount.toNat = ((idealUnit build).after start rs).amount := by
  intro start
  have hstart : Holds (.ok u) start :=
    ⟨u, rfl, hu.pos, rfl, rfl, hu.dvd_counterModulus, Nat.dvd_zero _, rfl, rfl⟩
  have hsame : List.Forall₂ Eq rs rs := List.forall₂_eq_eq_eq ▸ rfl
  refine ⟨(idealUnit_simulation hmax).outputs hstart hsame, ?_⟩
  obtain ⟨v, hv, -, hamount, hphase⟩ := (idealUnit_simulation hmax).after hstart hsame
  have hlt : v.clock.counter < counterModulus := UInt32.toNat_lt v.workClockCounter
  refine ⟨v, hv, ?_, hamount⟩
  calc v.clock
      = ⟨v.clock.counter % counterModulus, v.clock.period⟩ := by rw [Nat.mod_eq_of_lt hlt]
    _ = _ := by rw [hphase.period_eq, hphase.frame]; rfl

/-- From just before the wrap, through an excess and to an alarm. -/
theorem excessPower_refines_ideal_wrap :
    let build : Build := ⟨100, .workOnly⟩
    let u : Firmware (Option MailContents) :=
      { workClockCounter := 4294967295, managedAmount := 90, outMailbox := none,
        inMailbox := none }
    let rs : List Readings :=
      [⟨true, false, true, .nearExcess, 0⟩, ⟨true, false, true, .mediumToHigh, 0⟩]
    ∃ v, (excessMachine _ build).after (.ok u) rs = .ok v ∧
      v.clock = ⟨0, 4⟩ ∧ v.managedAmount.toNat = 110 := by
  intro build u rs
  obtain ⟨-, v, hv, hclock, hamount⟩ := excessPower_refines_ideal
    (show build.maxFlashAmount.toNat ≤ 2 ^ 32 - 20 by decide)
    (show SoundPeriod u.clock.period from ⟨2, by decide, rfl⟩) rs
  exact ⟨v, hv, hclock.trans (by decide), hamount.trans (by decide)⟩

end Firefly
