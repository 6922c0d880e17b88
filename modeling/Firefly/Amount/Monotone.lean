import Firefly.Amount.Regulation
import Firefly.ExcessPower

/-!
# Work amounts at higher and lower voltages

With the work-only energy strategy a voltage range decides on one of the four adjustments of the
work amount. A lower range is meant to leave less work, but the least amount is a constant that
decreases pass: below it, the lowest voltage raises the amount.

The ordering of the adjustments holds exactly while a decrease still ends at the preset or above
it, and an increase does not wrap.
-/

namespace Firefly

open Foundation

variable {M : Type} {build : Build}

/-- The place of a range in the order of voltages. -/
def VoltageRange.rank : VoltageRange → ℕ
  | .belowUltraLow => 0
  | .ultraLowToLow => 1
  | .lowToMedium => 2
  | .mediumToHigh => 3
  | .highToNearExcess => 4
  | .nearExcess => 5
  | .aboveExcess => 6

/-- The adjustment that the excess-power strategy makes in a range. -/
def VoltageRange.adjustment : VoltageRange → Adjustment
  | .aboveExcess | .nearExcess => .increase
  | .highToNearExcess | .mediumToHigh => .maintain
  | .lowToMedium | .ultraLowToLow => .decrease
  | .belowUltraLow => .setLeast

/-- The four adjustments of the usage leave ordered work amounts. -/
def AdjustmentsOrdered (build : Build) (u : Firmware M) : Prop :=
  (WorkOnlyEnergyStrategy.setLeastUsage u).1.managedAmount ≤
      (WorkOnlyEnergyStrategy.decreaseUsage u).1.managedAmount ∧
    (WorkOnlyEnergyStrategy.decreaseUsage u).1.managedAmount ≤
      (WorkOnlyEnergyStrategy.maintainUsage u).1.managedAmount ∧
    (WorkOnlyEnergyStrategy.maintainUsage u).1.managedAmount ≤
      (WorkOnlyEnergyStrategy.increaseUsage build u).1.managedAmount

/-- A reading of a lower voltage leaves no more work than one of a higher voltage. -/
def MonotoneInVoltage [Mailbox M] (build : Build) (u : Firmware M) : Prop :=
  ∀ r r' : Readings, r.voltageRange.rank ≤ r'.voltageRange.rank →
    ∃ lower higher, ExcessPowerWorkStrategy.manageExcessPowerWithWork build r u = .ok lower ∧
      ExcessPowerWorkStrategy.manageExcessPowerWithWork build r' u = .ok higher ∧
      lower.1.managedAmount ≤ higher.1.managedAmount

/-- A decrease ends at the preset or above, and an increase is refused or does not wrap. -/
def AmountInOrder (build : Build) (u : Firmware M) : Prop :=
  70 ≤ u.managedAmount.toNat ∧
    (build.maxFlashAmount.toNat ≤ u.managedAmount.toNat ∨ u.managedAmount.toNat + 20 < 2 ^ 32)

/-- The preset is passed by a decrease from less than a step above it. -/
theorem setLeast_le_decrease_iff (u : Firmware M) :
    (WorkAmount.setLeastAmount u).managedAmount ≤ (WorkAmount.decreaseAmount u).managedAmount ↔
      70 ≤ u.managedAmount.toNat := by
  have hpreset : (WorkAmount.setLeastAmount u).managedAmount.toNat = 50 := rfl
  rw [UInt32.le_iff_toNat_le, hpreset]
  rcases Nat.lt_or_ge 20 u.managedAmount.toNat with hlt | hge
  · rw [decreaseAmount_of_lt hlt]
    omega
  · rw [decreaseAmount_of_le hge]
    omega

/-- A decrease never raises the amount. -/
theorem decrease_le (u : Firmware M) :
    (WorkAmount.decreaseAmount u).managedAmount ≤ u.managedAmount := by
  rw [UInt32.le_iff_toNat_le]
  rcases Nat.lt_or_ge 20 u.managedAmount.toNat with hlt | hge
  · rw [decreaseAmount_of_lt hlt]
    exact Nat.sub_le _ _
  · rw [decreaseAmount_of_le hge]

/-- An increase lowers the amount where its guard admits a sum that wraps. -/
theorem le_increase_iff (maxWorkAmount : UInt32) (u : Firmware M) :
    u.managedAmount ≤ (WorkAmount.increaseAmountWithoutExceedingTimerLimit maxWorkAmount
        u).managedAmount ↔
      maxWorkAmount.toNat ≤ u.managedAmount.toNat ∨ u.managedAmount.toNat + 20 < 2 ^ 32 := by
  rw [UInt32.le_iff_toNat_le]
  rcases Nat.lt_or_ge u.managedAmount.toNat maxWorkAmount.toNat with hlt | hge
  · have hbound : u.managedAmount.toNat < 2 ^ 32 := u.managedAmount.toNat_lt
    rw [increaseAmount_of_lt hlt]
    omega
  · rw [increaseAmount_of_le hge]
    exact iff_of_true le_rfl (.inl hge)

/-- Whether the adjustments are ordered depends on the amount alone. -/
theorem adjustmentsOrdered_iff (u : Firmware M) :
    AdjustmentsOrdered build u ↔ AmountInOrder build u := by
  calc AdjustmentsOrdered build u
      ↔ (WorkAmount.setLeastAmount u).managedAmount ≤
            (WorkAmount.decreaseAmount u).managedAmount ∧
          u.managedAmount ≤ (WorkAmount.increaseAmountWithoutExceedingTimerLimit
            (Worker.maxWorkAmount build) u).managedAmount :=
        and_congr_right fun _ => and_iff_right (decrease_le u)
    _ ↔ AmountInOrder build u :=
        and_congr (setLeast_le_decrease_iff u) (le_increase_iff _ u)

/-- Ordered adjustments make the amounts of ordered readings ordered. -/
theorem AdjustmentsOrdered.le_of_rank_le {u : Firmware M} (h : AdjustmentsOrdered build u)
    {range range' : VoltageRange} (hrank : range.rank ≤ range'.rank) :
    (WorkAmount.adjust (Worker.maxWorkAmount build) range.adjustment u).managedAmount ≤
      (WorkAmount.adjust (Worker.maxWorkAmount build) range'.adjustment u).managedAmount := by
  obtain ⟨hleast, hdecrease, hincrease⟩ := h
  have hmaintain := UInt32.le_trans hleast hdecrease
  have hraised := UInt32.le_trans hdecrease hincrease
  have hfull := UInt32.le_trans hleast hraised
  cases range <;> cases range' <;>
    first
    | exact absurd hrank (by decide)
    | exact UInt32.le_refl _
    | assumption

section Readings

variable [Mailbox M]

/-- A tick of the work clock leaves the work amount alone. -/
theorem tickSyncPeriod_amount {r : Readings} {u : Firmware M} {result : Firmware M × List Event}
    (h : WorkClock.tickSyncPeriod r u = .ok result) :
    result.1.managedAmount = u.managedAmount := by
  obtain ⟨u', events⟩ := result
  rcases tickSyncPeriod_inv h with ⟨-, rfl, -⟩ | ⟨-, rfl, -⟩
  · obtain ⟨counter, box, hframe⟩ := onWorkClockAlarm_frame r u.counted
    rw [hframe]
    rfl
  · rfl

/-- The nested strategy leaves the work amount as the adjustment before it left it. -/
theorem adjustThenNested_amount {r : Readings} {adjusted result : Firmware M × List Event}
    (h : ExcessPowerWorkStrategy.adjustThenNested r adjusted = .ok result) :
    result.1.managedAmount = adjusted.1.managedAmount := by
  change (WorkClock.tickSyncPeriod r adjusted.1 >>= _) = _ at h
  cases hnested : WorkClock.tickSyncPeriod r adjusted.1 with
  | error fault =>
    rw [hnested] at h
    cases h
  | ok nested =>
    rw [hnested] at h
    cases h
    have hkept := tickSyncPeriod_amount hnested
    exact hkept

/-- What a reading leaves of the work amount is the adjustment of its range. -/
theorem manageExcessPowerWithWork_amount (hbuild : build.energyStrategy = .workOnly)
    {r : Readings} {u : Firmware M} {result : Firmware M × List Event}
    (h : ExcessPowerWorkStrategy.manageExcessPowerWithWork build r u = .ok result) :
    result.1.managedAmount = (WorkAmount.adjust (Worker.maxWorkAmount build)
      r.voltageRange.adjustment u).managedAmount := by
  simp only [ExcessPowerWorkStrategy.manageExcessPowerWithWork, PowerAdjuster.onExcessVoltage,
    PowerAdjuster.increaseUsageAndWorkLocally, PowerAdjuster.increaseUsage,
    PowerAdjuster.decreaseUsage, PowerAdjuster.maintainUsage, PowerAdjuster.setLeastUsage,
    hbuild] at h
  cases hrange : r.voltageRange <;> rw [hrange] at h
  case aboveExcess | nearExcess | ultraLowToLow | belowUltraLow =>
    cases h
    rfl
  case highToNearExcess | mediumToHigh | lowToMedium => exact adjustThenNested_amount h

/-- At a running clock, monotonicity in the voltage is the order of the adjustments. -/
theorem monotoneInVoltage_iff (hbuild : build.energyStrategy = .workOnly) {u : Firmware M}
    (hpos : 0 < u.clock.period) :
    MonotoneInVoltage build u ↔ AdjustmentsOrdered build u := by
  have hok (r : Readings) : ∃ result,
      ExcessPowerWorkStrategy.manageExcessPowerWithWork build r u = .ok result := by
    obtain ⟨u', events, h, -⟩ := manageExcessPowerWithWork_ok build r hpos
    exact ⟨_, h⟩
  constructor
  · intro hmono
    have hle (range range' : VoltageRange) (hrank : range.rank ≤ range'.rank) :
        (WorkAmount.adjust (Worker.maxWorkAmount build) range.adjustment u).managedAmount ≤
          (WorkAmount.adjust (Worker.maxWorkAmount build) range'.adjustment u).managedAmount := by
      obtain ⟨lower, higher, hlower, hhigher, hle⟩ :=
        hmono ⟨false, false, false, range, 0⟩ ⟨false, false, false, range', 0⟩ hrank
      rwa [manageExcessPowerWithWork_amount hbuild hlower,
        manageExcessPowerWithWork_amount hbuild hhigher] at hle
    exact ⟨hle .belowUltraLow .ultraLowToLow (by decide),
      hle .lowToMedium .mediumToHigh (by decide), hle .highToNearExcess .nearExcess (by decide)⟩
  · intro hordered r r' hrank
    obtain ⟨lower, hlower⟩ := hok r
    obtain ⟨higher, hhigher⟩ := hok r'
    refine ⟨lower, higher, hlower, hhigher, ?_⟩
    rw [manageExcessPowerWithWork_amount hbuild hlower,
      manageExcessPowerWithWork_amount hbuild hhigher]
    exact hordered.le_of_rank_le hrank

/-- In every run, the state reached orders the adjustments, and the readings, exactly when its
amount is at least a step above the preset and an increase does not wrap. -/
theorem usage_monotone_iff (hbuild : build.energyStrategy = .workOnly) {u₀ : Firmware M}
    (hpos : 0 < u₀.clock.period) (rs : List Readings) :
    ∃ u, (excessMachine M build).after
        (.ok (WorkAmount.init WorkAmount.amountPerceivable u₀)) rs = .ok u ∧
      (AdjustmentsOrdered build u ↔ AmountInOrder build u) ∧
      (MonotoneInVoltage build u ↔ AmountInOrder build u) := by
  obtain ⟨⟨u, hrun, hclock, hperiod⟩, -⟩ :=
    excess_run build (u := WorkAmount.init WorkAmount.amountPerceivable u₀) hpos rs
  have hordered : AdjustmentsOrdered build u ↔ AmountInOrder build u := adjustmentsOrdered_iff u
  exact ⟨u, hrun, hordered, (monotoneInVoltage_iff hbuild (hclock ▸ hperiod)).trans hordered⟩

/-- The initial amount is raised in the lowest range, and left alone in the next one. -/
theorem not_monotone_initial :
    let build : Build := ⟨100, .workOnly⟩
    let u : Firmware (Option MailContents) := .powerOn none none
    (excessMachine _ build).after (.ok (WorkAmount.init WorkAmount.amountPerceivable u)) [] =
        .ok u ∧
      ¬ AdjustmentsOrdered build u ∧ ¬ MonotoneInVoltage build u := by
  refine ⟨rfl, fun hordered => absurd hordered.1 (by decide), fun hmono => ?_⟩
  obtain ⟨lower, higher, hlower, hhigher, hle⟩ := hmono ⟨false, true, false, .belowUltraLow, 0⟩
    ⟨false, true, false, .ultraLowToLow, 0⟩ (by decide)
  cases hlower
  cases hhigher
  exact absurd hle (by decide)

/-- Three readings near excess bring the initial amount to 80, where all readings are ordered. -/
theorem usage_monotone_eighty :
    let build : Build := ⟨100, .workOnly⟩
    let u₀ : Firmware (Option MailContents) := .powerOn none none
    let r : Readings := ⟨false, true, false, .nearExcess, 0⟩
    ∃ u, (excessMachine _ build).after
        (.ok (WorkAmount.init WorkAmount.amountPerceivable u₀)) [r, r, r] = .ok u ∧
      MonotoneInVoltage build u := by
  intro build u₀ r
  obtain ⟨u, hrun, -, hmono⟩ := usage_monotone_iff
    (show build.energyStrategy = .workOnly from rfl) (show 0 < u₀.clock.period by decide) [r, r, r]
  have hu : { u₀ with managedAmount := 80 } = u := Except.ok.inj hrun
  subst hu
  exact ⟨_, hrun, hmono.mpr (by unfold AmountInOrder; decide)⟩

end Readings

end Firefly
