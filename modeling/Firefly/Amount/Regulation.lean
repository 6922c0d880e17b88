import Firefly.Foundation.StepRegulator
import Firefly.Power

/-!
# The regulated work amount

The work amount is regulated in steps of `ChangeAmount`, with `AmountEasilyPerceivable` as its
preset and the longest flash as its limit. Over its variable, the four routines of `WorkAmount`
are a machine; the work-only energy strategy adds nothing to it.

Where the limit leaves room for one step below `2 ^ 32`, the amount is that of a regulator on
unbounded numbers.
-/

namespace Firefly

open Foundation

variable {M : Type}

/-- The routine that makes an adjustment of the work amount. -/
def WorkAmount.adjust (maxWorkAmount : UInt32) : Adjustment → Firmware M → Firmware M
  | .increase, u => increaseAmountWithoutExceedingTimerLimit maxWorkAmount u
  | .decrease, u => decreaseAmount u
  | .maintain, u => maintainAmount u
  | .setLeast, u => setLeastAmount u

/-- The routine that makes an adjustment of the usage, with the work-only energy strategy. -/
def WorkOnlyEnergyStrategy.adjust (build : Build) :
    Adjustment → Firmware M → Firmware M × List Event
  | .increase, u => increaseUsage build u
  | .decrease, u => decreaseUsage u
  | .maintain, u => maintainUsage u
  | .setLeast, u => setLeastUsage u

/-- Adjustments of the work amount one after the other; each answers with the amount it leaves. -/
def amountMachine (M : Type) (maxWorkAmount : UInt32) :
    Mealy (Firmware M) Adjustment UInt32 where
  step u op :=
    let adjusted := WorkAmount.adjust maxWorkAmount op u
    (adjusted, adjusted.managedAmount)

/-- Adjustments of the usage one after the other. -/
def usageMachine (M : Type) (build : Build) : Mealy (Firmware M) Adjustment (List Event) where
  step u op := WorkOnlyEnergyStrategy.adjust build op u

/-- The variables after the work amount was initialised and then adjusted. -/
def Firmware.regulated (maxWorkAmount : UInt32) (u : Firmware M) (ops : List Adjustment) :
    Firmware M :=
  (amountMachine M maxWorkAmount).after (WorkAmount.init WorkAmount.amountPerceivable u) ops

/-- Adjusting the usage adjusts the work amount, up to the limit of the worker. -/
theorem usageMachine_after (build : Build) (u : Firmware M) (ops : List Adjustment) :
    (usageMachine M build).after u ops =
      (amountMachine M (Worker.maxWorkAmount build)).after u ops := by
  induction ops generalizing u with
  | nil => rfl
  | cons op rest ih =>
    have hstep : ((usageMachine M build).step u op).1 =
        ((amountMachine M (Worker.maxWorkAmount build)).step u op).1 := by cases op <;> rfl
    rw [Mealy.after_cons, Mealy.after_cons, hstep, ih]

section Values

/-- Below the limit an increase adds a step, modulo `2 ^ 32`. -/
theorem increaseAmount_of_lt {maxWorkAmount : UInt32} {u : Firmware M}
    (h : u.managedAmount.toNat < maxWorkAmount.toNat) :
    (WorkAmount.increaseAmountWithoutExceedingTimerLimit maxWorkAmount u).managedAmount.toNat =
      (u.managedAmount.toNat + 20) % 2 ^ 32 := by
  rw [WorkAmount.increaseAmountWithoutExceedingTimerLimit, if_pos (UInt32.lt_iff_toNat_lt.mpr h)]
  exact UInt32.toNat_add _ _

/-- From the limit on an increase has no effect. -/
theorem increaseAmount_of_le {maxWorkAmount : UInt32} {u : Firmware M}
    (h : maxWorkAmount.toNat ≤ u.managedAmount.toNat) :
    WorkAmount.increaseAmountWithoutExceedingTimerLimit maxWorkAmount u = u :=
  if_neg (UInt32.not_lt.mpr (UInt32.le_iff_toNat_le.mpr h))

/-- Above a step a decrease takes a step off. -/
theorem decreaseAmount_of_lt {u : Firmware M} (h : 20 < u.managedAmount.toNat) :
    (WorkAmount.decreaseAmount u).managedAmount.toNat = u.managedAmount.toNat - 20 := by
  have hmore : WorkAmount.changeAmount < u.managedAmount := UInt32.lt_iff_toNat_lt.mpr h
  rw [WorkAmount.decreaseAmount, if_pos hmore]
  exact UInt32.toNat_sub_of_le _ _ (UInt32.le_of_lt hmore)

/-- Within a step of zero a decrease has no effect. -/
theorem decreaseAmount_of_le {u : Firmware M} (h : u.managedAmount.toNat ≤ 20) :
    WorkAmount.decreaseAmount u = u :=
  if_neg (UInt32.not_lt.mpr (UInt32.le_iff_toNat_le.mpr h))

end Values

section Regulator

/-- The constants of the work amount, as a regulator. -/
def workRegulator (maxWorkAmount : UInt32) : Regulator where
  limit := maxWorkAmount.toNat
  step := WorkAmount.changeAmount.toNat
  least := WorkAmount.amountEasilyPerceivable.toNat
  step_pos := by decide
  least_pos := by decide

variable {maxWorkAmount : UInt32}

/-- With room for one step above the limit, adjusting the variable is adjusting the number. -/
theorem adjust_toNat (hM : maxWorkAmount.toNat ≤ 2 ^ 32 - 20) (op : Adjustment)
    (u : Firmware M) :
    (WorkAmount.adjust maxWorkAmount op u).managedAmount.toNat =
      (workRegulator maxWorkAmount).adjust op u.managedAmount.toNat := by
  cases op with
  | increase =>
    change (WorkAmount.increaseAmountWithoutExceedingTimerLimit maxWorkAmount
      u).managedAmount.toNat = _
    rcases Nat.lt_or_ge u.managedAmount.toNat maxWorkAmount.toNat with hlt | hge
    · rw [increaseAmount_of_lt hlt, Nat.mod_eq_of_lt (by omega)]
      exact (Regulator.increase_of_lt (g := workRegulator maxWorkAmount) hlt).symm
    · rw [increaseAmount_of_le hge]
      exact (Regulator.increase_of_le (g := workRegulator maxWorkAmount) hge).symm
  | decrease =>
    change (WorkAmount.decreaseAmount u).managedAmount.toNat = _
    rcases Nat.lt_or_ge 20 u.managedAmount.toNat with hlt | hge
    · rw [decreaseAmount_of_lt hlt]
      exact (Regulator.decrease_of_lt (g := workRegulator maxWorkAmount) hlt).symm
    · rw [decreaseAmount_of_le hge]
      exact (Regulator.decrease_of_le (g := workRegulator maxWorkAmount) hge).symm
  | maintain => rfl
  | setLeast => rfl

/-- The machine of the routines is simulated by the regulator. -/
theorem amount_simulation (hM : maxWorkAmount.toNat ≤ 2 ^ 32 - 20) :
    Mealy.Simulation (amountMachine M maxWorkAmount) (workRegulator maxWorkAmount).machine
      Eq (fun x a => x.toNat = a) (fun u a => u.managedAmount.toNat = a) where
  step := by
    rintro u a op op' rfl rfl
    exact ⟨adjust_toNat hM op u, adjust_toNat hM op u⟩

/-- A regulated work amount is the amount of the regulator. -/
theorem regulated_toNat (hM : maxWorkAmount.toNat ≤ 2 ^ 32 - 20) (u : Firmware M)
    (ops : List Adjustment) :
    (u.regulated maxWorkAmount ops).managedAmount.toNat =
      (workRegulator maxWorkAmount).machine.after 20 ops :=
  (amount_simulation hM).after rfl (List.forall₂_eq_eq_eq ▸ rfl)

end Regulator

end Firefly
