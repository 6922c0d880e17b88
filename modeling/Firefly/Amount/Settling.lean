import Firefly.Amount.Regulation

/-!
# The work amount stays exact, and settles

While the limit leaves room for a step below `2 ^ 32`, no sequence of adjustments makes the work
amount vanish or wrap. An increase that had an effect is undone by a decrease, and decreases
alone bring the amount within a step of zero, where it stays.
-/

namespace Firefly

open Foundation

variable {M : Type} {maxWorkAmount : UInt32}

/-- The routine of an adjustment leaves the amount that the adjustment leaves of an unbounded
number, so its addition or subtraction does not wrap. -/
def AdjustsExactly (maxWorkAmount : UInt32) (u : Firmware M) (op : Adjustment) : Prop :=
  (WorkAmount.adjust maxWorkAmount op u).managedAmount.toNat =
    (workRegulator maxWorkAmount).adjust op u.managedAmount.toNat

/-- A regulated work amount is not zero. -/
theorem regulated_pos (hM : maxWorkAmount.toNat ≤ 2 ^ 32 - 20) (u : Firmware M)
    (ops : List Adjustment) : 0 < (u.regulated maxWorkAmount ops).managedAmount := by
  rw [UInt32.lt_iff_toNat_lt, regulated_toNat hM]
  exact Regulator.after_pos (by decide) ops

/-- A decrease undoes an increase that had an effect, on all variables. -/
theorem decreaseAmount_increaseAmount (hM : maxWorkAmount.toNat ≤ 2 ^ 32 - 20) {u : Firmware M}
    (hpos : 0 < u.managedAmount)
    (h : (WorkAmount.increaseAmountWithoutExceedingTimerLimit maxWorkAmount u).managedAmount ≠
      u.managedAmount) :
    WorkAmount.decreaseAmount
      (WorkAmount.increaseAmountWithoutExceedingTimerLimit maxWorkAmount u) = u := by
  have hincrease := adjust_toNat hM .increase u
  have heffect : (workRegulator maxWorkAmount).adjust .increase u.managedAmount.toNat ≠
      u.managedAmount.toNat := by
    rw [← hincrease, ne_eq, UInt32.toNat_inj]
    exact h
  have hundone := Regulator.decrease_increase (UInt32.lt_iff_toNat_lt.mp hpos) heffect
  rw [← hincrease, ← adjust_toNat hM .decrease, UInt32.toNat_inj] at hundone
  obtain ⟨raised, hraised⟩ := WorkAmount.increaseAmount_frame maxWorkAmount u
  obtain ⟨lowered, hlowered⟩ := WorkAmount.decreaseAmount_frame
    (WorkAmount.increaseAmountWithoutExceedingTimerLimit maxWorkAmount u)
  have hamount : lowered = u.managedAmount :=
    (congrArg Firmware.managedAmount hlowered).symm.trans hundone
  rw [hlowered, hamount, hraised]

/-- Repeated decreases are those of the regulator. -/
theorem decreaseAmount_iterate_toNat (hM : maxWorkAmount.toNat ≤ 2 ^ 32 - 20) (u : Firmware M)
    (k : ℕ) :
    (WorkAmount.decreaseAmount^[k] u).managedAmount.toNat =
      ((workRegulator maxWorkAmount).adjust .decrease)^[k] u.managedAmount.toNat := by
  have hsemiconj : Function.Semiconj (fun u : Firmware M => u.managedAmount.toNat)
      WorkAmount.decreaseAmount ((workRegulator maxWorkAmount).adjust .decrease) :=
    fun u => adjust_toNat hM .decrease u
  exact hsemiconj.iterate_right k u

/-- After any adjustments the work amount is positive and was never wrapped; a decrease undoes an
increase that had an effect; and repeated decreases take off a step each time until the amount
has settled within a step of zero. -/
theorem workAmount_regulated (hM : maxWorkAmount.toNat ≤ 2 ^ 32 - 20) (u₀ : Firmware M)
    (ops : List Adjustment) :
    let u := u₀.regulated maxWorkAmount ops
    let settlingSteps := u.managedAmount.toNat ⌈/⌉ 20 - 1
    0 < u.managedAmount ∧
    (∀ before op rest, ops = before ++ op :: rest →
      AdjustsExactly maxWorkAmount (u₀.regulated maxWorkAmount before) op) ∧
    ((WorkAmount.increaseAmountWithoutExceedingTimerLimit maxWorkAmount u).managedAmount ≠
        u.managedAmount →
      WorkAmount.decreaseAmount
        (WorkAmount.increaseAmountWithoutExceedingTimerLimit maxWorkAmount u) = u) ∧
    (∀ k < settlingSteps, (WorkAmount.decreaseAmount^[k + 1] u).managedAmount.toNat + 20 =
      (WorkAmount.decreaseAmount^[k] u).managedAmount.toNat) ∧
    ∃ amount : UInt32, 0 < amount ∧ amount ≤ 20 ∧
      ∀ k, settlingSteps ≤ k → (WorkAmount.decreaseAmount^[k] u).managedAmount = amount := by
  intro u settlingSteps
  have hpos : 0 < u.managedAmount := regulated_pos hM u₀ ops
  have hiterate := decreaseAmount_iterate_toNat hM u
  refine ⟨hpos, fun before op _ _ => adjust_toNat hM op _,
    decreaseAmount_increaseAmount hM hpos, fun k hk => ?_, ?_⟩
  · rw [hiterate, hiterate]
    exact Regulator.decrease_iterate_succ hk
  · obtain ⟨b, hb, hle, hsettled⟩ := Regulator.decrease_iterate_settled
      (g := workRegulator maxWorkAmount) (UInt32.lt_iff_toNat_lt.mp hpos)
    have hend : (WorkAmount.decreaseAmount^[settlingSteps] u).managedAmount.toNat = b := by
      rw [hiterate]
      exact hsettled _ le_rfl
    refine ⟨(WorkAmount.decreaseAmount^[settlingSteps] u).managedAmount, ?_, ?_, fun k hk => ?_⟩
    · rwa [UInt32.lt_iff_toNat_lt, hend]
    · rwa [UInt32.le_iff_toNat_le, hend]
    · rw [← UInt32.toNat_inj, hend, hiterate]
      exact hsettled k hk

/-- From the preset, two decreases settle the amount. -/
theorem workAmount_regulated_preset :
    let u₀ : Firmware (Option MailContents) := { outMailbox := none, inMailbox := none }
    let u := u₀.regulated 100 [.increase, .setLeast]
    WorkAmount.decreaseAmount
        (WorkAmount.increaseAmountWithoutExceedingTimerLimit 100 u) = u ∧
      ∃ amount : UInt32, 0 < amount ∧ amount ≤ 20 ∧
        ∀ k, 2 ≤ k → (WorkAmount.decreaseAmount^[k] u).managedAmount = amount := by
  intro u₀ u
  obtain ⟨-, -, hundone, -, hsettled⟩ := workAmount_regulated
    (show (100 : UInt32).toNat ≤ 2 ^ 32 - 20 by decide) u₀ [.increase, .setLeast]
  have hsteps : u.managedAmount.toNat ⌈/⌉ 20 - 1 = 2 := by decide
  rw [← hsteps]
  exact ⟨hundone (by decide), hsettled⟩

end Firefly
