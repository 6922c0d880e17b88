import Firefly.Amount.Regulation

/-!
# The limit of the flasher

An increase is meant to stay within the limit of the flasher, but its guard compares the amount
before the step is added. The limit is kept exactly in the runs whose every increase is made at
the limit, or with a whole step left below it.

The initial amount and the preset lie half a step apart, modulo the step. So no limit can be a
whole number of steps away from both, and every limit is exceeded by some run.
-/

namespace Firefly

open Foundation

variable {M : Type} {build : Build}

/-- The variables after initialisation and adjustments of the usage. -/
def Firmware.used (build : Build) (u : Firmware M) (ops : List Adjustment) : Firmware M :=
  (usageMachine M build).after (WorkAmount.init WorkAmount.amountPerceivable u) ops

/-- The work amount is within the limit, and so is what the worker passes to the flasher. -/
def WithinLimit (build : Build) (u : Firmware M) : Prop :=
  u.managedAmount ≤ Worker.maxWorkAmount build ∧
    ∀ amount, .flashLEDByAmount amount ∈ (Worker.workManagedAmount u).2 →
      amount ≤ build.maxFlashAmount

/-- The amount is not within one step below the limit: an increase is refused, or has room. -/
def IncreaseHasRoom (build : Build) (u : Firmware M) : Prop :=
  build.maxFlashAmount.toNat ≤ u.managedAmount.toNat ∨
    u.managedAmount.toNat + 20 ≤ build.maxFlashAmount.toNat

/-- The worker passes on the work amount, so the second part adds nothing. -/
theorem withinLimit_iff (u : Firmware M) :
    WithinLimit build u ↔ u.managedAmount.toNat ≤ build.maxFlashAmount.toNat := by
  rw [← UInt32.le_iff_toNat_le]
  refine ⟨And.left, fun hle => ⟨hle, fun amount hflash => ?_⟩⟩
  obtain rfl : amount = u.managedAmount := Event.flashLEDByAmount.inj (List.mem_singleton.mp hflash)
  exact hle

/-- The amount of the usage is the amount of the regulator. -/
theorem used_toNat (hmax : build.maxFlashAmount.toNat ≤ 2 ^ 32 - 21) (u : Firmware M)
    (ops : List Adjustment) :
    (u.used build ops).managedAmount.toNat =
      (workRegulator build.maxFlashAmount).machine.after 20 ops := by
  rw [Firmware.used, usageMachine_after]
  exact regulated_toNat (hmax.trans (by decide)) u ops

/-- Every limit is exceeded, by increases of the initial amount or of the preset. -/
theorem exists_used_exceeds (hleast : 50 ≤ build.maxFlashAmount.toNat)
    (hmax : build.maxFlashAmount.toNat ≤ 2 ^ 32 - 21) (u : Firmware M) :
    ∃ ops, ¬ WithinLimit build (u.used build ops) := by
  simp only [withinLimit_iff, used_toNat hmax, Nat.not_le]
  by_cases hinitial : 20 ∣ build.maxFlashAmount.toNat - 20
  · have hpreset : ¬ 20 ∣ build.maxFlashAmount.toNat - 50 := by omega
    obtain ⟨k, hk⟩ := Regulator.exists_increases_exceed
      (g := workRegulator build.maxFlashAmount) hleast hpreset
    exact ⟨.setLeast :: List.replicate k .increase, hk⟩
  · have hstart : 20 ≤ (workRegulator build.maxFlashAmount).limit :=
      (show 20 ≤ 50 by decide).trans hleast
    obtain ⟨k, hk⟩ := Regulator.exists_increases_exceed hstart hinitial
    exact ⟨List.replicate k .increase, hk⟩

/-- The usage stays within the limit exactly in the runs that never increase it at an amount
within one step below the limit, and no limit is kept by all runs. -/
theorem used_withinLimit_iff (hleast : 50 ≤ build.maxFlashAmount.toNat)
    (hmax : build.maxFlashAmount.toNat ≤ 2 ^ 32 - 21) (u : Firmware M) :
    (∀ ops, (∀ before rest, ops = before ++ rest → WithinLimit build (u.used build before)) ↔
      ∀ before rest, ops = before ++ .increase :: rest →
        IncreaseHasRoom build (u.used build before)) ∧
    ∃ ops, ¬ WithinLimit build (u.used build ops) := by
  refine ⟨fun ops => ?_, exists_used_exceeds hleast hmax u⟩
  have hstart : 20 ≤ (workRegulator build.maxFlashAmount).limit :=
    (show 20 ≤ 50 by decide).trans hleast
  have hrun := Regulator.after_le_limit_iff (g := workRegulator build.maxFlashAmount) hleast
    hstart ops
  simp only [withinLimit_iff, IncreaseHasRoom, used_toNat hmax]
  exact hrun

/-- With a limit of 50 the initial amount has room for one increase, and the second one passes
the limit by 10. -/
theorem used_exceeds_fifty :
    let build : Build := ⟨50, .workOnly⟩
    let u : Firmware (Option MailContents) := { outMailbox := none, inMailbox := none }
    50 ≤ build.maxFlashAmount.toNat ∧ build.maxFlashAmount.toNat ≤ 2 ^ 32 - 21 ∧
      (Worker.workManagedAmount (u.used build [.increase, .increase])).2 =
        [.flashLEDByAmount 60] ∧
      ¬ WithinLimit build (u.used build [.increase, .increase]) := by
  refine ⟨by decide, by decide, rfl, fun h => ?_⟩
  exact absurd h.1 (by decide)

/-- With a limit of 50, a run that increases the initial amount, undoes that, presets the amount at
the limit, where an increase is refused, and comes back to the limit from a step below it. -/
theorem used_withinLimit_fifty :
    let build : Build := ⟨50, .workOnly⟩
    let u : Firmware (Option MailContents) := { outMailbox := none, inMailbox := none }
    let ops : List Adjustment :=
      [.increase, .decrease, .setLeast, .increase, .maintain, .decrease, .increase]
    (u.used build ops).managedAmount = 50 ∧
      (∀ before rest, ops = before ++ rest → WithinLimit build (u.used build before)) ∧
      ∃ ops, ¬ WithinLimit build (u.used build ops) := by
  intro build u ops
  obtain ⟨hiff, hexceeded⟩ := used_withinLimit_iff
    (show 50 ≤ build.maxFlashAmount.toNat by decide) (by decide) u
  have hrooms : ∀ k < ops.length, ops[k]? = some .increase →
      50 ≤ (u.used build (ops.take k)).managedAmount.toNat ∨
        (u.used build (ops.take k)).managedAmount.toNat + 20 ≤ 50 := by decide
  refine ⟨by decide, (hiff ops).mpr fun before rest hops => ?_, hexceeded⟩
  have hroom := hrooms before.length (by rw [hops]; simp) (by rw [hops]; simp)
  rwa [hops, List.take_left] at hroom

end Firefly
