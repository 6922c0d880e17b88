import Firefly.Amount.ClosedLoop
import Firefly.Foundation.RegulatorReach

/-!
# The work amounts that voltages can bring about

The initial amount is a multiple of twenty and the preset is not, but both are multiples of ten.
So with the work-only strategy the amount is always a positive multiple of ten, less than a step
past the limit of the flasher.

Each of these amounts is brought about by some history of the voltage: the adjustments of every
sequence are the responses to some readings.
-/

namespace Firefly

open Foundation

variable {M : Type} [Mailbox M] {build : Build}

/-- A voltage range whose response is a given adjustment. -/
def voltageFor : Adjustment → VoltageRange
  | .increase => .aboveExcess
  | .decrease => .lowToMedium
  | .maintain => .mediumToHigh
  | .setLeast => .belowUltraLow

theorem adjustment_voltageFor (op : Adjustment) : (voltageFor op).adjustment = op := by
  cases op <;> rfl

/-- The work amount after a run is that of the regulator after the adjustments of its readings. -/
theorem RunsWith.run (hbuild : build.energyStrategy = .workOnly)
    (hmax : build.maxFlashAmount.toNat ≤ 2 ^ 32 - 20) {s : UnitState M} {amount : ℕ}
    (h : RunsWith s amount) (rs : List Readings) :
    RunsWith ((excessMachine M build).after s rs)
      ((workRegulator build.maxFlashAmount).machine.after amount
        (rs.map fun r => r.voltageRange.adjustment)) := by
  induction rs generalizing s amount with
  | nil => exact h
  | cons r rest ih => exact ih (h.adjust hbuild hmax r)

/-- Every sequence of adjustments is that of some readings. -/
theorem exists_readings (ops : List Adjustment) :
    ∃ rs : List Readings, rs.map (fun r => r.voltageRange.adjustment) = ops := by
  refine ⟨ops.map fun op => ⟨false, false, false, voltageFor op, 0⟩, ?_⟩
  rw [List.map_map]
  exact (List.map_congr_left fun op _ => adjustment_voltageFor op).trans (List.map_id ops)

omit [Mailbox M] in
/-- The classes of the initial amount and of the preset are the multiples of ten. -/
theorem inReach_iff {x : ℕ} :
    (workRegulator build.maxFlashAmount).InReach 20 x ↔
      0 < x ∧ x < build.maxFlashAmount.toNat + 20 ∧ 10 ∣ x := by
  have hclasses : x ≡ 20 [MOD 20] ∨ x ≡ 50 [MOD 20] ↔ 10 ∣ x := by
    unfold Nat.ModEq
    omega
  constructor
  · rintro ⟨hpos, hlt, hresidue⟩
    exact ⟨hpos, hlt, hclasses.mp hresidue⟩
  · rintro ⟨hpos, hlt, hdvd⟩
    exact ⟨hpos, hlt, hclasses.mpr hdvd⟩

/-- The work amounts that some history of readings brings about, from the initial amount on, are
exactly the positive multiples of ten that lie less than a step past the limit of the flasher. -/
theorem amount_reachable_iff (hbuild : build.energyStrategy = .workOnly)
    (hleast : 30 < build.maxFlashAmount.toNat) (hmax : build.maxFlashAmount.toNat ≤ 2 ^ 32 - 20)
    {u : Firmware M} (hpos : 0 < u.clock.period) (amount : UInt32) :
    (∃ rs v, (excessMachine M build).after
        (.ok (WorkAmount.init WorkAmount.amountPerceivable u)) rs = .ok v ∧
        v.managedAmount = amount) ↔
      0 < amount.toNat ∧ amount.toNat < build.maxFlashAmount.toNat + 20 ∧ 10 ∣ amount.toNat := by
  have hstart : RunsWith (.ok (WorkAmount.init WorkAmount.amountPerceivable u)) 20 :=
    ⟨_, rfl, rfl, hpos⟩
  have hreach := Regulator.exists_after_eq_iff (g := workRegulator build.maxFlashAmount)
    (x := amount.toNat) (show 0 < 20 by decide)
    (show 20 < build.maxFlashAmount.toNat + 20 by omega)
    (show 50 < build.maxFlashAmount.toNat + 20 by omega)
  rw [← inReach_iff, ← hreach]
  constructor
  · rintro ⟨rs, v, hv, rfl⟩
    obtain ⟨w, hw, hamount, -⟩ := hstart.run hbuild hmax rs
    cases hv.symm.trans hw
    exact ⟨_, hamount.symm⟩
  · rintro ⟨ops, hops⟩
    obtain ⟨rs, rfl⟩ := exists_readings ops
    obtain ⟨v, hv, hamount, -⟩ := hstart.run hbuild hmax rs
    exact ⟨rs, v, hv, UInt32.toNat_inj.mp (hamount.trans hops)⟩

/-- With a limit of 50 the amount can come to 60, but not to 70. -/
theorem amount_reachable_sixty :
    let start : UnitState (Option MailContents) := .ok (WorkAmount.init
      WorkAmount.amountPerceivable { outMailbox := none, inMailbox := none })
    (∃ rs v, (excessMachine _ ⟨50, .workOnly⟩).after start rs = .ok v ∧ v.managedAmount = 60) ∧
      ¬ ∃ rs v, (excessMachine _ ⟨50, .workOnly⟩).after start rs = .ok v ∧
        v.managedAmount = 70 := by
  intro start
  have hreach := amount_reachable_iff (M := Option MailContents)
    (u := { outMailbox := none, inMailbox := none })
    (show (Build.mk 50 .workOnly).energyStrategy = .workOnly from rfl) (by decide) (by decide)
    (by decide)
  exact ⟨(hreach 60).mpr (by decide), fun h => absurd ((hreach 70).mp h) (by decide)⟩

end Firefly
