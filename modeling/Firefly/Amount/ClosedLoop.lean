import Firefly.Amount.Monotone
import Firefly.Foundation.FeedbackLoop

/-!
# Work amount and voltage in a loop

The excess-power strategy adjusts the usage by the voltage, and the usage draws the voltage down.
While the light does not change, the voltage range is some function of the work amount. The
adjuster is meant to settle at a usage that keeps the voltage between excess and minimum.

It settles, as far as the steps of the amount allow. Unless the supply breaks down to the lowest
range on the way, the amount comes to rest, or swings between two amounts one step apart, of which
the lower leaves the voltage in excess and the higher makes it low.
-/

namespace Firefly

open Foundation

variable {M : Type} [Mailbox M] {build : Build} {voltage : UInt32 → VoltageRange}

/-- A running unit and its work amount. -/
def RunsWith (s : UnitState M) (amount : ℕ) : Prop :=
  ∃ u, s = .ok u ∧ u.managedAmount.toNat = amount ∧ 0 < u.clock.period

/-- One call of the strategy adjusts the work amount by the voltage range. -/
theorem RunsWith.adjust (hbuild : build.energyStrategy = .workOnly)
    (hmax : build.maxFlashAmount.toNat ≤ 2 ^ 32 - 20) {s : UnitState M} {amount : ℕ}
    (h : RunsWith s amount) (r : Readings) :
    RunsWith ((excessMachine M build).step s r).1
      ((workRegulator build.maxFlashAmount).adjust r.voltageRange.adjustment amount) := by
  obtain ⟨u, rfl, rfl, hpos⟩ := h
  obtain ⟨v, events, hcall, hclock, -⟩ := manageExcessPowerWithWork_ok build r hpos
  have hamount := manageExcessPowerWithWork_amount hbuild hcall
  rw [excessMachine, Mealy.ofExcept_step_ok hcall]
  refine ⟨v, rfl, ?_, ?_⟩
  · rw [← adjust_toNat hmax]
    exact congrArg UInt32.toNat hamount
  · rw [hclock]
    change 0 < (ClockOp.apply _ u.clock).period
    split <;> exact hpos

/-- A unit with the excess-power strategy under steady light. -/
def closedLoop (M : Type) [Mailbox M] (build : Build) (voltage : UInt32 → VoltageRange) :
    Mealy (UnitState M) Readings (List Event) :=
  Mealy.ofExcept fun u r => ExcessPowerWorkStrategy.manageExcessPowerWithWork build
    { r with voltageRange := voltage u.managedAmount } u

/-- The response of the voltage to the work amount, as an adjustment. -/
def responseOf (voltage : UInt32 → VoltageRange) (amount : ℕ) : Adjustment :=
  (voltage (UInt32.ofNat amount)).adjustment

theorem responseOf_toNat (amount : UInt32) :
    responseOf voltage amount.toNat = (voltage amount).adjustment := by
  rw [responseOf, UInt32.ofNat_toNat]

/-- Under steady light a call is one round of the regulator in its loop. -/
theorem RunsWith.step (hbuild : build.energyStrategy = .workOnly)
    (hmax : build.maxFlashAmount.toNat ≤ 2 ^ 32 - 20) {s : UnitState M} {amount : ℕ}
    (h : RunsWith s amount) (r : Readings) :
    RunsWith ((closedLoop M build voltage).step s r).1
      ((workRegulator build.maxFlashAmount).loop (responseOf voltage) amount) := by
  obtain ⟨u, rfl, rfl, hpos⟩ := h
  have hadjusted := RunsWith.adjust hbuild hmax ⟨u, rfl, rfl, hpos⟩
    { r with voltageRange := voltage u.managedAmount }
  rw [Regulator.loop, responseOf_toNat]
  exact hadjusted

/-- Under steady light a run is as many rounds of the regulator as it has calls. -/
theorem RunsWith.after (hbuild : build.energyStrategy = .workOnly)
    (hmax : build.maxFlashAmount.toNat ≤ 2 ^ 32 - 20) {s : UnitState M} {amount : ℕ}
    (h : RunsWith s amount) (rs : List Readings) :
    RunsWith ((closedLoop M build voltage).after s rs)
      (((workRegulator build.maxFlashAmount).loop (responseOf voltage))^[rs.length] amount) := by
  induction rs generalizing s amount with
  | nil => exact h
  | cons r rest ih => exact ih (h.step hbuild hmax r)

omit [Mailbox M] in
/-- Runs that are long enough and all stand at one amount hold it in one word. -/
theorem RunsWith.exists_word {unit : List Readings → UnitState M} {calls amount : ℕ}
    (h : ∀ rs, calls ≤ rs.length → RunsWith (unit rs) amount) :
    ∃ word : UInt32, word.toNat = amount ∧
      ∀ rs, calls ≤ rs.length → ∃ v, unit rs = .ok v ∧ v.managedAmount = word := by
  let r : Readings := ⟨false, false, false, .mediumToHigh, 0⟩
  obtain ⟨u, -, hu, -⟩ := h (List.replicate calls r) (by simp)
  refine ⟨u.managedAmount, hu, fun rs hlen => ?_⟩
  obtain ⟨v, hv, hvamount, -⟩ := h rs hlen
  exact ⟨v, hv, UInt32.toNat_inj.mp (hvamount.trans hu.symm)⟩

/-- The amount is right for the voltage it leaves, or it moves no further: the voltage is
moderate, or in excess at the limit of the flasher, or low within a step of zero. -/
def Balanced (build : Build) (voltage : UInt32 → VoltageRange) (amount : UInt32) : Prop :=
  (voltage amount).adjustment = .maintain ∨
    ((voltage amount).adjustment = .increase ∧ build.maxFlashAmount ≤ amount) ∨
    ((voltage amount).adjustment = .decrease ∧ amount ≤ WorkAmount.changeAmount)

/-- The amount leaves the voltage in excess, and one step more makes it low. -/
def Unbalanced (build : Build) (voltage : UInt32 → VoltageRange) (amount : UInt32) : Prop :=
  amount < build.maxFlashAmount ∧ (voltage amount).adjustment = .increase ∧
    (voltage (amount + WorkAmount.changeAmount)).adjustment = .decrease

section Words

omit [Mailbox M]

theorem toNat_ofNat_of_lt {amount : ℕ} (h : amount < 2 ^ 32) :
    (UInt32.ofNat amount).toNat = amount := by
  rw [UInt32.toNat_ofNat', Nat.mod_eq_of_lt h]

theorem balanced_of_rests {amount : UInt32}
    (h : (workRegulator build.maxFlashAmount).Rests (responseOf voltage) amount.toNat) :
    Balanced build voltage amount := by
  simp only [Regulator.Rests, responseOf_toNat] at h
  simp only [Balanced, UInt32.le_iff_toNat_le]
  exact h

theorem unbalanced_of_swings {amount : ℕ} (hmax : build.maxFlashAmount.toNat ≤ 2 ^ 32 - 20)
    (h : (workRegulator build.maxFlashAmount).Swings (responseOf voltage) amount) :
    Unbalanced build voltage (UInt32.ofNat amount) ∧ (UInt32.ofNat amount).toNat = amount ∧
      (UInt32.ofNat amount + WorkAmount.changeAmount).toNat = amount + 20 := by
  have hlt : amount < build.maxFlashAmount.toNat := h.lt_limit
  have hword : (UInt32.ofNat amount).toNat = amount := toNat_ofNat_of_lt (by omega)
  have hsum : (UInt32.ofNat amount + WorkAmount.changeAmount).toNat = amount + 20 := by
    rw [UInt32.toNat_add, hword]
    exact Nat.mod_eq_of_lt (show amount + 20 < 2 ^ 32 by omega)
  refine ⟨⟨UInt32.lt_iff_toNat_lt.mpr (by rwa [hword]), h.increase, ?_⟩, hword, hsum⟩
  have hdecrease : responseOf voltage (amount + 20) = .decrease := h.decrease
  rwa [← hsum, responseOf_toNat] at hdecrease

end Words

/-- The feedback loop of the power adjuster settles. Let the voltage range be any function of the
work amount, and start from any positive amount. Within as many calls as there are steps of twenty
in the amount or in the limit, and one more, the voltage was below ultra-low, or the amount has
settled: it then stays for ever at a balanced value, or swings for ever between an unbalanced value
and the next, from call to call. -/
theorem feedback_settles (hbuild : build.energyStrategy = .workOnly)
    (hmax : build.maxFlashAmount.toNat ≤ 2 ^ 32 - 20) {u : Firmware M} (hpos : 0 < u.clock.period)
    (hamount : 0 < u.managedAmount) (voltage : UInt32 → VoltageRange) :
    let calls := max u.managedAmount.toNat build.maxFlashAmount.toNat / 20 + 1
    let unit := (closedLoop M build voltage).after (.ok u)
    (∀ rs, calls ≤ rs.length → ∃ before v, before <+: rs ∧ before.length ≤ calls ∧
      unit before = .ok v ∧ voltage v.managedAmount = .belowUltraLow) ∨
    (∃ amount, Balanced build voltage amount ∧
      ∀ rs, calls ≤ rs.length → ∃ v, unit rs = .ok v ∧ v.managedAmount = amount) ∨
    ∃ amount, Unbalanced build voltage amount ∧ ∀ rs r, calls ≤ rs.length →
      ∃ v w, unit rs = .ok v ∧ unit (rs ++ [r]) = .ok w ∧
        ((v.managedAmount = amount ∧ w.managedAmount = amount + WorkAmount.changeAmount) ∨
          (v.managedAmount = amount + WorkAmount.changeAmount ∧ w.managedAmount = amount)) := by
  intro calls unit
  have hrun (rs : List Readings) : RunsWith (unit rs)
      (((workRegulator build.maxFlashAmount).loop (responseOf voltage))^[rs.length]
        u.managedAmount.toNat) :=
    RunsWith.after hbuild hmax ⟨u, rfl, rfl, hpos⟩ rs
  by_cases hpreset : ∃ k ≤ calls, responseOf voltage
      (((workRegulator build.maxFlashAmount).loop (responseOf voltage))^[k]
        u.managedAmount.toNat) = .setLeast
  · left
    intro rs hlen
    obtain ⟨k, hk, hresponse⟩ := hpreset
    obtain ⟨v, hv, hvamount, -⟩ := hrun (rs.take k)
    rw [List.length_take_of_le (hk.trans hlen)] at hvamount
    rw [← hvamount, responseOf_toNat] at hresponse
    refine ⟨rs.take k, v, List.take_prefix k rs, ?_, hv, ?_⟩
    · exact (List.length_take_le k rs).trans hk
    · cases hrange : voltage v.managedAmount <;> rw [hrange] at hresponse <;> trivial
  right
  rcases Regulator.settles (UInt32.lt_iff_toNat_lt.mp hamount)
      fun k hk hresponse => hpreset ⟨k, hk, hresponse⟩ with
    ⟨b, hrests, hforever⟩ | ⟨b, hswings, hforever⟩
  · left
    have hstands (rs : List Readings) (hlen : calls ≤ rs.length) : RunsWith (unit rs) b :=
      hforever rs.length hlen ▸ hrun rs
    obtain ⟨amount, rfl, hstays⟩ := RunsWith.exists_word hstands
    exact ⟨amount, balanced_of_rests hrests, hstays⟩
  · right
    obtain ⟨hunbalanced, hlow, hhigh⟩ := unbalanced_of_swings hmax hswings
    refine ⟨UInt32.ofNat b, hunbalanced, fun rs r hlen => ?_⟩
    obtain ⟨v, hv, hvamount, -⟩ := hrun rs
    obtain ⟨w, hw, hwamount, -⟩ := hrun (rs ++ [r])
    rw [List.length_append, List.length_singleton] at hwamount
    refine ⟨v, w, hv, hw, ?_⟩
    simp only [← UInt32.toNat_inj, hvamount, hwamount, hlow, hhigh]
    exact hforever rs.length hlen

/-- A voltage that is in excess up to an amount of 85 and moderate from there on: from power-on the
amount comes to rest at 100. -/
theorem feedback_settles_hundred :
    let voltage : UInt32 → VoltageRange := fun amount =>
      if amount < 86 then .nearExcess else .mediumToHigh
    let start : UnitState (Option MailContents) := .ok (.powerOn none none)
    ∀ rs : List Readings, 11 ≤ rs.length →
      ∃ v, (closedLoop _ ⟨200, .workOnly⟩ voltage).after start rs = .ok v ∧
        v.managedAmount = 100 := by
  intro voltage start
  let r : Readings := ⟨false, false, false, .aboveExcess, 0⟩
  have hnever (amount : UInt32) :
      voltage amount = .nearExcess ∨ voltage amount = .mediumToHigh := by
    dsimp only [voltage]
    split
    · exact .inl rfl
    · exact .inr rfl
  have hrun : (closedLoop _ ⟨200, .workOnly⟩ voltage).after start (List.replicate 11 r) =
      .ok { Firmware.powerOn none none with workClockCounter := 7, managedAmount := 100 } := by
    decide
  rcases feedback_settles (M := Option MailContents) (u := .powerOn none none)
      (show (Build.mk 200 .workOnly).energyStrategy = .workOnly from rfl) (by decide) (by decide)
      (by decide) voltage with hlowest | ⟨amount, -, hrests⟩ | ⟨amount, ⟨-, -, hdecrease⟩, -⟩
  · obtain ⟨_, v, -, -, -, hv⟩ := hlowest (List.replicate 11 r) (by decide)
    rcases hnever v.managedAmount with h | h <;> cases h.symm.trans hv
  · obtain ⟨w, hw, rfl⟩ := hrests (List.replicate 11 r) (by decide)
    cases hw.symm.trans hrun
    exact hrests
  · rcases hnever (amount + WorkAmount.changeAmount) with h | h <;> rw [h] at hdecrease <;>
      cases hdecrease

end Firefly
