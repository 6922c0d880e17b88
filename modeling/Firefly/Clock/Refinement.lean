import Firefly.UnitRuns

/-!
# The work clock refines an ideal clock

The ideal clock starts at zero with the default period and counts without bound. The 32-bit
work clock raises its alarm at the same inputs in every run from power-on, and its counter is
the ideal one reduced modulo `2 ^ 32`, however often ticks, advances, resets and changes of
the period carry it past the wrap.

The relation between the two is congruence modulo the counter modulus. It survives a change
of the period only because every period that any input installs divides that modulus.
-/

namespace Firefly

open Foundation

variable {M : Type} [Mailbox M]

/-- The ideal clock at power-on: nothing counted, and the default period. -/
def idealPowerOn : Clock := ⟨0, defaultSyncsBetweenWork.toNat⟩

/-- The clocks start in step, one bounded by nothing and the other by the counter modulus. -/
theorem idealPowerOn_inPhase :
    InPhase 0 counterModulus counterModulus idealPowerOn idealPowerOn :=
  ⟨rfl, Nat.dvd_zero _, by decide, rfl, rfl⟩

/-- The wrapping work clock refines the ideal one: in every run from power-on it alarms at the
same inputs, and holds the ideal counter reduced modulo `2 ^ 32`. -/
theorem workClock_refines_ideal (outMailbox inMailbox : M) (inputs : List (Input M))
    (h : ∀ i ∈ inputs, i.Accepted) :
    workAlarms (.ok (.powerOn outMailbox inMailbox)) inputs =
        idealClock.outputs idealPowerOn (inputs.map Input.clockOp) ∧
      ∃ u, (unitMachine M).after (.ok (.powerOn outMailbox inMailbox)) inputs = .ok u ∧
        u.clock = (idealClock.after idealPowerOn (inputs.map Input.clockOp)).wrap
          counterModulus := by
  have hpos : 0 < (Firmware.powerOn outMailbox inMailbox).clock.period := by
    change 0 < defaultSyncsBetweenWork.toNat
    decide
  have hstart : InPhase 0 counterModulus counterModulus idealPowerOn
      (Firmware.powerOn outMailbox inMailbox).clock := idealPowerOn_inPhase
  have hwrapping : ∀ op ∈ inputs.map Input.clockOp, op.Installs counterModulus counterModulus := by
    intro op hop
    obtain ⟨i, hi, rfl⟩ := List.mem_map.mp hop
    exact (h i hi).installs.mono (dvd_refl _) (by decide)
  have hideal : ∀ op ∈ inputs.map Input.clockOp, op.Installs 0 counterModulus :=
    fun op hop => (hwrapping op hop).mono (Nat.dvd_zero _) (dvd_refl _)
  rw [idealClock_eq]
  constructor
  · rw [workAlarms_eq hpos h]
    exact (hstart.outputs_eq (Nat.dvd_zero _) (dvd_refl _) hideal hwrapping).symm
  · obtain ⟨u, hrun, hclock, -⟩ := run_ok hpos h
    have hend := hstart.after (Nat.dvd_zero _) (dvd_refl _) hideal hwrapping
    rw [← hclock] at hend
    have hcounter : u.clock.counter < counterModulus := u.workClockCounter.toNat_lt
    refine ⟨u, hrun, ?_⟩
    calc u.clock
        = ⟨u.clock.counter % counterModulus, u.clock.period⟩ := by rw [Nat.mod_eq_of_lt hcounter]
      _ = _ := by rw [← hend.period_eq, ← hend.frame]; rfl

/-- A wrap by a large advance, a reset and a change of the period in one run. -/
theorem workClock_refines_ideal_wrap :
    let r : Readings := ⟨false, true, false, .mediumToHigh, 0⟩
    let inputs : List (Input (Option MailContents)) :=
      [.syncToPast 4294967295, .onPreSyncSlot r, .setSyncPeriodsBetweenWorkCoded 1,
        .onWorkSyncMsg r 128, .onPreSyncSlot r]
    workAlarms (.ok (.powerOn none none)) inputs =
        idealClock.outputs idealPowerOn (inputs.map Input.clockOp) ∧
      ∃ u, (unitMachine _).after (.ok (.powerOn none none)) inputs = .ok u ∧
        u.clock = (idealClock.after idealPowerOn (inputs.map Input.clockOp)).wrap
          counterModulus :=
  workClock_refines_ideal none none _ (by simp [Input.Accepted]; decide)

end Firefly
