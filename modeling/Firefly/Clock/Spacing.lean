import Firefly.Foundation.AlarmSpacing
import Firefly.UnitRuns

/-!
# The spacing of work alarms

Both setters refuse only a period of zero, so the work clock must be expected to run on periods
that do not divide the counter modulus. Whatever the period, it never goes a whole period without
an alarm. The wrap can make one gap shorter, and does so from some counter exactly when the
period leaves a remainder.
-/

namespace Firefly

open Foundation

variable {M : Type} [Mailbox M]

/-- The unit with another work clock counter and period. -/
def Firmware.withClock (u : Firmware M) (counter periods : UInt32) : Firmware M :=
  { u with workClockCounter := counter, syncPeriodsBetweenWork := periods }

/-- The next work alarm comes at the next multiple of the period or at the wrap, whichever is
reached first; so no period passes without one, and they are all one period apart exactly when
the period divides the counter modulus. -/
theorem workAlarm_spacing (u : Firmware M) {periods : UInt32} (hp : 0 < periods) :
    (∀ (counter : UInt32) (rs : List Readings),
      rs.length = min (periods.toNat - counter.toNat % periods.toNat) (2 ^ 32 - counter.toNat) →
        workAlarms (.ok (u.withClock counter periods)) (ticks rs) =
          List.replicate (rs.length - 1) false ++ [true]) ∧
    (∀ (counter : UInt32) (rs : List Readings) (start : ℕ), start + periods.toNat ≤ rs.length →
      ∃ i, start ≤ i ∧ i < start + periods.toNat ∧
        (workAlarms (.ok (u.withClock counter periods)) (ticks rs))[i]? = some true) ∧
    ((∀ (counter : UInt32) (rs : List Readings),
      AlarmsApart periods.toNat
        (workAlarms (.ok (u.withClock counter periods)) (ticks rs))) ↔
      periods.toNat ∣ 2 ^ 32) := by
  have hpos : 0 < periods.toNat := UInt32.lt_iff_toNat_lt.mp hp
  have hlt : periods.toNat < counterModulus := periods.toNat_lt
  have halarms (counter : UInt32) (rs : List Readings) :
      workAlarms (.ok (u.withClock counter periods)) (ticks rs) =
        (wrappingClock counterModulus).outputs ⟨counter.toNat, periods.toNat⟩
          (List.replicate rs.length .tick) :=
    workAlarms_ticks (u := u.withClock counter periods) hpos rs
  simp only [halarms]
  refine ⟨fun counter rs hlen => ?_, fun counter rs start hlen => ?_, ?_⟩
  · rw [hlen]
    exact wrappingClock_outputs_nextAlarm hpos counter.toNat_lt
  · exact exists_alarm_in_window hpos (by decide) hlen
  · refine Iff.trans ⟨fun h c hc n => ?_, fun h counter rs => ?_⟩ (alarmsApart_iff_dvd hpos hlt)
    · have r : Readings := ⟨false, false, false, .mediumToHigh, 0⟩
      have hrun := h (UInt32.ofNat c) (List.replicate n r)
      rwa [UInt32.toNat_ofNat_of_lt' hc, List.length_replicate] at hrun
    · exact h counter.toNat counter.toNat_lt rs.length

/-- Three ticks before the wrap, the next alarm of a unit on a period of seven is three ticks away
and not six. -/
theorem workAlarm_spacing_seven :
    let u : Firmware (Option MailContents) := .powerOn none none
    let r : Readings := ⟨false, true, false, .mediumToHigh, 0⟩
    workAlarms (.ok (u.withClock 4294967293 7)) (ticks [r, r, r]) = [false, false, true] ∧
      ¬ ∀ (counter : UInt32) (rs : List Readings),
        AlarmsApart 7 (workAlarms (.ok (u.withClock counter 7)) (ticks rs)) := by
  intro u r
  obtain ⟨hnext, -, hapart⟩ := workAlarm_spacing u (show (0 : UInt32) < 7 by decide)
  exact ⟨hnext 4294967293 [r, r, r] (by decide), fun h => absurd (hapart.mp h) (by decide)⟩

end Firefly
