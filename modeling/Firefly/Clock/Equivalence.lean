import Firefly.UnitRuns

/-!
# When two units are really in step

Two units that will receive the same inputs for ever are indistinguishable by their alarms
exactly when they have one period and equal counters modulo that period and modulo four. The
four is the longest period that provisioning installs over a standing counter; longer ones
only arrive with a WorkSync, which also sets the counter.

While the units only tick, equality modulo the period is enough. Below a period of four it
does not outlast a provisioning that lengthens the period of both.
-/

namespace Firefly

open Foundation

variable {M : Type} [Mailbox M]

/-- Equal modulo a sound period and modulo four is equal modulo the larger of the two. -/
theorem modEq_max_four_iff {p a b : ℕ} (hp : SoundPeriod p) :
    a ≡ b [MOD max p 4] ↔ a ≡ b [MOD p] ∧ a ≡ b [MOD 4] := by
  obtain ⟨k, -, rfl⟩ := hp
  rcases Nat.le_total k 2 with hk | hk
  · have hdvd : 2 ^ k ∣ 4 := Nat.pow_dvd_pow 2 hk
    rw [max_eq_right (Nat.le_of_dvd (by decide) hdvd)]
    exact ⟨fun h => ⟨h.of_dvd hdvd, h⟩, And.right⟩
  · have hdvd : 4 ∣ 2 ^ k := Nat.pow_dvd_pow 2 hk
    rw [max_eq_left (Nat.le_of_dvd (Nat.two_pow_pos k) hdvd)]
    exact ⟨fun h => ⟨h, h.of_dvd hdvd⟩, And.left⟩

/-- Two units are indistinguishable when they alarm together under all common accepted inputs. -/
def Indistinguishable (u v : Firmware M) : Prop :=
  ∀ inputs : List (Input M), (∀ i ∈ inputs, i.Accepted) →
    workAlarms (.ok u) inputs = workAlarms (.ok v) inputs

/-- Clocks in step modulo four are enough for indistinguishable units. -/
theorem indistinguishable_of_inPhase {u v : Firmware M} (hu : 0 < u.clock.period)
    (h : InPhase counterModulus counterModulus 4 u.clock v.clock) : Indistinguishable u v := by
  intro inputs hinputs
  have hinstalls : ∀ op ∈ inputs.map Input.clockOp, op.Installs counterModulus 4 := by
    intro op hop
    obtain ⟨i, hi, rfl⟩ := List.mem_map.mp hop
    exact (hinputs i hi).installs
  rw [workAlarms_eq hu hinputs, workAlarms_eq (h.period_eq ▸ hu) hinputs]
  exact h.outputs_eq (by decide) (by decide) hinstalls hinstalls

/-- Indistinguishable units have clocks in step modulo four: ticks expose the phase, and the
code for a period of four followed by ticks exposes the counters modulo four. -/
theorem Indistinguishable.inPhase {u v : Firmware M} (h : Indistinguishable u v)
    (hu : SoundPeriod u.clock.period) (hv : SoundPeriod v.clock.period) :
    InPhase counterModulus counterModulus 4 u.clock v.clock := by
  have probe (inputs : List (Input M)) (hinputs : ∀ i ∈ inputs, i.Accepted) :
      (wrappingClock counterModulus).outputs u.clock (inputs.map Input.clockOp) =
        (wrappingClock counterModulus).outputs v.clock (inputs.map Input.clockOp) := by
    rw [← workAlarms_eq hu.pos hinputs, ← workAlarms_eq hv.pos hinputs]
    exact h inputs hinputs
  let r : Readings := ⟨false, false, false, .mediumToHigh, 0⟩
  have hops (k : ℕ) : (ticks (M := M) (List.replicate k r)).map Input.clockOp =
      List.replicate k .tick := by rw [ticks_clockOp, List.length_replicate]
  refine inPhase_of_ticks_eq (by decide) (by decide) hu.dvd_counterModulus
    hv.dvd_counterModulus (fun k => ?_) (fun k => ?_)
  · rw [← hops k]
    exact probe _ (ticks_accepted _)
  · have hlater := probe (.setSyncPeriodsBetweenWorkCoded 2 :: ticks (List.replicate k r))
      (List.forall_mem_cons.mpr ⟨trivial, ticks_accepted _⟩)
    rwa [List.map_cons, hops k] at hlater

/-- Provisioning a code always succeeds and retimes the clock. -/
theorem after_coded (u : Firmware M) (code : UInt32) :
    (unitMachine M).after (.ok u) [.setSyncPeriodsBetweenWorkCoded code] =
      .ok { u with syncPeriodsBetweenWork := WorkFrequency.decodeWorkFreq code } := by
  have hset := WorkFrequency.setSyncPeriodsBetweenWork_ok (decodeWorkFreq_sound code).ne_zero u
  exact congrArg Prod.fst (step_of_handle (i := .setSyncPeriodsBetweenWorkCoded code) hset)

/-- Below a period of four, every unit has a partner that ticks together with it until both
receive the code for a period of four. -/
theorem exists_partner_lost_by_coded {u : Firmware M} (hu : SoundPeriod u.clock.period)
    (hlt : u.clock.period < 4) :
    ∃ w : Firmware M, TickTogether (.ok u) (.ok w) ∧
      ¬ TickTogether ((unitMachine M).after (.ok u) [.setSyncPeriodsBetweenWorkCoded 2])
        ((unitMachine M).after (.ok w) [.setSyncPeriodsBetweenWorkCoded 2]) := by
  -- the partner is one period ahead: the same phase now, another one modulo four
  let w : Firmware M := WorkClock.syncToPast u.syncPeriodsBetweenWork u
  have hcounter : w.clock.counter ≡ u.clock.counter + u.clock.period [MOD counterModulus] := by
    change (u.workClockCounter + u.syncPeriodsBetweenWork).toNat ≡ _ [MOD counterModulus]
    rw [UInt32.toNat_add]
    exact Nat.mod_modEq _ _
  have hw : SoundPeriod w.clock.period := hu
  refine ⟨w, (tickTogether_iff hu hw).mpr ⟨rfl, ?_⟩, ?_⟩
  · have hphase := hcounter.of_dvd hu.dvd_counterModulus
    exact (hphase.trans Nat.add_modEq_right).symm
  · have hfour (v : Firmware M) : SoundPeriod (Firmware.clock
        { v with syncPeriodsBetweenWork := WorkFrequency.decodeWorkFreq 2 }).period :=
      decodeWorkFreq_sound 2
    rw [after_coded, after_coded, tickTogether_iff (hfour u) (hfour w)]
    intro ⟨_, hmod⟩
    have hframe : u.clock.counter ≡ u.clock.counter + u.clock.period [MOD 4] :=
      Nat.ModEq.trans hmod (hcounter.of_dvd (by decide))
    have hzero : 4 ∣ u.clock.period := by
      have hdiff := (Nat.modEq_iff_dvd' (Nat.le_add_right _ _)).mp hframe
      rwa [Nat.add_sub_cancel_left] at hdiff
    exact absurd (Nat.le_of_dvd hu.pos hzero) (by omega)

/-- Two units are indistinguishable exactly when they share the period and agree modulo the
larger of it and four. Agreement modulo the period is enough while both only tick, but below
four it does not survive a common provisioning that lengthens the period. -/
theorem indistinguishable_iff {u v : Firmware M} (hu : SoundPeriod u.clock.period)
    (hv : SoundPeriod v.clock.period) :
    (Indistinguishable u v ↔ u.clock.period = v.clock.period ∧
        u.clock.counter ≡ v.clock.counter [MOD max u.clock.period 4]) ∧
      (u.clock.period = v.clock.period →
        u.clock.counter ≡ v.clock.counter [MOD u.clock.period] →
          TickTogether (.ok u) (.ok v)) ∧
      (u.clock.period < 4 → ∃ w : Firmware M, TickTogether (.ok u) (.ok w) ∧
        ∃ code, u.clock.period < (WorkFrequency.decodeWorkFreq code).toNat ∧
          ¬ TickTogether ((unitMachine M).after (.ok u) [.setSyncPeriodsBetweenWorkCoded code])
            ((unitMachine M).after (.ok w) [.setSyncPeriodsBetweenWorkCoded code])) := by
  refine ⟨⟨fun h => ?_, fun h => ?_⟩, fun heq hphase => ?_, fun hlt => ?_⟩
  · have hin := h.inPhase hu hv
    exact ⟨hin.period_eq, (modEq_max_four_iff hu).mpr ⟨hin.phase, hin.frame⟩⟩
  · obtain ⟨hphase, hframe⟩ := (modEq_max_four_iff hu).mp h.2
    exact indistinguishable_of_inPhase hu.pos
      ⟨h.1, hu.dvd_counterModulus, hu.dvd_counterModulus, hphase, hframe⟩
  · exact (tickTogether_iff hu hv).mpr ⟨heq, hphase⟩
  · obtain ⟨w, htogether, hlost⟩ := exists_partner_lost_by_coded hu hlt
    exact ⟨w, htogether, 2, hlt, hlost⟩

/-- At power-on and four sync periods later a unit is in indistinguishable states. -/
theorem indistinguishable_four_apart :
    Indistinguishable (M := Option MailContents) (.powerOn none none)
      (WorkClock.syncToPast 4 (.powerOn none none)) :=
  (indistinguishable_iff ⟨2, by decide, rfl⟩ ⟨2, by decide, rfl⟩).1.mpr ⟨rfl, by decide⟩

end Firefly
