import Firefly.Power
import Firefly.UnitRuns

/-!
# The excess-power strategy and the work clock

The excess-power strategy ticks the work clock only in the three moderate voltage ranges. In
the two ranges near excess it works without ticking, and in the two low ones it does neither.
Every sync period spent there is a tick that the unit misses.

A unit with that strategy ends with the counter and by the alarms of a unit with the distributed
strategy exactly when it was never in one of the four other ranges: a missed tick cannot be made
good, since the clock that is ahead would have to pass a common alarm first.
-/

namespace Firefly

open Foundation

variable {M : Type} [Mailbox M]

/-- The ranges in which the nested strategy is run. -/
def VoltageRange.delegates : VoltageRange → Bool
  | .highToNearExcess | .mediumToHigh | .lowToMedium => true
  | .aboveExcess | .nearExcess | .ultraLowToLow | .belowUltraLow => false

/-- A unit that runs the excess-power strategy once a sync period. -/
def excessMachine (M : Type) [Mailbox M] (build : Build) :
    Mealy (UnitState M) Readings (List Event) :=
  Mealy.ofExcept fun u r => ExcessPowerWorkStrategy.manageExcessPowerWithWork build r u

/-- A unit that runs the distributed strategy once a sync period. -/
def distributedMachine (M : Type) [Mailbox M] : Mealy (UnitState M) Readings (List Event) :=
  Mealy.ofExcept fun u r => WorkStrategyDistributed.manageWorkSynchronizedDistributed r u

section Steps

/-- A result that left the work clock alone and did not raise its alarm. -/
def LeavesClock (u : Firmware M) (result : Firmware M × List Event) : Prop :=
  result.1.clock = u.clock ∧ raisesWorkAlarm result.2 = false

omit [Mailbox M] in
/-- Setting the work amount alone leaves the work clock. -/
theorem leavesClock_of_amount {u : Firmware M} {result : Firmware M × List Event}
    (hamount : ∃ amount, result.1 = { u with managedAmount := amount })
    (hsilent : raisesWorkAlarm result.2 = false) : LeavesClock u result := by
  obtain ⟨amount, h⟩ := hamount
  refine ⟨?_, hsilent⟩
  rw [h]
  rfl

omit [Mailbox M] in
theorem maintainUsage_leavesClock (build : Build) (u : Firmware M) :
    LeavesClock u (PowerAdjuster.maintainUsage build u) := by
  unfold PowerAdjuster.maintainUsage
  cases build.energyStrategy <;> exact ⟨rfl, rfl⟩

omit [Mailbox M] in
theorem decreaseUsage_leavesClock (build : Build) (u : Firmware M) :
    LeavesClock u (PowerAdjuster.decreaseUsage build u) := by
  unfold PowerAdjuster.decreaseUsage
  cases build.energyStrategy with
  | workOnly => exact leavesClock_of_amount (WorkAmount.decreaseAmount_frame u) rfl
  | workAndFish => exact ⟨rfl, rfl⟩

omit [Mailbox M] in
theorem setLeastUsage_leavesClock (build : Build) (u : Firmware M) :
    LeavesClock u (PowerAdjuster.setLeastUsage build u) := by
  unfold PowerAdjuster.setLeastUsage
  cases build.energyStrategy <;> exact ⟨rfl, rfl⟩

omit [Mailbox M] in
/-- Working to shed power flashes the LED but does not enter the alarm of the work clock. -/
theorem onExcessVoltage_leavesClock (build : Build) (u : Firmware M) :
    LeavesClock u (PowerAdjuster.onExcessVoltage build u) := by
  unfold PowerAdjuster.onExcessVoltage PowerAdjuster.increaseUsageAndWorkLocally
    PowerAdjuster.increaseUsage
  cases build.energyStrategy with
  | workOnly => exact leavesClock_of_amount (WorkAmount.increaseAmount_frame _ u) rfl
  | workAndFish => exact ⟨rfl, rfl⟩

/-- The nested strategy after an adjustment is one tick of the work clock. -/
theorem adjustThenNested_ok {r : Readings} {u : Firmware M} {adjusted : Firmware M × List Event}
    (hpos : 0 < u.clock.period) (hadjusted : LeavesClock u adjusted) :
    ∃ u' events, ExcessPowerWorkStrategy.adjustThenNested r adjusted = .ok (u', events) ∧
      u'.clock = (ClockOp.tick.apply u.clock).wrap counterModulus ∧
      raisesWorkAlarm events = ClockOp.tick.alarms u'.clock := by
  obtain ⟨hclock, hsilent⟩ := hadjusted
  obtain ⟨⟨u', events⟩, h⟩ := handle_ok (hclock ▸ hpos) (i := .onPreSyncSlot r) trivial
  obtain ⟨hclock', halarm⟩ := tickSyncPeriod_clock h
  refine ⟨u', adjusted.2 ++ events, ?_, hclock ▸ hclock', ?_⟩
  · change (WorkClock.tickSyncPeriod r adjusted.1 >>= _) = _
    rw [show WorkClock.tickSyncPeriod r adjusted.1 = .ok (u', events) from h]
    rfl
  · rw [raisesWorkAlarm_append, hsilent, Bool.false_or, halarm]

/-- One call of the excess-power strategy is a tick of the work clock in the moderate ranges,
and nothing to it in the others. -/
theorem manageExcessPowerWithWork_ok (build : Build) (r : Readings) {u : Firmware M}
    (hpos : 0 < u.clock.period) :
    ∃ u' events, ExcessPowerWorkStrategy.manageExcessPowerWithWork build r u =
        .ok (u', events) ∧
      let op : ClockOp := if r.voltageRange.delegates then .tick else .idle
      u'.clock = (op.apply u.clock).wrap counterModulus ∧
        raisesWorkAlarm events = op.alarms u'.clock := by
  have hstands : (ClockOp.idle.apply u.clock).wrap counterModulus = u.clock := by
    have hlt : u.workClockCounter.toNat < counterModulus := u.workClockCounter.toNat_lt
    simp only [ClockOp.apply, Clock.wrap, Firmware.clock, Nat.mod_eq_of_lt hlt]
  have hidle {result : Firmware M × List Event} (h : LeavesClock u result) :
      result.1.clock = (ClockOp.idle.apply u.clock).wrap counterModulus ∧
        raisesWorkAlarm result.2 = ClockOp.idle.alarms result.1.clock :=
    ⟨h.1.trans hstands.symm, h.2⟩
  unfold ExcessPowerWorkStrategy.manageExcessPowerWithWork
  cases r.voltageRange with
  | aboveExcess => exact ⟨_, _, rfl, hidle (onExcessVoltage_leavesClock build u)⟩
  | nearExcess => exact ⟨_, _, rfl, hidle (onExcessVoltage_leavesClock build u)⟩
  | highToNearExcess => exact adjustThenNested_ok hpos (maintainUsage_leavesClock build u)
  | mediumToHigh => exact adjustThenNested_ok hpos (maintainUsage_leavesClock build u)
  | lowToMedium => exact adjustThenNested_ok hpos (decreaseUsage_leavesClock build u)
  | ultraLowToLow => exact ⟨_, _, rfl, hidle (decreaseUsage_leavesClock build u)⟩
  | belowUltraLow => exact ⟨_, _, rfl, hidle (setLeastUsage_leavesClock build u)⟩

end Steps

section Simulations

/-- A running unit and the clock in it. -/
def HasClock (s : UnitState M) (c : Clock) : Prop :=
  ∃ u, s = .ok u ∧ u.clock = c ∧ 0 < c.period

/-- A unit with the excess-power strategy follows a clock that misses ticks. -/
theorem excess_simulation (build : Build) :
    Mealy.Simulation (excessMachine M build) (wrappingClock counterModulus)
      (fun r op => op = if r.voltageRange.delegates then .tick else .idle)
      (fun events b => raisesWorkAlarm events = id b) HasClock where
  step := by
    rintro s c r op ⟨u, rfl, rfl, hp⟩ rfl
    obtain ⟨u', events, h, hclock, halarm⟩ := manageExcessPowerWithWork_ok build r hp
    rw [excessMachine, Mealy.ofExcept_step_ok h]
    refine ⟨⟨u', rfl, hclock, ?_⟩, halarm.trans (by rw [hclock]; rfl)⟩
    split <;> exact hp

/-- A unit with the distributed strategy follows a clock that ticks every time. -/
theorem distributed_simulation :
    Mealy.Simulation (distributedMachine M) (wrappingClock counterModulus)
      (fun _ op => op = .tick) (fun events b => raisesWorkAlarm events = id b) HasClock where
  step := by
    rintro s c r op ⟨u, rfl, rfl, hp⟩ rfl
    obtain ⟨⟨u', events⟩, h⟩ := handle_ok hp (i := .onPreSyncSlot r) trivial
    obtain ⟨hclock, halarm⟩ := tickSyncPeriod_clock h
    rw [distributedMachine, Mealy.ofExcept_step_ok (f := fun u r =>
      WorkStrategyDistributed.manageWorkSynchronizedDistributed r u) h]
    exact ⟨⟨u', rfl, hclock, hp⟩, halarm.trans (by rw [hclock]; rfl)⟩

/-- The sync periods, in order, in which the nested strategy is run. -/
def delegations (rs : List Readings) : List Bool := rs.map fun r => r.voltageRange.delegates

omit [Mailbox M] in
/-- A unit that follows the wrapping clock ends with its counter, by its alarms. -/
theorem clock_run {m : Mealy (UnitState M) Readings (List Event)} {clockOp : Readings → ClockOp}
    (h : Mealy.Simulation m (wrappingClock counterModulus) (fun r op => op = clockOp r)
      (fun events b => raisesWorkAlarm events = id b) HasClock)
    {u : Firmware M} (hpos : 0 < u.clock.period) (rs : List Readings) :
    HasClock (m.after (.ok u) rs)
        ((wrappingClock counterModulus).after u.clock (rs.map clockOp)) ∧
      (m.outputs (.ok u) rs).map raisesWorkAlarm =
        (wrappingClock counterModulus).outputs u.clock (rs.map clockOp) := by
  have hinputs : List.Forall₂ (fun r op => op = clockOp r) rs (rs.map clockOp) := by
    rw [List.forall₂_map_right_iff, List.forall₂_same]
    exact fun _ _ => rfl
  have hstart : HasClock (.ok u) u.clock := ⟨u, rfl, rfl, hpos⟩
  refine ⟨h.after hstart hinputs, ?_⟩
  have hrun := h.outputs_map_eq hstart hinputs
  rwa [List.map_id] at hrun

/-- Where the counter and the alarms of a unit with the excess-power strategy end. -/
theorem excess_run (build : Build) {u : Firmware M} (hpos : 0 < u.clock.period)
    (rs : List Readings) :
    HasClock ((excessMachine M build).after (.ok u) rs)
        ((wrappingClock counterModulus).after u.clock (ticksOrIdles (delegations rs))) ∧
      ((excessMachine M build).outputs (.ok u) rs).map raisesWorkAlarm =
        (wrappingClock counterModulus).outputs u.clock (ticksOrIdles (delegations rs)) := by
  have hrun := clock_run (excess_simulation build) hpos rs
  rw [ticksOrIdles, delegations, List.map_map]
  exact hrun

/-- Where the counter and the alarms of a unit with the distributed strategy end. -/
theorem distributed_run {u : Firmware M} (hpos : 0 < u.clock.period) (rs : List Readings) :
    HasClock ((distributedMachine M).after (.ok u) rs)
        ((wrappingClock counterModulus).after u.clock (List.replicate rs.length .tick)) ∧
      ((distributedMachine M).outputs (.ok u) rs).map raisesWorkAlarm =
        (wrappingClock counterModulus).outputs u.clock (List.replicate rs.length .tick) := by
  have hrun := clock_run distributed_simulation hpos rs
  rwa [List.map_const'] at hrun

end Simulations

/-- After some sync periods, a unit with the excess-power strategy has the work clock counter of
one with the distributed strategy, and raised its work alarm in the same sync periods. -/
def StaysInWorkSync (build : Build) (u : Firmware M) (rs : List Readings) : Prop :=
  (∃ excess distributed, (excessMachine M build).after (.ok u) rs = .ok excess ∧
    (distributedMachine M).after (.ok u) rs = .ok distributed ∧
    excess.workClockCounter = distributed.workClockCounter) ∧
  ((excessMachine M build).outputs (.ok u) rs).map raisesWorkAlarm =
    ((distributedMachine M).outputs (.ok u) rs).map raisesWorkAlarm

/-- Staying in work sync is a matter of the two clocks. -/
theorem staysInWorkSync_iff_clocks (build : Build) {u : Firmware M} (hpos : 0 < u.clock.period)
    (rs : List Readings) :
    StaysInWorkSync build u rs ↔
      ((wrappingClock counterModulus).after u.clock (ticksOrIdles (delegations rs))).counter =
        ((wrappingClock counterModulus).after u.clock
          (List.replicate rs.length .tick)).counter ∧
      (wrappingClock counterModulus).outputs u.clock (ticksOrIdles (delegations rs)) =
        (wrappingClock counterModulus).outputs u.clock (List.replicate rs.length .tick) := by
  obtain ⟨⟨excess, hexcess, hclock, -⟩, halarms⟩ := excess_run build hpos rs
  obtain ⟨⟨distributed, hdistributed, hclock', -⟩, halarms'⟩ := distributed_run hpos rs
  rw [← hclock, ← hclock', ← halarms, ← halarms', StaysInWorkSync]
  refine and_congr_left fun _ => ⟨?_, fun hcounter => ?_⟩
  · intro ⟨_, _, h, h', hcounter⟩
    cases hexcess.symm.trans h
    cases hdistributed.symm.trans h'
    exact congrArg UInt32.toNat hcounter
  · exact ⟨excess, distributed, hexcess, hdistributed, UInt32.toNat_inj.mp hcounter⟩

/-- The excess-power strategy keeps a unit in work sync exactly when every reading is in one of
the ranges in which it runs the nested strategy. It then alarms together with every unit of an
agreeing clique that uses the distributed strategy, whatever that one reads, and with every one
that uses the excess-power strategy under such readings. -/
theorem excessPower_staysInWorkSync_iff (build : Build) {u : Firmware M}
    (hpos : 0 < u.clock.period) (rs : List Readings) :
    (StaysInWorkSync build u rs ↔ ∀ r ∈ rs, r.voltageRange.delegates = true) ∧
    ∀ (build' : Build) (v : Firmware M) (rs' : List Readings), SoundPeriod u.clock.period →
      u.clock.period = v.clock.period → u.clock.counter ≡ v.clock.counter [MOD u.clock.period] →
      rs.length = rs'.length → (∀ r ∈ rs, r.voltageRange.delegates = true) →
      ((excessMachine M build).outputs (.ok u) rs).map raisesWorkAlarm =
          ((distributedMachine M).outputs (.ok v) rs').map raisesWorkAlarm ∧
        ((∀ r ∈ rs', r.voltageRange.delegates = true) →
          ((excessMachine M build).outputs (.ok u) rs).map raisesWorkAlarm =
            ((excessMachine M build').outputs (.ok v) rs').map raisesWorkAlarm) := by
  have hiff (build : Build) {u : Firmware M} (hpos : 0 < u.clock.period) (rs : List Readings) :
      StaysInWorkSync build u rs ↔ ∀ r ∈ rs, r.voltageRange.delegates = true := by
    have hlen : rs.length = (delegations rs).length := (List.length_map _).symm
    rw [staysInWorkSync_iff_clocks build hpos, hlen,
      ticksOrIdles_eq_iff (by decide) (UInt32.toNat_lt u.workClockCounter)]
    exact List.forall_mem_map
  refine ⟨hiff build hpos rs, fun build' v rs' hu hperiod hphase hlen hall => ?_⟩
  have hv : 0 < v.clock.period := hperiod ▸ hpos
  have htogether : ((distributedMachine M).outputs (.ok u) rs).map raisesWorkAlarm =
      ((distributedMachine M).outputs (.ok v) rs').map raisesWorkAlarm := by
    rw [(distributed_run hpos rs).2, (distributed_run hv rs').2, ← hlen]
    exact (wrappingClock_ticks_eq_iff (by decide) hu.dvd_counterModulus
      (hperiod ▸ hu.dvd_counterModulus)).mpr ⟨hperiod, hphase⟩ rs.length
  have hleft := ((hiff build hpos rs).mpr hall).2.trans htogether
  exact ⟨hleft, fun hall' => hleft.trans ((hiff build' hv rs').mpr hall').2.symm⟩

/-- A unit that is above excess when its clock should reach the period neither counts that sync
period nor raises the alarm. -/
theorem not_staysInWorkSync_aboveExcess :
    let build : Build := ⟨100, .workOnly⟩
    let r : Readings := ⟨false, true, true, .aboveExcess, 0⟩
    let u : Firmware (Option MailContents) := WorkClock.syncToPast 3 (.powerOn none none)
    u.Reachable ∧ ¬ StaysInWorkSync build u [r] := by
  refine ⟨⟨none, none, [.syncToPast 3], rfl⟩, fun hsync => ?_⟩
  exact absurd hsync.2 (by decide)

/-- Two moderate sync periods keep a unit in work sync, the second with its alarm. -/
theorem staysInWorkSync_moderate :
    let build : Build := ⟨100, .workAndFish⟩
    let r : Readings := ⟨false, true, true, .lowToMedium, 0⟩
    let u : Firmware (Option MailContents) := WorkClock.syncToPast 2 (.powerOn none none)
    StaysInWorkSync build u [r, r] :=
  (excessPower_staysInWorkSync_iff ⟨100, .workAndFish⟩ (by decide) _).1.mpr (by decide)

end Firefly
