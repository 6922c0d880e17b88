import Firefly.PeriodSoundness

/-!
# Whole runs of one unit

A unit that starts with a positive period and only receives accepted inputs never stops. Its
work alarms are then those of the wrapping clock under the corresponding operations, for any
number of inputs in any order.

Where the unit only ticks, its alarms determine its period and its phase: two units tick together
for ever exactly when they share both.
-/

namespace Firefly

open Foundation

variable {M : Type} [Mailbox M]

/-- For each input, whether the work alarm was raised. -/
def workAlarms (s : UnitState M) (inputs : List (Input M)) : List Bool :=
  ((unitMachine M).outputs s inputs).map raisesWorkAlarm

/-- Being called once in each of several sync periods. -/
def ticks (rs : List Readings) : List (Input M) := rs.map .onPreSyncSlot

/-- The firmware of some unit that is still running after some run from power-on. -/
def Firmware.Reachable (u : Firmware M) : Prop :=
  ∃ outMailbox inMailbox inputs,
    (unitMachine M).after (.ok (.powerOn outMailbox inMailbox)) inputs = .ok u

/-- A callback that returns is a step of the unit. -/
theorem step_of_handle {u u' : Firmware M} {i : Input M} {events : List Event}
    (h : u.handle i = .ok (u', events)) : (unitMachine M).step (.ok u) i = (.ok u', events) :=
  Mealy.ofExcept_step_ok h

/-- A step that leaves a unit running was a callback that returned. -/
theorem handle_of_step {u u' : Firmware M} {i : Input M}
    (h : ((unitMachine M).step (.ok u) i).1 = .ok u') :
    u.handle i = .ok (u', ((unitMachine M).step (.ok u) i).2) :=
  Mealy.ofExcept_step_inv h

/-- A step of a unit is a callback that returned, or it leaves the unit stopped and silent. -/
theorem step_cases (s : UnitState M) (i : Input M) :
    (∃ u u' events, s = .ok u ∧ u.handle i = .ok (u', events) ∧
      (unitMachine M).step s i = (.ok u', events)) ∨
    ∃ fault, (unitMachine M).step s i = (.error fault, []) ∧
      (s = .error fault ∨ ∃ u, s = .ok u ∧ u.handle i = .error fault) := by
  cases s with
  | error fault => exact .inr ⟨fault, rfl, .inl rfl⟩
  | ok u =>
    cases hhandle : u.handle i with
    | error fault => exact .inr ⟨fault, Mealy.ofExcept_step_fault hhandle, .inr ⟨u, rfl, hhandle⟩⟩
    | ok result => exact .inl ⟨u, result.1, result.2, rfl, hhandle, step_of_handle hhandle⟩

/-- A stopped unit never runs again. -/
theorem not_running_of_fault {fault : Fault} {inputs : List (Input M)} {u : Firmware M} :
    (unitMachine M).after (.error fault) inputs ≠ .ok u := by
  rw [unitMachine, Mealy.ofExcept_after_error]
  exact nofun

/-- A unit follows the wrapping clock on accepted inputs. -/
theorem unit_simulation :
    Mealy.Simulation (unitMachine M) (wrappingClock counterModulus)
      (fun i op => i.Accepted ∧ i.clockOp = op) (fun events b => raisesWorkAlarm events = id b)
      (fun s c => ∃ u : Firmware M, s = .ok u ∧ u.clock = c ∧ 0 < c.period) where
  step := by
    rintro s c i op ⟨u, rfl, rfl, hp⟩ ⟨hi, rfl⟩
    obtain ⟨⟨u', events⟩, h⟩ := handle_ok hp hi
    obtain ⟨hclock, halarm⟩ := handle_clock h
    have hnext : ((wrappingClock counterModulus).step u.clock i.clockOp).1 = u'.clock :=
      hclock.symm
    rw [step_of_handle h, hnext]
    exact ⟨⟨u', rfl, rfl, handle_pos h hp⟩, halarm.trans (by rw [hclock]; rfl)⟩

omit [Mailbox M] in
/-- Accepted inputs are related to the operations they stand for. -/
theorem forall₂_clockOp {inputs : List (Input M)} (h : ∀ i ∈ inputs, i.Accepted) :
    List.Forall₂ (fun (i : Input M) op => i.Accepted ∧ i.clockOp = op) inputs
      (inputs.map Input.clockOp) := by
  rw [List.forall₂_map_right_iff, List.forall₂_same]
  exact fun i hi => ⟨h i hi, rfl⟩

/-- A unit keeps running through accepted inputs, as the wrapping clock does. -/
theorem run_ok {u : Firmware M} (hp : 0 < u.clock.period) {inputs : List (Input M)}
    (h : ∀ i ∈ inputs, i.Accepted) :
    ∃ u', (unitMachine M).after (.ok u) inputs = .ok u' ∧
      u'.clock = (wrappingClock counterModulus).after u.clock (inputs.map Input.clockOp) ∧
      0 < u'.clock.period := by
  obtain ⟨u', hok, hclock, hpos⟩ :=
    unit_simulation.after ⟨u, rfl, rfl, hp⟩ (forall₂_clockOp h)
  exact ⟨u', hok, hclock, hclock ▸ hpos⟩

/-- The work alarms of a unit are those of the wrapping clock. -/
theorem workAlarms_eq {u : Firmware M} (hp : 0 < u.clock.period) {inputs : List (Input M)}
    (h : ∀ i ∈ inputs, i.Accepted) :
    workAlarms (.ok u) inputs =
      (wrappingClock counterModulus).outputs u.clock (inputs.map Input.clockOp) := by
  have hrun := unit_simulation.outputs_map_eq ⟨u, rfl, rfl, hp⟩ (forall₂_clockOp h)
  rwa [List.map_id] at hrun

/-- A running unit has a sound period, and a stopped one failed an assertion on a message. -/
def SoundState : UnitState M → Prop
  | .ok u => SoundPeriod u.clock.period
  | .error fault => ∃ failed, fault = .assertion failed

/-- No input takes a unit out of its sound states. -/
theorem SoundState.step {s : UnitState M} (hs : SoundState s) (i : Input M) :
    SoundState ((unitMachine M).step s i).1 := by
  rcases step_cases s i with ⟨u, u', events, rfl, h, hstep⟩ | ⟨fault, hstep, rfl | ⟨u, rfl, h⟩⟩
  · rw [hstep]
    exact handle_sound h hs
  · rw [hstep]
    exact hs
  · rw [hstep]
    exact handle_fault hs h

/-- No run takes a unit out of its sound states. -/
theorem SoundState.after {s : UnitState M} (hs : SoundState s) (inputs : List (Input M)) :
    SoundState ((unitMachine M).after s inputs) :=
  (unitMachine M).after_invariant (P := fun _ => True) (fun _ i _ hs => hs.step i)
    (fun _ _ => trivial) hs

omit [Mailbox M] in
/-- The initial period is sound. -/
theorem soundState_powerOn (outMailbox inMailbox : M) :
    SoundState (.ok (.powerOn outMailbox inMailbox)) :=
  ⟨2, by decide, rfl⟩

/-- The period is sound in every reachable state. -/
theorem Firmware.Reachable.sound {u : Firmware M} (h : u.Reachable) :
    SoundPeriod u.clock.period := by
  obtain ⟨outMailbox, inMailbox, inputs, hrun⟩ := h
  have hsound := (soundState_powerOn outMailbox inMailbox).after inputs
  rwa [hrun] at hsound

section Ticking

omit [Mailbox M] in
/-- Ticks are always accepted. -/
theorem ticks_accepted (rs : List Readings) : ∀ i ∈ ticks (M := M) rs, i.Accepted := by
  intro i hi
  obtain ⟨r, -, rfl⟩ := List.mem_map.mp hi
  trivial

omit [Mailbox M] in
/-- Ticks are the ticks of the clock, whatever is read in them. -/
theorem ticks_clockOp (rs : List Readings) :
    (ticks (M := M) rs).map Input.clockOp = List.replicate rs.length .tick := by
  rw [ticks, List.map_map, ← List.map_const']
  rfl

/-- The alarms of ticking units are those of their ticking clocks. -/
theorem workAlarms_ticks {u : Firmware M} (hp : 0 < u.clock.period) (rs : List Readings) :
    workAlarms (.ok u) (ticks rs) =
      (wrappingClock counterModulus).outputs u.clock (List.replicate rs.length .tick) := by
  rw [workAlarms_eq hp (ticks_accepted rs), ticks_clockOp]

/-- A ticking unit with a sound period raises the alarms of a given clock for ever exactly when
it shares period and phase with that clock. -/
theorem workAlarms_ticks_eq_iff {u : Firmware M} (hu : SoundPeriod u.clock.period) {d : Clock}
    (hd : d.period ∣ counterModulus) :
    (∀ rs, workAlarms (.ok u) (ticks rs) =
        (wrappingClock counterModulus).outputs d (List.replicate rs.length .tick)) ↔
      u.clock.period = d.period ∧ u.clock.counter ≡ d.counter [MOD u.clock.period] := by
  rw [← wrappingClock_ticks_eq_iff (by decide) hu.dvd_counterModulus hd]
  constructor
  · intro h k
    have r : Readings := ⟨false, false, false, .mediumToHigh, 0⟩
    have hrun := h (List.replicate k r)
    rwa [workAlarms_ticks hu.pos, List.length_replicate] at hrun
  · intro h rs
    rw [workAlarms_ticks hu.pos]
    exact h rs.length

/-- Two units tick together when they raise their alarms in the same ticks for ever. -/
def TickTogether (s t : UnitState M) : Prop :=
  ∀ rs rs' : List Readings, rs.length = rs'.length →
    workAlarms s (ticks rs) = workAlarms t (ticks rs')

/-- Units with sound periods tick together exactly when they share period and phase. -/
theorem tickTogether_iff {u v : Firmware M} (hu : SoundPeriod u.clock.period)
    (hv : SoundPeriod v.clock.period) :
    TickTogether (.ok u) (.ok v) ↔
      u.clock.period = v.clock.period ∧
        u.clock.counter ≡ v.clock.counter [MOD u.clock.period] := by
  rw [← workAlarms_ticks_eq_iff hu hv.dvd_counterModulus]
  constructor
  · intro h rs
    rw [h rs rs rfl, workAlarms_ticks hv.pos]
  · intro h rs rs' hlen
    rw [h rs, workAlarms_ticks hv.pos, hlen]

end Ticking

end Firefly
