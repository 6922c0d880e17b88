import Firefly.UnitRuns

/-!
# What the LED shows

With the distributed strategy a unit works in one place only, its work alarm, and only if it has
the power. So it flashes at most once a sync period, by the amount that was set when the firmware
was initialised: nothing in this strategy moves it.
-/

namespace Firefly

open Foundation

variable {M : Type}

/-- The amounts by which the LED is flashed during a call, in order. -/
def flashes (events : List Event) : List UInt32 :=
  events.filterMap fun
    | .flashLEDByAmount amount => some amount
    | _ => none

theorem flashes_append (first second : List Event) :
    flashes (first ++ second) = flashes first ++ flashes second :=
  List.filterMap_append ..

/-- Power for work at the call that may raise the alarm. -/
def Input.powered : Input M → Bool
  | .onPreSyncSlot r => r.isPowerForWork
  | _ => false

section Mail

variable [Mailbox M]

/-- Maintaining the sync of others does not show. -/
theorem WorkSyncMaintainer.onWorkAlarm_flashes (r : Readings) (u : Firmware M) :
    flashes (WorkSyncMaintainer.onWorkAlarm r u).2 = [] := by
  unfold WorkSyncMaintainer.onWorkAlarm
  split
  · dsimp only [WorkSyncMaintenanceClock.tick]
    split
    · dsimp only [WorkSyncMaintainer.onWorkSyncMaintenanceAlarm]
      split <;> rfl
    · rfl
  · rfl

/-- The work alarm flashes the LED once if there is power. -/
theorem onWorkClockAlarm_flashes (r : Readings) (u : Firmware M) :
    flashes (WorkClock.onWorkClockAlarm r u).2 =
      if r.isPowerForWork then [u.managedAmount] else [] := by
  have hworked : flashes (DistributedSynchronizedWorker.onWorkAlarm r u).2 =
      if r.isPowerForWork then [u.managedAmount] else [] := by
    unfold DistributedSynchronizedWorker.onWorkAlarm
    split <;> rfl
  change flashes ((DistributedSynchronizedWorker.onWorkAlarm r u).2 ++ _) = _
  rw [flashes_append, hworked, WorkSyncMaintainer.onWorkAlarm_flashes, List.append_nil]

/-- What a callback shows: the amount, if it raised the alarm and there was power. -/
theorem handle_flashes {u u' : Firmware M} {i : Input M} {events : List Event}
    (h : u.handle i = .ok (u', events)) :
    flashes events = if raisesWorkAlarm events && i.powered then [u.managedAmount] else [] := by
  cases i with
  | onPreSyncSlot r =>
    rcases tickSyncPeriod_inv h with ⟨-, -, rfl⟩ | ⟨-, -, rfl⟩
    · rw [onWorkClockAlarm_flashes, onWorkClockAlarm_raises]
      rfl
    · rfl
  | onWorkSyncMsg r work =>
    obtain ⟨-, -, -, rfl⟩ := onWorkSyncMsg_inv h
    rfl
  | setSyncPeriodsBetweenWorkCoded code =>
    obtain ⟨-, rfl⟩ := setSyncPeriodsBetweenWork_inv h
    rfl
  | syncToPast clockAdvance =>
    cases h
    rfl
  | setOutMailbox box =>
    cases h
    rfl

/-- No callback moves the amount. -/
theorem handle_managedAmount {u u' : Firmware M} {i : Input M} {events : List Event}
    (h : u.handle i = .ok (u', events)) : u'.managedAmount = u.managedAmount := by
  cases i with
  | onPreSyncSlot r =>
    rcases tickSyncPeriod_inv h with ⟨-, rfl, -⟩ | ⟨-, rfl, -⟩
    · obtain ⟨counter, box, hframe⟩ := onWorkClockAlarm_frame r u.counted
      rw [hframe]
      rfl
    · rfl
  | onWorkSyncMsg r work =>
    obtain ⟨-, -, rfl, -⟩ := onWorkSyncMsg_inv h
    rfl
  | setSyncPeriodsBetweenWorkCoded code =>
    obtain ⟨rfl, -⟩ := setSyncPeriodsBetweenWork_inv h
    rfl
  | syncToPast clockAdvance =>
    cases h
    rfl
  | setOutMailbox box =>
    cases h
    rfl

/-- If the unit is running, its amount is the given one. -/
def HasAmount (amount : UInt32) (s : UnitState M) : Prop :=
  ∀ u, s = .ok u → u.managedAmount = amount

/-- No run moves the amount. -/
theorem HasAmount.after {amount : UInt32} {s : UnitState M} (hs : HasAmount amount s)
    (inputs : List (Input M)) : HasAmount amount ((unitMachine M).after s inputs) := by
  refine (unitMachine M).after_invariant (P := fun _ => True) (fun s i _ hs => ?_)
    (fun _ _ => trivial) hs
  intro v hv
  rcases step_cases s i with ⟨u, u', events, rfl, h, hstep⟩ | ⟨fault, hstep, -⟩
  · rw [hstep] at hv
    cases hv
    exact (handle_managedAmount h).trans (hs u rfl)
  · rw [hstep] at hv
    cases hv

/-- Only a tick shows anything. -/
theorem flashes_of_not_tick {s : UnitState M} {i : Input M} (hi : ∀ r, i ≠ .onPreSyncSlot r) :
    flashes ((unitMachine M).step s i).2 = [] := by
  rcases step_cases s i with ⟨u, u', events, rfl, h, hstep⟩ | ⟨fault, hstep, -⟩
  · rw [hstep, handle_flashes h]
    cases i with
    | onPreSyncSlot r => exact absurd rfl (hi r)
    | _ => simp [Input.powered]
  · rw [hstep]
    rfl

end Mail

end Firefly
