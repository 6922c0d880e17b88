import Firefly.Foundation.AlarmClock
import Firefly.Unit

/-!
# A unit seen as an alarm clock

Forget everything about a unit but its work clock counter and its period. Each input is then
one operation of a clock wrapping at `2 ^ 32`, and the unit raises its work alarm exactly
when that clock does. All results about phases and alarms are obtained through this view.
-/

namespace Firefly

open Foundation

variable {M : Type}

/-- The modulus of `unsigned int`. -/
def counterModulus : ℕ := 2 ^ 32

/-- The work clock counter and the period, as numbers. -/
def Firmware.clock (u : Firmware M) : Clock where
  counter := u.workClockCounter.toNat
  period := u.syncPeriodsBetweenWork.toNat

/-- What an input does to the work clock. -/
def Input.clockOp : Input M → ClockOp
  | .onPreSyncSlot _ => .tick
  | .onWorkSyncMsg _ work => .reset work.toNat
  | .setSyncPeriodsBetweenWorkCoded code => .retime (WorkFrequency.decodeWorkFreq code).toNat
  | .syncToPast clockAdvance => .advance clockAdvance.toNat
  | .setOutMailbox _ => .idle

/-- Maintaining the sync of others only touches its own counter and the outbox. -/
theorem onWorkAlarm_frame [Mailbox M] (r : Readings) (u : Firmware M) :
    ∃ counter box, (WorkSyncMaintainer.onWorkAlarm r u).1 =
      { u with maintenanceCounter := counter, outMailbox := box } := by
  unfold WorkSyncMaintainer.onWorkAlarm
  split
  · dsimp only [WorkSyncMaintenanceClock.tick]
    split
    · exact ⟨_, _, rfl⟩
    · exact ⟨_, u.outMailbox, rfl⟩
  · exact ⟨u.maintenanceCounter, u.outMailbox, rfl⟩

/-- Working leaves every variable alone. -/
@[simp] theorem DistributedSynchronizedWorker.onWorkAlarm_state (r : Readings) (u : Firmware M) :
    (DistributedSynchronizedWorker.onWorkAlarm r u).1 = u := by
  unfold DistributedSynchronizedWorker.onWorkAlarm
  split <;> rfl

/-- The alarm of the work clock only touches the maintenance counter and the outbox. -/
theorem onWorkClockAlarm_frame [Mailbox M] (r : Readings) (u : Firmware M) :
    ∃ counter box, (WorkClock.onWorkClockAlarm r u).1 =
      { u with maintenanceCounter := counter, outMailbox := box } := by
  rw [WorkClock.onWorkClockAlarm, DistributedSynchronizedWorker.onWorkAlarm_state]
  exact onWorkAlarm_frame r u

/-- The alarm of the work clock leaves the clock alone. -/
theorem onWorkClockAlarm_clock [Mailbox M] (r : Readings) (u : Firmware M) :
    (WorkClock.onWorkClockAlarm r u).1.clock = u.clock := by
  obtain ⟨counter, box, h⟩ := onWorkClockAlarm_frame r u
  rw [h]
  rfl

/-- Entering the alarm is what raises it. -/
theorem onWorkClockAlarm_raises [Mailbox M] (r : Readings) (u : Firmware M) :
    raisesWorkAlarm (WorkClock.onWorkClockAlarm r u).2 = true := by
  simp [WorkClock.onWorkClockAlarm, raisesWorkAlarm]

theorem raisesWorkAlarm_append (first second : List Event) :
    raisesWorkAlarm (first ++ second) = (raisesWorkAlarm first || raisesWorkAlarm second) := by
  simp only [raisesWorkAlarm, List.contains_eq_any_beq, List.any_append]

/-- The test of the remainder is divisibility of the numbers. -/
theorem mod_eq_zero_iff (x y : UInt32) : x % y = 0 ↔ y.toNat ∣ x.toNat := by
  rw [← UInt32.toNat_inj, UInt32.toNat_mod, UInt32.toNat_zero, Nat.dvd_iff_mod_eq_zero]

/-- Counting one tick, before the alarm is tested. -/
def Firmware.counted (u : Firmware M) : Firmware M :=
  { u with workClockCounter := u.workClockCounter + 1 }

/-- Counting a tick is the tick of the wrapping clock. -/
theorem counted_clock (u : Firmware M) :
    u.counted.clock = (ClockOp.tick.apply u.clock).wrap counterModulus := by
  simp [Firmware.counted, Firmware.clock, ClockOp.apply, Clock.wrap, counterModulus,
    UInt32.toNat_add]

/-- A tick stops the firmware only on a zero period; otherwise it counts, and raises the alarm
at the multiples of the period. -/
theorem tickSyncPeriod_eq [Mailbox M] (r : Readings) (u : Firmware M) :
    WorkClock.tickSyncPeriod r u =
      if u.syncPeriodsBetweenWork = 0 then .error .divisionByZero
      else if u.counted.clock.period ∣ u.counted.clock.counter then
        .ok (WorkClock.onWorkClockAlarm r u.counted)
      else .ok (u.counted, []) := by
  have hdvd := mod_eq_zero_iff u.counted.workClockCounter u.syncPeriodsBetweenWork
  by_cases hp : u.syncPeriodsBetweenWork = 0
  · simp [WorkClock.tickSyncPeriod, modulo, hp, bind, Except.bind]
  · by_cases halarm : u.counted.workClockCounter % u.syncPeriodsBetweenWork = 0
    · rw [if_neg hp, if_pos (by exact hdvd.mp halarm)]
      simp only [WorkClock.tickSyncPeriod, modulo, if_neg hp, bind, Except.bind]
      exact if_pos halarm
    · rw [if_neg hp, if_neg (by exact fun h => halarm (hdvd.mpr h))]
      simp only [WorkClock.tickSyncPeriod, modulo, if_neg hp, bind, Except.bind]
      exact if_neg halarm

/-- A tick that returns has counted, and entered the alarm exactly at the multiples of the
period. -/
theorem tickSyncPeriod_inv [Mailbox M] {r : Readings} {u u' : Firmware M} {events : List Event}
    (h : WorkClock.tickSyncPeriod r u = .ok (u', events)) :
    (u.counted.clock.period ∣ u.counted.clock.counter ∧
      u' = (WorkClock.onWorkClockAlarm r u.counted).1 ∧
      events = (WorkClock.onWorkClockAlarm r u.counted).2) ∨
    (¬ u.counted.clock.period ∣ u.counted.clock.counter ∧ u' = u.counted ∧ events = []) := by
  rw [tickSyncPeriod_eq] at h
  split at h
  · cases h
  · split at h
    · rename_i halarm
      have hreturn := Except.ok.inj h
      exact .inl ⟨halarm, (congrArg Prod.fst hreturn).symm, (congrArg Prod.snd hreturn).symm⟩
    · rename_i hsilent
      cases h
      exact .inr ⟨hsilent, rfl, rfl⟩

/-- A tick that returns is a tick of the wrapping clock, alarm included. -/
theorem tickSyncPeriod_clock [Mailbox M] {r : Readings} {u u' : Firmware M} {events : List Event}
    (h : WorkClock.tickSyncPeriod r u = .ok (u', events)) :
    u'.clock = (ClockOp.tick.apply u.clock).wrap counterModulus ∧
      raisesWorkAlarm events = ClockOp.tick.alarms u'.clock := by
  rcases tickSyncPeriod_inv h with ⟨halarm, rfl, rfl⟩ | ⟨hsilent, rfl, rfl⟩
  · rw [onWorkClockAlarm_clock, onWorkClockAlarm_raises]
    exact ⟨counted_clock u, (decide_eq_true halarm).symm⟩
  · exact ⟨counted_clock u, (decide_eq_false hsilent).symm⟩

/-- Installing a period leaves the counter, and logs without raising an alarm. -/
theorem setSyncPeriodsBetweenWork_inv {periods : UInt32} {u u' : Firmware M}
    {events : List Event}
    (h : WorkFrequency.setSyncPeriodsBetweenWork periods u = .ok (u', events)) :
    u' = { u with syncPeriodsBetweenWork := periods } ∧
      events = [.log "Set work frequency\n", .logInt periods] := by
  unfold WorkFrequency.setSyncPeriodsBetweenWork at h
  split at h
  · cases h
    exact ⟨rfl, rfl⟩
  · cases h

/-- A WorkSync that is accepted passed both assertions and set the clock to zero. -/
theorem onWorkSyncMsg_inv {r : Readings} {work : MailContents} {u u' : Firmware M}
    {events : List Event} (h : WorkFacilitator.onWorkSyncMsg r work u = .ok (u', events)) :
    r.isSelfSlave = true ∧ WorkSyncMaintainer.isPowerOfTwo work = true ∧
      u' = { u with workClockCounter := 0, syncPeriodsBetweenWork := work.toUInt32 } ∧
      events = [.log "Set work frequency\n", .logInt work.toUInt32] := by
  simp only [WorkFacilitator.onWorkSyncMsg, WorkSupervisor.onWorkSyncMsg,
    WorkStrategyDistributed.onWorkSyncMsg, WorkSyncMaintainer.onWorkSyncFromMaster] at h
  split at h
  · cases h
  · rename_i hslave
    split at h
    · cases h
    · rename_i hpow
      obtain ⟨rfl, rfl⟩ := setSyncPeriodsBetweenWork_inv h
      exact ⟨by simpa using hslave, by simpa using hpow, rfl, rfl⟩

/-- Every input that returns is its operation on the wrapping clock, alarm included. -/
theorem handle_clock [Mailbox M] {u u' : Firmware M} {i : Input M} {events : List Event}
    (h : u.handle i = .ok (u', events)) :
    u'.clock = (i.clockOp.apply u.clock).wrap counterModulus ∧
      raisesWorkAlarm events = i.clockOp.alarms u'.clock := by
  cases i with
  | onPreSyncSlot r => exact tickSyncPeriod_clock h
  | onWorkSyncMsg r work =>
    obtain ⟨-, -, rfl, rfl⟩ := onWorkSyncMsg_inv h
    exact ⟨rfl, rfl⟩
  | setSyncPeriodsBetweenWorkCoded code =>
    obtain ⟨rfl, rfl⟩ := setSyncPeriodsBetweenWork_inv h
    have hlt : u.workClockCounter.toNat < counterModulus := u.workClockCounter.toNat_lt
    refine ⟨?_, rfl⟩
    simp only [Input.clockOp, ClockOp.apply, Clock.wrap, Firmware.clock, Nat.mod_eq_of_lt hlt]
  | syncToPast clockAdvance =>
    cases h
    refine ⟨?_, rfl⟩
    simp only [Input.clockOp, ClockOp.apply, Clock.wrap, Firmware.clock, WorkClock.syncToPast,
      UInt32.toNat_add, counterModulus]
  | setOutMailbox box =>
    cases h
    have hlt : u.workClockCounter.toNat < counterModulus := u.workClockCounter.toNat_lt
    refine ⟨?_, rfl⟩
    simp only [Input.clockOp, ClockOp.apply, Clock.wrap, Firmware.clock, Nat.mod_eq_of_lt hlt]

end Firefly
