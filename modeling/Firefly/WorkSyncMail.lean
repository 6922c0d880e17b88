import Firefly.UnitRuns

/-!
# What a unit mails, and when

The maintenance counter of a unit counts the work alarms that it has as master. Whenever it
reaches a multiple of five, and only then, the unit offers its period to the outbox. Nothing
else that happens to a unit touches the counter or offers a WorkSync.
-/

namespace Firefly

open Foundation

variable {M : Type}

/-- The input made the unit raise its work alarm while it was master. -/
def masterAlarm (i : Input M) (events : List Event) : Bool :=
  match i with
  | .onPreSyncSlot r => r.isSelfMaster && raisesWorkAlarm events
  | _ => false

/-- The mailbox after some puts, in order. -/
def mailboxAfter [Mailbox M] (box : M) (works : List MailContents) : M :=
  works.foldl (fun box work => (Mailbox.tryPut box work).2) box

/-- The events of a put contain that put and perhaps a log, but no other one. -/
theorem workSyncPuts_maintenanceAlarm [Mailbox M] (u : Firmware M) :
    workSyncPuts (WorkSyncMaintainer.onWorkSyncMaintenanceAlarm u).2 =
      [u.syncPeriodsBetweenWork.toUInt8] := by
  dsimp only [WorkSyncMaintainer.onWorkSyncMaintenanceAlarm]
  split <;> rfl

/-- Work flashes the LED but puts nothing. -/
theorem workSyncPuts_work (r : Readings) (u : Firmware M) :
    workSyncPuts (DistributedSynchronizedWorker.onWorkAlarm r u).2 = [] := by
  unfold DistributedSynchronizedWorker.onWorkAlarm
  split <;> rfl

theorem workSyncPuts_append (first second : List Event) :
    workSyncPuts (first ++ second) = workSyncPuts first ++ workSyncPuts second :=
  List.filterMap_append

/-- The work alarm of a master counts; at every fifth count it puts the period in the outbox. -/
theorem onWorkClockAlarm_master [Mailbox M] {r : Readings} (hr : r.isSelfMaster = true)
    (u : Firmware M) :
    let puts :=
      if (u.maintenanceCounter + 1) % 5 = 0 then [u.syncPeriodsBetweenWork.toUInt8] else []
    workSyncPuts (WorkClock.onWorkClockAlarm r u).2 = puts ∧
      (WorkClock.onWorkClockAlarm r u).1 =
        { u with maintenanceCounter := u.maintenanceCounter + 1,
                 outMailbox := mailboxAfter u.outMailbox puts } := by
  have hevents : workSyncPuts (WorkClock.onWorkClockAlarm r u).2 =
      workSyncPuts (WorkSyncMaintenanceClock.tick u).2 := by
    simp only [WorkClock.onWorkClockAlarm, DistributedSynchronizedWorker.onWorkAlarm_state,
      WorkSyncMaintainer.onWorkAlarm, hr, if_true]
    exact (workSyncPuts_append _ _).trans (by rw [workSyncPuts_work]; rfl)
  have hstate : (WorkClock.onWorkClockAlarm r u).1 = (WorkSyncMaintenanceClock.tick u).1 := by
    simp only [WorkClock.onWorkClockAlarm, DistributedSynchronizedWorker.onWorkAlarm_state,
      WorkSyncMaintainer.onWorkAlarm, hr, if_true]
  rw [hevents, hstate]
  dsimp only [WorkSyncMaintenanceClock.tick]
  split
  · rename_i hfive
    rw [if_pos (by exact hfive), workSyncPuts_maintenanceAlarm]
    exact ⟨rfl, rfl⟩
  · rename_i hfive
    rw [if_neg (by exact hfive)]
    exact ⟨rfl, rfl⟩

/-- The work alarm of any other unit counts nothing and puts nothing. -/
theorem onWorkClockAlarm_other [Mailbox M] {r : Readings} (hr : r.isSelfMaster = false)
    (u : Firmware M) :
    workSyncPuts (WorkClock.onWorkClockAlarm r u).2 = [] ∧
      (WorkClock.onWorkClockAlarm r u).1 = u := by
  simp only [WorkClock.onWorkClockAlarm, DistributedSynchronizedWorker.onWorkAlarm_state,
    WorkSyncMaintainer.onWorkAlarm, hr, Bool.false_eq_true, if_false, List.append_nil, and_true]
  exact workSyncPuts_work r u

/-- What a returning input leaves of the maintenance counter and offers to the outbox: the
counter moves with the alarms as master, and a put falls on every multiple of five. -/
theorem handle_puts [Mailbox M] {u u' : Firmware M} {i : Input M} {events : List Event}
    (h : u.handle i = .ok (u', events)) :
    u'.maintenanceCounter =
        (if masterAlarm i events then u.maintenanceCounter + 1 else u.maintenanceCounter) ∧
      workSyncPuts events =
        if masterAlarm i events ∧ u'.maintenanceCounter % 5 = 0 then
          [u.syncPeriodsBetweenWork.toUInt8] else [] := by
  cases i with
  | onPreSyncSlot r =>
    rcases tickSyncPeriod_inv h with ⟨-, rfl, rfl⟩ | ⟨-, rfl, rfl⟩
    · simp only [masterAlarm, onWorkClockAlarm_raises, Bool.and_true]
      cases hr : r.isSelfMaster with
      | true =>
        obtain ⟨hputs, hstate⟩ := onWorkClockAlarm_master hr u.counted
        rw [hputs, hstate]
        by_cases hfive : (u.maintenanceCounter + 1) % 5 = 0 <;> simp [Firmware.counted, hfive]
      | false =>
        obtain ⟨hputs, hstate⟩ := onWorkClockAlarm_other hr u.counted
        rw [hputs, hstate]
        simp [Firmware.counted]
    · simp [masterAlarm, raisesWorkAlarm, workSyncPuts, Firmware.counted]
  | onWorkSyncMsg r work =>
    obtain ⟨-, -, rfl, rfl⟩ := onWorkSyncMsg_inv h
    simp [masterAlarm, workSyncPuts]
  | setSyncPeriodsBetweenWorkCoded code =>
    obtain ⟨rfl, rfl⟩ := setSyncPeriodsBetweenWork_inv h
    simp [masterAlarm, workSyncPuts]
  | syncToPast clockAdvance =>
    cases h
    simp [masterAlarm, workSyncPuts, WorkClock.syncToPast]
  | setOutMailbox box =>
    cases h
    simp [masterAlarm, workSyncPuts]

/-- Apart from the agent itself, only puts change the outbox. -/
theorem handle_outMailbox [Mailbox M] {u u' : Firmware M} {i : Input M} {events : List Event}
    (h : u.handle i = .ok (u', events)) (hi : ∀ box, i ≠ .setOutMailbox box) :
    u'.outMailbox = mailboxAfter u.outMailbox (workSyncPuts events) := by
  cases i with
  | onPreSyncSlot r =>
    rcases tickSyncPeriod_inv h with ⟨-, rfl, rfl⟩ | ⟨-, rfl, rfl⟩
    · cases hr : r.isSelfMaster with
      | true =>
        obtain ⟨hputs, hstate⟩ := onWorkClockAlarm_master hr u.counted
        rw [hputs, hstate]
        rfl
      | false =>
        obtain ⟨hputs, hstate⟩ := onWorkClockAlarm_other hr u.counted
        rw [hputs, hstate]
        rfl
    · rfl
  | onWorkSyncMsg r work =>
    obtain ⟨-, -, rfl, rfl⟩ := onWorkSyncMsg_inv h
    rfl
  | setSyncPeriodsBetweenWorkCoded code =>
    obtain ⟨rfl, rfl⟩ := setSyncPeriodsBetweenWork_inv h
    rfl
  | syncToPast clockAdvance =>
    cases h
    rfl
  | setOutMailbox box => exact absurd rfl (hi box)

/-- A WorkSync is only offered in a tick that raises the alarm of a master, and its payload is
then the period, narrowed to a byte. -/
theorem mem_workSyncPuts [Mailbox M] {u u' : Firmware M} {i : Input M} {events : List Event}
    (h : u.handle i = .ok (u', events)) {work : MailContents} (hwork : work ∈ workSyncPuts events) :
    masterAlarm i events = true ∧ u'.maintenanceCounter % 5 = 0 ∧
      work = u.syncPeriodsBetweenWork.toUInt8 := by
  rw [(handle_puts h).2] at hwork
  split at hwork
  · rename_i hput
    exact ⟨hput.1, hput.2, List.mem_singleton.mp hwork⟩
  · cases hwork

/-- A sound period fits the byte that it is mailed in. -/
theorem SoundPeriod.toUInt8_toNat {p : UInt32} (h : SoundPeriod p.toNat) :
    p.toUInt8.toNat = p.toNat := by
  have hle := h.le
  rw [UInt32.toNat_toUInt8]
  exact Nat.mod_eq_of_lt (by omega)

end Firefly
