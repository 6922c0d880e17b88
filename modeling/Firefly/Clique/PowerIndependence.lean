import Firefly.Clique.Disturbance

/-!
# Power only shows in the LED

A unit asks for its power before it works, and nowhere else. Two histories of a clique that differ
in the power of the units, and in nothing else, therefore leave all units in the same state, with
the same alarms and the same mail. Only the flashes may differ.

So a unit that has no power for work keeps the schedule of the clique and maintains the sync of
others as long as it is called.
-/

namespace Firefly

open Foundation

variable {M : Type}

/-- The same answers, except about power. -/
def Readings.SameButPower (r r' : Readings) : Prop :=
  r.isSelfMaster = r'.isSelfMaster ∧ r.isSelfSlave = r'.isSelfSlave

/-- The same input, except for what is answered about power. -/
inductive Input.SameButPower : Input M → Input M → Prop
  | onPreSyncSlot {r r' : Readings} (h : r.SameButPower r') :
      SameButPower (.onPreSyncSlot r) (.onPreSyncSlot r')
  | onWorkSyncMsg {r r' : Readings} (h : r.SameButPower r') (work : MailContents) :
      SameButPower (.onWorkSyncMsg r work) (.onWorkSyncMsg r' work)
  | refl (i : Input M) : SameButPower i i

/-- Everything that a call does apart from flashing the LED. -/
def withoutFlashes (events : List Event) : List Event :=
  events.filter fun
    | .flashLEDByAmount _ => false
    | _ => true

theorem withoutFlashes_append (first second : List Event) :
    withoutFlashes (first ++ second) = withoutFlashes first ++ withoutFlashes second :=
  List.filter_append ..

theorem withoutFlashes_flatten (calls : List (List Event)) :
    withoutFlashes calls.flatten = (calls.map withoutFlashes).flatten :=
  List.filter_flatten ..

section Unit

variable [Mailbox M]

/-- The work alarm flashes or not; the rest of it is the maintenance of the sync of others. -/
theorem onWorkClockAlarm_sameButPower {r r' : Readings} (h : r.SameButPower r')
    (u : Firmware M) :
    (WorkClock.onWorkClockAlarm r u).1 = (WorkClock.onWorkClockAlarm r' u).1 ∧
      withoutFlashes (WorkClock.onWorkClockAlarm r u).2 =
        withoutFlashes (WorkClock.onWorkClockAlarm r' u).2 := by
  have hdark (r : Readings) :
      withoutFlashes (DistributedSynchronizedWorker.onWorkAlarm r u).2 = [] := by
    unfold DistributedSynchronizedWorker.onWorkAlarm
    split <;> rfl
  have hsame : WorkSyncMaintainer.onWorkAlarm r u = WorkSyncMaintainer.onWorkAlarm r' u := by
    rw [WorkSyncMaintainer.onWorkAlarm, WorkSyncMaintainer.onWorkAlarm, h.1]
  simp only [WorkClock.onWorkClockAlarm, DistributedSynchronizedWorker.onWorkAlarm_state, hsame,
    true_and]
  rw [← List.cons_append, ← List.cons_append, withoutFlashes_append, withoutFlashes_append]
  exact congrArg (· ++ _) (congrArg (Event.workAlarm :: ·) ((hdark r).trans (hdark r').symm))

/-- A callback answers inputs that differ in power alike, apart from the flashes. -/
theorem unit_sameButPower :
    Mealy.Simulation (unitMachine M) (unitMachine M) Input.SameButPower
      (fun events events' => withoutFlashes events = withoutFlashes events') Eq where
  step := by
    rintro s _ i i' rfl hi
    cases s with
    | error fault => exact ⟨rfl, rfl⟩
    | ok u =>
      cases hi with
      | refl i => exact ⟨rfl, rfl⟩
      | @onWorkSyncMsg r r' h work =>
        have hsame : u.handle (.onWorkSyncMsg r work) = u.handle (.onWorkSyncMsg r' work) := by
          simp only [Firmware.handle, WorkFacilitator.onWorkSyncMsg, WorkSupervisor.onWorkSyncMsg,
            WorkStrategyDistributed.onWorkSyncMsg, WorkSyncMaintainer.onWorkSyncFromMaster, h.2]
        simp only [unitMachine, Mealy.ofExcept, hsame, and_self]
      | @onPreSyncSlot r r' h =>
        by_cases hp : u.syncPeriodsBetweenWork = 0
        · have hfault (r : Readings) : u.handle (.onPreSyncSlot r) = .error .divisionByZero :=
            (tickSyncPeriod_eq r u).trans (if_pos hp)
          rw [unitMachine, Mealy.ofExcept_step_fault (hfault r),
            Mealy.ofExcept_step_fault (hfault r')]
          exact ⟨rfl, rfl⟩
        by_cases halarm : u.counted.clock.period ∣ u.counted.clock.counter
        · have hreturn (r : Readings) : u.handle (.onPreSyncSlot r) =
              .ok ((WorkClock.onWorkClockAlarm r u.counted).1,
                (WorkClock.onWorkClockAlarm r u.counted).2) :=
            (tickSyncPeriod_eq r u).trans ((if_neg hp).trans (if_pos halarm))
          rw [step_of_handle (hreturn r), step_of_handle (hreturn r')]
          obtain ⟨hstate, hevents⟩ := onWorkClockAlarm_sameButPower h u.counted
          exact ⟨congrArg Except.ok hstate, hevents⟩
        · have hreturn (r : Readings) : u.handle (.onPreSyncSlot r) = .ok (u.counted, []) :=
            (tickSyncPeriod_eq r u).trans ((if_neg hp).trans (if_neg halarm))
          rw [step_of_handle (hreturn r), step_of_handle (hreturn r')]
          exact ⟨rfl, rfl⟩

end Unit

variable [OneItemMailbox M] {n : ℕ}

/-- The same sync period, except for the power of the units. -/
structure SyncPeriod.SameButPower (slot slot' : SyncPeriod n) : Prop where
  readings : ∀ i, (slot.readings i).SameButPower (slot'.readings i)
  master : slot.master = slot'.master
  copies : slot.copies = slot'.copies

/-- The same event, except for the power of the units. -/
inductive CliqueEvent.SameButPower : CliqueEvent M n → CliqueEvent M n → Prop
  | syncPeriod {slot slot' : SyncPeriod n} (h : slot.SameButPower slot') :
      SameButPower (.syncPeriod slot) (.syncPeriod slot')
  | refl (event : CliqueEvent M n) : SameButPower event event

section Clique

variable {slot slot' : SyncPeriod n} {s : Units M n}

/-- Sync periods that differ in power leave the same units after the ticks. -/
theorem SyncPeriod.SameButPower.tick (h : slot.SameButPower slot') (s : Units M n) (i : Fin n) :
    (slot.tick s i).1 = (slot'.tick s i).1 ∧
      withoutFlashes (slot.tick s i).2 = withoutFlashes (slot'.tick s i).2 :=
  unit_sameButPower.step rfl (.onPreSyncSlot (h.readings i))

/-- The agent does the same with each unit in sync periods that differ in power. -/
theorem SyncPeriod.SameButPower.agentInputs (h : slot.SameButPower slot') (s : Units M n)
    (i : Fin n) :
    List.Forall₂ Input.SameButPower (slot.agentInputs s i) (slot'.agentInputs s i) := by
  have hsync : slot.workSync s = slot'.workSync s := by
    rw [SyncPeriod.workSync, SyncPeriod.workSync, h.master]
    exact congrArg _ (funext fun j => congrArg outboxMail (h.tick s j).1)
  rw [SyncPeriod.agentInputs, SyncPeriod.agentInputs, hsync, h.master, h.copies, (h.tick s i).1]
  refine List.rel_append (List.forall₂_same.mpr fun i _ => .refl i) ?_
  cases slot'.workSync s with
  | none => exact .nil
  | some work =>
    generalize slot'.copies i = k
    induction k with
    | zero => exact .nil
    | succ k ih => exact .cons (.onWorkSyncMsg (h.readings i) work) ih

/-- A sync period leaves the same units and the same events, apart from the flashes. -/
theorem SyncPeriod.SameButPower.step (h : slot.SameButPower slot') (s : Units M n) :
    ((lockstep M n).step s slot).1 = ((lockstep M n).step s slot').1 ∧
      ∀ i, withoutFlashes (((lockstep M n).step s slot).2 i) =
        withoutFlashes (((lockstep M n).step s slot').2 i) := by
  refine ⟨funext fun i => unit_sameButPower.after (h.tick s i).1 (h.agentInputs s i), fun i => ?_⟩
  change withoutFlashes ((slot.tick s i).2 ++ _) = withoutFlashes ((slot'.tick s i).2 ++ _)
  have hagent : ((unitMachine M).outputs _ (slot.agentInputs s i)).map withoutFlashes = _ :=
    unit_sameButPower.outputs_map_eq (h.tick s i).1 (h.agentInputs s i)
  rw [withoutFlashes_append, withoutFlashes_append, (h.tick s i).2, withoutFlashes_flatten,
    withoutFlashes_flatten, hagent]

/-- The disturbed clique answers histories that differ in power alike, apart from the flashes. -/
theorem clique_sameButPower :
    Mealy.Simulation (disturbed M n) (disturbed M n) CliqueEvent.SameButPower
      (fun events events' => (fun i => withoutFlashes (events i)) =
        fun i => withoutFlashes (events' i)) Eq where
  step := by
    rintro s _ event event' rfl h
    cases h with
    | refl event => exact ⟨rfl, rfl⟩
    | syncPeriod h =>
      obtain ⟨hstate, hevents⟩ := h.step s
      exact ⟨hstate, funext hevents⟩

end Clique

/-- Power decides whether a unit flashes, and nothing else. Take two histories of a clique, from
any state, with the same masters, the same deliveries and losses, the same provisioning and
restarts, in which every unit may have other power and voltage at every call. They leave every
unit in the same state, and in each sync period every unit does the same, apart from its
flashes. -/
theorem power_only_flashes (s : Units M n) {history history' : List (CliqueEvent M n)}
    (h : List.Forall₂ CliqueEvent.SameButPower history history') :
    (disturbed M n).after s history = (disturbed M n).after s history' ∧
      ((disturbed M n).outputs s history).map (fun events i => withoutFlashes (events i)) =
        ((disturbed M n).outputs s history').map fun events i => withoutFlashes (events i) :=
  ⟨clique_sameButPower.after rfl h, clique_sameButPower.outputs_map_eq rfl h⟩

/-- A sync period of work in which all units are out of power, against one in which all have it. -/
theorem power_only_flashes_dark :
    let dark : SyncPeriod 2 :=
      { SyncPeriod.ofMaster 0 1 with
        readings := fun i => ⟨i = 0, i ≠ 0, false, .belowUltraLow, 0⟩
        isSelfMaster_iff := (SyncPeriod.ofMaster 0 1).isSelfMaster_iff
        only_slaves := (SyncPeriod.ofMaster 0 1).only_slaves }
    let s : Units (Option MailContents) 2 := .powerOn (fun _ => none) fun _ => none
    (disturbed _ 2).after s (List.replicate 4 (.syncPeriod dark)) =
      (disturbed _ 2).after s (List.replicate 4 (.syncPeriod (.ofMaster 0 1))) := by
  intro dark s
  have hsame : dark.SameButPower (.ofMaster 0 1) := ⟨fun _ => ⟨rfl, rfl⟩, rfl, rfl⟩
  refine (power_only_flashes s ?_).1
  exact .cons (.syncPeriod hsame) (.cons (.syncPeriod hsame) (.cons (.syncPeriod hsame)
    (.cons (.syncPeriod hsame) .nil)))

end Firefly
