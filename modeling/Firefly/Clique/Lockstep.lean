import Firefly.Cadence

/-!
# A clique in lockstep

In every sync period each unit is called once. At most one of them is master; if it put a
WorkSync in its outbox, the agent fetches it and passes it on in the same period, to any of
the slaves and to each of them any number of times. Whatever is not passed on is lost.

A unit's part in a sync period is a run of that unit alone: the tick, then what the agent does
with it. The lemmas below say what the agent's part leaves of the unit.
-/

namespace Firefly

open Foundation

variable {M : Type} {n : ℕ}

/-- What one sync period brings to the units of a clique. -/
structure SyncPeriod (n : ℕ) where
  readings : Fin n → Readings
  master : Option (Fin n)
  /-- At most one unit is master, and it knows. -/
  isSelfMaster_iff : ∀ i, (readings i).isSelfMaster = true ↔ master = some i
  /-- How often a WorkSync of this period reaches a unit. -/
  copies : Fin n → ℕ
  /-- WorkSyncs only reach slaves. -/
  only_slaves : ∀ i, copies i ≠ 0 → (readings i).isSelfSlave = true ∧ master ≠ some i

/-- The plainest sync period: one master, and each of the others hears the same number of copies. -/
def SyncPeriod.ofMaster (m : Fin n) (copies : ℕ) : SyncPeriod n where
  readings i := ⟨i = m, i ≠ m, true, .mediumToHigh, 0⟩
  master := some m
  isSelfMaster_iff i := by simp [eq_comm]
  copies i := if i = m then 0 else copies
  only_slaves i hi := by
    have hne : i ≠ m := fun heq => hi (if_pos heq)
    exact ⟨decide_eq_true hne, fun heq => hne (Option.some.inj heq).symm⟩

/-- The units of a clique. -/
abbrev Units (M : Type) (n : ℕ) := Fin n → UnitState M

variable [OneItemMailbox M]

/-- The item in the outbox of a running unit. -/
def outboxMail : UnitState M → Option MailContents
  | .ok u => OneItemMailbox.mail u.outMailbox
  | .error _ => none

/-- A unit after its tick, with the events of the tick. -/
def SyncPeriod.tick (slot : SyncPeriod n) (s : Units M n) (i : Fin n) :
    UnitState M × List Event :=
  (unitMachine M).step (s i) (.onPreSyncSlot (slot.readings i))

/-- The WorkSync that the agent finds in the master's outbox after the ticks. -/
def SyncPeriod.workSync (slot : SyncPeriod n) (s : Units M n) : Option MailContents :=
  slot.master.bind fun i => outboxMail (slot.tick s i).1

/-- The WorkSync that reaches a unit in this period, if any. -/
def SyncPeriod.heard (slot : SyncPeriod n) (s : Units M n) (i : Fin n) : Option MailContents :=
  if slot.copies i = 0 then none else slot.workSync s

/-- The agent fetches the mail of a unit. -/
def fetchInputs : UnitState M → List (Input M)
  | .ok u => [.setOutMailbox (OneItemMailbox.fetched u.outMailbox)]
  | .error _ => []

/-- What the agent does with a unit after its tick: fetch the mail if it is the master, then
pass on the copies of the WorkSync. -/
def SyncPeriod.agentInputs (slot : SyncPeriod n) (s : Units M n) (i : Fin n) : List (Input M) :=
  (if slot.master = some i then fetchInputs (slot.tick s i).1 else []) ++
    match slot.workSync s with
    | none => []
    | some work => List.replicate (slot.copies i) (.onWorkSyncMsg (slot.readings i) work)

/-- The clique as a machine over sync periods, with the events of every unit as output. -/
def lockstep (M : Type) [OneItemMailbox M] (n : ℕ) :
    Mealy (Units M n) (SyncPeriod n) (Fin n → List Event) where
  step s slot :=
    (fun i => (unitMachine M).after (slot.tick s i).1 (slot.agentInputs s i),
      fun i => (slot.tick s i).2 ++
        ((unitMachine M).outputs (slot.tick s i).1 (slot.agentInputs s i)).flatten)

section Agent

/-- Fetching empties the outbox and leaves everything else. -/
theorem after_fetchInputs (u : Firmware M) :
    (unitMachine M).after (.ok u) (fetchInputs (.ok u)) =
      .ok { u with outMailbox := OneItemMailbox.fetched u.outMailbox } := rfl

omit [OneItemMailbox M] in
/-- A WorkSync that a slave hears more than once acts like one. -/
theorem after_copies [Mailbox M] {r : Readings} {work : MailContents}
    (hslave : r.isSelfSlave = true) (hwork : WorkSyncMaintainer.isPowerOfTwo work = true)
    (k : ℕ) (u : Firmware M) :
    (unitMachine M).after (.ok u) (List.replicate k (.onWorkSyncMsg r work)) =
      .ok (if k = 0 then u
        else { u with workClockCounter := 0, syncPeriodsBetweenWork := work.toUInt32 }) := by
  induction k generalizing u with
  | zero => rfl
  | succ k ih =>
    have hhandle : u.handle (.onWorkSyncMsg r work) = _ := onWorkSyncFromMaster_ok hslave hwork u
    rw [List.replicate_succ, Mealy.after_cons, step_of_handle hhandle, ih]
    simp only [Nat.add_one_ne_zero, if_false, ite_self]

/-- What the agent leaves of a unit that ticked: an empty outbox, the same maintenance counter,
and the same clock unless a WorkSync reached it. -/
theorem after_agentInputs {slot : SyncPeriod n} {s : Units M n} {i : Fin n} {u : Firmware M}
    (htick : (slot.tick s i).1 = .ok u)
    (hwork : ∀ work, slot.workSync s = some work → WorkSyncMaintainer.isPowerOfTwo work = true)
    (houtbox : slot.master ≠ some i → OneItemMailbox.mail u.outMailbox = none) :
    ∃ v, ((lockstep M n).step s slot).1 i = .ok v ∧ OneItemMailbox.mail v.outMailbox = none ∧
      v.maintenanceCounter = u.maintenanceCounter ∧
      v.clock = (slot.heard s i).elim u.clock fun work => ⟨0, work.toNat⟩ := by
  have hfetch : ∃ v, (unitMachine M).after (.ok u)
      (if slot.master = some i then fetchInputs (slot.tick s i).1 else []) = .ok v ∧
      OneItemMailbox.mail v.outMailbox = none ∧
      v.maintenanceCounter = u.maintenanceCounter ∧ v.clock = u.clock := by
    split
    · rw [htick]
      exact ⟨_, after_fetchInputs u, OneItemMailbox.mail_fetched _, rfl, rfl⟩
    · rename_i hmaster
      exact ⟨u, rfl, houtbox hmaster, rfl, rfl⟩
  obtain ⟨v, hv, hmail, hmaintenance, hclock⟩ := hfetch
  change ∃ v, (unitMachine M).after (slot.tick s i).1 (slot.agentInputs s i) = .ok v ∧ _
  rw [htick] at hv ⊢
  rw [SyncPeriod.agentInputs, Mealy.after_append, htick, hv, SyncPeriod.heard]
  cases hsync : slot.workSync s with
  | none =>
    rw [ite_self]
    exact ⟨v, rfl, hmail, hmaintenance, hclock⟩
  | some work =>
    by_cases hzero : slot.copies i = 0
    · rw [hzero, if_pos rfl]
      exact ⟨v, rfl, hmail, hmaintenance, hclock⟩
    · have hslave := (slot.only_slaves i hzero).1
      rw [if_neg hzero, after_copies hslave (hwork work hsync), if_neg hzero]
      refine ⟨_, rfl, hmail, hmaintenance, ?_⟩
      simp only [Firmware.clock, UInt8.toNat_toUInt32, UInt32.toNat_zero, Option.elim_some]

end Agent

section Events

/-- Anything but a tick neither raises the work alarm nor offers a WorkSync. -/
theorem silent_of_not_tick {s : UnitState M} {i : Input M} (hi : ∀ r, i ≠ .onPreSyncSlot r) :
    raisesWorkAlarm ((unitMachine M).step s i).2 = false ∧
      workSyncPuts ((unitMachine M).step s i).2 = [] := by
  rcases step_cases s i with ⟨u, u', events, rfl, hhandle, hstep⟩ | ⟨fault, hstep, -⟩
  · have halarm := (handle_clock hhandle).2
    have hputs := (handle_puts hhandle).2
    rw [hstep, halarm, hputs]
    cases i with
    | onPreSyncSlot r => exact absurd rfl (hi r)
    | _ => exact ⟨rfl, by simp [masterAlarm]⟩
  · rw [hstep]
    exact ⟨rfl, rfl⟩

/-- The agent never ticks a unit. -/
theorem not_tick_of_agentInputs (slot : SyncPeriod n) (s : Units M n) (j : Fin n) :
    ∀ i ∈ slot.agentInputs s j, ∀ r, i ≠ .onPreSyncSlot r := by
  rintro i hi r rfl
  rcases List.mem_append.mp hi with hfetch | hcopy
  · split at hfetch
    · cases hstate : (slot.tick s j).1 with
      | error fault => simp [hstate, fetchInputs] at hfetch
      | ok u => simp [hstate, fetchInputs] at hfetch
    · cases hfetch
  · cases hsync : slot.workSync s with
    | none => simp [hsync] at hcopy
    | some work => simp [hsync] at hcopy

/-- The alarms and puts of a sync period are those of its ticks. -/
theorem lockstep_events (slot : SyncPeriod n) (s : Units M n) (i : Fin n) :
    raisesWorkAlarm (((lockstep M n).step s slot).2 i) = raisesWorkAlarm (slot.tick s i).2 ∧
      workSyncPuts (((lockstep M n).step s slot).2 i) = workSyncPuts (slot.tick s i).2 := by
  have hsilent := (unitMachine M).outputs_invariant (I := fun _ => True)
    (Q := fun events => raisesWorkAlarm events = false ∧ workSyncPuts events = [])
    (fun _ _ hi _ => ⟨trivial, silent_of_not_tick hi⟩) (not_tick_of_agentInputs slot s i)
    trivial (s := (slot.tick s i).1)
  have hflat : raisesWorkAlarm ((unitMachine M).outputs (slot.tick s i).1
        (slot.agentInputs s i)).flatten = false ∧
      workSyncPuts ((unitMachine M).outputs (slot.tick s i).1
        (slot.agentInputs s i)).flatten = [] := by
    constructor
    · simp only [raisesWorkAlarm, List.contains_eq_any_beq, List.any_flatten, List.any_eq_false]
      intro events hevents
      have := (hsilent events hevents).1
      simpa [raisesWorkAlarm] using this
    · simp only [workSyncPuts, List.filterMap_flatten, List.flatten_eq_nil_iff, List.mem_map]
      rintro _ ⟨events, hevents, rfl⟩
      exact (hsilent events hevents).2
  constructor
  · exact (raisesWorkAlarm_append _ _).trans (by rw [hflat.1, Bool.or_false])
  · exact (workSyncPuts_append _ _).trans (by rw [hflat.2, List.append_nil])

end Events

section SyncPeriod

variable {slot : SyncPeriod n} {s : Units M n} {p c : ℕ}

/-- Running on a positive period, with nothing in the outbox. -/
def Ready (s : UnitState M) : Prop :=
  ∃ u, s = .ok u ∧ 0 < u.clock.period ∧ OneItemMailbox.mail u.outMailbox = none

/-- Running on a period, with the counter congruent to a phase. -/
def AtPhase (p c : ℕ) (s : UnitState M) : Prop :=
  ∃ u, s = .ok u ∧ u.clock.period = p ∧ u.clock.counter ≡ c [MOD p]

/-- The tick of a unit with a positive period returns. -/
theorem SyncPeriod.tick_ok (slot : SyncPeriod n) {i : Fin n} {u : Firmware M} (hs : s i = .ok u)
    (hpos : 0 < u.clock.period) :
    ∃ v, (slot.tick s i).1 = .ok v ∧
      u.handle (.onPreSyncSlot (slot.readings i)) = .ok (v, (slot.tick s i).2) := by
  obtain ⟨⟨v, events⟩, h⟩ := handle_ok hpos (i := .onPreSyncSlot (slot.readings i)) trivial
  rw [SyncPeriod.tick, hs, step_of_handle h]
  exact ⟨v, rfl, h⟩

/-- After a tick with an empty outbox, the mail is what the tick offered. -/
theorem mail_after_tick {u v : Firmware M} {r : Readings} {events : List Event}
    (h : u.handle (.onPreSyncSlot r) = .ok (v, events))
    (hbox : OneItemMailbox.mail u.outMailbox = none) :
    OneItemMailbox.mail v.outMailbox = (workSyncPuts events).head? := by
  rw [handle_outMailbox h nofun, (handle_puts h).2]
  split
  · exact (OneItemMailbox.tryPut_of_empty _ _ hbox).2
  · exact hbox

/-- A unit that is not master offers nothing. -/
theorem workSyncPuts_of_not_master {u v : Firmware M} {r : Readings} {events : List Event}
    (h : u.handle (.onPreSyncSlot r) = .ok (v, events)) (hr : r.isSelfMaster = false) :
    workSyncPuts events = [] := by
  rw [(handle_puts h).2, masterAlarm, hr, Bool.false_and]
  exact if_neg (fun hput => Bool.false_ne_true hput.1)

/-- The tick of a unit at a phase raises its alarm when the next phase is a multiple of the
period. -/
theorem AtPhase.alarm {i : Fin n} (hi : AtPhase p c (s i)) (hp : SoundPeriod p)
    (slot : SyncPeriod n) :
    raisesWorkAlarm (slot.tick s i).2 = decide (p ∣ c + 1) := by
  obtain ⟨u, hs, rfl, hphase⟩ := hi
  obtain ⟨v, -, h⟩ := slot.tick_ok hs hp.pos
  obtain ⟨hclock, halarm⟩ := handle_clock h
  have hcounter : v.clock.counter ≡ c + 1 [MOD u.clock.period] := by
    rw [hclock]
    exact ((Nat.mod_modEq _ _).of_dvd hp.dvd_counterModulus).trans (hphase.add_right 1)
  have hperiod : v.clock.period = u.clock.period := by rw [hclock]; rfl
  rw [halarm]
  refine decide_eq_decide.mpr ?_
  rw [hperiod]
  exact hcounter.dvd_iff (dvd_refl _)

/-- A sync period in which every unit is ready, and the master, if there is one, runs on a sound
period and stands at a given phase. -/
structure SyncPeriod.Led (slot : SyncPeriod n) (s : Units M n) (p c : ℕ) : Prop where
  sound : SoundPeriod p
  ready : ∀ i, Ready (s i)
  master : ∀ m, slot.master = some m → AtPhase p c (s m)

/-- The WorkSync is what the tick of the master offered. -/
theorem workSync_eq (hready : ∀ i, Ready (s i)) {m : Fin n} (hm : slot.master = some m) :
    slot.workSync s = (workSyncPuts (slot.tick s m).2).head? := by
  obtain ⟨u, hs, hpos, hbox⟩ := hready m
  obtain ⟨v, hv, h⟩ := slot.tick_ok hs hpos
  rw [SyncPeriod.workSync, hm, Option.bind_some, hv]
  exact mail_after_tick h hbox

/-- A WorkSync carries the period of the master, and is sent where the counter of the master is
a multiple of it. -/
theorem SyncPeriod.Led.workSync_inv (h : slot.Led s p c) {work : MailContents}
    (hwork : slot.workSync s = some work) : work.toNat = p ∧ p ∣ c + 1 := by
  obtain ⟨m, hm, -⟩ := Option.bind_eq_some_iff.mp hwork
  rw [workSync_eq h.ready hm] at hwork
  have halarm := (h.master m hm).alarm h.sound slot
  have hsound := h.sound
  obtain ⟨u, hs, rfl, -⟩ := h.master m hm
  obtain ⟨v, -, htick⟩ := slot.tick_ok hs hsound.pos
  obtain ⟨hraises, -, rfl⟩ := mem_workSyncPuts htick (List.mem_of_head? hwork)
  rw [masterAlarm, halarm, Bool.and_eq_true, decide_eq_true_eq] at hraises
  exact ⟨hsound.toUInt8_toNat, hraises.2⟩

/-- A unit only hears what the master sent. -/
theorem workSync_of_heard {i : Fin n} {work : MailContents} (h : slot.heard s i = some work) :
    slot.workSync s = some work := by
  rw [SyncPeriod.heard] at h
  split at h
  · cases h
  · exact h

/-- What a sync period leaves of a ready unit: an empty outbox, and a clock that either ticked or
was set by the WorkSync that the unit heard. The maintenance counter moves with the alarms as
master, and every fifth one is a put. -/
theorem SyncPeriod.Led.unit (h : slot.Led s p c) {i : Fin n} {u : Firmware M} (hs : s i = .ok u) :
    ∃ v, ((lockstep M n).step s slot).1 i = .ok v ∧
      OneItemMailbox.mail v.outMailbox = none ∧
      (v.clock = (slot.heard s i).elim ((ClockOp.tick.apply u.clock).wrap counterModulus)
        fun work => ⟨0, work.toNat⟩) ∧
      let alarm := masterAlarm (M := M) (.onPreSyncSlot (slot.readings i)) (slot.tick s i).2
      v.maintenanceCounter =
          (if alarm then u.maintenanceCounter + 1 else u.maintenanceCounter) ∧
        workSyncPuts (slot.tick s i).2 = if alarm ∧ v.maintenanceCounter % 5 = 0 then
          [u.syncPeriodsBetweenWork.toUInt8] else [] := by
  obtain ⟨_, hs', hpos, hbox⟩ := h.ready i
  cases hs.symm.trans hs'
  obtain ⟨t, ht, htick⟩ := slot.tick_ok hs hpos
  have hpow : ∀ work, slot.workSync s = some work →
      WorkSyncMaintainer.isPowerOfTwo work = true := by
    intro work hwork
    rw [isPowerOfTwo_iff, (h.workSync_inv hwork).1]
    exact h.sound
  have houtbox : slot.master ≠ some i → OneItemMailbox.mail t.outMailbox = none := by
    intro hne
    have hr : (slot.readings i).isSelfMaster = false :=
      Bool.eq_false_iff.mpr fun hr => hne ((slot.isSelfMaster_iff i).mp hr)
    rw [mail_after_tick htick hbox, workSyncPuts_of_not_master htick hr]
    rfl
  obtain ⟨v, hv, hmail, hmaintenance, hclock⟩ := after_agentInputs ht hpow houtbox
  refine ⟨v, hv, hmail, (handle_clock htick).1 ▸ hclock, ?_⟩
  rw [hmaintenance]
  exact handle_puts htick

/-- Every unit is ready for the next sync period. -/
theorem SyncPeriod.Led.ready_step (h : slot.Led s p c) (i : Fin n) :
    Ready (((lockstep M n).step s slot).1 i) := by
  obtain ⟨u, hs, hpos, -⟩ := h.ready i
  obtain ⟨v, hv, hmail, hclock, -⟩ := h.unit hs
  refine ⟨v, hv, ?_, hmail⟩
  rw [hclock]
  cases hheard : slot.heard s i with
  | none => exact hpos
  | some work =>
    change 0 < work.toNat
    rw [(h.workSync_inv (workSync_of_heard hheard)).1]
    exact h.sound.pos

/-- A unit that hears a WorkSync takes over the period and the phase of the master. -/
theorem SyncPeriod.Led.heard_atPhase (h : slot.Led s p c) {i : Fin n}
    (hheard : slot.heard s i ≠ none) :
    AtPhase p (c + 1) (((lockstep M n).step s slot).1 i) := by
  obtain ⟨u, hs, -⟩ := h.ready i
  obtain ⟨v, hv, -, hclock, -⟩ := h.unit hs
  obtain ⟨work, hwork⟩ := Option.ne_none_iff_exists'.mp hheard
  obtain ⟨hperiod, hdvd⟩ := h.workSync_inv (workSync_of_heard hwork)
  rw [hwork] at hclock
  refine ⟨v, hv, by rw [hclock]; exact hperiod, ?_⟩
  rw [hclock]
  exact (Nat.modEq_zero_iff_dvd.mpr hdvd).symm

/-- A unit at the phase of the master comes to the next one, whether it only ticks or also hears
a WorkSync. -/
theorem SyncPeriod.Led.atPhase_step (h : slot.Led s p c) {i : Fin n} (hi : AtPhase p c (s i)) :
    AtPhase p (c + 1) (((lockstep M n).step s slot).1 i) := by
  by_cases hheard : slot.heard s i = none
  · have hdvd := h.sound.dvd_counterModulus
    obtain ⟨u, hs, rfl, hphase⟩ := hi
    obtain ⟨v, hv, -, hclock, -⟩ := h.unit hs
    rw [hheard] at hclock
    refine ⟨v, hv, by rw [hclock]; rfl, ?_⟩
    rw [hclock]
    exact ((Nat.mod_modEq _ _).of_dvd hdvd).trans (hphase.add_right 1)
  · exact h.heard_atPhase hheard

end SyncPeriod

end Firefly
