import Firefly.Clique.Disturbance

/-!
# Provisioning the master of a clique

A clique is provisioned through its master, which works on the new clock at once. The others stay
on the old one until they hear of the new one, and the master only tells them with every fifth of
its own alarms.

If no WorkSync is lost then all slaves hear the first one, and nothing else makes them leave their
clock. So they switch in one and the same sync period, at most five of the new periods later, and
among themselves the slaves are never out of step.
-/

namespace Firefly

open Foundation

variable {M : Type} [OneItemMailbox M] {n : ℕ} {s : Units M n} {m : Fin n} {p c q d k : ℕ}
  {slot : SyncPeriod n} {slots : List (SyncPeriod n)}

/-- The provisioning of one unit. -/
def CliqueEvent.Provisions (m : Fin n) : CliqueEvent M n → Prop
  | .setSyncPeriodsBetweenWorkCoded i _ | .syncToPast i _ => i = m
  | _ => False

/-- One unit stands at a phase of its own, and all others share another one. -/
structure Divided (m : Fin n) (p c q d : ℕ) (s : Units M n) : Prop where
  sound : SoundPeriod p
  newSound : SoundPeriod q
  ready : ∀ i, Ready (s i)
  others : ∀ i, i ≠ m → AtPhase p c (s i)
  master : AtPhase q d (s m)

section Steps

/-- A unit that hears nothing keeps its own period and comes to its own next phase. -/
theorem SyncPeriod.Led.unheard_atPhase (h : slot.Led s q d) (hp : SoundPeriod p) {i : Fin n}
    (hi : AtPhase p c (s i)) (hheard : slot.heard s i = none) :
    AtPhase p (c + 1) (((lockstep M n).step s slot).1 i) := by
  obtain ⟨u, hs, rfl, hphase⟩ := hi
  obtain ⟨v, hv, -, hclock, -⟩ := h.unit hs
  rw [hheard] at hclock
  refine ⟨v, hv, by rw [hclock]; rfl, ?_⟩
  rw [hclock]
  exact ((Nat.mod_modEq _ _).of_dvd hp.dvd_counterModulus).trans (hphase.add_right 1)

theorem Divided.led (h : Divided m p c q d s) (hm : slot.master = some m) : slot.Led s q d :=
  ⟨h.newSound, h.ready, fun m' hm' => by cases hm.symm.trans hm'; exact h.master⟩

/-- Each unit of a divided clique alarms by its own clock. -/
theorem Divided.alarm (h : Divided m p c q d s) (slot : SyncPeriod n) (i : Fin n) :
    raisesWorkAlarm (((lockstep M n).step s slot).2 i) =
      if i = m then decide (q ∣ d + 1) else decide (p ∣ c + 1) := by
  rw [(lockstep_events slot s i).1]
  by_cases hi : i = m
  · rw [if_pos hi, hi]
    exact h.master.alarm h.newSound slot
  · rw [if_neg hi]
    exact (h.others i hi).alarm h.sound slot

/-- A sync period without a WorkSync leaves the clique divided. -/
theorem Divided.step_unsent (h : Divided m p c q d s) (hm : slot.master = some m)
    (hunsent : slot.workSync s = none) :
    Divided m p (c + 1) q (d + 1) ((lockstep M n).step s slot).1 where
  sound := h.sound
  newSound := h.newSound
  ready := (h.led hm).ready_step
  others i hi := by
    refine (h.led hm).unheard_atPhase h.sound (h.others i hi) ?_
    rw [SyncPeriod.heard, hunsent, ite_self]
  master := (h.led hm).atPhase_step h.master

/-- A sync period with a WorkSync that reaches all others brings all units to the phase of the
master. -/
theorem Divided.step_sent (h : Divided m p c q d s) (hm : slot.master = some m)
    (hsent : slot.workSync s ≠ none) (hreached : ∀ i, i ≠ m → slot.copies i ≠ 0) :
    StandsAt q (d + 1) Set.univ ((lockstep M n).step s slot).1 where
  sound := h.newSound
  ready := (h.led hm).ready_step
  phase i _ := by
    by_cases hi : i = m
    · exact hi ▸ (h.led hm).atPhase_step h.master
    · exact (h.led hm).heard_atPhase (heard_ne_none_iff.mpr ⟨hreached i hi, hsent⟩)

end Steps

section Runs

/-- A set in step alarms on its schedule in every sync period of a run. -/
theorem StandsAt.alarms_run (h : StandsAt q d Set.univ s) {j : ℕ} {events : Fin n → List Event}
    (hevents : ((lockstep M n).outputs s slots)[j]? = some events) (i : Fin n) :
    raisesWorkAlarm (events i) = decide (q ∣ d + (j + 1)) := by
  have hanyone : ∀ slot ∈ slots.take j, slot.MasterIn Set.univ := fun _ _ _ _ => trivial
  have hreached := h.after hanyone
  have hj : j < slots.length := by
    have hlt := (List.getElem?_eq_some_iff.mp hevents).1
    rwa [Mealy.outputs_length] at hlt
  rw [List.length_take_of_le hj.le] at hreached
  rw [Mealy.outputs_getElem?, List.getElem?_eq_getElem hj, Option.map_some,
    Option.some_inj] at hevents
  rw [← hevents, (lockstep_events _ _ i).1]
  exact (hreached.phase i trivial).alarm h.sound _

/-- The alarm of a unit in a clique that switches after `k` sync periods: until then all but one
keep the old clock. -/
def switched (m : Fin n) (p c q d k j : ℕ) (i : Fin n) : Bool :=
  if i ≠ m ∧ j < k then decide (p ∣ c + (j + 1)) else decide (q ∣ d + (j + 1))

/-- In every sync period of a run the alarms are those of a clique that switches. -/
def Switches (m : Fin n) (p c q d k : ℕ) (s : Units M n) (slots : List (SyncPeriod n)) : Prop :=
  ∀ j events, ((lockstep M n).outputs s slots)[j]? = some events →
    ∀ i, raisesWorkAlarm (events i) = switched m p c q d k j i

/-- A clique that agrees has switched. -/
theorem StandsAt.switches (h : StandsAt q d Set.univ s) (slots : List (SyncPeriod n)) :
    Switches m p c q d 0 s slots := fun j _ hevents i => by
  rw [h.alarms_run hevents, switched, if_neg fun hold => Nat.not_lt_zero j hold.2]

/-- A divided clique that will have switched after some sync periods switches one later. -/
theorem Divided.switches_cons (h : Divided m p c q d s)
    (hrest : Switches m p (c + 1) q (d + 1) k ((lockstep M n).step s slot).1 slots) :
    Switches m p c q d (k + 1) s (slot :: slots) := by
  intro j events hevents i
  rw [Mealy.outputs_cons] at hevents
  cases j with
  | zero =>
    cases hevents
    rw [h.alarm, switched]
    by_cases hi : i = m
    · rw [if_pos hi, if_neg (fun hold => hold.1 hi)]
    · rw [if_neg hi, if_pos ⟨hi, Nat.succ_pos k⟩]
  | succ j =>
    rw [List.getElem?_cons_succ] at hevents
    rw [hrest j events hevents i, switched, switched, Nat.add_assoc c, Nat.add_assoc d,
      Nat.add_comm 1]
    exact if_congr (and_congr_right' Nat.succ_lt_succ_iff.symm) rfl rfl

theorem Lossless.tail (h : Lossless m s (slot :: slots)) :
    Lossless m ((lockstep M n).step s slot).1 slots := by
  rintro before later rest rfl hsent
  exact h (slot :: before) later rest rfl hsent

/-- A divided clique switches with the first WorkSync, so no later than with a given one. -/
theorem Divided.switches {before later : List (SyncPeriod n)} (h : Divided m p c q d s)
    (hm : MasterThroughout m (before ++ slot :: later))
    (hlossless : Lossless m s (before ++ slot :: later))
    (hsent : slot.workSync ((lockstep M n).after s before) ≠ none) :
    ∃ k ≤ before.length + 1, Switches m p c q d k s (before ++ slot :: later) := by
  have hnow {first : SyncPeriod n} {rest : List (SyncPeriod n)} {s : Units M n} {c d : ℕ}
      (h : Divided m p c q d s) (hm : MasterThroughout m (first :: rest))
      (hlossless : Lossless m s (first :: rest)) (hsent : first.workSync s ≠ none) :
      Switches m p c q d 1 s (first :: rest) := by
    have hreached := hlossless [] first rest rfl hsent
    exact h.switches_cons ((h.step_sent (hm first List.mem_cons_self) hsent hreached).switches rest)
  induction before generalizing s c d with
  | nil => exact ⟨1, Nat.le_refl 1, hnow h hm hlossless hsent⟩
  | cons first rest ih =>
    obtain ⟨hfirst, hrest⟩ := List.forall_mem_cons.mp hm
    by_cases hunsent : first.workSync s = none
    · obtain ⟨k, hk, hswitches⟩ := ih (h.step_unsent hfirst hunsent) hrest hlossless.tail hsent
      exact ⟨k + 1, Nat.succ_le_succ hk, h.switches_cons hswitches⟩
    · exact ⟨1, Nat.succ_le_succ (Nat.zero_le _), hnow h hm hlossless hunsent⟩

end Runs

section Provisioning

/-- Provisioning one unit leaves it running on a sound period with an empty outbox, and leaves the
others alone. -/
theorem provisioned_after {provisioning : List (CliqueEvent M n)}
    (hprovisioning : ∀ event ∈ provisioning, event.Provisions m)
    (hs : ∃ u, s m = .ok u ∧ SoundPeriod u.clock.period ∧
      OneItemMailbox.mail u.outMailbox = none) :
    let s' := (disturbed M n).after s provisioning
    (∀ i, i ≠ m → s' i = s i) ∧ ∃ u, s' m = .ok u ∧ SoundPeriod u.clock.period ∧
      OneItemMailbox.mail u.outMailbox = none := by
  refine (disturbed M n).after_invariant (P := CliqueEvent.Provisions m)
    (I := fun s' => (∀ i, i ≠ m → s' i = s i) ∧ ∃ u, s' m = .ok u ∧
      SoundPeriod u.clock.period ∧ OneItemMailbox.mail u.outMailbox = none)
    (fun s' event hevent hs' => ?_) hprovisioning ⟨fun _ _ => rfl, hs⟩
  obtain ⟨hothers, u, hu, hsound, hmail⟩ := hs'
  have hkept {t : UnitState M} (i : Fin n) (hi : i ≠ m) :
      Function.update s' m t i = s i := (Function.update_of_ne hi _ _).trans (hothers i hi)
  cases event with
  | syncPeriod slot => cases hevent
  | restart i outMailbox inMailbox hempty => cases hevent
  | setSyncPeriodsBetweenWorkCoded i code =>
    obtain rfl : i = m := hevent
    have hhandle : u.handle (.setSyncPeriodsBetweenWorkCoded code) = _ :=
      WorkFrequency.setSyncPeriodsBetweenWork_ok (decodeWorkFreq_sound code).ne_zero u
    refine ⟨hkept, { u with syncPeriodsBetweenWork := WorkFrequency.decodeWorkFreq code }, ?_,
      decodeWorkFreq_sound code, hmail⟩
    change Function.update s' i _ i = _
    rw [Function.update_self, hu, step_of_handle hhandle]
  | syncToPast i clockAdvance =>
    obtain rfl : i = m := hevent
    refine ⟨hkept, WorkClock.syncToPast clockAdvance u, ?_, hsound, hmail⟩
    change Function.update s' i _ i = _
    rw [Function.update_self, hu]
    rfl

end Provisioning

/-- The master of a divided clique offers a WorkSync within five of its periods. -/
theorem Divided.exists_sent (h : Divided m p c q d s) (hm : MasterThroughout m slots)
    (hlen : 5 * q ≤ slots.length) :
    ∃ before slot later, slots = before ++ slot :: later ∧ before.length + 1 ≤ 5 * q ∧
      slot.workSync ((lockstep M n).after s before) ≠ none := by
  have hstart : InStep q {m} s := ⟨h.newSound, h.ready, d, fun i hi => hi ▸ h.master⟩
  have hfirst : MasterThroughout m (slots.take (5 * q)) := fun slot hslot =>
    hm slot (List.mem_of_mem_take hslot)
  obtain ⟨before, slot, later, htake, hput⟩ :=
    exists_put_within hstart hfirst (List.length_take_of_le hlen).ge
  have hbefore : MasterThroughout m before := fun b hb =>
    hfirst b (htake ▸ List.mem_append_left _ hb)
  have hready := (hstart.after (MasterThroughout.masterIn hbefore rfl)).ready
  have hslot : slot.master = some m :=
    hfirst slot (htake ▸ List.mem_append_right _ List.mem_cons_self)
  refine ⟨before, slot, later ++ slots.drop (5 * q), ?_, ?_, ?_⟩
  · rw [← List.cons_append, ← List.append_assoc, ← htake, List.take_append_drop]
  · have hcount := congrArg List.length htake
    rw [List.length_take_of_le hlen, List.length_append, List.length_cons] at hcount
    omega
  · rw [workSync_eq hready hslot]
    exact fun hnone => hput (List.head?_eq_none_iff.mp hnone)

/-- A clique that is provisioned through its master switches as one. Let the units agree, and let
the master `m` be provisioned in any way. If it stays master for five of its new periods, and in
that time no WorkSync is lost, then there is one sync period after which all slaves alarm by the new
clock of `m`, at most five new periods later. Until then, all slaves alarm by the clock on which
they agreed, and `m` alarms by its new clock all the time. -/
theorem reprovisioning_switches_as_one (hagree : Agree p s) (hempty : OutboxesEmpty s)
    {provisioning : List (CliqueEvent M n)}
    (hprovisioning : ∀ event ∈ provisioning, event.Provisions m) {old : Firmware M}
    (hold : s m = .ok old) :
    let s' := (disturbed M n).after s provisioning
    ∃ new, s' m = .ok new ∧ ∀ slots, MasterThroughout m slots → Lossless m s' slots →
      5 * new.clock.period ≤ slots.length →
      ∃ k ≤ 5 * new.clock.period, ∀ j events,
        ((lockstep M n).outputs s' slots)[j]? = some events → ∀ i,
          raisesWorkAlarm (events i) =
            if i ≠ m ∧ j < k then decide (p ∣ old.clock.counter + (j + 1))
            else decide (new.clock.period ∣ new.clock.counter + (j + 1)) := by
  intro s'
  obtain ⟨u, hu, hperiod⟩ := hagree.running m
  cases hold.symm.trans hu
  have hall : StandsAt p old.clock.counter Set.univ s :=
    (inStep_univ_iff.mpr ⟨hagree, hempty⟩).standsAt (i := m) trivial ⟨old, hold, hperiod, rfl⟩
  have hmail : OneItemMailbox.mail old.outMailbox = none := by
    have hbox := hempty m
    rwa [hold] at hbox
  obtain ⟨hothers, new, hnew, hnewSound, hnewMail⟩ :=
    provisioned_after hprovisioning ⟨old, hold, hperiod ▸ hagree.sound, hmail⟩
  change ∀ i, i ≠ m → s' i = s i at hothers
  refine ⟨new, hnew, fun slots hm hlossless hlen => ?_⟩
  have hdivided : Divided m p old.clock.counter new.clock.period new.clock.counter s' := by
    refine ⟨hagree.sound, hnewSound, fun i => ?_, fun i hi => ?_, new, hnew, rfl, rfl⟩
    · by_cases hi : i = m
      · exact hi ▸ ⟨new, hnew, hnewSound.pos, hnewMail⟩
      · rw [hothers i hi]
        exact hall.ready i
    · rw [hothers i hi]
      exact hall.phase i trivial
  obtain ⟨before, slot, later, rfl, hbefore, hsent⟩ := hdivided.exists_sent hm hlen
  obtain ⟨k, hk, hswitches⟩ := hdivided.switches hm hlossless hsent
  exact ⟨k, hk.trans hbefore, hswitches⟩

/-- A clique of two whose master is provisioned to work in every sync period. -/
theorem reprovisioning_switches_as_one_pair :
    let unit : UnitState (Option MailContents) :=
      .ok { workClockCounter := 2, maintenanceCounter := 3, outMailbox := none, inMailbox := none }
    let s : Units (Option MailContents) 2 := fun _ => unit
    let s' := (disturbed _ 2).after s [.setSyncPeriodsBetweenWorkCoded 0 0, .syncToPast 0 1]
    ∃ k ≤ 5, ∀ j events,
      ((lockstep _ 2).outputs s' (List.replicate 5 (.ofMaster 0 1)))[j]? = some events →
        raisesWorkAlarm (events 1) = if (1 : Fin 2) ≠ 0 ∧ j < k then decide (4 ∣ 2 + (j + 1))
          else decide (1 ∣ 3 + (j + 1)) := by
  intro unit s s'
  have hstart : Agree 4 s ∧ OutboxesEmpty s := inStep_univ_iff.mp
    { sound := ⟨2, by decide, rfl⟩
      ready := fun _ => ⟨_, rfl, by decide, rfl⟩
      phase := ⟨2, fun _ _ => ⟨_, rfl, rfl, rfl⟩⟩ }
  have hprovisioning : ∀ event ∈ [CliqueEvent.setSyncPeriodsBetweenWorkCoded 0 0, .syncToPast 0 1],
      (event : CliqueEvent (Option MailContents) 2).Provisions 0 := by
    intro event hevent
    rcases List.mem_pair.mp hevent with rfl | rfl <;> rfl
  have hold : s 0 = .ok _ := rfl
  obtain ⟨new, hnew, hswitches⟩ :=
    reprovisioning_switches_as_one hstart.1 hstart.2 hprovisioning hold
  have hclock : new.clock = ⟨3, 1⟩ := by
    cases hnew
    rfl
  obtain ⟨hmaster, hlossless⟩ := lossless_ofMaster 0 s' 5 Nat.one_ne_zero
  rw [hclock] at hswitches
  obtain ⟨k, hk, hall⟩ := hswitches _ hmaster hlossless (by decide)
  exact ⟨k, hk, fun j events hevents => hall j events hevents 1⟩

end Firefly
