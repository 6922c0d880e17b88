import Firefly.Clique.Agreement

/-!
# The work-sync protocol stabilises itself

While one unit stays master on a sound period, its work clock and its maintenance counter move
together: the maintenance counter has gone one further for every multiple of the period that
the clock has passed. So within five periods the master offers a WorkSync, wherever the two
counters started and even if one of them wraps on the way.

Any slave that hears one WorkSync is in step with the master from then on. If no WorkSync is
lost, every unit hears one within five periods, whatever the clocks of the slaves were.
-/

namespace Firefly

open Foundation

variable {M : Type} [OneItemMailbox M] {n : ℕ} {s : Units M n} {m : Fin n} {p c q : ℕ}
  {slots : List (SyncPeriod n)}

/-- One unit is master in all of several sync periods. -/
def MasterThroughout (m : Fin n) (slots : List (SyncPeriod n)) : Prop :=
  ∀ slot ∈ slots, slot.master = some m

/-- A unit at a phase whose maintenance counter stands at a fixed offset from the number of
periods passed. -/
def Maintains (p c q : ℕ) (s : UnitState M) : Prop :=
  ∃ u, s = .ok u ∧ u.clock.period = p ∧ u.clock.counter ≡ c [MOD p] ∧
    u.maintenanceCounter.toNat ≡ q + c / p [MOD counterModulus]

section Counting

omit [OneItemMailbox M] in
theorem Maintains.atPhase {s : UnitState M} (h : Maintains p c q s) : AtPhase p c s := by
  obtain ⟨u, hs, hperiod, hphase, -⟩ := h
  exact ⟨u, hs, hperiod, hphase⟩

omit [OneItemMailbox M] in
/-- Any unit at a phase maintains some offset. -/
theorem AtPhase.maintains {s : UnitState M} (h : AtPhase p c s) : ∃ q, Maintains p c q s := by
  obtain ⟨u, hs, hperiod, hphase⟩ := h
  refine ⟨u.maintenanceCounter.toNat + (counterModulus - 1) * (c / p), u, hs, hperiod, hphase, ?_⟩
  have hwhole : u.maintenanceCounter.toNat + (counterModulus - 1) * (c / p) + c / p =
      u.maintenanceCounter.toNat + counterModulus * (c / p) := by
    rw [counterModulus]; omega
  rw [hwhole]
  exact (Nat.add_mul_mod_self_left _ _ _).symm

/-- The tick of a master is an alarm as master when the next phase is a multiple of the period. -/
theorem masterAlarm_of_atPhase {slot : SyncPeriod n} (hm : slot.master = some m)
    (hp : SoundPeriod p) (hs : AtPhase p c (s m)) :
    masterAlarm (M := M) (.onPreSyncSlot (slot.readings m)) (slot.tick s m).2 =
      decide (p ∣ c + 1) := by
  rw [masterAlarm, hs.alarm hp, (slot.isSelfMaster_iff m).mpr hm, Bool.true_and]

/-- A sync period of a master keeps the offset between its maintenance counter and the number of
periods passed. -/
theorem Maintains.step {slot : SyncPeriod n} (h : slot.Led s p c) (hm : slot.master = some m)
    (hs : Maintains p c q (s m)) :
    Maintains p (c + 1) q (((lockstep M n).step s slot).1 m) := by
  obtain ⟨v, hv, hperiod, hphase⟩ := h.atPhase_step hs.atPhase
  have halarm := masterAlarm_of_atPhase hm h.sound hs.atPhase
  obtain ⟨u, hu, -, -, hcount⟩ := hs
  obtain ⟨_, hv', -, -, hmaintenance, -⟩ := h.unit hu
  cases hv.symm.trans hv'
  refine ⟨v, hv, hperiod, hphase, ?_⟩
  rw [hmaintenance, halarm, Nat.succ_div]
  by_cases hdvd : p ∣ c + 1
  · rw [if_pos (decide_eq_true hdvd), if_pos hdvd, UInt32.toNat_add]
    exact (Nat.mod_modEq _ _).trans (hcount.add_right 1)
  · rw [if_neg (by simpa using hdvd), if_neg hdvd]
    exact hcount

/-- A master puts at a multiple of its period that brings its maintenance counter to a multiple
of five. -/
theorem Maintains.puts {slot : SyncPeriod n} (h : slot.Led s p c) (hm : slot.master = some m)
    (hs : Maintains p c q (s m)) (hdvd : p ∣ c + 1)
    (hfive : 5 ∣ (q + (c + 1) / p) % counterModulus) :
    workSyncPuts (slot.tick s m).2 ≠ [] := by
  have halarm := masterAlarm_of_atPhase hm h.sound hs.atPhase
  obtain ⟨w, hw, -, -, hnext⟩ := hs.step h hm
  obtain ⟨u, hu, -⟩ := hs
  obtain ⟨_, hw', -, -, -, hputs⟩ := h.unit hu
  cases hw.symm.trans hw'
  have hmod : w.maintenanceCounter % 5 = 0 := by
    rw [maintenance_mod_five_iff, ← Nat.mod_eq_of_lt (UInt32.toNat_lt w.maintenanceCounter)]
    exact hnext ▸ hfive
  rw [hputs, halarm, if_pos ⟨decide_eq_true hdvd, hmod⟩]
  exact List.cons_ne_nil _ _

/-- A run under one master keeps the offset, and moves the phase by its length. -/
theorem Maintains.after (hp : SoundPeriod p) (hready : ∀ i, Ready (s i))
    (hs : Maintains p c q (s m)) (hm : MasterThroughout m slots) :
    (∀ i, Ready ((lockstep M n).after s slots i)) ∧
      Maintains p (c + slots.length) q ((lockstep M n).after s slots m) := by
  induction slots generalizing s c with
  | nil => exact ⟨hready, hs⟩
  | cons slot rest ih =>
    obtain ⟨hnow, hrest⟩ := List.forall_mem_cons.mp hm
    have hled : slot.Led s p c :=
      ⟨hp, hready, fun m' hm' => by cases hnow.symm.trans hm'; exact hs.atPhase⟩
    have hnext := ih hled.ready_step (hs.step hled hnow) hrest
    rwa [Nat.add_assoc, Nat.add_comm 1] at hnext

/-- In any five periods under one master, some tick of the master offers a WorkSync. -/
theorem exists_put_within (h : InStep p {m} s) (hm : MasterThroughout m slots)
    (hlen : 5 * p ≤ slots.length) :
    ∃ before slot later, slots = before ++ slot :: later ∧
      workSyncPuts (slot.tick ((lockstep M n).after s before) m).2 ≠ [] := by
  obtain ⟨hp, hready, c, hphase⟩ := h
  obtain ⟨q, hs⟩ := (hphase m rfl).maintains
  -- the `i`-th alarm from here finds the maintenance counter at a multiple of five
  have hlt : (q + c / p) % counterModulus < counterModulus := Nat.mod_lt _ (by decide)
  obtain ⟨i, hpos, hle, hfive⟩ := divider_alarm_within (d := 5) (by decide) hlt
  obtain ⟨k, hk, hdvd, hdiv⟩ := exists_alarm_number hp.pos c hpos
  have hklen : k < slots.length :=
    Nat.lt_of_lt_of_le hk ((Nat.mul_le_mul_right p hle).trans hlen)
  have hsplit : slots = slots.take k ++ slots[k] :: slots.drop (k + 1) := by
    rw [← List.drop_eq_getElem_cons hklen, List.take_append_drop]
  refine ⟨slots.take k, slots[k], slots.drop (k + 1), hsplit, ?_⟩
  have hbefore : MasterThroughout m (slots.take k) := fun slot hslot =>
    hm slot (List.mem_of_mem_take hslot)
  have hnow : slots[k].master = some m := hm _ (List.getElem_mem hklen)
  obtain ⟨hready', hs'⟩ := hs.after hp hready hbefore
  rw [List.length_take, Nat.min_eq_left hklen.le] at hs'
  have hled : slots[k].Led ((lockstep M n).after s (slots.take k)) p (c + k) :=
    ⟨hp, hready', fun m' hm' => by cases hnow.symm.trans hm'; exact hs'.atPhase⟩
  refine hs'.puts hled hnow hdvd ?_
  rw [Nat.add_assoc c k 1, hdiv, ← Nat.add_assoc]
  rwa [Nat.mod_add_mod] at hfive

/-- In any five periods under one master, a put shows in the events of the master. -/
theorem exists_put_events (h : InStep p {m} s) (hm : MasterThroughout m slots)
    (hlen : 5 * p ≤ slots.length) :
    ∃ events ∈ (lockstep M n).outputs s slots, workSyncPuts (events m) ≠ [] := by
  obtain ⟨before, slot, later, rfl, hput⟩ := exists_put_within h hm hlen
  refine ⟨((lockstep M n).step ((lockstep M n).after s before) slot).2, ?_, ?_⟩
  · rw [Mealy.outputs_append, Mealy.outputs_cons]
    exact List.mem_append_right _ List.mem_cons_self
  · rwa [(lockstep_events slot _ m).2]

end Counting

section Convergence

theorem MasterThroughout.masterIn (h : MasterThroughout m slots) {T : Set (Fin n)} (hT : m ∈ T) :
    ∀ slot ∈ slots, slot.MasterIn T := by
  intro slot hslot m' hm'
  cases (h slot hslot).symm.trans hm'
  exact hT

/-- A unit hears a WorkSync that is sent and reaches it at least once. -/
theorem heard_ne_none_iff {slot : SyncPeriod n} {i : Fin n} :
    slot.heard s i ≠ none ↔ slot.copies i ≠ 0 ∧ slot.workSync s ≠ none := by
  rw [SyncPeriod.heard]
  split
  · rename_i hzero
    exact ⟨fun h => absurd rfl h, fun h => absurd hzero h.1⟩
  · rename_i hcopies
    exact ⟨fun h => ⟨hcopies, h⟩, And.right⟩

/-- A slave that hears a WorkSync joins the master, and both are in step after any later run. -/
theorem InStep.after_heard {slot : SyncPeriod n} {later : List (SyncPeriod n)} {i : Fin n}
    (h : InStep p {m} s) (hm : MasterThroughout m (slots ++ slot :: later))
    (hheard : slot.heard ((lockstep M n).after s slots) i ≠ none) :
    InStep p {m, i} ((lockstep M n).after s (slots ++ [slot])) := by
  obtain ⟨hbefore, hnow⟩ := List.forall_mem_append.mp hm
  have hslot : slot.MasterIn {m} :=
    MasterThroughout.masterIn hnow (Set.mem_singleton m) slot List.mem_cons_self
  rw [Mealy.after_append]
  refine (h.after (MasterThroughout.masterIn hbefore rfl)).step hslot fun j hj => ?_
  rcases hj with rfl | rfl
  · exact .inl rfl
  · exact .inr hheard

/-- Every WorkSync that the master sends in a run reaches all other units. -/
def Lossless (m : Fin n) (s : Units M n) (slots : List (SyncPeriod n)) : Prop :=
  ∀ before slot later, slots = before ++ slot :: later →
    slot.workSync ((lockstep M n).after s before) ≠ none → ∀ i, i ≠ m → slot.copies i ≠ 0

/-- If no WorkSync is lost, five periods bring all units in step. -/
theorem InStep.after_lossless (h : InStep p {m} s) (hm : MasterThroughout m slots)
    (hlen : 5 * p ≤ slots.length) (hlossless : Lossless m s slots) :
    InStep p Set.univ ((lockstep M n).after s slots) := by
  obtain ⟨before, slot, later, rfl, hput⟩ := exists_put_within h hm hlen
  obtain ⟨hbefore, hnow⟩ := List.forall_mem_append.mp hm
  have hreached := h.after (MasterThroughout.masterIn hbefore rfl)
  have hsent : slot.workSync ((lockstep M n).after s before) ≠ none := by
    rw [workSync_eq hreached.ready (hnow slot List.mem_cons_self)]
    exact fun hnone => hput (List.head?_eq_none_iff.mp hnone)
  have hslot : slot.MasterIn {m} :=
    MasterThroughout.masterIn hnow (Set.mem_singleton m) slot List.mem_cons_self
  have hall : InStep p Set.univ
      ((lockstep M n).step ((lockstep M n).after s before) slot).1 := by
    refine hreached.step hslot fun i _ => ?_
    by_cases hi : i = m
    · exact .inl hi
    · exact .inr (heard_ne_none_iff.mpr ⟨hlossless before slot later rfl hsent i hi, hsent⟩)
  rw [Mealy.after_append, Mealy.after_cons]
  exact hall.after fun _ _ _ _ => trivial

end Convergence

/-- The work-sync protocol stabilises itself under one lasting master, from any state in which
the master has a sound period, the slaves have any positive ones and the outboxes are empty.

The master offers a WorkSync in every window of five periods. A slave that hears one has the
period and the phase of the master after every later run, and alarms in the same sync periods.
If the first five periods lose no WorkSync, all units alarm together from then on. -/
theorem workSync_stabilises (hp : SoundPeriod p)
    (hmaster : ∃ u, s m = .ok u ∧ u.clock.period = p)
    (hslaves : ∀ i, ∃ u, s i = .ok u ∧ 0 < u.clock.period) (hempty : OutboxesEmpty s) :
    let clique := lockstep M n
    (∀ before window, MasterThroughout m (before ++ window) → window.length = 5 * p →
      ∃ events ∈ clique.outputs (clique.after s before) window,
        workSyncPuts (events m) ≠ []) ∧
    (∀ before slot later i, MasterThroughout m (before ++ slot :: later) →
      slot.heard (clique.after s before) i ≠ none →
      (∃ u v, clique.after s (before ++ slot :: later) i = .ok u ∧
        clique.after s (before ++ slot :: later) m = .ok v ∧
        u.clock.period = p ∧ v.clock.period = p ∧
        u.clock.counter ≡ v.clock.counter [MOD p]) ∧
      ∀ events ∈ clique.outputs (clique.after s (before ++ [slot])) later,
        raisesWorkAlarm (events i) = raisesWorkAlarm (events m)) ∧
    ∀ before later, MasterThroughout m (before ++ later) → 5 * p ≤ before.length →
      Lossless m s before →
      ∀ events ∈ clique.outputs (clique.after s before) later, ∀ i j,
        raisesWorkAlarm (events i) = raisesWorkAlarm (events j) := by
  intro clique
  have hstart : InStep p {m} s := by
    obtain ⟨u, hsm, hperiod⟩ := hmaster
    exact ⟨hp, fun i => hempty.ready (hslaves i), u.clock.counter,
      fun i hi => ⟨u, hi ▸ hsm, hperiod, rfl⟩⟩
  refine ⟨fun before window hm hlen => ?_, fun before slot later i hm hheard => ?_,
    fun before later hm hlen hlossless events hevents i j => ?_⟩
  · obtain ⟨hbefore, hwindow⟩ := List.forall_mem_append.mp hm
    have hreached := hstart.after (MasterThroughout.masterIn hbefore rfl)
    exact exists_put_events hreached hwindow hlen.ge
  · have hjoined := hstart.after_heard hm hheard
    have hlater : ∀ slot ∈ later, slot.MasterIn ({m, i} : Set (Fin n)) := by
      have hrest := (List.forall_mem_cons.mp (List.forall_mem_append.mp hm).2).2
      exact MasterThroughout.masterIn hrest (.inl rfl)
    have hend := hjoined.after hlater
    rw [← Mealy.after_append, List.append_assoc, List.singleton_append] at hend
    exact ⟨hend.congruent (.inr rfl) (.inl rfl), fun events hevents =>
      hjoined.outputs hlater events hevents i (.inr rfl) m (.inl rfl)⟩
  · have hall := hstart.after_lossless (List.forall_mem_append.mp hm).1 hlen hlossless
    exact hall.outputs (fun _ _ _ _ => trivial) events hevents i trivial j trivial

/-- A slave with an odd period and another phase hears the WorkSync of the first sync period and
none after it. -/
theorem workSync_stabilises_pair :
    let s : Units (Option MailContents) 2 :=
      ![.ok { workClockCounter := 3, maintenanceCounter := 4, outMailbox := none,
              inMailbox := none },
        .ok { workClockCounter := 4294967290, syncPeriodsBetweenWork := 7, outMailbox := none,
              inMailbox := none }]
    let later : List (SyncPeriod 2) := List.replicate 6 (.ofMaster 0 0)
    ∀ events ∈ (lockstep _ 2).outputs ((lockstep _ 2).after s [.ofMaster 0 1]) later,
      raisesWorkAlarm (events 1) = raisesWorkAlarm (events 0) := by
  intro s later
  have hstart := workSync_stabilises (s := s) (m := 0) (p := 4) ⟨2, by decide, rfl⟩
    ⟨_, rfl, rfl⟩ (fun i => by fin_cases i <;> exact ⟨_, rfl, by decide⟩)
    (by unfold OutboxesEmpty; decide)
  have hmaster : MasterThroughout 0 ([] ++ SyncPeriod.ofMaster (n := 2) 0 1 :: later) := by
    intro slot hslot
    rcases List.mem_cons.mp hslot with rfl | hlater
    · rfl
    · exact List.eq_of_mem_replicate hlater ▸ rfl
  exact (hstart.2.1 [] (.ofMaster 0 1) later 1 hmaster (by decide)).2

end Firefly
