import Firefly.Clique.Agreement
import Firefly.Flashes

/-!
# Units flash in unison

A set of units in step stands at one phase, and a sync period takes it to the next. So the sync
periods in which its units work are known in advance: those that bring the phase to a multiple of
the period. There every unit that has the power flashes once, by its own amount, and in all other
sync periods the whole set is dark.
-/

namespace Firefly

open Foundation

variable {M : Type} [OneItemMailbox M] {n : ℕ} {p c k : ℕ} {s : Units M n} {T : Set (Fin n)}
  {slot : SyncPeriod n} {slots : List (SyncPeriod n)}

/-- The units of a set run on one sound period at a given phase, and every unit is ready. -/
structure StandsAt (p c : ℕ) (T : Set (Fin n)) (s : Units M n) : Prop where
  sound : SoundPeriod p
  ready : ∀ i, Ready (s i)
  phase : ∀ i ∈ T, AtPhase p c (s i)

section Phase

/-- A set in step stands at the phase of any of its units. -/
theorem InStep.standsAt (h : InStep p T s) {i : Fin n} (hi : i ∈ T) (hc : AtPhase p c (s i)) :
    StandsAt p c T s := by
  obtain ⟨hsound, hready, d, hphase⟩ := h
  refine ⟨hsound, hready, fun j hj => ?_⟩
  obtain ⟨u, hu, -, hcu⟩ := hc
  obtain ⟨_, hu', -, hdu⟩ := hphase i hi
  cases hu.symm.trans hu'
  obtain ⟨v, hv, hperiod, hdv⟩ := hphase j hj
  exact ⟨v, hv, hperiod, hdv.trans (hdu.symm.trans hcu)⟩

theorem StandsAt.inStep (h : StandsAt p c T s) : InStep p T s :=
  ⟨h.sound, h.ready, c, h.phase⟩

theorem StandsAt.led (h : StandsAt p c T s) (hT : slot.MasterIn T) : slot.Led s p c :=
  ⟨h.sound, h.ready, fun m hm => h.phase m (hT m hm)⟩

/-- A sync period takes the set to the next phase. -/
theorem StandsAt.step (h : StandsAt p c T s) (hT : slot.MasterIn T) :
    StandsAt p (c + 1) T ((lockstep M n).step s slot).1 :=
  ⟨h.sound, (h.led hT).ready_step, fun i hi => (h.led hT).atPhase_step (h.phase i hi)⟩

/-- A run takes the set on by as many phases as it has sync periods. -/
theorem StandsAt.after (h : StandsAt p c T s) (hT : ∀ slot ∈ slots, slot.MasterIn T) :
    StandsAt p (c + slots.length) T ((lockstep M n).after s slots) := by
  induction slots generalizing s c with
  | nil => exact h
  | cons slot rest ih =>
    obtain ⟨hnow, hrest⟩ := List.forall_mem_cons.mp hT
    have hnext := ih (h.step hnow) hrest
    rwa [Nat.add_assoc, Nat.add_comm 1] at hnext

end Phase

section Flashing

/-- What a unit shows in a sync period, it shows in its tick. -/
theorem lockstep_flashes (slot : SyncPeriod n) (s : Units M n) (i : Fin n) :
    flashes (((lockstep M n).step s slot).2 i) = flashes (slot.tick s i).2 := by
  have hdark := (unitMachine M).outputs_invariant (I := fun _ => True)
    (Q := fun events => flashes events = []) (fun _ _ hi _ => ⟨trivial, flashes_of_not_tick hi⟩)
    (not_tick_of_agentInputs slot s i) trivial (s := (slot.tick s i).1)
  have hflat : flashes ((unitMachine M).outputs (slot.tick s i).1
      (slot.agentInputs s i)).flatten = [] := by
    rw [flashes, List.filterMap_flatten, List.flatten_eq_nil_iff]
    rintro _ hevents
    obtain ⟨events, hmem, rfl⟩ := List.mem_map.mp hevents
    exact hdark events hmem
  exact (flashes_append _ _).trans (by rw [hflat, List.append_nil])

/-- A sync period of a clique moves no amount. -/
theorem HasAmount.lockstep_step {amount : UInt32} {i : Fin n} (h : HasAmount amount (s i))
    (slot : SyncPeriod n) : HasAmount amount (((lockstep M n).step s slot).1 i) :=
  h.after (.onPreSyncSlot (slot.readings i) :: slot.agentInputs s i)

/-- A run of a clique moves no amount. -/
theorem HasAmount.lockstep_after {amount : UInt32} {i : Fin n} (h : HasAmount amount (s i))
    (slots : List (SyncPeriod n)) : HasAmount amount ((lockstep M n).after s slots i) :=
  (lockstep M n).after_invariant (P := fun _ => True) (I := fun s => HasAmount amount (s i))
    (fun _ slot _ hs => hs.lockstep_step slot) (fun _ _ => trivial) h

/-- In a sync period a unit of a set flashes by its amount if the next phase is a multiple of the
period and it has the power. -/
theorem StandsAt.flashes_step (h : StandsAt p c T s) {i : Fin n} (hi : i ∈ T) {amount : UInt32}
    (hamount : HasAmount amount (s i)) (slot : SyncPeriod n) :
    flashes (((lockstep M n).step s slot).2 i) =
      if p ∣ c + 1 ∧ (slot.readings i).isPowerForWork then [amount] else [] := by
  have halarm := (h.phase i hi).alarm h.sound slot
  obtain ⟨u, hs, hpos, -⟩ := h.ready i
  obtain ⟨v, -, htick⟩ := slot.tick_ok hs hpos
  rw [lockstep_flashes, handle_flashes htick, halarm, hamount u hs]
  simp [Input.powered]

/-- The sync periods in which a set in step works are those that bring its phase to a multiple of
the period. -/
theorem StandsAt.flashes_run (h : StandsAt p c T s) (hT : ∀ slot ∈ slots, slot.MasterIn T)
    {events : Fin n → List Event} (hk : slots[k]? = some slot)
    (hevents : ((lockstep M n).outputs s slots)[k]? = some events) {i : Fin n} (hi : i ∈ T)
    {amount : UInt32} (hamount : HasAmount amount (s i)) :
    flashes (events i) =
      if p ∣ c + (k + 1) ∧ (slot.readings i).isPowerForWork then [amount] else [] := by
  have hbefore : ∀ slot ∈ slots.take k, slot.MasterIn T := fun slot hslot =>
    hT slot (List.mem_of_mem_take hslot)
  have hreached := h.after hbefore
  have hlen : (slots.take k).length = k :=
    List.length_take_of_le (List.getElem?_eq_some_iff.mp hk).1.le
  rw [Mealy.outputs_getElem?, hk] at hevents
  rw [hlen] at hreached
  cases hevents
  exact hreached.flashes_step hi (hamount.lockstep_after _) slot

end Flashing

/-- An agreeing clique works in unison, and on a schedule that is fixed in advance. Whoever is
master in each sync period and whichever WorkSyncs arrive, the sync periods of work are those that
bring the counters to a multiple of the common period. In these every unit with power flashes
once, by its own amount; in the others no unit flashes. -/
theorem clique_flashes_in_unison (hagree : Agree p s) (hempty : OutboxesEmpty s)
    {events : Fin n → List Event} (hk : slots[k]? = some slot)
    (hevents : ((lockstep M n).outputs s slots)[k]? = some events) {i j : Fin n}
    {u v : Firmware M} (hu : s i = .ok u) (hv : s j = .ok v) :
    flashes (events j) =
      if p ∣ u.clock.counter + (k + 1) ∧ (slot.readings j).isPowerForWork then
        [v.managedAmount] else [] := by
  have hstart : InStep p Set.univ s := inStep_univ_iff.mpr ⟨hagree, hempty⟩
  have hphase : AtPhase p u.clock.counter (s i) := by
    obtain ⟨_, hu', hperiod⟩ := hagree.running i
    cases hu.symm.trans hu'
    exact ⟨u, hu, hperiod, rfl⟩
  have hamount : HasAmount v.managedAmount (s j) := fun v' hv' => by
    cases hv.symm.trans hv'
    rfl
  exact (hstart.standsAt trivial hphase).flashes_run (fun _ _ _ _ => trivial) hk hevents trivial
    hamount

/-- Two units with amounts of their own: in the fifth sync period the slave flashes by its own. -/
theorem clique_flashes_in_unison_pair :
    let unit (counter amount : UInt32) : UnitState (Option MailContents) :=
      .ok { workClockCounter := counter, managedAmount := amount, outMailbox := none,
            inMailbox := none }
    let s : Units (Option MailContents) 2 := ![unit 3 20, unit 4294967295 50]
    let slots : List (SyncPeriod 2) := List.replicate 5 (.ofMaster 0 1)
    ∃ events, ((lockstep _ 2).outputs s slots)[4]? = some events ∧ flashes (events 1) = [50] := by
  intro unit s slots
  have hstart : Agree 4 s ∧ OutboxesEmpty s := inStep_univ_iff.mp
    { sound := ⟨2, by decide, rfl⟩
      ready := fun i => by fin_cases i <;> exact ⟨_, rfl, by decide, rfl⟩
      phase := ⟨3, fun i _ => by fin_cases i <;> exact ⟨_, rfl, rfl, by decide⟩⟩ }
  have hslot : slots[4]? = some (.ofMaster 0 1) := rfl
  have hevents : ((lockstep _ 2).outputs s slots)[4]? = some _ := rfl
  exact ⟨_, hevents, clique_flashes_in_unison hstart.1 hstart.2 hslot hevents (i := 0) (j := 1)
    rfl rfl⟩

end Firefly
