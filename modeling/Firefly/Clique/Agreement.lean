import Firefly.Clique.Lockstep
import Mathlib.Tactic.FinCases
import Mathlib.Data.Fin.VecNotation

/-!
# Agreement is never lost

A set of units is in step when they run on one sound period with counters congruent to one
phase. A sync period keeps any set in step that contains its master: ticks move all phases
together, and a WorkSync sets a unit to zero exactly where the phase of the master is zero.
Units that hear a WorkSync join the set.

So a clique that agrees still agrees after any number of sync periods, under any change of
masters and any loss of messages, and all its units raise their alarms together.
-/

namespace Firefly

open Foundation

variable {M : Type} [OneItemMailbox M] {n : ℕ} {p : ℕ} {s : Units M n} {T : Set (Fin n)}

/-- The units of a set run on one sound period at one phase, and every unit is ready. -/
structure InStep (p : ℕ) (T : Set (Fin n)) (s : Units M n) : Prop where
  sound : SoundPeriod p
  ready : ∀ i, Ready (s i)
  phase : ∃ c, ∀ i ∈ T, AtPhase p c (s i)

/-- The master of a sync period, if there is one, belongs to a set. -/
def SyncPeriod.MasterIn (slot : SyncPeriod n) (T : Set (Fin n)) : Prop :=
  ∀ m, slot.master = some m → m ∈ T

/-- A set in step that contains the master leads the sync period. -/
theorem InStep.led {slot : SyncPeriod n} (h : InStep p T s) (hT : slot.MasterIn T) :
    ∃ c, slot.Led s p c ∧ ∀ i ∈ T, AtPhase p c (s i) := by
  obtain ⟨hsound, hready, c, hphase⟩ := h
  exact ⟨c, ⟨hsound, hready, fun m hm => hphase m (hT m hm)⟩, hphase⟩

/-- After a sync period those units are in step that were before or that heard the WorkSync. -/
theorem InStep.step {slot : SyncPeriod n} (h : InStep p T s) (hT : slot.MasterIn T)
    {T' : Set (Fin n)} (hT' : ∀ i ∈ T', i ∈ T ∨ slot.heard s i ≠ none) :
    InStep p T' ((lockstep M n).step s slot).1 := by
  obtain ⟨c, hled, hphase⟩ := h.led hT
  refine ⟨h.sound, hled.ready_step, c + 1, fun i hi => ?_⟩
  rcases hT' i hi with hold | hheard
  · exact hled.atPhase_step (hphase i hold)
  · exact hled.heard_atPhase hheard

/-- Units in step raise their alarms together. -/
theorem InStep.alarms (h : InStep p T s) (slot : SyncPeriod n) {i j : Fin n} (hi : i ∈ T)
    (hj : j ∈ T) :
    raisesWorkAlarm (((lockstep M n).step s slot).2 i) =
      raisesWorkAlarm (((lockstep M n).step s slot).2 j) := by
  obtain ⟨hsound, -, c, hphase⟩ := h
  rw [(lockstep_events slot s i).1, (lockstep_events slot s j).1, (hphase i hi).alarm hsound,
    (hphase j hj).alarm hsound]

/-- Two units in step share the period and, modulo it, the counter. -/
theorem InStep.congruent (h : InStep p T s) {i j : Fin n} (hi : i ∈ T) (hj : j ∈ T) :
    ∃ u v, s i = .ok u ∧ s j = .ok v ∧ u.clock.period = p ∧ v.clock.period = p ∧
      u.clock.counter ≡ v.clock.counter [MOD p] := by
  obtain ⟨-, -, c, hphase⟩ := h
  obtain ⟨u, hsi, hu, hcu⟩ := hphase i hi
  obtain ⟨v, hsj, hv, hcv⟩ := hphase j hj
  exact ⟨u, v, hsi, hsj, hu, hv, hcu.trans hcv.symm⟩

section Runs

variable {slots : List (SyncPeriod n)}

/-- Units in step stay in step under masters of their own. -/
theorem InStep.after (h : InStep p T s) (hT : ∀ slot ∈ slots, slot.MasterIn T) :
    InStep p T ((lockstep M n).after s slots) :=
  (lockstep M n).after_invariant (I := InStep p T)
    (fun _ _ hslot hs => hs.step hslot fun _ => .inl) hT h

/-- Units in step raise their alarms together for as long as the masters are their own. -/
theorem InStep.outputs (h : InStep p T s) (hT : ∀ slot ∈ slots, slot.MasterIn T) :
    ∀ events ∈ (lockstep M n).outputs s slots, ∀ i ∈ T, ∀ j ∈ T,
      raisesWorkAlarm (events i) = raisesWorkAlarm (events j) :=
  (lockstep M n).outputs_invariant (I := InStep p T)
    (Q := fun events => ∀ i ∈ T, ∀ j ∈ T,
      raisesWorkAlarm (events i) = raisesWorkAlarm (events j))
    (fun _ slot hslot hs =>
      ⟨hs.step hslot fun _ => .inl, fun _ hi _ hj => hs.alarms slot hi hj⟩) hT h

end Runs

/-- All units run on one sound period, with counters congruent modulo the period. -/
structure Agree (p : ℕ) (s : Units M n) : Prop where
  sound : SoundPeriod p
  running : ∀ i, ∃ u, s i = .ok u ∧ u.clock.period = p
  congruent : ∀ i j u v, s i = .ok u → s j = .ok v → u.clock.counter ≡ v.clock.counter [MOD p]

/-- Nothing is pending in any outbox. -/
def OutboxesEmpty (s : Units M n) : Prop := ∀ i, outboxMail (s i) = none

/-- A running unit with a positive period and an empty outbox is ready. -/
theorem OutboxesEmpty.ready (h : OutboxesEmpty s) {i : Fin n}
    (hi : ∃ u, s i = .ok u ∧ 0 < u.clock.period) : Ready (s i) := by
  obtain ⟨u, hsi, hpos⟩ := hi
  have hbox := h i
  rw [hsi] at hbox
  exact ⟨u, hsi, hpos, hbox⟩

/-- A clique agrees with empty outboxes when all its units are in step. -/
theorem inStep_univ_iff : InStep p Set.univ s ↔ Agree p s ∧ OutboxesEmpty s := by
  constructor
  · intro h
    refine ⟨⟨h.sound, fun i => ?_, fun i j u v hi hj => ?_⟩, fun i => ?_⟩
    · obtain ⟨u, -, hi, -, hperiod, -⟩ := h.congruent (i := i) (j := i) trivial trivial
      exact ⟨u, hi, hperiod⟩
    · obtain ⟨_, _, hi', hj', -, -, hcongruent⟩ := h.congruent (i := i) (j := j) trivial trivial
      cases hi.symm.trans hi'
      cases hj.symm.trans hj'
      exact hcongruent
    · obtain ⟨u, hi, -, hbox⟩ := h.ready i
      rw [hi]
      exact hbox
  · intro ⟨⟨hsound, hrunning, hcongruent⟩, hempty⟩
    refine ⟨hsound, fun i => hempty.ready ?_, ?_⟩
    · obtain ⟨u, hi, hperiod⟩ := hrunning i
      exact ⟨u, hi, hperiod ▸ hsound.pos⟩
    · -- any unit gives the common phase
      rcases isEmpty_or_nonempty (Fin n) with hnone | ⟨⟨first⟩⟩
      · exact ⟨0, fun i => hnone.elim i⟩
      · obtain ⟨u, hfirst, -⟩ := hrunning first
        refine ⟨u.clock.counter, fun i _ => ?_⟩
        obtain ⟨v, hi, hperiod⟩ := hrunning i
        exact ⟨v, hi, hperiod, hcongruent i first v u hi hfirst⟩

/-- Agreement of a clique is never lost. From every agreeing state, whatever the maintenance
counters, whoever is master in each sync period and whichever WorkSyncs arrive, the clique
agrees after every run, and in each sync period all units raise the alarm or none does. -/
theorem agreement_never_lost (hagree : Agree p s) (hempty : OutboxesEmpty s)
    (slots : List (SyncPeriod n)) :
    Agree p ((lockstep M n).after s slots) ∧
      ∀ events ∈ (lockstep M n).outputs s slots, ∀ i j,
        raisesWorkAlarm (events i) = raisesWorkAlarm (events j) := by
  have hstart : InStep p Set.univ s := inStep_univ_iff.mpr ⟨hagree, hempty⟩
  have hmasters : ∀ slot ∈ slots, slot.MasterIn Set.univ := fun _ _ _ _ => trivial
  exact ⟨(inStep_univ_iff.mp (hstart.after hmasters)).1,
    fun events hevents i j => hstart.outputs hmasters events hevents i trivial j trivial⟩

/-- Two units whose counters are a wrap apart: the slave hears the WorkSync of the first sync
period, which sets it to zero where the master stands at four, and is the master of the third. -/
theorem agreement_never_lost_pair :
    let unit (counter maintenance : UInt32) : UnitState (Option MailContents) :=
      .ok { workClockCounter := counter, maintenanceCounter := maintenance,
            outMailbox := none, inMailbox := none }
    let s : Units (Option MailContents) 2 := ![unit 3 4, unit 4294967295 17]
    let told : SyncPeriod 2 := .ofMaster 0 2
    let slots : List (SyncPeriod 2) := [told, .ofMaster 0 0, .ofMaster 1 1]
    told.heard s 1 = some 4 ∧
      (((lockstep _ 2).step s told).1 0).map Firmware.workClockCounter = .ok 4 ∧
      (((lockstep _ 2).step s told).1 1).map Firmware.workClockCounter = .ok 0 ∧
      Agree 4 ((lockstep _ 2).after s slots) ∧
      ∀ events ∈ (lockstep _ 2).outputs s slots, ∀ i j,
        raisesWorkAlarm (events i) = raisesWorkAlarm (events j) := by
  intro unit s told slots
  have hstart : Agree 4 s ∧ OutboxesEmpty s := inStep_univ_iff.mp
    { sound := ⟨2, by decide, rfl⟩
      ready := fun i => by fin_cases i <;> exact ⟨_, rfl, by decide, rfl⟩
      phase := ⟨3, fun i _ => by fin_cases i <;> exact ⟨_, rfl, rfl, by decide⟩⟩ }
  exact ⟨by decide, by decide, by decide, agreement_never_lost hstart.1 hstart.2 slots⟩

end Firefly
