import Firefly.UnitRuns

/-!
# Provisioning the work time

The user marks a time, and the provisioner reports how many sync periods have elapsed since.
The work clock converts the number to an advance below the period and is then meant to be
synchronised with the mark, so that work falls at whole periods counted from it.

The advance is added to whatever the counter holds. The clock is therefore synchronised with
the mark exactly when the counter was a multiple of the period before provisioning.
-/

namespace Firefly

open Foundation

variable {M : Type} [Mailbox M]

/-- After the advance for `elapsed` sync periods since the mark, the `k`-th following tick
alarms exactly when `elapsed + k` is a multiple of the period, for every `k`. -/
def SynchronisedWithMark (u : Firmware M) (elapsed : UInt32) : Prop :=
  ∃ advance, WorkClock.convertPeriodsElapsedToClockAdvance elapsed u = .ok advance ∧
    ∀ rs, workAlarms (.ok (WorkClock.syncToPast advance u)) (ticks rs) =
      (List.range rs.length).map fun j =>
        decide ((elapsed.toNat + (j + 1)) % u.clock.period = 0)

omit [Mailbox M] in
/-- A sound period converts every elapsed count. -/
theorem convertPeriodsElapsed_eq {u : Firmware M} (hu : SoundPeriod u.clock.period)
    (elapsed : UInt32) :
    WorkClock.convertPeriodsElapsedToClockAdvance elapsed u =
      .ok (elapsed % u.syncPeriodsBetweenWork) :=
  if_neg (clock_period_pos_iff.mp hu.pos)

omit [Mailbox M] in
/-- Modulo any divisor of the counter modulus, the converted advance moves the counter by the
elapsed count reduced by the period. -/
theorem syncToPast_converted_modEq {q : ℕ} (hq : q ∣ counterModulus) (elapsed : UInt32)
    (u : Firmware M) :
    (WorkClock.syncToPast (elapsed % u.syncPeriodsBetweenWork) u).clock.counter ≡
      u.clock.counter + elapsed.toNat % u.clock.period [MOD q] := by
  have hcounter : (WorkClock.syncToPast (elapsed % u.syncPeriodsBetweenWork) u).clock.counter =
      (u.clock.counter + elapsed.toNat % u.clock.period) % counterModulus := by
    change (u.workClockCounter + elapsed % u.syncPeriodsBetweenWork).toNat = _
    rw [UInt32.toNat_add, UInt32.toNat_mod]
    rfl
  rw [hcounter]
  exact (Nat.mod_modEq _ _).of_dvd hq

omit [Mailbox M] in
/-- The converted advance moves the phase by the elapsed count. -/
theorem syncToPast_converted_phase {u : Firmware M} (hu : SoundPeriod u.clock.period)
    (elapsed : UInt32) :
    (WorkClock.syncToPast (elapsed % u.syncPeriodsBetweenWork) u).clock.counter ≡
      u.clock.counter + elapsed.toNat [MOD u.clock.period] :=
  (syncToPast_converted_modEq hu.dvd_counterModulus elapsed u).trans
    ((Nat.mod_modEq _ _).add_left _)

/-- Provisioning synchronises a reachable work clock with the mark exactly when its counter was
a multiple of the period. -/
theorem synchronisedWithMark_iff {u : Firmware M} (hu : u.Reachable) (elapsed : UInt32) :
    SynchronisedWithMark u elapsed ↔ u.clock.counter % u.clock.period = 0 := by
  have hsound := hu.sound
  let provisioned := WorkClock.syncToPast (elapsed % u.syncPeriodsBetweenWork) u
  -- the alarms wanted are those of a clock that counts from the mark
  let mark : Clock := ⟨elapsed.toNat, u.clock.period⟩
  have hmark (k : ℕ) : ((List.range k).map fun j =>
      decide ((elapsed.toNat + (j + 1)) % u.clock.period = 0)) =
        (wrappingClock counterModulus).outputs mark (List.replicate k .tick) := by
    rw [wrappingClock_outputs_ticks k (c := mark) hsound.dvd_counterModulus]
    exact List.map_congr_left fun j _ => decide_eq_decide.mpr Nat.dvd_iff_mod_eq_zero.symm
  calc SynchronisedWithMark u elapsed
      ↔ ∀ rs, workAlarms (.ok provisioned) (ticks rs) =
          (wrappingClock counterModulus).outputs mark (List.replicate rs.length .tick) := by
        simp only [SynchronisedWithMark, convertPeriodsElapsed_eq hsound, Except.ok.injEq,
          exists_eq_left', hmark]
        rfl
    _ ↔ provisioned.clock.counter ≡ elapsed.toNat [MOD u.clock.period] := by
        rw [workAlarms_ticks_eq_iff (u := provisioned) hsound (d := mark)
          hsound.dvd_counterModulus]
        exact and_iff_right rfl
    _ ↔ u.clock.counter + elapsed.toNat ≡ 0 + elapsed.toNat [MOD u.clock.period] := by
        have hphase := syncToPast_converted_phase hsound elapsed
        rw [Nat.zero_add]
        exact ⟨hphase.symm.trans, hphase.trans⟩
    _ ↔ u.clock.counter % u.clock.period = 0 :=
        ⟨fun h => h.add_right_cancel' _, fun h => Nat.ModEq.add_right _ h⟩

/-- One sync period after power-on the counter is no multiple of the period: a mark of just now
is followed by an alarm after three ticks, not four. -/
theorem not_synchronisedWithMark_one :
    let u : Firmware (Option MailContents) := WorkClock.syncToPast 1 (.powerOn none none)
    u.Reachable ∧ ¬ SynchronisedWithMark u 0 := by
  refine ⟨⟨none, none, [.syncToPast 1], rfl⟩, ?_⟩
  intro ⟨advance, hconvert, halarms⟩
  obtain rfl : 0 = advance := Except.ok.inj hconvert
  let r : Readings := ⟨false, true, false, .mediumToHigh, 0⟩
  exact absurd (halarms [r, r, r]) (by decide)

/-- Eight sync periods after power-on the counter is twice the period, and the mark is met. -/
theorem synchronisedWithMark_eight :
    let u : Firmware (Option MailContents) := WorkClock.syncToPast 8 (.powerOn none none)
    u.clock.counter = 8 ∧ SynchronisedWithMark u 6 := by
  intro u
  have hu : u.Reachable := ⟨none, none, [.syncToPast 8], rfl⟩
  exact ⟨rfl, (synchronisedWithMark_iff hu 6).mpr (by decide)⟩

end Firefly
