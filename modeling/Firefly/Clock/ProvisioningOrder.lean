import Firefly.Clock.Provisioning

/-!
# Provisioning the time and the cycle in either order

The elapsed count is reduced by the period in force when it is converted. Provisioned before the
cycle, it is reduced by the old period; provisioned after, by the new one.

A shorter or equal new period divides the old one, so what the old period took off is a multiple
of the new one as well. A longer new period keeps multiples of the old one that the old period
took off, unless the count lies below the old period already.
-/

namespace Firefly

open Foundation

variable {M : Type} [Mailbox M]

/-- The provisioner reports the sync periods elapsed since the mark: they are converted on the
work clock in force, and the clock is advanced. -/
def provisionTime (elapsedSyncPeriods : UInt32) (s : Except Fault (Firmware M)) :
    Except Fault (Firmware M) := do
  let u ← s
  let clockAdvance ← WorkClock.convertPeriodsElapsedToClockAdvance elapsedSyncPeriods u
  return WorkClock.syncToPast clockAdvance u

/-- The provisioner sends a code for the work cycle. -/
def provisionCycle (workFreqCode : UInt32) (s : Except Fault (Firmware M)) :
    Except Fault (Firmware M) := do
  let u ← s
  let retimed ← WorkFrequency.setSyncPeriodsBetweenWorkCoded workFreqCode u
  return retimed.1

omit [Mailbox M] in
/-- On a sound period the provisioned time is an advance of the clock. -/
theorem provisionTime_ok {u : Firmware M} (hu : SoundPeriod u.clock.period) (elapsed : UInt32) :
    provisionTime elapsed (.ok u) =
      .ok (WorkClock.syncToPast (elapsed % u.syncPeriodsBetweenWork) u) := by
  change (WorkClock.convertPeriodsElapsedToClockAdvance elapsed u >>= _) = _
  rw [convertPeriodsElapsed_eq hu]
  rfl

omit [Mailbox M] in
/-- Every provisioned cycle is installed. -/
theorem provisionCycle_ok (u : Firmware M) (code : UInt32) :
    provisionCycle code (.ok u) =
      .ok { u with syncPeriodsBetweenWork := WorkFrequency.decodeWorkFreq code } := by
  change (WorkFrequency.setSyncPeriodsBetweenWorkCoded code u >>= _) = _
  rw [WorkFrequency.setSyncPeriodsBetweenWorkCoded,
    WorkFrequency.setSyncPeriodsBetweenWork_ok (decodeWorkFreq_sound code).ne_zero]
  rfl

omit [Mailbox M] in
/-- Of two sound periods the shorter one divides the other. -/
theorem SoundPeriod.dvd_of_le {p q : ℕ} (hp : SoundPeriod p) (hq : SoundPeriod q) (h : p ≤ q) :
    p ∣ q := by
  obtain ⟨j, -, rfl⟩ := hp
  obtain ⟨k, -, rfl⟩ := hq
  exact Nat.pow_dvd_pow 2 ((Nat.pow_le_pow_iff_right (by decide)).mp h)

/-- Reducing by one sound period keeps a count modulo another exactly if the other is no longer,
or the count modulo the other was below the one already. -/
theorem modEq_mod_iff {p q e : ℕ} (hp : SoundPeriod p) (hq : SoundPeriod q) :
    e % q ≡ e % p [MOD q] ↔ q ≤ p ∨ e % q < p := by
  rcases Nat.lt_or_ge p q with hlt | hle
  · have hdvd : p ∣ q := hp.dvd_of_le hq hlt.le
    have hrem : e % p < p := Nat.mod_lt e hp.pos
    have hnested : e % q % p = e % p := Nat.mod_mod_of_dvd e hdvd
    rw [or_iff_right (Nat.not_le_of_lt hlt), Nat.ModEq, Nat.mod_mod,
      Nat.mod_eq_of_lt (hrem.trans hlt)]
    constructor
    · intro h
      rwa [h]
    · intro h
      rw [← hnested, Nat.mod_eq_of_lt h]
  · have hdvd : q ∣ p := hq.dvd_of_le hp hle
    rw [or_iff_left_of_imp fun _ => hle, Nat.ModEq, Nat.mod_mod, Nat.mod_mod_of_dvd e hdvd]
    exact iff_of_true rfl hle

/-- The two orders install the period of the code, and differ only in the period that the elapsed
count is reduced by. -/
theorem provisioning_orders {u : Firmware M} (hu : SoundPeriod u.clock.period)
    (code elapsed : UInt32) :
    ∃ cycleFirst timeFirst : Firmware M,
      provisionTime elapsed (provisionCycle code (.ok u)) = .ok cycleFirst ∧
      provisionCycle code (provisionTime elapsed (.ok u)) = .ok timeFirst ∧
      cycleFirst.syncPeriodsBetweenWork = WorkFrequency.decodeWorkFreq code ∧
      timeFirst.syncPeriodsBetweenWork = WorkFrequency.decodeWorkFreq code ∧
      (TickTogether (.ok cycleFirst) (.ok timeFirst) ↔
        (WorkFrequency.decodeWorkFreq code).toNat ≤ u.clock.period ∨
          elapsed.toNat % (WorkFrequency.decodeWorkFreq code).toNat < u.clock.period) := by
  have hcode := decodeWorkFreq_sound code
  let cycled : Firmware M := { u with syncPeriodsBetweenWork := WorkFrequency.decodeWorkFreq code }
  let timed := WorkClock.syncToPast (elapsed % u.syncPeriodsBetweenWork) u
  let cycleFirst := WorkClock.syncToPast (elapsed % cycled.syncPeriodsBetweenWork) cycled
  let timeFirst : Firmware M :=
    { timed with syncPeriodsBetweenWork := WorkFrequency.decodeWorkFreq code }
  refine ⟨cycleFirst, timeFirst, ?_, ?_, rfl, rfl, ?_⟩
  · rw [provisionCycle_ok, provisionTime_ok (u := cycled) hcode]
  · rw [provisionTime_ok hu, provisionCycle_ok]
  · have hcycle : cycleFirst.clock.counter ≡ u.clock.counter +
        elapsed.toNat % (WorkFrequency.decodeWorkFreq code).toNat
          [MOD (WorkFrequency.decodeWorkFreq code).toNat] :=
      syncToPast_converted_modEq hcode.dvd_counterModulus elapsed cycled
    have htime : timeFirst.clock.counter ≡ u.clock.counter + elapsed.toNat % u.clock.period
        [MOD (WorkFrequency.decodeWorkFreq code).toNat] :=
      syncToPast_converted_modEq hcode.dvd_counterModulus elapsed u
    calc TickTogether (.ok cycleFirst) (.ok timeFirst)
        ↔ cycleFirst.clock.counter ≡ timeFirst.clock.counter
            [MOD (WorkFrequency.decodeWorkFreq code).toNat] := by
          rw [tickTogether_iff (u := cycleFirst) (v := timeFirst) hcode hcode]
          exact and_iff_right rfl
      _ ↔ u.clock.counter + elapsed.toNat % (WorkFrequency.decodeWorkFreq code).toNat ≡
            u.clock.counter + elapsed.toNat % u.clock.period
            [MOD (WorkFrequency.decodeWorkFreq code).toNat] :=
          ⟨fun h => hcycle.symm.trans (h.trans htime), fun h => hcycle.trans (h.trans htime.symm)⟩
      _ ↔ elapsed.toNat % (WorkFrequency.decodeWorkFreq code).toNat ≡
            elapsed.toNat % u.clock.period [MOD (WorkFrequency.decodeWorkFreq code).toNat] :=
          ⟨fun h => h.add_left_cancel' _, fun h => h.add_left _⟩
      _ ↔ _ := modEq_mod_iff hu hcode

/-- The two provisioning steps commute exactly when the new period is no longer than the old one,
or the elapsed count modulo the new period lies below the old one. A longer period always has
an elapsed count for which they do not. -/
theorem provisioning_commutes_iff {u : Firmware M} (hu : u.Reachable) (code : UInt32) :
    (∀ elapsed : UInt32, ∃ cycleFirst timeFirst : Firmware M,
      provisionTime elapsed (provisionCycle code (.ok u)) = .ok cycleFirst ∧
      provisionCycle code (provisionTime elapsed (.ok u)) = .ok timeFirst ∧
      cycleFirst.syncPeriodsBetweenWork = WorkFrequency.decodeWorkFreq code ∧
      timeFirst.syncPeriodsBetweenWork = WorkFrequency.decodeWorkFreq code ∧
      (TickTogether (.ok cycleFirst) (.ok timeFirst) ↔
        (WorkFrequency.decodeWorkFreq code).toNat ≤ u.clock.period ∨
          elapsed.toNat % (WorkFrequency.decodeWorkFreq code).toNat < u.clock.period)) ∧
    (u.clock.period < (WorkFrequency.decodeWorkFreq code).toNat → ∃ elapsed : UInt32,
      ¬ TickTogether (provisionTime elapsed (provisionCycle code (.ok u)))
        (provisionCycle code (provisionTime elapsed (.ok u)))) := by
  refine ⟨provisioning_orders hu.sound code, fun hlt => ⟨u.syncPeriodsBetweenWork, ?_⟩⟩
  -- an elapsed count of one old period is reduced to nothing, or not at all
  obtain ⟨cycleFirst, timeFirst, hcycle, htime, -, -, hiff⟩ :=
    provisioning_orders hu.sound code u.syncPeriodsBetweenWork
  have hrem : u.syncPeriodsBetweenWork.toNat % (WorkFrequency.decodeWorkFreq code).toNat =
      u.clock.period := Nat.mod_eq_of_lt hlt
  rw [hcycle, htime, hiff, hrem, not_or]
  exact ⟨Nat.not_le_of_lt hlt, Nat.lt_irrefl _⟩

/-- From a period of one to a period of four, some elapsed count makes the order matter. -/
theorem provisioning_order_matters :
    let u : Firmware (Option MailContents) :=
      { Firmware.powerOn none none with syncPeriodsBetweenWork := 1 }
    u.Reachable ∧ ∃ elapsed : UInt32,
      ¬ TickTogether (provisionTime elapsed (provisionCycle 2 (.ok u)))
        (provisionCycle 2 (provisionTime elapsed (.ok u))) := by
  intro u
  have hu : u.Reachable := ⟨none, none, [.setSyncPeriodsBetweenWorkCoded 0], rfl⟩
  exact ⟨hu, (provisioning_commutes_iff hu 2).2 (by decide)⟩

end Firefly
