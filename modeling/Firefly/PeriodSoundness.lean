import Firefly.UnitClock
import Mathlib.Data.Nat.Prime.Basic
import Mathlib.Data.Nat.Factorization.Basic

/-!
# Sound periods

The period is written by the initialiser, by the provisioning code and by received bytes.
All three only ever install a power of two up to 128. So a unit never divides by zero, its
period divides the counter modulus, and the byte that a master mails is the whole period.

A unit is stopped only by a message that fails one of the two assertions. As long as all
messages pass them, it runs as the wrapping clock of the same operations.
-/

namespace Firefly

open Foundation

variable {M : Type}

/-- A power of two between 1 and 128. -/
def SoundPeriod (p : ℕ) : Prop := ∃ k ≤ 7, p = 2 ^ k

/-- The sound periods are the divisors of 128. -/
theorem soundPeriod_iff_dvd {p : ℕ} : SoundPeriod p ↔ p ∣ 128 :=
  (Nat.dvd_prime_pow Nat.prime_two (m := 7)).symm

theorem SoundPeriod.pos {p : ℕ} (h : SoundPeriod p) : 0 < p :=
  Nat.pos_of_dvd_of_pos (soundPeriod_iff_dvd.mp h) (by decide)

theorem SoundPeriod.le {p : ℕ} (h : SoundPeriod p) : p ≤ 128 :=
  Nat.le_of_dvd (by decide) (soundPeriod_iff_dvd.mp h)

/-- Counters wrap without harm, since sound periods divide their modulus. -/
theorem SoundPeriod.dvd_counterModulus {p : ℕ} (h : SoundPeriod p) : p ∣ counterModulus :=
  (soundPeriod_iff_dvd.mp h).trans (by decide)

/-- The bit trick recognises exactly the powers of two that fit a byte. -/
theorem isPowerOfTwo_iff (x : UInt8) :
    WorkSyncMaintainer.isPowerOfTwo x = true ↔ SoundPeriod x.toNat := by
  have hall : ∀ n < 256, WorkSyncMaintainer.isPowerOfTwo (UInt8.ofNat n) = true ↔ n ∣ 128 := by
    decide +kernel
  rw [soundPeriod_iff_dvd, ← hall x.toNat x.toNat_lt, UInt8.ofNat_toNat]

/-- Every code stands for a period that divides four. -/
theorem decodeWorkFreq_dvd (code : UInt32) : (WorkFrequency.decodeWorkFreq code).toNat ∣ 4 := by
  rcases WorkFrequency.decodeWorkFreq_cases code with h | h | h <;> rw [h] <;> decide

/-- Every code stands for a sound period. -/
theorem decodeWorkFreq_sound (code : UInt32) :
    SoundPeriod (WorkFrequency.decodeWorkFreq code).toNat :=
  soundPeriod_iff_dvd.mpr ((decodeWorkFreq_dvd code).trans (by decide))

/-- A sound period is not the one that the setter refuses. -/
theorem SoundPeriod.ne_zero {p : UInt32} (h : SoundPeriod p.toNat) : p ≠ 0 := by
  rintro rfl
  exact absurd h.pos (by decide)

/-- The clock has a positive period exactly when the stored period is not zero. -/
theorem clock_period_pos_iff {u : Firmware M} :
    0 < u.clock.period ↔ u.syncPeriodsBetweenWork ≠ 0 := by
  rw [Nat.pos_iff_ne_zero, ne_eq, ne_eq, ← UInt32.toNat_inj]
  rfl

/-- The messages a unit survives: those that reach it as a slave and carry a power of two. -/
def Input.Accepted : Input M → Prop
  | .onWorkSyncMsg r work => r.isSelfSlave = true ∧ WorkSyncMaintainer.isPowerOfTwo work = true
  | _ => True

/-- Accepted inputs only install periods that divide the counter modulus, and those they
install over a standing counter divide four. -/
theorem Input.Accepted.installs {i : Input M} (h : i.Accepted) :
    i.clockOp.Installs counterModulus 4 := by
  cases i with
  | onWorkSyncMsg r work => exact ((isPowerOfTwo_iff work).mp h.2).dvd_counterModulus
  | setSyncPeriodsBetweenWorkCoded code => exact decodeWorkFreq_dvd code
  | _ => trivial

/-- A slave accepts the byte of a power of two: it sets its clock to zero and takes over the
period. -/
theorem onWorkSyncFromMaster_ok {r : Readings} {work : MailContents}
    (hslave : r.isSelfSlave = true) (hpow : WorkSyncMaintainer.isPowerOfTwo work = true)
    (u : Firmware M) :
    WorkSyncMaintainer.onWorkSyncFromMaster r work u =
      .ok ({ u with workClockCounter := 0, syncPeriodsBetweenWork := work.toUInt32 },
        [.log "Set work frequency\n", .logInt work.toUInt32]) := by
  have hwork : work.toUInt32 ≠ 0 :=
    SoundPeriod.ne_zero (by rw [UInt8.toNat_toUInt32]; exact (isPowerOfTwo_iff work).mp hpow)
  rw [WorkSyncMaintainer.onWorkSyncFromMaster, if_neg (by simp [hslave]), if_neg (by simp [hpow])]
  exact WorkFrequency.setSyncPeriodsBetweenWork_ok hwork _

/-- A positive period is all a unit needs to survive an accepted input. -/
theorem handle_ok [Mailbox M] {u : Firmware M} (hp : 0 < u.clock.period) {i : Input M}
    (hi : i.Accepted) : ∃ r, u.handle i = .ok r := by
  have hpne := clock_period_pos_iff.mp hp
  cases i with
  | onPreSyncSlot r =>
    change ∃ result, WorkClock.tickSyncPeriod r u = .ok result
    rw [tickSyncPeriod_eq, if_neg hpne]
    split
    · exact ⟨_, rfl⟩
    · exact ⟨_, rfl⟩
  | onWorkSyncMsg r work => exact ⟨_, onWorkSyncFromMaster_ok hi.1 hi.2 u⟩
  | setSyncPeriodsBetweenWorkCoded code =>
    have hcode := (decodeWorkFreq_sound code).ne_zero
    exact ⟨_, WorkFrequency.setSyncPeriodsBetweenWork_ok hcode u⟩
  | syncToPast clockAdvance => exact ⟨_, rfl⟩
  | setOutMailbox box => exact ⟨_, rfl⟩

/-- An input that returns was accepted. -/
theorem accepted_of_handle_ok [Mailbox M] {u u' : Firmware M} {i : Input M} {events : List Event}
    (h : u.handle i = .ok (u', events)) : i.Accepted := by
  cases i with
  | onWorkSyncMsg r work =>
    obtain ⟨hslave, hpow, -, -⟩ := onWorkSyncMsg_inv h
    exact ⟨hslave, hpow⟩
  | _ => trivial

/-- A unit on a sound period is only ever stopped by an assertion on a message. -/
theorem handle_fault [Mailbox M] {u : Firmware M} (hu : SoundPeriod u.clock.period) {i : Input M}
    {fault : Fault} (h : u.handle i = .error fault) : ∃ failed, fault = .assertion failed := by
  by_cases hi : i.Accepted
  · obtain ⟨result, hresult⟩ := handle_ok hu.pos hi
    rw [hresult] at h
    cases h
  · cases i with
    | onWorkSyncMsg r work =>
      simp only [Firmware.handle, WorkFacilitator.onWorkSyncMsg, WorkSupervisor.onWorkSyncMsg,
        WorkStrategyDistributed.onWorkSyncMsg, WorkSyncMaintainer.onWorkSyncFromMaster] at h
      split at h
      · exact ⟨_, (Except.error.inj h).symm⟩
      · rename_i hslave
        split at h
        · exact ⟨_, (Except.error.inj h).symm⟩
        · rename_i hpow
          exact absurd ⟨by simpa using hslave, by simpa using hpow⟩ hi
    | _ => exact absurd trivial hi

/-- An input that returns keeps the period or installs a sound one. -/
theorem handle_period [Mailbox M] {u u' : Firmware M} {i : Input M} {events : List Event}
    (h : u.handle i = .ok (u', events)) :
    u'.clock.period = u.clock.period ∨ SoundPeriod u'.clock.period := by
  have hi := accepted_of_handle_ok h
  rw [(handle_clock h).1]
  cases i with
  | onWorkSyncMsg r work => exact .inr ((isPowerOfTwo_iff work).mp hi.2)
  | setSyncPeriodsBetweenWorkCoded code => exact .inr (decodeWorkFreq_sound code)
  | _ => exact .inl rfl

/-- Soundness of the period survives every input that returns. -/
theorem handle_sound [Mailbox M] {u u' : Firmware M} {i : Input M} {events : List Event}
    (h : u.handle i = .ok (u', events)) (hu : SoundPeriod u.clock.period) :
    SoundPeriod u'.clock.period :=
  (handle_period h).elim (fun heq => heq ▸ hu) id

/-- Positivity of the period survives every input that returns, and is all that ticking needs. -/
theorem handle_pos [Mailbox M] {u u' : Firmware M} {i : Input M} {events : List Event}
    (h : u.handle i = .ok (u', events)) (hu : 0 < u.clock.period) : 0 < u'.clock.period :=
  (handle_period h).elim (fun heq => heq ▸ hu) SoundPeriod.pos

end Firefly
