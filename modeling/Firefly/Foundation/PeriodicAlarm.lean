import Mathlib.Data.Nat.ModEq
import Mathlib.Data.Nat.Cast.Order.Basic
import Mathlib.Tactic.Ring

/-!
# Counters that alarm at the multiples of a period

A counter alarms whenever its value is a multiple of its period. Over the natural numbers
the alarms of a ticking counter form one arithmetic progression, so they determine the
period and the phase, and their number is a difference of two quotients.

The last section treats a counter that wraps at `N` and is divided by `d`. The wrap may
bring one alarm early, but it never makes a window of `d` ticks silent.
-/

namespace Firefly.Foundation

/-- Some tick among the next `p` reaches a multiple of `p`. -/
theorem exists_multiple_within {p : ℕ} (hp : 0 < p) (c : ℕ) :
    ∃ k, 0 < k ∧ k ≤ p ∧ p ∣ c + k := by
  have hlt : c % p < p := Nat.mod_lt c hp
  refine ⟨p - c % p, by omega, by omega, ?_⟩
  have hdiv := Nat.div_add_mod c p
  have hsum : c + (p - c % p) = p * (c / p + 1) := by rw [Nat.mul_add, Nat.mul_one]; omega
  exact hsum ▸ Nat.dvd_mul_right p _

/-- Whatever follows an alarm by one period is an alarm again. -/
theorem multiple_add_period {p c k : ℕ} : p ∣ c + (k + p) ↔ p ∣ c + k := by
  rw [← Nat.add_assoc, Nat.dvd_add_left (dvd_refl p)]

/-- If every alarm of the first counter is one of the second, the second period divides the
first. -/
theorem period_dvd_of_alarms {p q c d : ℕ} (hp : 0 < p)
    (h : ∀ k, 0 < k → p ∣ c + k → q ∣ d + k) : q ∣ p := by
  obtain ⟨k, hk, -, hdvd⟩ := exists_multiple_within hp c
  have hfirst : q ∣ d + k := h k hk hdvd
  have hnext : q ∣ d + k + p := by
    rw [Nat.add_assoc]
    exact h (k + p) (by omega) (multiple_add_period.mpr hdvd)
  exact (Nat.dvd_add_right hfirst).mp hnext

/-- Two ticking counters alarm together for ever exactly when they share period and phase. -/
theorem alarms_eq_iff {p q c d : ℕ} (hp : 0 < p) (hq : 0 < q) :
    (∀ k, 0 < k → (p ∣ c + k ↔ q ∣ d + k)) ↔ p = q ∧ c ≡ d [MOD p] := by
  constructor
  · intro h
    have hpq : p = q := Nat.dvd_antisymm
      (period_dvd_of_alarms hq fun k hk => (h k hk).mpr)
      (period_dvd_of_alarms hp fun k hk => (h k hk).mp)
    subst hpq
    obtain ⟨k, hk, -, hdvd⟩ := exists_multiple_within hp c
    have hc : c + k ≡ 0 [MOD p] := Nat.modEq_zero_iff_dvd.mpr hdvd
    have hd : d + k ≡ 0 [MOD p] := Nat.modEq_zero_iff_dvd.mpr ((h k hk).mp hdvd)
    exact ⟨rfl, (hc.trans hd.symm).add_right_cancel' k⟩
  · rintro ⟨rfl, hphase⟩ k -
    exact (hphase.add_right k).dvd_iff (dvd_refl p)

/-- The `i`-th alarm of a ticking counter comes within `i` periods, at a tick that passes
exactly `i` multiples. -/
theorem exists_alarm_number {p : ℕ} (hp : 0 < p) (c : ℕ) {i : ℕ} (hi : 0 < i) :
    ∃ k, k < i * p ∧ p ∣ c + (k + 1) ∧ (c + (k + 1)) / p = c / p + i := by
  have hdiv := Nat.div_add_mod c p
  have hlt : c % p < p := Nat.mod_lt c hp
  have hip : p ≤ i * p := Nat.le_mul_of_pos_left p hi
  have hsum : c + (i * p - c % p - 1 + 1) = p * (c / p + i) := by
    rw [Nat.mul_add, Nat.mul_comm p i]; omega
  refine ⟨i * p - c % p - 1, by omega, ?_, ?_⟩
  · exact hsum ▸ Nat.dvd_mul_right p _
  · rw [hsum, Nat.mul_div_cancel_left _ hp]

section Divider

/-- A wrapping counter divided by `d` alarms at least once in any `d` ticks. -/
theorem divider_alarm_within {d : ℕ} (hd : 0 < d) {N m : ℕ} (hm : m < N) :
    ∃ i, 0 < i ∧ i ≤ d ∧ d ∣ (m + i) % N := by
  by_cases hwrap : m + d < N
  · obtain ⟨i, hpos, hle, hdvd⟩ := exists_multiple_within hd m
    exact ⟨i, hpos, hle, by rwa [Nat.mod_eq_of_lt (by omega)]⟩
  · refine ⟨N - m, by omega, by omega, ?_⟩
    rw [Nat.add_sub_cancel' hm.le, Nat.mod_self]
    exact Nat.dvd_zero d

/-- Where the last value before the wrap is a multiple of `d`, an alarm at `m` is followed by
exactly `d - 1` silent ticks, except that an alarm brought by the wrap itself follows at once. -/
theorem divider_next_alarm {d N m j : ℕ} (hd : 1 < d) (hN : d ∣ N - 1) (hm : m < N)
    (halarm : d ∣ m) (hnext : d ∣ (m + (j + 1)) % N)
    (hsilent : ∀ i, 0 < i → i ≤ j → ¬ d ∣ (m + i) % N) :
    j + 1 = if (m + j) % N = N - 1 then 1 else d := by
  split
  · rename_i hlast
    -- the value before the wrap would have been an alarm, unless it is `m` itself
    rcases Nat.eq_zero_or_pos j with rfl | hj
    · rfl
    · exact absurd (hlast ▸ hN) (hsilent j hj le_rfl)
  · rename_i hlast
    have hbelow : m ≠ N - 1 := by
      rintro rfl
      rcases Nat.eq_zero_or_pos j with rfl | hj
      · exact hlast (Nat.mod_eq_of_lt hm)
      · refine hsilent 1 Nat.one_pos hj ?_
        rw [Nat.sub_add_cancel (by omega), Nat.mod_self]
        exact Nat.dvd_zero d
    -- the next multiple after `m` is still below the wrap, since `N - 1` is a multiple itself
    have hroom : m + d ≤ N - 1 := by
      have hdvd : d ∣ N - 1 - m := Nat.dvd_sub hN halarm
      have := Nat.le_of_dvd (by omega) hdvd
      omega
    have hd' : d ∣ (m + d) % N := by
      rw [Nat.mod_eq_of_lt (by omega)]
      exact Nat.dvd_add halarm (dvd_refl d)
    rcases Nat.lt_trichotomy (j + 1) d with hlt | heq | hgt
    · rw [Nat.mod_eq_of_lt (by omega), Nat.dvd_add_right halarm] at hnext
      exact absurd (Nat.le_of_dvd (Nat.succ_pos j) hnext) (by omega)
    · exact heq
    · exact absurd hd' (hsilent d (by omega) (by omega))

end Divider

end Firefly.Foundation
