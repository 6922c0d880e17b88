import Firefly.Foundation.AlarmClock

/-!
# The spacing of alarms for any period

A wrapping clock alarms when its counter is a multiple of the period, and zero is a multiple of
every period. From any counter the next alarm therefore comes at the next multiple or at the
wrap, whichever is reached first.

So the wrap can bring an alarm early but never late. All alarms are one period apart exactly
when the wrap falls on a multiple itself, that is when the period divides the modulus.
-/

namespace Firefly.Foundation

variable {N p c k : ℕ}

/-- The number of ticks from a counter to the next alarm: up to the next multiple of the period,
or up to the wrap. -/
def nextAlarm (N p c : ℕ) : ℕ := min (p - c % p) (N - c)

theorem nextAlarm_pos (hp : 0 < p) (hc : c < N) : 0 < nextAlarm N p c := by
  have hlt : c % p < p := Nat.mod_lt c hp
  unfold nextAlarm
  omega

theorem nextAlarm_le_period : nextAlarm N p c ≤ p := by
  unfold nextAlarm
  omega

/-- The tick of the next alarm reaches a multiple of the period. -/
theorem dvd_at_nextAlarm (hp : 0 < p) (hc : c < N) : p ∣ (c + nextAlarm N p c) % N := by
  have hlt : c % p < p := Nat.mod_lt c hp
  rcases Nat.lt_or_ge (p - c % p) (N - c) with hbefore | hwrap
  · have hnext : nextAlarm N p c = p - c % p := Nat.min_eq_left hbefore.le
    have hsum : c + (p - c % p) = p * (c / p + 1) := by
      have hdiv := Nat.div_add_mod c p
      rw [Nat.mul_add, Nat.mul_one]
      omega
    rw [hnext, Nat.mod_eq_of_lt (by omega), hsum]
    exact Nat.dvd_mul_right p _
  · have hnext : nextAlarm N p c = N - c := Nat.min_eq_right hwrap
    rw [hnext, Nat.add_sub_cancel' hc.le, Nat.mod_self]
    exact Nat.dvd_zero p

/-- No tick before the next alarm reaches a multiple of the period. -/
theorem not_dvd_before_nextAlarm (hk : 0 < k) (hlt : k < nextAlarm N p c) :
    ¬ p ∣ (c + k) % N := by
  obtain ⟨hmultiple, hwrap⟩ : k < p - c % p ∧ k < N - c := by
    unfold nextAlarm at hlt
    omega
  rw [Nat.mod_eq_of_lt (by omega)]
  intro hdvd
  have hrest : p ∣ c % p + k := by
    have hsum : c + k = p * (c / p) + (c % p + k) := by rw [← Nat.add_assoc, Nat.div_add_mod]
    rwa [hsum, Nat.dvd_add_right (Nat.dvd_mul_right p _)] at hdvd
  exact absurd (Nat.le_of_dvd (by omega) hrest) (by omega)

/-- The next alarm is the only tick that reaches a multiple of the period after ticks that do
not. -/
theorem eq_nextAlarm (hp : 0 < p) (hc : c < N) (hk : 0 < k) (hdvd : p ∣ (c + k) % N)
    (hsilent : ∀ i, 0 < i → i < k → ¬ p ∣ (c + i) % N) : k = nextAlarm N p c := by
  rcases Nat.lt_trichotomy k (nextAlarm N p c) with hlt | heq | hgt
  · exact absurd hdvd (not_dvd_before_nextAlarm hk hlt)
  · exact heq
  · exact absurd (dvd_at_nextAlarm hp hc) (hsilent _ (nextAlarm_pos hp hc) hgt)

/-- The next alarm is one tick away exactly when the next count is a multiple. -/
theorem nextAlarm_eq_one_iff (hp : 0 < p) (hc : c < N) :
    nextAlarm N p c = 1 ↔ p ∣ (c + 1) % N := by
  constructor
  · intro h
    exact h ▸ dvd_at_nextAlarm hp hc
  · intro hdvd
    exact (eq_nextAlarm hp hc Nat.one_pos hdvd fun i hpos hlt =>
      absurd hpos (Nat.not_lt.mpr (Nat.le_of_lt_succ hlt))).symm

/-- A tick that is no alarm comes one nearer to the next alarm. -/
theorem nextAlarm_succ (hp : 0 < p) (hc : c < N) (h : ¬ p ∣ (c + 1) % N) :
    nextAlarm N p ((c + 1) % N) + 1 = nextAlarm N p c := by
  have hpos := nextAlarm_pos hp hc
  have hne := mt (nextAlarm_eq_one_iff hp hc).mp h
  have hshift (k : ℕ) : ((c + 1) % N + k) % N = (c + (k + 1)) % N := by
    rw [Nat.mod_add_mod, Nat.add_assoc, Nat.add_comm 1 k]
  have hnext : nextAlarm N p c - 1 = nextAlarm N p ((c + 1) % N) := by
    refine eq_nextAlarm hp (Nat.mod_lt _ (Nat.zero_lt_of_lt hc)) (by omega) ?_ fun i hi hlt => ?_
    · rw [hshift, Nat.sub_add_cancel hpos]
      exact dvd_at_nextAlarm hp hc
    · rw [hshift]
      exact not_dvd_before_nextAlarm (Nat.succ_pos i) (by omega)
  omega

/-- From a multiple of a period that divides the modulus, the next alarm is one period away. -/
theorem nextAlarm_of_dvd (hN : p ∣ N) (hc : c < N) (hdvd : p ∣ c) :
    nextAlarm N p c = p := by
  have hroom : p ≤ N - c := Nat.le_of_dvd (by omega) (Nat.dvd_sub hN hdvd)
  rw [nextAlarm, Nat.mod_eq_zero_of_dvd hdvd, Nat.sub_zero, Nat.min_eq_left hroom]

/-- From the last multiple before the wrap, the next alarm is as far away as the remainder of the
modulus, unless that is zero. -/
theorem nextAlarm_of_last (hp : 0 < p) : nextAlarm N p (p * (N / p)) = N % p := by
  have hlt : N % p < p := Nat.mod_lt N hp
  have hdiv := Nat.div_add_mod N p
  have hrest : N - p * (N / p) = N % p := by omega
  rw [nextAlarm, Nat.mul_mod_right, Nat.sub_zero, hrest]
  exact Nat.min_eq_right hlt.le

section Traces

/-- Up to its next alarm a ticking clock is silent. -/
theorem wrappingClock_outputs_nextAlarm (hp : 0 < p) (hc : c < N) :
    (wrappingClock N).outputs ⟨c, p⟩ (List.replicate (nextAlarm N p c) .tick) =
      List.replicate (nextAlarm N p c - 1) false ++ [true] := by
  obtain ⟨k, hk⟩ := Nat.exists_eq_succ_of_ne_zero (Nat.ne_of_gt (nextAlarm_pos hp hc))
  have halarm := dvd_at_nextAlarm hp hc
  rw [wrappingClock_outputs_ticks_mod, hk, List.range_succ, List.map_append, List.map_singleton,
    Nat.succ_sub_one]
  rw [hk] at halarm
  congr 1
  · rw [List.eq_replicate_iff]
    refine ⟨by rw [List.length_map, List.length_range], fun b hb => ?_⟩
    obtain ⟨j, hj, rfl⟩ := List.mem_map.mp hb
    have hlt : j + 1 < nextAlarm N p c := by
      rw [hk]
      exact Nat.succ_lt_succ (List.mem_range.mp hj)
    exact decide_eq_false (not_dvd_before_nextAlarm (Nat.succ_pos j) hlt)
  · rw [decide_eq_true halarm]

/-- In a trace of ticks, any two consecutive alarms are a given number of ticks apart. -/
def AlarmsApart (gap : ℕ) (alarms : List Bool) : Prop :=
  ∀ i j, i < j → alarms[i]? = some true → alarms[j]? = some true →
    (∀ k, i < k → k < j → alarms[k]? = some false) → i + gap = j

theorem wrappingClock_outputs_ticks_getElem? {n i : ℕ} {b : Bool} :
    ((wrappingClock N).outputs ⟨c, p⟩ (List.replicate n .tick))[i]? = some b ↔
      i < n ∧ decide (p ∣ (c + (i + 1)) % N) = b := by
  rw [wrappingClock_outputs_ticks_mod, List.getElem?_map, Option.map_eq_some_iff]
  constructor
  · intro ⟨j, hj, hb⟩
    obtain ⟨hi, rfl⟩ := List.getElem?_eq_some_iff.mp hj
    rw [List.getElem_range] at hb
    exact ⟨by rwa [List.length_range] at hi, hb⟩
  · intro ⟨hi, hb⟩
    exact ⟨i, List.getElem?_range hi, hb⟩

/-- Two consecutive alarms are as far apart as the next alarm is from the counter of the first. -/
theorem gap_eq_nextAlarm (hp : 0 < p) (hN : 0 < N) {n i j : ℕ} (hij : i < j)
    (hi : ((wrappingClock N).outputs ⟨c, p⟩ (List.replicate n .tick))[i]? = some true)
    (hj : ((wrappingClock N).outputs ⟨c, p⟩ (List.replicate n .tick))[j]? = some true)
    (hsilent : ∀ k, i < k → k < j →
      ((wrappingClock N).outputs ⟨c, p⟩ (List.replicate n .tick))[k]? = some false) :
    p ∣ (c + (i + 1)) % N ∧ i + nextAlarm N p ((c + (i + 1)) % N) = j := by
  rw [wrappingClock_outputs_ticks_getElem?] at hi hj
  have hshift (k : ℕ) : ((c + (i + 1)) % N + k) % N = (c + (i + k + 1)) % N := by
    rw [Nat.mod_add_mod, Nat.add_assoc, Nat.add_right_comm i 1 k]
  have hgap : j - i = nextAlarm N p ((c + (i + 1)) % N) := by
    refine eq_nextAlarm hp (Nat.mod_lt _ hN) (Nat.sub_pos_of_lt hij) ?_ fun k hk hlt => ?_
    · rw [hshift, Nat.add_sub_cancel' hij.le]
      exact of_decide_eq_true hj.2
    · have hk' := hsilent (i + k) (by omega) (by omega)
      rw [wrappingClock_outputs_ticks_getElem?] at hk'
      rw [hshift]
      exact of_decide_eq_false hk'.2
  exact ⟨of_decide_eq_true hi.2, by omega⟩

/-- As many consecutive ticks as the period is long always include an alarm. -/
theorem exists_alarm_in_window (hp : 0 < p) (hN : 0 < N) {n start : ℕ} (hn : start + p ≤ n) :
    ∃ i, start ≤ i ∧ i < start + p ∧
      ((wrappingClock N).outputs ⟨c, p⟩ (List.replicate n .tick))[i]? = some true := by
  have hlt : (c + start) % N < N := Nat.mod_lt _ hN
  obtain ⟨k, hk⟩ := Nat.exists_eq_succ_of_ne_zero (Nat.ne_of_gt (nextAlarm_pos hp hlt))
  have hle : k.succ ≤ p := by
    rw [← hk]
    exact nextAlarm_le_period
  have hdvd := dvd_at_nextAlarm hp hlt
  rw [hk, Nat.mod_add_mod, Nat.succ_eq_add_one, Nat.add_assoc, ← Nat.add_assoc start] at hdvd
  refine ⟨start + k, Nat.le_add_right _ _, by omega, ?_⟩
  rw [wrappingClock_outputs_ticks_getElem?]
  exact ⟨by omega, decide_eq_true hdvd⟩

/-- Alarms are one period apart from every counter exactly when the period divides the modulus:
otherwise the gap over the wrap is the remainder of the modulus. -/
theorem alarmsApart_iff_dvd (hp : 0 < p) (hN : p < N) :
    (∀ c < N, ∀ n, AlarmsApart p ((wrappingClock N).outputs ⟨c, p⟩ (List.replicate n .tick))) ↔
      p ∣ N := by
  constructor
  · intro hapart
    by_contra hndvd
    -- from just before the last multiple, the first tick alarms and the wrap is the next alarm
    have hrem : 0 < N % p := Nat.pos_of_ne_zero fun h => hndvd (Nat.dvd_of_mod_eq_zero h)
    have hlast : p ≤ p * (N / p) := Nat.le_mul_of_pos_right p (Nat.div_pos hN.le hp)
    have hdiv := Nat.div_add_mod N p
    have hstart : p * (N / p) - 1 < N := by omega
    have hnext := nextAlarm_of_last (N := N) hp
    have hcount (k : ℕ) : p * (N / p) - 1 + (k + 1) = p * (N / p) + k := by omega
    have hgap := hapart _ hstart (N % p + 1) 0 (N % p) hrem
    simp only [wrappingClock_outputs_ticks_getElem?, hcount] at hgap
    have hrest := hgap ⟨Nat.succ_pos _, decide_eq_true ?_⟩ ⟨Nat.lt_succ_self _, decide_eq_true ?_⟩
      fun k hk hlt => ⟨by omega, decide_eq_false ?_⟩
    · exact absurd (Nat.mod_lt N hp) (by omega)
    · rw [Nat.add_zero, Nat.mod_eq_of_lt (by omega)]
      exact Nat.dvd_mul_right p _
    · rw [hdiv, Nat.mod_self]
      exact Nat.dvd_zero p
    · exact not_dvd_before_nextAlarm hk (by rwa [hnext])
  · intro hdvd c hc n i j hij hi hj hsilent
    have hNpos : 0 < N := Nat.zero_lt_of_lt hN
    obtain ⟨hmultiple, hgap⟩ := gap_eq_nextAlarm hp hNpos hij hi hj hsilent
    rwa [nextAlarm_of_dvd hdvd (Nat.mod_lt _ hNpos) hmultiple] at hgap

end Traces

end Firefly.Foundation
