import Firefly.Foundation.Mealy
import Mathlib.Algebra.Order.Floor.Div

/-!
# Regulators that move in fixed steps

A regulator raises an amount by a step while it is below a limit, lowers it by the same step
while more than a step is left, and can preset it. The amounts are unbounded numbers here.

The amount stays positive, an effective raise is undone by lowering, and lowering alone settles
within a step of zero. The guard of a raise looks at the amount before the step, so the limit
itself is kept only by raises that have room.
-/

namespace Firefly.Foundation

/-- The ways to adjust a regulated amount. -/
inductive Adjustment
  | increase
  | decrease
  | maintain
  | setLeast
  deriving DecidableEq, Repr

/-- The constants of a regulator; neither the step nor the preset is zero. -/
structure Regulator where
  limit : ℕ
  step : ℕ
  least : ℕ
  step_pos : 0 < step
  least_pos : 0 < least

namespace Regulator

variable {g : Regulator} {a k : ℕ} {op : Adjustment}

/-- One adjustment. -/
def adjust (g : Regulator) : Adjustment → ℕ → ℕ
  | .increase, a => if a < g.limit then a + g.step else a
  | .decrease, a => if g.step < a then a - g.step else a
  | .maintain, a => a
  | .setLeast, _ => g.least

/-- Adjustments one after the other; each answers with the amount it leaves. -/
def machine (g : Regulator) : Mealy ℕ Adjustment ℕ where
  step a op := (g.adjust op a, g.adjust op a)

theorem increase_of_lt (h : a < g.limit) : g.adjust .increase a = a + g.step := if_pos h

theorem increase_of_le (h : g.limit ≤ a) : g.adjust .increase a = a := if_neg (Nat.not_lt_of_le h)

theorem decrease_of_lt (h : g.step < a) : g.adjust .decrease a = a - g.step := if_pos h

theorem decrease_of_le (h : a ≤ g.step) : g.adjust .decrease a = a := if_neg (Nat.not_lt_of_le h)

/-- No adjustment lets the amount vanish. -/
theorem adjust_pos (op : Adjustment) (ha : 0 < a) : 0 < g.adjust op a := by
  cases op with
  | increase =>
    rcases Nat.lt_or_ge a g.limit with hlt | hge
    · rw [increase_of_lt hlt]
      exact Nat.add_pos_left ha _
    · rwa [increase_of_le hge]
  | decrease =>
    rcases Nat.lt_or_ge g.step a with hmore | hle
    · rw [decrease_of_lt hmore]
      exact Nat.sub_pos_of_lt hmore
    · rwa [decrease_of_le hle]
  | maintain => exact ha
  | setLeast => exact g.least_pos

/-- No run lets the amount vanish. -/
theorem after_pos (ha : 0 < a) (ops : List Adjustment) : 0 < g.machine.after a ops :=
  g.machine.after_invariant (P := fun _ => True) (fun _ op _ ha => adjust_pos op ha)
    (fun _ _ => trivial) ha

/-- Lowering undoes a raise that had an effect. -/
theorem decrease_increase (ha : 0 < a) (h : g.adjust .increase a ≠ a) :
    g.adjust .decrease (g.adjust .increase a) = a := by
  have hlt : a < g.limit := Nat.lt_of_not_le fun hge => h (increase_of_le hge)
  rw [increase_of_lt hlt, decrease_of_lt (Nat.lt_add_of_pos_left ha), Nat.add_sub_cancel]

section Settling

/-- How often an amount can be lowered. -/
def settlingSteps (g : Regulator) (a : ℕ) : ℕ := a ⌈/⌉ g.step - 1

theorem lt_settlingSteps_iff : k < g.settlingSteps a ↔ g.step * (k + 1) < a := by
  have hgalois : a ⌈/⌉ g.step ≤ k + 1 ↔ a ≤ g.step * (k + 1) := ceilDiv_le_iff_le_mul g.step_pos
  unfold settlingSteps
  omega

/-- As long as more than a step is left, lowering takes off a step each time. -/
theorem decrease_iterate_add (h : k ≤ g.settlingSteps a) :
    (g.adjust .decrease)^[k] a + g.step * k = a := by
  induction k with
  | zero => rw [Function.iterate_zero_apply, Nat.mul_zero, Nat.add_zero]
  | succ k ih =>
    have hsum := ih (Nat.le_of_succ_le h)
    have hlt := lt_settlingSteps_iff.mp h
    rw [Nat.mul_add, Nat.mul_one] at hlt
    have hmore : g.step < (g.adjust .decrease)^[k] a := by omega
    rw [Function.iterate_succ_apply', decrease_of_lt hmore, Nat.mul_add, Nat.mul_one]
    omega

theorem decrease_iterate_succ (h : k < g.settlingSteps a) :
    (g.adjust .decrease)^[k + 1] a + g.step = (g.adjust .decrease)^[k] a := by
  have hnow := decrease_iterate_add (Nat.le_of_lt h)
  have hnext := decrease_iterate_add (Nat.succ_le_of_lt h)
  rw [Nat.succ_eq_add_one, Nat.mul_add, Nat.mul_one] at hnext
  omega

/-- After the settling steps the amount has settled: what is left is positive, at most a step, and
stays. -/
theorem decrease_iterate_settled (ha : 0 < a) :
    ∃ b, 0 < b ∧ b ≤ g.step ∧
      ∀ k, g.settlingSteps a ≤ k → (g.adjust .decrease)^[k] a = b := by
  have hsum := decrease_iterate_add (le_refl (g.settlingSteps a))
  have hend : ¬ g.step * (g.settlingSteps a + 1) < a :=
    fun h => Nat.lt_irrefl _ (lt_settlingSteps_iff.mpr h)
  rw [Nat.mul_add, Nat.mul_one] at hend
  have hle : (g.adjust .decrease)^[g.settlingSteps a] a ≤ g.step := by omega
  refine ⟨_, ?_, hle, fun k hk => ?_⟩
  · rcases Nat.eq_zero_or_pos (g.settlingSteps a) with hzero | hpos
    · rwa [hzero]
    · have hlast := lt_settlingSteps_iff.mp (Nat.sub_lt hpos Nat.one_pos)
      rw [Nat.sub_add_cancel hpos] at hlast
      omega
  · obtain ⟨n, rfl⟩ := Nat.exists_eq_add_of_le hk
    rw [Nat.add_comm, Function.iterate_add_apply]
    exact Function.iterate_fixed (decrease_of_le hle) n

end Settling

section Limit

/-- A raise of this amount does not pass the limit: it is refused, or there is room for it. -/
def HasRoom (g : Regulator) (a : ℕ) : Prop := g.limit ≤ a ∨ a + g.step ≤ g.limit

theorem increase_le_limit_iff (ha : a ≤ g.limit) :
    g.adjust .increase a ≤ g.limit ↔ g.HasRoom a := by
  rcases Nat.lt_or_ge a g.limit with hlt | hge
  · rw [increase_of_lt hlt]
    exact (or_iff_right (Nat.not_le_of_lt hlt)).symm
  · rw [increase_of_le hge]
    exact iff_of_true ha (.inl hge)

/-- Only a raise without room takes the amount past the limit. -/
theorem adjust_le_limit (hleast : g.least ≤ g.limit) (ha : a ≤ g.limit)
    (hroom : op = .increase → g.HasRoom a) : g.adjust op a ≤ g.limit := by
  cases op with
  | increase => exact (increase_le_limit_iff ha).mpr (hroom rfl)
  | decrease =>
    rcases Nat.lt_or_ge g.step a with hmore | hle
    · rw [decrease_of_lt hmore]
      exact (Nat.sub_le _ _).trans ha
    · rwa [decrease_of_le hle]
  | maintain => exact ha
  | setLeast => exact hleast

/-- A run stays within the limit exactly when all its raises have room. -/
theorem after_le_limit_iff (hleast : g.least ≤ g.limit) (ha : a ≤ g.limit)
    (ops : List Adjustment) :
    (∀ before rest, ops = before ++ rest → g.machine.after a before ≤ g.limit) ↔
      ∀ before rest, ops = before ++ .increase :: rest →
        g.HasRoom (g.machine.after a before) := by
  constructor
  · intro h before rest hops
    have hbefore := h before _ hops
    have hraised := h (before ++ [.increase]) rest (by rw [hops, List.append_assoc]; rfl)
    rw [Mealy.after_append] at hraised
    exact (increase_le_limit_iff hbefore).mp hraised
  · intro h before
    induction before using List.reverseRecOn with
    | nil =>
      intro _ _
      exact ha
    | append_singleton before op ih =>
      intro rest hops
      rw [List.append_assoc, List.singleton_append] at hops
      rw [Mealy.after_append]
      refine adjust_le_limit hleast (ih _ hops) fun hop => ?_
      subst hop
      exact h before rest hops

/-- Raises add up until the limit is reached. -/
theorem after_increases (h : ∀ j < k, a + g.step * j < g.limit) :
    g.machine.after a (List.replicate k .increase) = a + g.step * k := by
  induction k with
  | zero => rfl
  | succ k ih =>
    have hrun := ih fun j hj => h j (Nat.lt_succ_of_lt hj)
    rw [List.replicate_succ', Mealy.after_append, hrun]
    exact (increase_of_lt (h k (Nat.lt_succ_self k))).trans (Nat.add_assoc a _ _)

/-- Raises alone pass the limit unless it lies a whole number of steps away. -/
theorem exists_increases_exceed (ha : a ≤ g.limit) (h : ¬ g.step ∣ g.limit - a) :
    ∃ k, g.limit < g.machine.after a (List.replicate k .increase) := by
  have hdiv := Nat.div_add_mod (g.limit - a) g.step
  have hrem : 0 < (g.limit - a) % g.step :=
    Nat.pos_of_ne_zero fun hzero => h (Nat.dvd_of_mod_eq_zero hzero)
  have hrun : g.machine.after a (List.replicate ((g.limit - a) / g.step + 1) .increase) =
      a + g.step * ((g.limit - a) / g.step + 1) := by
    refine after_increases fun j hj => ?_
    have hle := Nat.mul_le_mul_left g.step (Nat.le_of_lt_succ hj)
    omega
  have hlt := Nat.mod_lt (g.limit - a) g.step_pos
  refine ⟨(g.limit - a) / g.step + 1, ?_⟩
  rw [hrun, Nat.mul_add, Nat.mul_one]
  omega

end Limit

end Regulator

end Firefly.Foundation
