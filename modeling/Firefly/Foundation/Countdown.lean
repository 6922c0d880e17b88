import Firefly.Foundation.Mealy

/-!
# Counting down to the next loud step

A step of a machine is quiet or loud. A countdown assigns to a state the number of quiet steps
still to come: every quiet step uses up one of them, and as long as one is left, some admitted
input is quiet.

The number counted down is then the length of the longest quiet run, and every longer run has a
loud step in it.
-/

namespace Firefly.Foundation.Mealy

variable {σ ι ω : Type*} {m : Mealy σ ι ω} {P : ι → Prop} {quiet : ω → Prop}
  {left : σ → ℕ → Prop} {s : σ} {k len : ℕ} {inputs : List ι}

/-- How many quiet steps are left in a state. -/
structure Countdown (m : Mealy σ ι ω) (P : ι → Prop) (quiet : ω → Prop)
    (left : σ → ℕ → Prop) : Prop where
  /-- A quiet step takes one off. -/
  pays : ∀ {s i k}, left s k → P i → quiet (m.step s i).2 →
    ∃ rest, k = rest + 1 ∧ left (m.step s i).1 rest
  /-- While any is left, some admitted input is quiet. -/
  affords : ∀ {s k}, left s (k + 1) → ∃ i, P i ∧ quiet (m.step s i).2

/-- A quiet run is no longer than the countdown. -/
theorem Countdown.length_le (h : Countdown m P quiet left) (hs : left s k)
    (hinputs : ∀ i ∈ inputs, P i) (hquiet : ∀ o ∈ m.outputs s inputs, quiet o) :
    inputs.length ≤ k := by
  induction inputs generalizing s k with
  | nil => exact Nat.zero_le k
  | cons i later ih =>
    rw [List.forall_mem_cons] at hinputs
    rw [outputs_cons, List.forall_mem_cons] at hquiet
    obtain ⟨rest, rfl, hrest⟩ := h.pays hs hinputs.1 hquiet.1
    exact Nat.succ_le_succ (ih hrest hinputs.2 hquiet.2)

/-- A quiet run of every length up to the countdown exists. -/
theorem Countdown.exists_quiet (h : Countdown m P quiet left) (hs : left s k) (hlen : len ≤ k) :
    ∃ inputs : List ι, inputs.length = len ∧ (∀ i ∈ inputs, P i) ∧
      ∀ o ∈ m.outputs s inputs, quiet o := by
  induction len generalizing s k with
  | zero => exact ⟨[], rfl, nofun, nofun⟩
  | succ len ih =>
    obtain ⟨k, rfl⟩ := Nat.exists_eq_succ_of_ne_zero (Nat.ne_of_gt (Nat.zero_lt_of_lt hlen))
    obtain ⟨i, hi, hquiet⟩ := h.affords hs
    obtain ⟨rest, hrest, hleft⟩ := h.pays hs hi hquiet
    cases hrest
    obtain ⟨later, rfl, hlater, hlaterQuiet⟩ := ih hleft (Nat.le_of_succ_le_succ hlen)
    exact ⟨i :: later, rfl, List.forall_mem_cons.mpr ⟨hi, hlater⟩,
      List.forall_mem_cons.mpr ⟨hquiet, hlaterQuiet⟩⟩

/-- The countdown is the length of the longest quiet run. -/
theorem Countdown.exists_quiet_iff (h : Countdown m P quiet left) (hs : left s k) :
    (∃ inputs : List ι, inputs.length = len ∧ (∀ i ∈ inputs, P i) ∧
      ∀ o ∈ m.outputs s inputs, quiet o) ↔ len ≤ k := by
  constructor
  · rintro ⟨inputs, rfl, hinputs, hquiet⟩
    exact h.length_le hs hinputs hquiet
  · exact h.exists_quiet hs

/-- A run of which every step is quiet has only quiet outputs. -/
theorem forall_outputs_of_split {Q : ω → Prop}
    (h : ∀ before i later, inputs = before ++ i :: later →
      Q (m.step (m.after s before) i).2) : ∀ o ∈ m.outputs s inputs, Q o := by
  induction inputs generalizing s with
  | nil => exact nofun
  | cons i rest ih =>
    rw [outputs_cons, List.forall_mem_cons]
    refine ⟨h [] i rest rfl, ih fun before j later hrest => ?_⟩
    exact h (i :: before) j later (by rw [hrest, List.cons_append])

/-- A run longer than the countdown has a loud step. -/
theorem Countdown.exists_loud (h : Countdown m P quiet left) (hs : left s k)
    (hinputs : ∀ i ∈ inputs, P i) (hlen : k < inputs.length) :
    ∃ before i later, inputs = before ++ i :: later ∧
      ¬ quiet (m.step (m.after s before) i).2 := by
  by_contra hnone
  push Not at hnone
  exact Nat.not_le_of_lt hlen (h.length_le hs hinputs (forall_outputs_of_split hnone))

end Firefly.Foundation.Mealy
