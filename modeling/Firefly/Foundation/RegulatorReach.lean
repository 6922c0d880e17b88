import Firefly.Foundation.StepRegulator
import Mathlib.Data.Nat.ModEq

/-!
# The amounts that a regulator can reach

Raising and lowering keep an amount in its residue class modulo the step, and presetting moves it
to the class of the preset. A raise is only made below the limit, so no amount gets a whole step
past it.

Nothing else holds the regulator back: every positive amount of the two classes that lies less
than a step past the limit is reached by some run.
-/

namespace Firefly.Foundation.Regulator

variable {g : Regulator} {start a x k : ℕ}

/-- Positive, less than a step past the limit, and in the class of the start or of the preset. -/
structure InReach (g : Regulator) (start x : ℕ) : Prop where
  pos : 0 < x
  lt : x < g.limit + g.step
  residue : x ≡ start [MOD g.step] ∨ x ≡ g.least [MOD g.step]

/-- No adjustment leaves the reach. -/
theorem InReach.adjust (hleast : g.least < g.limit + g.step) (h : g.InReach start x)
    (op : Adjustment) : g.InReach start (g.adjust op x) := by
  obtain ⟨hpos, hlt, hresidue⟩ := h
  cases op with
  | increase =>
    rcases Nat.lt_or_ge x g.limit with hroom | hfull
    · rw [increase_of_lt hroom]
      have hclass : x + g.step ≡ x [MOD g.step] := Nat.add_mod_right x g.step
      exact ⟨by omega, by omega, hresidue.imp hclass.trans hclass.trans⟩
    · rw [increase_of_le hfull]
      exact ⟨hpos, hlt, hresidue⟩
  | decrease =>
    rcases Nat.lt_or_ge g.step x with hmore | hle
    · rw [decrease_of_lt hmore]
      have hclass : x - g.step ≡ x [MOD g.step] := (Nat.mod_eq_sub_mod hmore.le).symm
      exact ⟨by omega, by omega, hresidue.imp hclass.trans hclass.trans⟩
    · rw [decrease_of_le hle]
      exact ⟨hpos, hlt, hresidue⟩
  | maintain => exact ⟨hpos, hlt, hresidue⟩
  | setLeast => exact ⟨g.least_pos, hleast, .inr rfl⟩

/-- Lowering takes a positive amount back by any number of steps. -/
theorem after_decreases (ha : 0 < a) (k : ℕ) :
    g.machine.after (a + g.step * k) (List.replicate k .decrease) = a := by
  induction k with
  | zero => rfl
  | succ k ih =>
    have hnext : a + g.step * (k + 1) = a + g.step * k + g.step := by
      rw [Nat.mul_succ, Nat.add_assoc]
    have hmore : g.step < a + g.step * (k + 1) := by omega
    rw [List.replicate_succ, Mealy.after_cons]
    change g.machine.after (g.adjust .decrease _) _ = a
    rw [decrease_of_lt hmore, hnext, Nat.add_sub_cancel, ih]

/-- From an amount within the reach, every amount of its class within the reach is reached by
raises or lowerings alone. -/
theorem exists_after_eq (hx : 0 < x) (hlt : x < g.limit + g.step)
    (hclass : x ≡ a [MOD g.step]) : ∃ ops, g.machine.after a ops = x := by
  rcases Nat.le_total a x with hle | hle
  · obtain ⟨k, hk⟩ := (Nat.modEq_iff_dvd' hle).mp hclass.symm
    refine ⟨List.replicate k .increase, ?_⟩
    rw [after_increases]
    · omega
    · intro j hj
      have hstep := Nat.mul_le_mul_left g.step (Nat.succ_le_of_lt hj)
      rw [Nat.mul_succ] at hstep
      omega
  · obtain ⟨k, hk⟩ := (Nat.modEq_iff_dvd' hle).mp hclass
    refine ⟨List.replicate k .decrease, ?_⟩
    rw [show a = x + g.step * k by omega]
    exact after_decreases hx k

/-- The amounts that some run reaches are those within the reach. -/
theorem exists_after_eq_iff (hstart : 0 < start) (hlimit : start < g.limit + g.step)
    (hleast : g.least < g.limit + g.step) :
    (∃ ops, g.machine.after start ops = x) ↔ g.InReach start x := by
  constructor
  · rintro ⟨ops, rfl⟩
    exact g.machine.after_invariant (P := fun _ => True) (I := g.InReach start)
      (fun _ op _ hs => hs.adjust hleast op) (fun _ _ => trivial) ⟨hstart, hlimit, .inl rfl⟩
  · rintro ⟨hpos, hlt, hclass | hclass⟩
    · exact exists_after_eq hpos hlt hclass
    · obtain ⟨ops, hops⟩ := exists_after_eq hpos hlt hclass
      exact ⟨.setLeast :: ops, hops⟩

end Firefly.Foundation.Regulator
