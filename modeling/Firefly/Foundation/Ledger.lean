import Firefly.Foundation.Mealy
import Mathlib.Algebra.BigOperators.Group.List.Basic
import Mathlib.Algebra.FreeMonoid.Basic

/-!
# Ledgers

A store is in balance when each step accounts for what it does to it: what was held and what came
in is what went out and what is held then. Over a whole run the entries of the steps add up.

The amounts form any additive monoid, so a ledger may count items, or list them in the order in
which they come and go.
-/

namespace Firefly.Foundation

variable {σ ι ω A α : Type*}

/-- Each admitted step keeps an invariant, and under it the store is in balance. -/
structure Mealy.Ledger [AddMonoid A] (m : Mealy σ ι ω) (P : ι → Prop) (I : σ → Prop)
    (held : σ → A) (came went : ω → A) : Prop where
  step : ∀ s i, P i → I s → I (m.step s i).1 ∧
    held s + came (m.step s i).2 = went (m.step s i).2 + held (m.step s i).1

namespace Mealy.Ledger

variable {m : Mealy σ ι ω} {P : ι → Prop} {I : σ → Prop} {s : σ} {inputs : List ι}

/-- The state that an admitted run leaves satisfies the invariant. -/
theorem after [AddMonoid A] {held : σ → A} {came went : ω → A}
    (h : m.Ledger P I held came went) (hinputs : ∀ i ∈ inputs, P i) (hs : I s) :
    I (m.after s inputs) :=
  m.after_invariant (fun s i hi hs => (h.step s i hi hs).1) hinputs hs

/-- Over an admitted run the store is in balance. -/
theorem run [AddMonoid A] {held : σ → A} {came went : ω → A}
    (h : m.Ledger P I held came went) (hinputs : ∀ i ∈ inputs, P i) (hs : I s) :
    held s + ((m.outputs s inputs).map came).sum =
      ((m.outputs s inputs).map went).sum + held (m.after s inputs) := by
  induction inputs generalizing s with
  | nil => rw [outputs_nil, List.map_nil, List.map_nil, List.sum_nil, add_zero, zero_add]; rfl
  | cons i rest ih =>
    obtain ⟨hnow, hrest⟩ := List.forall_mem_cons.mp hinputs
    obtain ⟨hnext, hbalance⟩ := h.step s i hnow hs
    rw [outputs_cons, after_cons, List.map_cons, List.map_cons, List.sum_cons, List.sum_cons,
      ← add_assoc, hbalance, add_assoc, ih hrest hnext, add_assoc]

/-- A ledger that lists the items: they go out in the order in which they came in. -/
theorem run_list {held : σ → List α} {came went : ω → List α}
    (h : m.Ledger P I (fun s => FreeAddMonoid.ofList (held s))
      (fun o => FreeAddMonoid.ofList (came o)) fun o => FreeAddMonoid.ofList (went o))
    (hinputs : ∀ i ∈ inputs, P i) (hs : I s) :
    held s ++ (m.outputs s inputs).flatMap came =
      (m.outputs s inputs).flatMap went ++ held (m.after s inputs) := by
  have hrun := congrArg FreeAddMonoid.toList (h.run hinputs hs)
  have hsum (entry : ω → List α) (os : List ω) :
      FreeAddMonoid.toList (os.map fun o => FreeAddMonoid.ofList (entry o)).sum =
        os.flatMap entry := by
    rw [FreeAddMonoid.toList_sum, List.map_map, List.flatMap]
    rfl
  rwa [FreeAddMonoid.toList_add, FreeAddMonoid.toList_add, hsum, hsum] at hrun

end Mealy.Ledger

end Firefly.Foundation
