import Mathlib.Data.List.Forall2
import Mathlib.Data.List.Basic

/-!
# Deterministic machines that answer every input

A machine consumes a finite input sequence and leaves a state and one output per input.
Invariants, simulations and observations are proved for a single step and lifted to every
run by the rules collected here.

A routine that can stop with a fault becomes a machine whose stopped states absorb all
later inputs silently. Nothing in this file depends on what the states or inputs are.
-/

namespace Firefly.Foundation

/-- A deterministic machine: every input leaves a new state and one output. -/
structure Mealy (σ ι ω : Type*) where
  step : σ → ι → σ × ω

namespace Mealy

variable {σ ι ω σ' ι' ω' : Type*}

/-- The state left by a finite input sequence. -/
def after (m : Mealy σ ι ω) : σ → List ι → σ
  | s, [] => s
  | s, i :: rest => m.after (m.step s i).1 rest

/-- The outputs of a finite input sequence, one for each input. -/
def outputs (m : Mealy σ ι ω) : σ → List ι → List ω
  | _, [] => []
  | s, i :: rest => (m.step s i).2 :: m.outputs (m.step s i).1 rest

@[simp] theorem after_nil (m : Mealy σ ι ω) (s : σ) : m.after s [] = s := rfl

@[simp] theorem after_cons (m : Mealy σ ι ω) (s : σ) (i : ι) (rest : List ι) :
    m.after s (i :: rest) = m.after (m.step s i).1 rest := rfl

@[simp] theorem outputs_nil (m : Mealy σ ι ω) (s : σ) : m.outputs s [] = [] := rfl

@[simp] theorem outputs_cons (m : Mealy σ ι ω) (s : σ) (i : ι) (rest : List ι) :
    m.outputs s (i :: rest) = (m.step s i).2 :: m.outputs (m.step s i).1 rest := rfl

/-- A run over two consecutive sequences continues from the state the first one leaves. -/
theorem after_append (m : Mealy σ ι ω) (s : σ) (first second : List ι) :
    m.after s (first ++ second) = m.after (m.after s first) second := by
  induction first generalizing s with
  | nil => rfl
  | cons i rest ih => exact ih (m.step s i).1

/-- The outputs of two consecutive sequences are those of the parts, in order. -/
theorem outputs_append (m : Mealy σ ι ω) (s : σ) (first second : List ι) :
    m.outputs s (first ++ second) = m.outputs s first ++ m.outputs (m.after s first) second := by
  induction first generalizing s with
  | nil => rfl
  | cons i rest ih => simp only [List.cons_append, outputs_cons, after_cons, ih]

/-- Every input is answered exactly once. -/
@[simp] theorem outputs_length (m : Mealy σ ι ω) (s : σ) (inputs : List ι) :
    (m.outputs s inputs).length = inputs.length := by
  induction inputs generalizing s with
  | nil => rfl
  | cons i rest ih => simp [ih]

/-- The output at a position is that of one step from the state that the earlier inputs leave. -/
theorem outputs_getElem? (m : Mealy σ ι ω) (s : σ) (inputs : List ι) (k : ℕ) :
    (m.outputs s inputs)[k]? =
      inputs[k]?.map fun i => (m.step (m.after s (inputs.take k)) i).2 := by
  induction inputs generalizing s k with
  | nil => rfl
  | cons i rest ih =>
    cases k with
    | zero => rfl
    | succ k =>
      rw [outputs_cons, List.getElem?_cons_succ, List.getElem?_cons_succ, List.take_succ_cons,
        after_cons, ih]

/-- The outputs of the second of two sequences stand behind those of the first. -/
theorem outputs_append_getElem? (m : Mealy σ ι ω) (s : σ) (first second : List ι) (k : ℕ) :
    (m.outputs s (first ++ second))[first.length + k]? =
      (m.outputs (m.after s first) second)[k]? := by
  rw [outputs_append, List.getElem?_append_right (by simp), outputs_length,
    Nat.add_sub_cancel_left]

/-- What every admitted step preserves holds after every run of admitted inputs. -/
theorem after_invariant (m : Mealy σ ι ω) {P : ι → Prop} {I : σ → Prop}
    (hstep : ∀ s i, P i → I s → I (m.step s i).1) {s : σ} {inputs : List ι}
    (hinputs : ∀ i ∈ inputs, P i) (hs : I s) : I (m.after s inputs) := by
  induction inputs generalizing s with
  | nil => exact hs
  | cons i rest ih =>
    rw [List.forall_mem_cons] at hinputs
    exact ih hinputs.2 (hstep s i hinputs.1 hs)

/-- A property of the outputs that each admitted step has under an invariant, every run has. -/
theorem outputs_invariant (m : Mealy σ ι ω) {P : ι → Prop} {I : σ → Prop} {Q : ω → Prop}
    (hstep : ∀ s i, P i → I s → I (m.step s i).1 ∧ Q (m.step s i).2) {s : σ} {inputs : List ι}
    (hinputs : ∀ i ∈ inputs, P i) (hs : I s) : ∀ o ∈ m.outputs s inputs, Q o := by
  induction inputs generalizing s with
  | nil => simp
  | cons i rest ih =>
    rw [List.forall_mem_cons] at hinputs
    have hnow := hstep s i hinputs.1 hs
    rw [outputs_cons, List.forall_mem_cons]
    exact ⟨hnow.2, ih hinputs.2 hnow.1⟩

/-- `R` relates two machines step by step: from related states, related inputs leave related
states and related outputs. -/
structure Simulation (m : Mealy σ ι ω) (m' : Mealy σ' ι' ω') (In : ι → ι' → Prop)
    (Out : ω → ω' → Prop) (R : σ → σ' → Prop) : Prop where
  step : ∀ {s s' i i'}, R s s' → In i i' →
    R (m.step s i).1 (m'.step s' i').1 ∧ Out (m.step s i).2 (m'.step s' i').2

section Simulation

variable {m : Mealy σ ι ω} {m' : Mealy σ' ι' ω'} {In : ι → ι' → Prop} {Out : ω → ω' → Prop}
  {R : σ → σ' → Prop} {s : σ} {s' : σ'} {is : List ι} {is' : List ι'}

/-- Related runs end in related states. -/
theorem Simulation.after (h : Simulation m m' In Out R) (hs : R s s')
    (his : List.Forall₂ In is is') : R (m.after s is) (m'.after s' is') := by
  induction his generalizing s s' with
  | nil => exact hs
  | cons hi _ ih => exact ih (h.step hs hi).1

/-- Related runs give related outputs, position by position. -/
theorem Simulation.outputs (h : Simulation m m' In Out R) (hs : R s s')
    (his : List.Forall₂ In is is') : List.Forall₂ Out (m.outputs s is) (m'.outputs s' is') := by
  induction his generalizing s s' with
  | nil => exact .nil
  | cons hi _ ih => exact .cons (h.step hs hi).2 (ih (h.step hs hi).1)

/-- Where the related outputs are those with equal observations, whole runs look the same. -/
theorem Simulation.outputs_map_eq {α : Type*} {f : ω → α} {g : ω' → α}
    (h : Simulation m m' In (fun o o' => f o = g o') R) (hs : R s s')
    (his : List.Forall₂ In is is') : (m.outputs s is).map f = (m'.outputs s' is').map g := by
  have hrun := h.outputs hs his
  rwa [← List.forall₂_eq_eq_eq, List.forall₂_map_left_iff, List.forall₂_map_right_iff]

end Simulation

/-- The machine of a routine that may stop: a stopped state absorbs every later input. -/
def ofExcept {ε : Type*} (f : σ → ι → Except ε (σ × List ω)) : Mealy (Except ε σ) ι (List ω) where
  step
    | .error e, _ => (.error e, [])
    | .ok s, i =>
      match f s i with
      | .error e => (.error e, [])
      | .ok (s', o) => (.ok s', o)

section OfExcept

variable {ε : Type*} {f : σ → ι → Except ε (σ × List ω)}

/-- A routine that returns moves its machine to the returned state. -/
theorem ofExcept_step_ok {s s' : σ} {i : ι} {o : List ω} (h : f s i = .ok (s', o)) :
    (ofExcept f).step (.ok s) i = (.ok s', o) := by
  simp only [ofExcept, h]

/-- A routine that stops leaves its machine stopped and silent. -/
theorem ofExcept_step_fault {s : σ} {i : ι} {e : ε} (h : f s i = .error e) :
    (ofExcept f).step (.ok s) i = (.error e, []) := by
  simp only [ofExcept, h]

/-- A machine step that is not stopped was a return of the routine. -/
theorem ofExcept_step_inv {s s' : σ} {i : ι}
    (h : ((ofExcept f).step (.ok s) i).1 = .ok s') :
    f s i = .ok (s', ((ofExcept f).step (.ok s) i).2) := by
  cases hf : f s i with
  | error e => rw [ofExcept_step_fault hf] at h; cases h
  | ok result =>
    obtain ⟨next, o⟩ := result
    rw [ofExcept_step_ok hf] at h ⊢
    cases h
    rfl

@[simp] theorem ofExcept_step_error (e : ε) (i : ι) :
    (ofExcept f).step (.error e) i = (.error e, []) := rfl

/-- A stopped machine stays stopped. -/
@[simp] theorem ofExcept_after_error (e : ε) (inputs : List ι) :
    (ofExcept f).after (.error e) inputs = .error e := by
  induction inputs with
  | nil => rfl
  | cons i rest ih => rw [after_cons, ofExcept_step_error, ih]

/-- A stopped machine is silent. -/
@[simp] theorem ofExcept_outputs_error (e : ε) (inputs : List ι) :
    (ofExcept f).outputs (.error e) inputs = List.replicate inputs.length [] := by
  induction inputs with
  | nil => rfl
  | cons i rest ih =>
    rw [outputs_cons, ofExcept_step_error, ih, List.length_cons, List.replicate_succ]

end OfExcept

end Mealy

end Firefly.Foundation
