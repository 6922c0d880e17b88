import Firefly.Foundation.Mealy
import Firefly.Foundation.PeriodicAlarm

/-!
# Ideal and wrapping alarm clocks

A clock holds a counter and a period, and a tick alarms when the counter it reaches is a
multiple of the period. Besides ticking it can be advanced, set back to zero under a new
period, or given a new period while the counter stands.

The ideal clock counts without bound; the wrapping one reduces its counter modulo `N` after
every operation. Wrapping is invisible as long as every period in force divides `N`, and two
clocks stay together under common operations exactly when they agree modulo their period and
modulo the longest period that can be installed without setting the counter.
-/

namespace Firefly.Foundation

/-- A counter and the period at whose multiples it alarms. -/
structure Clock where
  counter : ℕ
  period : ℕ
  deriving DecidableEq, Repr

/-- What can happen to a clock. -/
inductive ClockOp
  | idle
  | tick
  | advance (ticks : ℕ)
  | reset (period : ℕ)
  | retime (period : ℕ)
  deriving DecidableEq, Repr

namespace ClockOp

/-- The operation on an unbounded counter. -/
def apply : ClockOp → Clock → Clock
  | .idle, c => c
  | .tick, c => { c with counter := c.counter + 1 }
  | .advance ticks, c => { c with counter := c.counter + ticks }
  | .reset period, _ => { counter := 0, period := period }
  | .retime period, c => { c with period := period }

/-- Only a tick alarms, and only when it reaches a multiple of the period. -/
def alarms : ClockOp → Clock → Bool
  | .tick, c => decide (c.period ∣ c.counter)
  | _, _ => false

/-- The periods an operation sets together with the counter all divide `N`, and those it sets
over a standing counter all divide `L`. -/
def Installs (N L : ℕ) : ClockOp → Prop
  | .reset period => period ∣ N
  | .retime period => period ∣ L
  | _ => True

theorem Installs.mono {N N' L L' : ℕ} {op : ClockOp} (h : op.Installs N L) (hN : N ∣ N')
    (hL : L ∣ L') : op.Installs N' L' := by
  cases op with
  | reset period => exact Nat.dvd_trans h hN
  | retime period => exact Nat.dvd_trans h hL
  | _ => trivial

end ClockOp

/-- Reduce the counter modulo `N`; the period is kept. -/
def Clock.wrap (N : ℕ) (c : Clock) : Clock := { c with counter := c.counter % N }

/-- The clock with an unbounded counter. -/
def idealClock : Mealy Clock ClockOp Bool where
  step c op := (op.apply c, op.alarms (op.apply c))

/-- The clock whose counter wraps at `N`. -/
def wrappingClock (N : ℕ) : Mealy Clock ClockOp Bool where
  step c op := ((op.apply c).wrap N, op.alarms ((op.apply c).wrap N))

/-- Reducing modulo zero changes nothing, so the ideal clock is the one that never wraps. -/
theorem idealClock_eq : idealClock = wrappingClock 0 := by
  simp only [idealClock, wrappingClock, Clock.wrap, Nat.mod_zero]

section Phase

variable {A B L : ℕ}

/-- Two clocks in step: one period, dividing both moduli, and counters equal modulo the period
and modulo `L`. -/
structure InPhase (A B L : ℕ) (c d : Clock) : Prop where
  period_eq : c.period = d.period
  left_dvd : c.period ∣ A
  right_dvd : c.period ∣ B
  phase : c.counter ≡ d.counter [MOD c.period]
  frame : c.counter ≡ d.counter [MOD L]

/-- Every admitted operation keeps two clocks in step before they wrap. -/
theorem InPhase.apply {c d : Clock} (h : InPhase A B L c d) (hLA : L ∣ A) (hLB : L ∣ B)
    {op : ClockOp} (hA : op.Installs A L) (hB : op.Installs B L) :
    InPhase A B L (op.apply c) (op.apply d) := by
  obtain ⟨heq, hleft, hright, hphase, hframe⟩ := h
  cases op with
  | idle => exact ⟨heq, hleft, hright, hphase, hframe⟩
  | tick => exact ⟨heq, hleft, hright, hphase.add_right 1, hframe.add_right 1⟩
  | advance ticks => exact ⟨heq, hleft, hright, hphase.add_right ticks, hframe.add_right ticks⟩
  | reset period => exact ⟨rfl, hA, hB, rfl, rfl⟩
  | retime period => exact ⟨rfl, hA.trans hLA, hA.trans hLB, hframe.of_dvd hA, hframe⟩

/-- Wrapping at multiples of the period and of `L` keeps two clocks in step. -/
theorem InPhase.wrap {c d : Clock} (h : InPhase A B L c d) (hLA : L ∣ A) (hLB : L ∣ B) :
    InPhase A B L (c.wrap A) (d.wrap B) where
  period_eq := h.period_eq
  left_dvd := h.left_dvd
  right_dvd := h.right_dvd
  phase := ((Nat.mod_modEq _ A).of_dvd h.left_dvd).trans
    (h.phase.trans ((Nat.mod_modEq _ B).of_dvd h.right_dvd).symm)
  frame := ((Nat.mod_modEq _ A).of_dvd hLA).trans
    (h.frame.trans ((Nat.mod_modEq _ B).of_dvd hLB).symm)

/-- Clocks in step alarm together. -/
theorem InPhase.alarms_eq {c d : Clock} (h : InPhase A B L c d) (op : ClockOp) :
    op.alarms c = op.alarms d := by
  cases op with
  | tick =>
    have hiff := h.phase.dvd_iff (dvd_refl c.period)
    simp only [ClockOp.alarms, ← h.period_eq, hiff]
  | _ => rfl

/-- In step is a simulation between clocks of any two moduli, under common admitted operations. -/
theorem inPhase_simulation (hLA : L ∣ A) (hLB : L ∣ B) :
    Mealy.Simulation (wrappingClock A) (wrappingClock B)
      (fun op op' => op = op' ∧ op.Installs A L ∧ op.Installs B L) Eq (InPhase A B L) where
  step := by
    rintro c d op op' hphase ⟨rfl, hA, hB⟩
    have hnext := (hphase.apply hLA hLB hA hB).wrap hLA hLB
    exact ⟨hnext, hnext.alarms_eq op⟩

end Phase

section Runs

variable {A B L : ℕ} {c d : Clock} {ops : List ClockOp}

/-- Admitted operations are related to themselves. -/
theorem forall₂_installs (hA : ∀ op ∈ ops, op.Installs A L) (hB : ∀ op ∈ ops, op.Installs B L) :
    List.Forall₂ (fun op op' : ClockOp => op = op' ∧ op.Installs A L ∧ op.Installs B L) ops ops :=
  List.forall₂_same.mpr fun op hop => ⟨rfl, hA op hop, hB op hop⟩

/-- Clocks in step stay in step under all common admitted operations. -/
theorem InPhase.after (h : InPhase A B L c d) (hLA : L ∣ A) (hLB : L ∣ B)
    (hA : ∀ op ∈ ops, op.Installs A L) (hB : ∀ op ∈ ops, op.Installs B L) :
    InPhase A B L ((wrappingClock A).after c ops) ((wrappingClock B).after d ops) :=
  (inPhase_simulation hLA hLB).after h (forall₂_installs hA hB)

/-- Clocks in step raise the same alarms under all common admitted operations. -/
theorem InPhase.outputs_eq (h : InPhase A B L c d) (hLA : L ∣ A) (hLB : L ∣ B)
    (hA : ∀ op ∈ ops, op.Installs A L) (hB : ∀ op ∈ ops, op.Installs B L) :
    (wrappingClock A).outputs c ops = (wrappingClock B).outputs d ops := by
  have hrun := (inPhase_simulation hLA hLB).outputs h (forall₂_installs hA hB)
  rwa [List.forall₂_eq_eq_eq] at hrun

end Runs

section Ticking

/-- Ticking raises the alarm of the `j`-th tick where the wrapped counter is a multiple of the
period. -/
theorem wrappingClock_outputs_ticks_mod {N : ℕ} (k : ℕ) (c : Clock) :
    (wrappingClock N).outputs c (List.replicate k .tick) =
      (List.range k).map fun j => decide (c.period ∣ (c.counter + (j + 1)) % N) := by
  induction k generalizing c with
  | zero => rfl
  | succ k ih =>
    rw [List.replicate_succ, Mealy.outputs_cons, ih, List.range_succ_eq_map, List.map_cons,
      List.map_map]
    congr 1
    refine List.map_congr_left fun j _ => decide_eq_decide.mpr ?_
    change c.period ∣ ((c.counter + 1) % N + (j + 1)) % N ↔
      c.period ∣ (c.counter + (j + 1 + 1)) % N
    rw [Nat.mod_add_mod, Nat.add_assoc, Nat.add_comm 1 (j + 1)]

/-- For a period that divides the modulus, ticking raises the alarm at the multiples that the
unwrapped counter reaches. -/
theorem wrappingClock_outputs_ticks {N : ℕ} (k : ℕ) {c : Clock} (hN : c.period ∣ N) :
    (wrappingClock N).outputs c (List.replicate k .tick) =
      (List.range k).map fun j => decide (c.period ∣ c.counter + (j + 1)) := by
  rw [wrappingClock_outputs_ticks_mod]
  refine List.map_congr_left fun j _ => decide_eq_decide.mpr ?_
  exact Nat.dvd_mod_iff hN

/-- Two clocks raise the same alarms under ticks alone exactly when they share period and phase. -/
theorem wrappingClock_ticks_eq_iff {N : ℕ} (hN : 0 < N) {c d : Clock} (hc : c.period ∣ N)
    (hd : d.period ∣ N) :
    (∀ k, (wrappingClock N).outputs c (List.replicate k .tick) =
        (wrappingClock N).outputs d (List.replicate k .tick)) ↔
      c.period = d.period ∧ c.counter ≡ d.counter [MOD c.period] := by
  rw [← alarms_eq_iff (Nat.pos_of_dvd_of_pos hc hN) (Nat.pos_of_dvd_of_pos hd hN)]
  constructor
  · intro h k hk
    have htrace := h k
    rw [wrappingClock_outputs_ticks k hc, wrappingClock_outputs_ticks k hd] at htrace
    have hlast := List.map_inj_left.mp htrace (k - 1) (List.mem_range.mpr (by omega))
    rwa [Nat.sub_add_cancel hk, decide_eq_decide] at hlast
  · intro h k
    rw [wrappingClock_outputs_ticks k hc, wrappingClock_outputs_ticks k hd]
    exact List.map_congr_left fun j _ => decide_eq_decide.mpr (h (j + 1) (Nat.succ_pos j))

/-- Ticking, at once and after retiming to `L`, tells apart any two clocks that are not in step. -/
theorem inPhase_of_ticks_eq {N L : ℕ} (hN : 0 < N) (hL : L ∣ N) {c d : Clock}
    (hc : c.period ∣ N) (hd : d.period ∣ N)
    (hnow : ∀ k, (wrappingClock N).outputs c (List.replicate k .tick) =
      (wrappingClock N).outputs d (List.replicate k .tick))
    (hlater : ∀ k, (wrappingClock N).outputs c (.retime L :: List.replicate k .tick) =
      (wrappingClock N).outputs d (.retime L :: List.replicate k .tick)) :
    InPhase N N L c d := by
  have hphase := (wrappingClock_ticks_eq_iff hN hc hd).mp hnow
  -- the retimed clocks have period `L`, so their alarms expose the counters modulo `L`
  have hframe := (wrappingClock_ticks_eq_iff hN
    (c := (wrappingClock N).step c (.retime L) |>.1)
    (d := (wrappingClock N).step d (.retime L) |>.1) hL hL).mp
      fun k => (List.cons.inj (hlater k)).2
  have hmod : c.counter % N ≡ d.counter % N [MOD L] := hframe.2
  exact ⟨hphase.1, hc, hphase.1 ▸ hc, hphase.2, ((Nat.mod_modEq _ N).of_dvd hL).symm.trans
    (hmod.trans ((Nat.mod_modEq _ N).of_dvd hL))⟩

end Ticking

section MissedTicks

/-- A clock that ticks at some calls and stands idle at the others. -/
def ticksOrIdles (ticked : List Bool) : List ClockOp :=
  ticked.map fun b => if b then .tick else .idle

theorem wrappingClock_tick_add {N e p j : ℕ} :
    ((wrappingClock N).step ⟨(e + j) % N, p⟩ .tick).1 = ⟨(e + (j + 1)) % N, p⟩ := by
  simp only [wrappingClock, ClockOp.apply, Clock.wrap, Nat.mod_add_mod, Nat.add_assoc]

theorem wrappingClock_idle_add {N e p j : ℕ} :
    ((wrappingClock N).step ⟨(e + j) % N, p⟩ .idle).1 = ⟨(e + j) % N, p⟩ := by
  simp only [wrappingClock, ClockOp.apply, Clock.wrap, Nat.mod_mod]

/-- A clock that has fallen behind, without a missed alarm to show for it so far, never comes to
the same counter by the same alarms: to catch up, the leading clock has to pass zero, and there
it raises an alarm that the other one is too late for. -/
theorem ticksOrIdles_ne_of_behind {N e p j k : ℕ} (hN : 0 < N) (hjk : j < k)
    (hsilent : ∀ i, 0 < i → i ≤ k → ¬ p ∣ (e + i) % N) (ticked : List Bool) :
    ¬ (((wrappingClock N).after ⟨(e + j) % N, p⟩ (ticksOrIdles ticked)).counter =
        ((wrappingClock N).after ⟨(e + k) % N, p⟩
          (List.replicate ticked.length .tick)).counter ∧
      (wrappingClock N).outputs ⟨(e + j) % N, p⟩ (ticksOrIdles ticked) =
        (wrappingClock N).outputs ⟨(e + k) % N, p⟩ (List.replicate ticked.length .tick)) := by
  induction ticked generalizing j k with
  | nil =>
    intro ⟨hcounter, _⟩
    have hwrap : N ∣ k - j := by
      have := (Nat.modEq_iff_dvd' (by omega)).mp (show e + j ≡ e + k [MOD N] from hcounter)
      rwa [Nat.add_sub_add_left] at this
    have hle : N ≤ k - j := Nat.le_of_dvd (by omega) hwrap
    obtain ⟨i, hpos, hi, hdvd⟩ := exists_multiple_within hN e
    refine hsilent i hpos (by omega) ?_
    rw [Nat.mod_eq_zero_of_dvd hdvd]
    exact Nat.dvd_zero p
  | cons b rest ih =>
    intro ⟨hcounter, houtputs⟩
    obtain ⟨hnow, hlater⟩ := List.cons.inj houtputs
    -- the leading clock cannot alarm now, since the other one could not
    have hnext : ¬ p ∣ (e + (k + 1)) % N := by
      intro hdvd
      have halarm : ((wrappingClock N).step ⟨(e + k) % N, p⟩ .tick).2 = true := by
        change ClockOp.alarms .tick ((wrappingClock N).step ⟨(e + k) % N, p⟩ .tick).1 = true
        rw [wrappingClock_tick_add]
        exact decide_eq_true hdvd
      cases b with
      | false => exact Bool.false_ne_true (hnow.trans halarm)
      | true =>
        have hearly : ClockOp.alarms .tick
            ((wrappingClock N).step ⟨(e + j) % N, p⟩ .tick).1 = true := hnow.trans halarm
        rw [wrappingClock_tick_add] at hearly
        exact hsilent (j + 1) (Nat.succ_pos j) (by omega) (of_decide_eq_true hearly)
    have hsilent' : ∀ i, 0 < i → i ≤ k + 1 → ¬ p ∣ (e + i) % N := by
      intro i hpos hi
      rcases Nat.lt_or_eq_of_le hi with hlt | rfl
      · exact hsilent i hpos (by omega)
      · exact hnext
    rw [List.length_cons, List.replicate_succ, Mealy.after_cons, wrappingClock_tick_add]
      at hcounter
    rw [wrappingClock_tick_add] at hlater
    cases b with
    | false =>
      rw [ticksOrIdles, List.map_cons, Mealy.after_cons] at hcounter
      simp only [Bool.false_eq_true, if_false, wrappingClock_idle_add] at hcounter hlater
      exact ih (by omega) hsilent' ⟨hcounter, hlater⟩
    | true =>
      rw [ticksOrIdles, List.map_cons, Mealy.after_cons] at hcounter
      simp only [if_true, wrappingClock_tick_add] at hcounter hlater
      exact ih (by omega) hsilent' ⟨hcounter, hlater⟩

/-- A clock that may miss ticks ends like one that never does, by the same alarms, only if it
missed none. -/
theorem ticksOrIdles_eq_iff {N : ℕ} (hN : 0 < N) {c : Clock} (hc : c.counter < N)
    (ticked : List Bool) :
    ((wrappingClock N).after c (ticksOrIdles ticked)).counter =
        ((wrappingClock N).after c (List.replicate ticked.length .tick)).counter ∧
      (wrappingClock N).outputs c (ticksOrIdles ticked) =
        (wrappingClock N).outputs c (List.replicate ticked.length .tick) ↔
      ∀ b ∈ ticked, b = true := by
  constructor
  · intro ⟨hcounter, houtputs⟩
    induction ticked generalizing c with
    | nil => simp
    | cons b rest ih =>
      obtain ⟨hnow, hlater⟩ := List.cons.inj houtputs
      cases b with
      | true =>
        have hlt : (c.counter + 1) % N < N := Nat.mod_lt _ hN
        exact List.forall_mem_cons.mpr
          ⟨rfl, ih (c := ((wrappingClock N).step c .tick).1) hlt hcounter hlater⟩
      | false =>
        have hsilent : ∀ i, 0 < i → i ≤ 1 → ¬ c.period ∣ (c.counter + i) % N := by
          intro i hpos hi
          obtain rfl : i = 1 := by omega
          exact of_decide_eq_false hnow.symm
        exact absurd ⟨hcounter, hlater⟩
          (ticksOrIdles_ne_of_behind hN Nat.zero_lt_one hsilent rest)
  · intro hall
    have hticks : ticksOrIdles ticked = List.replicate ticked.length .tick := by
      rw [List.eq_replicate_of_mem hall, ticksOrIdles, List.map_replicate, if_pos rfl,
        List.length_replicate]
    rw [hticks]
    exact ⟨rfl, rfl⟩

end MissedTicks

end Firefly.Foundation
