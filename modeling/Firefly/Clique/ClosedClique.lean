import Firefly.Cadence
import Mathlib.Logic.Relation
import Mathlib.Tactic.IntervalCases

/-!
# A closed clique under arbitrary delivery

Any number of units start from power-on. They act in any order, change roles and are
provisioned freely, and a WorkSync that one of them has offered may reach any unit that is
then a slave, at any later time, any number of times, or never.

Every period is then one that provisioning can install, and so is every WorkSync under way.
None of them fails the assertion on the power of two, so no unit ever stops.
-/

namespace Firefly

open Foundation

variable {M : Type} [Mailbox M]

/-- The units of a clique, and every WorkSync that one of them has offered so far. -/
structure Clique (M : Type) (n : ℕ) where
  units : Fin n → UnitState M
  mailed : List MailContents

/-- All units at power-on, with the given mailboxes, and nothing mailed. -/
def Clique.powerOn {n : ℕ} (outMailbox inMailbox : Fin n → M) : Clique M n where
  units i := .ok (.powerOn (outMailbox i) (inMailbox i))
  mailed := []

/-- One unit handles an input; what it offers to its outbox counts as mailed. -/
def Clique.act {n : ℕ} (c : Clique M n) (i : Fin n) (input : Input M) : Clique M n where
  units := Function.update c.units i ((unitMachine M).step (c.units i) input).1
  mailed := c.mailed ++ putsIn (c.units i) input

@[simp] theorem Clique.act_units_self {n : ℕ} (c : Clique M n) (i : Fin n) (input : Input M) :
    (c.act i input).units i = ((unitMachine M).step (c.units i) input).1 :=
  Function.update_self ..

@[simp] theorem Clique.act_units_ne {n : ℕ} {c : Clique M n} {i j : Fin n} (h : j ≠ i)
    (input : Input M) : (c.act i input).units j = c.units j :=
  Function.update_of_ne h ..

/-- Messages come from the clique; everything else comes from its surroundings. -/
def Input.IsMessage : Input M → Prop
  | .onWorkSyncMsg _ _ => True
  | _ => False

/-- One step of a closed clique. A message in flight is never used up, which covers delay,
loss, reordering and duplication. -/
inductive Clique.Step {n : ℕ} : Clique M n → Clique M n → Prop
  | own {c : Clique M n} (i : Fin n) (input : Input M) (h : ¬ input.IsMessage) :
      Step c (c.act i input)
  | deliver {c : Clique M n} (i : Fin n) (r : Readings) (work : MailContents)
      (hmailed : work ∈ c.mailed) (hslave : r.isSelfSlave = true) :
      Step c (c.act i (.onWorkSyncMsg r work))

/-- One, two or four: the periods that a provisioning code can install. -/
def CodedPeriod (p : ℕ) : Prop := p = 1 ∨ p = 2 ∨ p = 4

theorem codedPeriod_iff_dvd {p : ℕ} : CodedPeriod p ↔ p ∣ 4 := by
  constructor
  · rintro (rfl | rfl | rfl) <;> decide
  · intro h
    have hle : p ≤ 4 := Nat.le_of_dvd (by decide) h
    unfold CodedPeriod
    interval_cases p <;> omega

theorem CodedPeriod.sound {p : ℕ} (h : CodedPeriod p) : SoundPeriod p :=
  soundPeriod_iff_dvd.mpr ((codedPeriod_iff_dvd.mp h).trans (by decide))

/-- All units run on a coded period, and all mailed WorkSyncs carry one. -/
structure Clique.Coded {n : ℕ} (c : Clique M n) : Prop where
  units : ∀ i, ∃ u, c.units i = .ok u ∧ CodedPeriod u.clock.period
  mailed : ∀ work ∈ c.mailed, CodedPeriod work.toNat

/-- An accepted input whose message, if it is one, carries a coded period leaves a unit running
on a coded period. -/
theorem step_coded {u : Firmware M} (hu : CodedPeriod u.clock.period) {i : Input M}
    (hi : i.Accepted) (hmsg : ∀ r work, i = .onWorkSyncMsg r work → CodedPeriod work.toNat) :
    ∃ u', ((unitMachine M).step (.ok u) i).1 = .ok u' ∧ CodedPeriod u'.clock.period := by
  obtain ⟨⟨u', events⟩, h⟩ := handle_ok hu.sound.pos hi
  refine ⟨u', by rw [step_of_handle h], ?_⟩
  rw [(handle_clock h).1]
  cases i with
  | onWorkSyncMsg r work => exact hmsg r work rfl
  | setSyncPeriodsBetweenWorkCoded code => exact codedPeriod_iff_dvd.mpr (decodeWorkFreq_dvd code)
  | _ => exact hu

/-- One unit acting keeps the clique coded. -/
theorem Clique.Coded.act {n : ℕ} {c : Clique M n} (hc : c.Coded) (i : Fin n) {input : Input M}
    (hinput : input.Accepted)
    (hmsg : ∀ r work, input = .onWorkSyncMsg r work → CodedPeriod work.toNat) :
    (c.act i input).Coded where
  units := by
    intro j
    rcases eq_or_ne j i with rfl | hne
    · obtain ⟨u, hj, hu⟩ := hc.units j
      rw [Clique.act_units_self, hj]
      exact step_coded hu hinput hmsg
    · rw [Clique.act_units_ne hne]
      exact hc.units j
  mailed := by
    intro work hwork
    rcases List.mem_append.mp hwork with hold | hnew
    · exact hc.mailed work hold
    · obtain ⟨u, hi, hu⟩ := hc.units i
      rw [hi] at hnew
      exact putsIn_eq_period hu.sound work hnew ▸ hu

/-- Every step keeps the clique coded. -/
theorem Clique.Coded.step {n : ℕ} {c c' : Clique M n} (hc : c.Coded) (h : c.Step c') :
    c'.Coded := by
  cases h with
  | own i input hown =>
    refine hc.act i ?_ ?_
    · cases input with
      | onWorkSyncMsg r work => exact absurd trivial hown
      | _ => trivial
    · rintro r work rfl
      exact absurd trivial hown
  | deliver i r work hmailed hslave =>
    have hwork := hc.mailed work hmailed
    refine hc.act i ⟨hslave, (isPowerOfTwo_iff work).mpr hwork.sound⟩ ?_
    intro _ _ heq
    cases heq
    exact hwork

/-- Every reachable clique is coded. -/
theorem Clique.coded_of_reachable {n : ℕ} {outMailbox inMailbox : Fin n → M} {c : Clique M n}
    (h : Relation.ReflTransGen Clique.Step (.powerOn outMailbox inMailbox) c) : c.Coded := by
  induction h with
  | refl =>
    refine ⟨fun i => ⟨_, rfl, .inr (.inr rfl)⟩, fun work hwork => ?_⟩
    cases hwork
  | tail _ hstep ih => exact ih.step hstep

/-- The period stays sound at every unit, and in a closed clique it stays coded.

In every run of one unit from power-on that has not stopped it, the period is a power of two
up to 128. So both divisions by the period are defined, the period divides the counter modulus,
and a mailed byte is the whole period; only an assertion on a message ever stops the unit. In a
closed clique no unit stops at all, and all periods and all mailed bytes are 1, 2 or 4. -/
theorem period_stays_sound (M : Type) [Mailbox M] :
    (∀ (outMailbox inMailbox : M) (inputs : List (Input M)),
      (∀ u, (unitMachine M).after (.ok (.powerOn outMailbox inMailbox)) inputs = .ok u →
        (∃ k ≤ 7, u.syncPeriodsBetweenWork.toNat = 2 ^ k) ∧
        u.syncPeriodsBetweenWork.toNat ∣ 2 ^ 32 ∧
        (∀ r, ∃ result, WorkFacilitator.onPreSyncSlot r u = .ok result) ∧
        (∀ elapsed, ∃ advance,
          WorkClock.convertPeriodsElapsedToClockAdvance elapsed u = .ok advance) ∧
        ∀ i, ∀ work ∈ putsIn (.ok u) i, work.toNat = u.syncPeriodsBetweenWork.toNat) ∧
      ∀ fault, (unitMachine M).after (.ok (.powerOn outMailbox inMailbox)) inputs = .error fault →
        ∃ failed, fault = .assertion failed) ∧
    ∀ (n : ℕ) (outMailbox inMailbox : Fin n → M) (c : Clique M n),
      Relation.ReflTransGen Clique.Step (.powerOn outMailbox inMailbox) c →
        (∀ i, ∃ u, c.units i = .ok u ∧ CodedPeriod u.syncPeriodsBetweenWork.toNat) ∧
        ∀ work ∈ c.mailed,
          CodedPeriod work.toNat ∧ WorkSyncMaintainer.isPowerOfTwo work = true := by
  refine ⟨fun outMailbox inMailbox inputs => ⟨fun u hrun => ?_, fun fault hrun => ?_⟩,
    fun n outMailbox inMailbox c hreach => ?_⟩
  · have hsound : SoundPeriod u.clock.period :=
      Firmware.Reachable.sound ⟨outMailbox, inMailbox, inputs, hrun⟩
    refine ⟨hsound, hsound.dvd_counterModulus, fun r => ?_, fun elapsed => ?_, fun i => ?_⟩
    · exact handle_ok hsound.pos (i := .onPreSyncSlot r) trivial
    · exact ⟨_, if_neg (clock_period_pos_iff.mp hsound.pos)⟩
    · exact putsIn_eq_period hsound
  · have hstopped := (soundState_powerOn outMailbox inMailbox).after inputs
    rwa [hrun] at hstopped
  · have hcoded := Clique.coded_of_reachable hreach
    exact ⟨hcoded.units, fun work hwork => ⟨hcoded.mailed work hwork,
      (isPowerOfTwo_iff work).mpr (hcoded.mailed work hwork).sound⟩⟩

/-- A master that is provisioned to work every sync period mails a byte at its fifth tick, and the
slave that it reaches takes over the period. -/
theorem period_stays_sound_pair :
    let start : Clique (Option MailContents) 2 := .powerOn (fun _ => none) fun _ => none
    ∃ c, Relation.ReflTransGen Clique.Step start c ∧ c.mailed = [1] ∧
      (c.units 1).map Firmware.syncPeriodsBetweenWork = .ok 1 ∧
      (∀ i, ∃ u, c.units i = .ok u ∧ CodedPeriod u.syncPeriodsBetweenWork.toNat) ∧
      ∀ work ∈ c.mailed, CodedPeriod work.toNat ∧ WorkSyncMaintainer.isPowerOfTwo work = true := by
  intro start
  let coded := start.act 0 (.setSyncPeriodsBetweenWorkCoded 0)
  let tick (c : Clique (Option MailContents) 2) :=
    c.act 0 (.onPreSyncSlot ⟨true, false, true, .mediumToHigh, 0⟩)
  have hticks (k : ℕ) : Relation.ReflTransGen Clique.Step coded (tick^[k] coded) := by
    induction k with
    | zero => exact .refl
    | succ k ih =>
      rw [Function.iterate_succ_apply']
      exact ih.tail (.own 0 _ id)
  have htold : Relation.ReflTransGen Clique.Step start (tick^[5] coded) :=
    .head (.own 0 _ id) (hticks 5)
  have hreach := htold.tail
    (.deliver 1 ⟨false, true, true, .mediumToHigh, 0⟩ 1 (by decide) rfl)
  obtain ⟨-, hclique⟩ := period_stays_sound (Option MailContents)
  exact ⟨_, hreach, by decide, by decide, hclique 2 _ _ _ hreach⟩

end Firefly
