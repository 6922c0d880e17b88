import Firefly.Clique.ClosedClique

/-!
# Periods are provisioned, not invented

A clique passes periods on: a unit takes one over from a WorkSync, and a WorkSync carries that of
the unit that offered it. In any order of steps, and however long a WorkSync is under way, nothing
but provisioning brings a period into a clique that was not in use there before.

So a clique that nobody provisions uses one period for ever, and one that is always provisioned
alike uses at most two.
-/

namespace Firefly

open Foundation

variable {M : Type} [Mailbox M] {n : ℕ}

/-- The periods that an input provisions. -/
def Input.provisioned : Input M → List ℕ
  | .setSyncPeriodsBetweenWorkCoded code => [(WorkFrequency.decodeWorkFreq code).toNat]
  | _ => []

/-- A run of a closed clique, with the periods that were provisioned in it. -/
inductive Clique.Run (start : Clique M n) : Clique M n → List ℕ → Prop
  | refl : Run start start []
  | own {c : Clique M n} {provisioned : List ℕ} (h : Run start c provisioned) (i : Fin n)
      (input : Input M) (hown : ¬ input.IsMessage) :
      Run start (c.act i input) (provisioned ++ input.provisioned)
  | deliver {c : Clique M n} {provisioned : List ℕ} (h : Run start c provisioned) (i : Fin n)
      (r : Readings) (work : MailContents) (hmailed : work ∈ c.mailed)
      (hslave : r.isSelfSlave = true) :
      Run start (c.act i (.onWorkSyncMsg r work)) provisioned

/-- The periods in use: those of the running units, and those that a WorkSync carries. -/
def Clique.periodsInUse (c : Clique M n) : Set ℕ :=
  {p | (∃ i u, c.units i = .ok u ∧ u.clock.period = p) ∨ ∃ work ∈ c.mailed, work.toNat = p}

omit [Mailbox M] in
theorem Clique.mem_of_unit {c : Clique M n} {i : Fin n} {u : Firmware M} (h : c.units i = .ok u) :
    u.clock.period ∈ c.periodsInUse :=
  .inl ⟨i, u, h, rfl⟩

omit [Mailbox M] in
theorem Clique.mem_of_mailed {c : Clique M n} {work : MailContents} (h : work ∈ c.mailed) :
    work.toNat ∈ c.periodsInUse :=
  .inr ⟨work, h, rfl⟩

section Runs

variable {start c : Clique M n} {provisioned : List ℕ}

/-- The runs of a closed clique are its sequences of steps. -/
theorem Clique.reachable_iff_run :
    Relation.ReflTransGen Clique.Step start c ↔ ∃ provisioned, start.Run c provisioned := by
  constructor
  · intro h
    induction h with
    | refl => exact ⟨[], .refl⟩
    | tail _ hstep ih =>
      obtain ⟨provisioned, hrun⟩ := ih
      cases hstep with
      | own i input hown => exact ⟨_, hrun.own i input hown⟩
      | deliver i r work hmailed hslave => exact ⟨_, hrun.deliver i r work hmailed hslave⟩
  · rintro ⟨provisioned, hrun⟩
    induction hrun with
    | refl => exact .refl
    | own _ i input hown ih => exact ih.tail (.own i input hown)
    | deliver _ i r work hmailed hslave ih => exact ih.tail (.deliver i r work hmailed hslave)

/-- A callback that returns leaves the period, provisions one or takes one over. -/
theorem handle_period_cases {u v : Firmware M} {input : Input M} {events : List Event}
    (h : u.handle input = .ok (v, events)) :
    v.clock.period = u.clock.period ∨ v.clock.period ∈ input.provisioned ∨
      ∃ r work, input = .onWorkSyncMsg r work ∧ v.clock.period = work.toNat := by
  rw [(handle_clock h).1]
  cases input with
  | onWorkSyncMsg r work => exact .inr (.inr ⟨r, work, rfl, rfl⟩)
  | setSyncPeriodsBetweenWorkCoded code => exact .inr (.inl (List.mem_singleton.mpr rfl))
  | _ => exact .inl rfl

/-- One unit acting brings no period into use but those that it is provisioned with or hears. -/
theorem Clique.act_periodsInUse (hsound : ∀ i, SoundState (c.units i)) (i : Fin n)
    (input : Input M) {known : Set ℕ} (hknown : c.periodsInUse ⊆ known)
    (hprovisioned : ∀ p ∈ input.provisioned, p ∈ known)
    (hheard : ∀ r work, input = .onWorkSyncMsg r work → work.toNat ∈ known) :
    (c.act i input).periodsInUse ⊆ known := by
  rintro p (⟨j, v, hj, rfl⟩ | ⟨work, hwork, rfl⟩)
  · rcases eq_or_ne j i with rfl | hne
    · rw [Clique.act_units_self] at hj
      rcases step_cases (c.units j) input with ⟨u, v', events, hu, h, hstep⟩ | ⟨fault, hstep, -⟩
      · rw [hstep] at hj
        cases hj
        rcases handle_period_cases h with heq | hnew | ⟨r, work, rfl, heq⟩
        · exact heq ▸ hknown (mem_of_unit hu)
        · exact hprovisioned _ hnew
        · exact heq ▸ hheard r work rfl
      · rw [hstep] at hj
        cases hj
    · rw [Clique.act_units_ne hne] at hj
      exact hknown (mem_of_unit hj)
  · rcases List.mem_append.mp hwork with hold | hnew
    · exact hknown (mem_of_mailed hold)
    · -- what a unit offers carries its period
      obtain ⟨u, -, hu, -⟩ := putsIn_inv (List.ne_nil_of_mem hnew)
      have hsoundu := hsound i
      rw [hu] at hsoundu hnew
      exact putsIn_eq_period hsoundu work hnew ▸ hknown (mem_of_unit hu)

/-- A clique that starts in sound states is in sound states after all its steps. -/
theorem Clique.sound_of_reachable (hsound : ∀ i, SoundState (start.units i))
    (h : Relation.ReflTransGen Clique.Step start c) : ∀ i, SoundState (c.units i) := by
  have hact {c : Clique M n} (hc : ∀ i, SoundState (c.units i)) (i : Fin n) (input : Input M) :
      ∀ j, SoundState ((c.act i input).units j) := by
    intro j
    rcases eq_or_ne j i with rfl | hne
    · rw [Clique.act_units_self]
      exact (hc j).step input
    · rw [Clique.act_units_ne hne]
      exact hc j
  induction h with
  | refl => exact hsound
  | tail _ hstep ih =>
    cases hstep with
    | own i input hown => exact hact ih i input
    | deliver i r work hmailed hslave => exact hact ih i _

end Runs

/-- No period is ever invented. In every run of a closed clique from sound periods, under any
order of its steps and any delay, loss or duplication of WorkSyncs, each period that a unit runs
on or that a WorkSync carries was in use at the start of the run or was provisioned in it. -/
theorem periods_never_invented {start c : Clique M n} {provisioned : List ℕ}
    (hsound : ∀ i, SoundState (start.units i)) (hrun : start.Run c provisioned) :
    c.periodsInUse ⊆ start.periodsInUse ∪ {p | p ∈ provisioned} := by
  have hthere {c : Clique M n} {provisioned : List ℕ} (h : start.Run c provisioned) :
      ∀ i, SoundState (c.units i) :=
    Clique.sound_of_reachable hsound (Clique.reachable_iff_run.mpr ⟨provisioned, h⟩)
  induction hrun with
  | refl => exact Set.subset_union_left
  | own h i input hown ih =>
    have hmore := ih.trans (Set.union_subset_union_right _
      fun p hp => List.mem_append_left input.provisioned hp)
    refine Clique.act_periodsInUse (hthere h) i input hmore
      (fun p hp => .inr (List.mem_append_right _ hp)) ?_
    rintro r work rfl
    exact absurd trivial hown
  | deliver h i r work hmailed hslave ih =>
    refine Clique.act_periodsInUse (hthere h) i _ ih nofun ?_
    intro _ _ heq
    cases heq
    exact ih (Clique.mem_of_mailed hmailed)

/-- A WorkSync of the initial period is sent and heard, then the slave is provisioned. -/
theorem periods_never_invented_pair :
    let unit : UnitState (Option MailContents) :=
      .ok { workClockCounter := 3, maintenanceCounter := 4, outMailbox := none,
            inMailbox := none }
    let start : Clique (Option MailContents) 2 := ⟨fun _ => unit, []⟩
    let told := start.act 0 (.onPreSyncSlot ⟨true, false, true, .mediumToHigh, 0⟩)
    let heard := told.act 1 (.onWorkSyncMsg ⟨false, true, true, .mediumToHigh, 0⟩ 4)
    ∀ p ∈ (heard.act 1 (.setSyncPeriodsBetweenWorkCoded 1)).periodsInUse, p = 4 ∨ p = 2 := by
  intro unit start told heard p hp
  have htold : start.Run told [] := .own .refl 0 _ id
  have hheard : start.Run heard [] := htold.deliver 1 _ 4 (by decide) rfl
  have hsound : ∀ i, SoundState (start.units i) := fun _ => ⟨2, by decide, rfl⟩
  have hrun : start.Run _ [2] := hheard.own 1 (.setSyncPeriodsBetweenWorkCoded 1) id
  rcases periods_never_invented hsound hrun hp with (⟨i, u, hu, rfl⟩ | ⟨work, hwork, -⟩) | hnew
  · cases hu
    exact .inl rfl
  · cases hwork
  · exact .inr (List.mem_singleton.mp hnew)

end Firefly
