import Firefly.Foundation.StepRegulator

/-!
# A regulator in a loop

What is regulated responds to the amount, and the response decides on the next adjustment. The
response may be any function of the amount.

An amount that moves in fixed steps cannot miss a turning point: where a raise is answered by a
lowering, the next raise leads to the same two amounts again. So unless the response presets the
amount, the loop either comes to rest or swings between two neighbouring amounts, and it does so
within as many rounds as there are steps up to the limit or down to zero.
-/

namespace Firefly.Foundation.Regulator

variable {g : Regulator} {response : ℕ → Adjustment} {a b n : ℕ}

/-- One round of the loop. -/
def loop (g : Regulator) (response : ℕ → Adjustment) (a : ℕ) : ℕ := g.adjust (response a) a

/-- The loop rests: the response is to leave the amount, or the amount moves no further. -/
def Rests (g : Regulator) (response : ℕ → Adjustment) (a : ℕ) : Prop :=
  response a = .maintain ∨ (response a = .increase ∧ g.limit ≤ a) ∨
    (response a = .decrease ∧ a ≤ g.step)

/-- The loop swings: an amount is raised that is lowered again. -/
structure Swings (g : Regulator) (response : ℕ → Adjustment) (a : ℕ) : Prop where
  pos : 0 < a
  lt_limit : a < g.limit
  increase : response a = .increase
  decrease : response (a + g.step) = .decrease

/-- The loop rests, or it is at one of the two amounts of a swing. -/
def Settled (g : Regulator) (response : ℕ → Adjustment) (a : ℕ) : Prop :=
  g.Rests response a ∨ g.Swings response a ∨ ∃ b, a = b + g.step ∧ g.Swings response b

theorem Rests.loop (h : g.Rests response a) : g.loop response a = a := by
  unfold Regulator.loop
  rcases h with hmaintain | ⟨hincrease, hle⟩ | ⟨hdecrease, hle⟩
  · rw [hmaintain]
    rfl
  · rw [hincrease, increase_of_le hle]
  · rw [hdecrease, decrease_of_le hle]

theorem Swings.loop (h : g.Swings response a) :
    g.loop response a = a + g.step ∧ g.loop response (a + g.step) = a := by
  unfold Regulator.loop
  rw [h.increase, h.decrease, increase_of_lt h.lt_limit,
    decrease_of_lt (Nat.lt_add_of_pos_left h.pos), Nat.add_sub_cancel]
  exact ⟨rfl, rfl⟩

/-- From a settled amount the loop rests for ever, or swings for ever. -/
theorem Settled.forever (h : g.Settled response a) :
    (g.Rests response a ∧ ∀ k, (g.loop response)^[k] a = a) ∨
    ∃ b, g.Swings response b ∧ ∀ k,
      ((g.loop response)^[k] a = b ∧ (g.loop response)^[k + 1] a = b + g.step) ∨
      ((g.loop response)^[k] a = b + g.step ∧ (g.loop response)^[k + 1] a = b) := by
  have hswings {b : ℕ} (hb : g.Swings response b) (hab : a = b ∨ a = b + g.step) (k : ℕ) :
      ((g.loop response)^[k] a = b ∧ (g.loop response)^[k + 1] a = b + g.step) ∨
      ((g.loop response)^[k] a = b + g.step ∧ (g.loop response)^[k + 1] a = b) := by
    obtain ⟨hup, hdown⟩ := hb.loop
    induction k with
    | zero =>
      rcases hab with rfl | rfl
      · exact .inl ⟨rfl, hup⟩
      · exact .inr ⟨rfl, hdown⟩
    | succ k ih =>
      rw [Function.iterate_succ_apply' _ (k + 1)]
      rcases ih with ⟨-, hnext⟩ | ⟨-, hnext⟩
      · exact .inr ⟨hnext, hnext ▸ hdown⟩
      · exact .inl ⟨hnext, hnext ▸ hup⟩
  rcases h with hrests | hlow | ⟨b, hab, hhigh⟩
  · exact .inl ⟨hrests, fun k => Function.iterate_fixed hrests.loop k⟩
  · exact .inr ⟨a, hlow, hswings hlow (.inl rfl)⟩
  · exact .inr ⟨b, hhigh, hswings hhigh (.inr hab)⟩

/-- Within some rounds the loop presets the amount or settles. -/
def PresetsOrSettles (g : Regulator) (response : ℕ → Adjustment) (a n : ℕ) : Prop :=
  ∃ k ≤ n, response ((g.loop response)^[k] a) = .setLeast ∨
    g.Settled response ((g.loop response)^[k] a)

theorem PresetsOrSettles.of_settled (h : g.Settled response a) :
    g.PresetsOrSettles response a n :=
  ⟨0, Nat.zero_le n, .inr h⟩

/-- What holds within some rounds of the next amount holds within one more of this one. -/
theorem PresetsOrSettles.succ (h : g.PresetsOrSettles response (g.loop response a) n) :
    g.PresetsOrSettles response a (n + 1) := by
  obtain ⟨k, hk, hor⟩ := h
  exact ⟨k + 1, Nat.succ_le_succ hk, hor⟩

/-- A loop that starts with a raise goes up until it settles. -/
theorem presetsOrSettles_of_increase (ha : 0 < a) (hup : response a = .increase)
    (hn : g.limit ≤ a + g.step * n) : g.PresetsOrSettles response a n := by
  induction n generalizing a with
  | zero => exact .of_settled (.inl (.inr (.inl ⟨hup, hn⟩)))
  | succ n ih =>
    rcases Nat.lt_or_ge a g.limit with hlt | hge
    · have hnext : g.loop response a = a + g.step := by
        rw [Regulator.loop, hup, increase_of_lt hlt]
      cases hresponse : response (a + g.step) with
      | increase =>
        refine .succ (hnext ▸ ih (Nat.add_pos_left ha _) hresponse ?_)
        rwa [Nat.add_assoc, Nat.add_comm g.step, ← Nat.mul_succ]
      | decrease => exact .of_settled (.inr (.inl ⟨ha, hlt, hup, hresponse⟩))
      | maintain => exact .succ (hnext ▸ .of_settled (.inl (.inl hresponse)))
      | setLeast => exact .succ (hnext ▸ ⟨0, Nat.zero_le n, .inl hresponse⟩)
    · exact .of_settled (.inl (.inr (.inl ⟨hup, hge⟩)))

/-- A loop that starts with a lowering goes down until it settles. -/
theorem presetsOrSettles_of_decrease (hdown : response a = .decrease)
    (hn : a ≤ g.step * (n + 1)) : g.PresetsOrSettles response a n := by
  induction n generalizing a with
  | zero =>
    rw [Nat.mul_one] at hn
    exact .of_settled (.inl (.inr (.inr ⟨hdown, hn⟩)))
  | succ n ih =>
    rcases Nat.lt_or_ge g.step a with hmore | hle
    · obtain ⟨c, rfl⟩ := Nat.exists_eq_add_of_lt hmore
      have hc : g.step + c + 1 = c + 1 + g.step := by omega
      have hnext : g.loop response (g.step + c + 1) = c + 1 := by
        rw [Regulator.loop, hdown, decrease_of_lt hmore]
        omega
      rw [Nat.mul_add, Nat.mul_one] at hn
      cases hresponse : response (c + 1) with
      | increase =>
        rcases Nat.lt_or_ge (c + 1) g.limit with hlt | hge
        · exact .of_settled (.inr (.inr ⟨c + 1, hc, Nat.succ_pos c, hlt, hresponse, hc ▸ hdown⟩))
        · exact .succ (hnext ▸ .of_settled (.inl (.inr (.inl ⟨hresponse, hge⟩))))
      | decrease => exact .succ (hnext ▸ ih hresponse (by omega))
      | maintain => exact .succ (hnext ▸ .of_settled (.inl (.inl hresponse)))
      | setLeast => exact .succ (hnext ▸ ⟨0, Nat.zero_le n, .inl hresponse⟩)
    · exact .of_settled (.inl (.inr (.inr ⟨hdown, hle⟩)))

/-- From every amount the loop presets the amount or settles, within the steps to the limit and to
zero. -/
theorem presetsOrSettles (ha : 0 < a) :
    g.PresetsOrSettles response a (max a g.limit / g.step + 1) := by
  have hlt := Nat.lt_mul_div_succ (max a g.limit) g.step_pos
  cases hresponse : response a with
  | increase => exact presetsOrSettles_of_increase ha hresponse (by omega)
  | decrease =>
    refine presetsOrSettles_of_decrease hresponse ?_
    rw [Nat.mul_add, Nat.mul_one]
    omega
  | maintain => exact .of_settled (.inl (.inl hresponse))
  | setLeast => exact ⟨0, Nat.zero_le _, .inl hresponse⟩

/-- A loop that does not preset the amount in its first rounds then rests or swings for ever. -/
theorem settles (ha : 0 < a)
    (hno : ∀ k ≤ max a g.limit / g.step + 1, response ((g.loop response)^[k] a) ≠ .setLeast) :
    (∃ b, g.Rests response b ∧
      ∀ k, max a g.limit / g.step + 1 ≤ k → (g.loop response)^[k] a = b) ∨
    ∃ b, g.Swings response b ∧ ∀ k, max a g.limit / g.step + 1 ≤ k →
      ((g.loop response)^[k] a = b ∧ (g.loop response)^[k + 1] a = b + g.step) ∨
      ((g.loop response)^[k] a = b + g.step ∧ (g.loop response)^[k + 1] a = b) := by
  have hends : g.PresetsOrSettles response a (max a g.limit / g.step + 1) := presetsOrSettles ha
  obtain ⟨j, hj, hpreset | hsettled⟩ := hends
  · exact absurd hpreset (hno j hj)
  have hiterate (k : ℕ) (hk : max a g.limit / g.step + 1 ≤ k) :
      (g.loop response)^[k] a = (g.loop response)^[k - j] ((g.loop response)^[j] a) := by
    rw [← Function.iterate_add_apply, Nat.sub_add_cancel (hj.trans hk)]
  rcases hsettled.forever with ⟨hrests, hforever⟩ | ⟨b, hswings, hforever⟩
  · exact .inl ⟨_, hrests, fun k hk => (hiterate k hk).trans (hforever (k - j))⟩
  · refine .inr ⟨b, hswings, fun k hk => ?_⟩
    rw [hiterate k hk, hiterate (k + 1) (Nat.le_succ_of_le hk),
      Nat.succ_sub (hj.trans hk)]
    exact hforever (k - j)

end Firefly.Foundation.Regulator
