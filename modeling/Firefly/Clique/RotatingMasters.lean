import Firefly.Clique.Stabilisation
import Firefly.Clique.Unison
import Firefly.Foundation.AlarmSpacing
import Firefly.Foundation.Countdown
import Mathlib.Algebra.BigOperators.Group.Finset.Basic
import Mathlib.Algebra.Order.BigOperators.Group.Finset

/-!
# Masters that take turns

Each unit has a maintenance counter of its own, which moves only with the alarms that the unit
has as master. When the units of a set in step take turns as master, an alarm of the set is
therefore charged to one of them, and that unit offers a WorkSync if its counter comes to a
multiple of five.

What the units of the set have left until then, added up, counts down by one with every alarm
that offers nothing. So the longest silence is known exactly. It is at most four alarms for each
unit of the set, whatever the order of the turns, and the WorkSync that ends it brings every unit
that hears it in step.
-/

namespace Firefly

open Foundation

variable {M : Type} [OneItemMailbox M] {n : ℕ} {s : Units M n} {T : Finset (Fin n)} {p c : ℕ}
  {slot : SyncPeriod n} {slots : List (SyncPeriod n)}

/-- How many alarms a unit can have as master before one of them offers a WorkSync. -/
def patience : UnitState M → ℕ
  | .ok u => nextAlarm counterModulus 5 u.maintenanceCounter.toNat - 1
  | .error _ => 0

/-- Some unit of a set is master. -/
def SyncPeriod.MasterFrom (slot : SyncPeriod n) (T : Finset (Fin n)) : Prop :=
  ∃ m ∈ T, slot.master = some m

/-- No unit offers a WorkSync in a sync period. -/
def NothingOffered (events : Fin n → List Event) : Prop := ∀ i, workSyncPuts (events i) = []

theorem SyncPeriod.MasterFrom.masterIn (h : slot.MasterFrom T) :
    slot.MasterIn (T : Set (Fin n)) := by
  obtain ⟨m, hm, hslot⟩ := h
  intro m' hm'
  cases hslot.symm.trans hm'
  exact hm

section Patience

omit [OneItemMailbox M] in
theorem patience_le (s : UnitState M) : patience s ≤ 4 := by
  cases s with
  | ok u => exact Nat.sub_le_sub_right nextAlarm_le_period 1
  | error fault => exact Nat.zero_le 4

omit [OneItemMailbox M] in
/-- The patience is used up when the next alarm brings the counter to a multiple of five. -/
theorem patience_eq_zero_iff (u : Firmware M) :
    patience (.ok u) = 0 ↔ (u.maintenanceCounter + 1) % 5 = 0 := by
  have hlt : u.maintenanceCounter.toNat < counterModulus := UInt32.toNat_lt _
  have hpos := nextAlarm_pos (p := 5) (by decide) hlt
  have hone : patience (.ok u) = 0 ↔ nextAlarm counterModulus 5 u.maintenanceCounter.toNat = 1 := by
    rw [patience]
    omega
  rw [hone, nextAlarm_eq_one_iff (by decide) hlt, maintenance_mod_five_iff, UInt32.toNat_add]
  rfl

omit [OneItemMailbox M] in
/-- An alarm that does not use up the patience takes one off it. -/
theorem patience_succ {u v : Firmware M} (hv : v.maintenanceCounter = u.maintenanceCounter + 1)
    (h : patience (.ok u) ≠ 0) : patience (.ok v) + 1 = patience (.ok u) := by
  have hlt : u.maintenanceCounter.toNat < counterModulus := UInt32.toNat_lt _
  have hsucc : v.maintenanceCounter.toNat = (u.maintenanceCounter.toNat + 1) % counterModulus := by
    rw [hv, UInt32.toNat_add]
    rfl
  rw [ne_eq, patience_eq_zero_iff, maintenance_mod_five_iff, ← hv, hsucc] at h
  have hnext := nextAlarm_succ (by decide) hlt h
  have hlt' : (u.maintenanceCounter.toNat + 1) % counterModulus < counterModulus :=
    Nat.mod_lt _ (by decide)
  have hpos := nextAlarm_pos (p := 5) (by decide) hlt'
  rw [patience, patience, hsucc]
  omega

/-- The tick of a unit is an alarm as master when it is the master of the sync period and the
next phase is a multiple of the period. -/
theorem masterAlarm_of_led (h : slot.Led s p c) (i : Fin n) :
    masterAlarm (M := M) (.onPreSyncSlot (slot.readings i)) (slot.tick s i).2 =
      decide (slot.master = some i ∧ p ∣ c + 1) := by
  by_cases hi : slot.master = some i
  · rw [masterAlarm_of_atPhase hi h.sound (h.master i hi)]
    exact decide_eq_decide.mpr (iff_and_self.mpr fun _ => hi)
  · have hr : (slot.readings i).isSelfMaster = false :=
      Bool.eq_false_iff.mpr fun hr => hi ((slot.isSelfMaster_iff i).mp hr)
    rw [masterAlarm, hr, Bool.false_and]
    exact (decide_eq_false fun hboth => hi hboth.1).symm

/-- A master offers a WorkSync in an alarm exactly when its patience is used up. -/
theorem tick_silent_iff (h : slot.Led s p c) (i : Fin n) :
    workSyncPuts (slot.tick s i).2 = [] ↔
      (slot.master = some i → p ∣ c + 1 → patience (s i) ≠ 0) := by
  obtain ⟨u, hs, -⟩ := h.ready i
  obtain ⟨v, -, -, -, hcount, hputs⟩ := h.unit hs
  rw [masterAlarm_of_led h] at hcount hputs
  rw [hputs, hs]
  by_cases halarm : slot.master = some i ∧ p ∣ c + 1
  · rw [decide_eq_true halarm, if_pos rfl] at hcount
    rw [ne_eq, patience_eq_zero_iff, ← hcount]
    simp [halarm]
  · rw [if_neg fun hput => halarm (of_decide_eq_true hput.1)]
    exact iff_of_true rfl fun hi hdvd => absurd ⟨hi, hdvd⟩ halarm

/-- Where it offers nothing, an alarm as master takes one off the patience of a unit, and other
sync periods leave it. -/
theorem patience_step (h : slot.Led s p c) {i : Fin n}
    (hsilent : workSyncPuts (slot.tick s i).2 = []) :
    patience (((lockstep M n).step s slot).1 i) +
      (if slot.master = some i ∧ p ∣ c + 1 then 1 else 0) = patience (s i) := by
  rw [tick_silent_iff h] at hsilent
  obtain ⟨u, hs, -⟩ := h.ready i
  obtain ⟨v, hv, -, -, hcount, -⟩ := h.unit hs
  rw [masterAlarm_of_led h] at hcount
  rw [hv, hs]
  rw [hs] at hsilent
  split
  · rename_i halarm
    rw [decide_eq_true halarm] at hcount
    exact patience_succ hcount (hsilent halarm.1 halarm.2)
  · rename_i hnone
    rw [decide_eq_false hnone] at hcount
    simp only [Bool.false_eq_true, if_false] at hcount
    rw [Nat.add_zero, patience, patience, hcount]

/-- The patience of the whole set goes down by one with every silent alarm. -/
theorem sum_patience_step (h : slot.Led s p c) (hT : slot.MasterFrom T)
    (hsilent : ∀ i, workSyncPuts (slot.tick s i).2 = []) :
    ∑ i ∈ T, patience (((lockstep M n).step s slot).1 i) + (if p ∣ c + 1 then 1 else 0) =
      ∑ i ∈ T, patience (s i) := by
  obtain ⟨m, hm, hslot⟩ := hT
  have hsum : ∑ i ∈ T, (if slot.master = some i ∧ p ∣ c + 1 then 1 else 0) =
      if p ∣ c + 1 then 1 else 0 := by
    rw [Finset.sum_eq_single_of_mem m hm]
    · simp only [hslot, true_and]
    · intro i _ hne
      exact if_neg fun hboth => hne (Option.some.inj (hboth.1.symm.trans hslot))
  rw [← hsum, ← Finset.sum_add_distrib]
  exact Finset.sum_congr rfl fun i _ => patience_step h (hsilent i)

end Patience

section Silence

/-- A set in step at a phase has a number of sync periods left in which it can offer nothing: up
to the next alarm, and a period more for each alarm that its patience allows. -/
def SilenceLeft (p : ℕ) (T : Finset (Fin n)) (s : Units M n) (k : ℕ) : Prop :=
  ∃ c, StandsAt p c (T : Set (Fin n)) s ∧ k + 1 = p * ∑ i ∈ T, patience (s i) + (p - c % p)

/-- The way to the next multiple of the period gets shorter by one. -/
theorem untilMultiple_succ (hp : 0 < p) :
    p - c % p = (if p ∣ c + 1 then 0 else p - (c + 1) % p) + 1 := by
  have hlt := Nat.mod_lt c hp
  have hsum : c + 1 = p * (c / p) + (c % p + 1) := by rw [← Nat.add_assoc, Nat.div_add_mod]
  by_cases hlast : c % p + 1 = p
  · have hdvd : p ∣ c + 1 := by
      rw [hsum, hlast]
      exact Nat.dvd_add (Nat.dvd_mul_right p _) (dvd_refl p)
    rw [if_pos hdvd]
    omega
  · have hmod : (c + 1) % p = c % p + 1 := by
      rw [hsum, Nat.mul_add_mod, Nat.mod_eq_of_lt (by omega)]
    have hndvd : ¬ p ∣ c + 1 := by
      rw [Nat.dvd_iff_mod_eq_zero, hmod]
      exact Nat.succ_ne_zero _
    rw [if_neg hndvd, hmod]
    omega

/-- Silence is counted down by the sync periods of any masters from the set. -/
theorem silence_countdown (hT : T.Nonempty) :
    (lockstep M n).Countdown (fun slot => slot.MasterFrom T) NothingOffered
      (SilenceLeft (M := M) p T) where
  pays := by
    rintro s slot k ⟨c, h, hk⟩ hslot hquiet
    have hsum := sum_patience_step (h.led hslot.masterIn) hslot fun i =>
      (lockstep_events slot s i).2 ▸ hquiet i
    have hpos := h.sound.pos
    rw [← hsum, untilMultiple_succ hpos, ← Nat.add_assoc, Nat.succ_inj] at hk
    by_cases hdvd : p ∣ c + 1
    · -- an alarm: the set pays with its patience, and a whole period lies ahead
      rw [if_pos hdvd, if_pos hdvd, Nat.mul_add, Nat.mul_one, Nat.add_zero] at hk
      refine ⟨k - 1, by omega, c + 1, h.step hslot.masterIn, ?_⟩
      rw [Nat.mod_eq_zero_of_dvd hdvd]
      omega
    · rw [if_neg hdvd, if_neg hdvd, Nat.add_zero] at hk
      have hlt := Nat.mod_lt (c + 1) hpos
      exact ⟨k - 1, by omega, c + 1, h.step hslot.masterIn, by omega⟩
  affords := by
    rintro s k ⟨c, h, hk⟩
    -- before an alarm any unit of the set will do; at one, a unit that has patience left
    have hunit : ∃ m ∈ T, p ∣ c + 1 → patience (s m) ≠ 0 := by
      by_cases hdvd : p ∣ c + 1
      · rw [untilMultiple_succ h.sound.pos, if_pos hdvd] at hk
        have hsum : ∑ i ∈ T, patience (s i) ≠ 0 := fun hzero => by simp [hzero] at hk
        obtain ⟨m, hm, hne⟩ := Finset.exists_ne_zero_of_sum_ne_zero hsum
        exact ⟨m, hm, fun _ => hne⟩
      · obtain ⟨m, hm⟩ := hT
        exact ⟨m, hm, fun halarm => absurd halarm hdvd⟩
    obtain ⟨m, hm, hpatient⟩ := hunit
    have hslot : (SyncPeriod.ofMaster m 0).MasterFrom T := ⟨m, hm, rfl⟩
    refine ⟨.ofMaster m 0, hslot, fun i => ?_⟩
    rw [(lockstep_events _ s i).2, tick_silent_iff (h.led hslot.masterIn)]
    rintro hi hdvd
    cases hi
    exact hpatient hdvd

/-- How long a set in step can stay silent is read off any of its units. -/
theorem InStep.silenceLeft (h : InStep p T s) {m : Fin n} (hm : m ∈ T) {u : Firmware M}
    (hu : s m = .ok u) :
    SilenceLeft p T s (p * ∑ i ∈ T, patience (s i) + (p - u.clock.counter % p) - 1) := by
  have hphase : AtPhase p u.clock.counter (s m) := by
    obtain ⟨_, _, hu', -, hperiod, -⟩ := h.congruent (i := m) (j := m) hm hm
    cases hu.symm.trans hu'
    exact ⟨u, hu, hperiod, rfl⟩
  have hlt := Nat.mod_lt u.clock.counter h.sound.pos
  exact ⟨u.clock.counter, h.standsAt hm hphase, by omega⟩

omit [OneItemMailbox M] in
/-- The silence of a set is at most four alarms for each of its units, and the way to the first
one. -/
theorem silence_le (p c : ℕ) (T : Finset (Fin n)) (s : Units M n) :
    p * ∑ i ∈ T, patience (s i) + (p - c % p) ≤ (4 * T.card + 1) * p := by
  have hsum : ∑ i ∈ T, patience (s i) ≤ 4 * T.card := by
    rw [Nat.mul_comm, ← smul_eq_mul]
    exact Finset.sum_le_card_nsmul T _ 4 fun i _ => patience_le (s i)
  have hmul := Nat.mul_le_mul_left p hsum
  rw [Nat.add_mul, Nat.one_mul, Nat.mul_comm _ p]
  omega

/-- A run of four periods for each unit of the set and one more has an offer of a WorkSync in it. -/
theorem InStep.exists_offer (h : InStep p T s) (hT : ∀ slot ∈ slots, slot.MasterFrom T)
    (hne : T.Nonempty) (hlen : (4 * T.card + 1) * p ≤ slots.length) :
    ∃ before slot later, slots = before ++ slot :: later ∧
      ∃ i, workSyncPuts (slot.tick ((lockstep M n).after s before) i).2 ≠ [] := by
  obtain ⟨m, hm⟩ := hne
  obtain ⟨u, hu, -⟩ := h.ready m
  have hlt := Nat.mod_lt u.clock.counter h.sound.pos
  have hle := silence_le p u.clock.counter T s
  obtain ⟨before, slot, later, hsplit, hloud⟩ :=
    (silence_countdown (M := M) ⟨m, hm⟩).exists_loud (h.silenceLeft hm hu) hT (by omega)
  obtain ⟨i, hi⟩ := not_forall.mp hloud
  rw [(lockstep_events slot ((lockstep M n).after s before) i).2] at hi
  exact ⟨before, slot, later, hsplit, i, hi⟩

end Silence

section Convergence

/-- In how many sync periods of a run a WorkSync is sent that does not reach a unit. -/
def missed (i : Fin n) : Units M n → List (SyncPeriod n) → ℕ
  | _, [] => 0
  | s, slot :: rest =>
    (if slot.workSync s ≠ none ∧ slot.copies i = 0 then 1 else 0) +
      missed i ((lockstep M n).step s slot).1 rest

theorem missed_append (i : Fin n) (s : Units M n) (first second : List (SyncPeriod n)) :
    missed i s (first ++ second) =
      missed i s first + missed i ((lockstep M n).after s first) second := by
  induction first generalizing s with
  | nil => exact (Nat.zero_add _).symm
  | cons slot rest ih => simp only [List.cons_append, missed, ih, Mealy.after_cons, Nat.add_assoc]

/-- Only the master offers a WorkSync, and the agent finds what it offered. -/
theorem workSync_ne_none_of_put (h : slot.Led s p c) {i : Fin n}
    (hput : workSyncPuts (slot.tick s i).2 ≠ []) :
    slot.master = some i ∧ slot.workSync s ≠ none := by
  have hmaster : slot.master = some i := by
    by_contra hne
    exact hput ((tick_silent_iff h i).mpr fun heq => absurd heq hne)
  refine ⟨hmaster, ?_⟩
  rw [workSync_eq h.ready hmaster]
  exact fun hnone => hput (List.head?_eq_none_iff.mp hnone)

/-- Within four periods for each unit of the set and one more, a WorkSync is sent. -/
theorem InStep.exists_sent (h : InStep p T s) (hT : ∀ slot ∈ slots, slot.MasterFrom T)
    (hne : T.Nonempty) (hlen : (4 * T.card + 1) * p ≤ slots.length) :
    ∃ before slot later, slots = before ++ slot :: later ∧
      before.length < (4 * T.card + 1) * p ∧
      slot.workSync ((lockstep M n).after s before) ≠ none := by
  have hwindow : (slots.take ((4 * T.card + 1) * p)).length = (4 * T.card + 1) * p :=
    List.length_take_of_le hlen
  obtain ⟨before, slot, later, hsplit, i, hput⟩ :=
    h.exists_offer (fun slot hslot => hT slot (List.mem_of_mem_take hslot)) hne hwindow.ge
  have hmem {x : SyncPeriod n} (hx : x ∈ before ++ slot :: later) : x.MasterFrom T :=
    hT x (List.mem_of_mem_take (hsplit ▸ hx))
  have hreached := h.after fun x hx => (hmem (List.mem_append_left _ hx)).masterIn
  obtain ⟨c, hled, -⟩ :=
    hreached.led (hmem (List.mem_append_right _ List.mem_cons_self)).masterIn
  refine ⟨before, slot, later ++ slots.drop ((4 * T.card + 1) * p), ?_, ?_,
    (workSync_ne_none_of_put hled hput).2⟩
  · rw [← List.cons_append, ← List.append_assoc, ← hsplit, List.take_append_drop]
  · rw [hsplit, List.length_append, List.length_cons] at hwindow
    omega

/-- A unit that is reached by a WorkSync is in step with the set from then on. -/
theorem InStep.after_reached (h : InStep p T s) {before later : List (SyncPeriod n)} {i : Fin n}
    (hT : ∀ x ∈ before ++ slot :: later, x.MasterFrom T)
    (hsent : slot.workSync ((lockstep M n).after s before) ≠ none) (hreached : slot.copies i ≠ 0) :
    InStep p (insert i (T : Set (Fin n)))
      ((lockstep M n).after s (before ++ slot :: later)) := by
  obtain ⟨hbefore, hnow⟩ := List.forall_mem_append.mp hT
  obtain ⟨hslot, hlater⟩ := List.forall_mem_cons.mp hnow
  have hjoined : InStep p (insert i (T : Set (Fin n)))
      ((lockstep M n).step ((lockstep M n).after s before) slot).1 := by
    refine (h.after fun x hx => (hbefore x hx).masterIn).step hslot.masterIn fun j hj => ?_
    rcases hj with rfl | hj
    · exact .inr (heard_ne_none_iff.mpr ⟨hreached, hsent⟩)
    · exact .inl hj
  rw [Mealy.after_append, Mealy.after_cons]
  exact hjoined.after fun x hx m hm => .inr ((hlater x hx).masterIn m hm)

/-- A unit that misses no more than some number of WorkSyncs is in step once one more was sent. -/
theorem InStep.joins (h : InStep p T s) (hT : ∀ slot ∈ slots, slot.MasterFrom T)
    (hne : T.Nonempty) {i : Fin n} {lost : ℕ}
    (hlen : (lost + 1) * ((4 * T.card + 1) * p) ≤ slots.length)
    (hmissed : missed i s slots ≤ lost) :
    InStep p (insert i (T : Set (Fin n))) ((lockstep M n).after s slots) := by
  induction lost generalizing s slots with
  | zero =>
    rw [Nat.zero_add, Nat.one_mul] at hlen
    obtain ⟨before, slot, later, rfl, -, hsent⟩ := h.exists_sent hT hne hlen
    refine h.after_reached hT hsent fun hzero => ?_
    rw [missed_append, missed, if_pos ⟨hsent, hzero⟩] at hmissed
    omega
  | succ lost ih =>
    rw [Nat.succ_mul] at hlen
    obtain ⟨before, slot, later, rfl, hearly, hsent⟩ := h.exists_sent hT hne (by omega)
    by_cases hzero : slot.copies i = 0
    · -- this one is lost, and one less may be lost later
      rw [missed_append, missed, if_pos ⟨hsent, hzero⟩] at hmissed
      obtain ⟨hbefore, hnow⟩ := List.forall_mem_append.mp hT
      obtain ⟨hslot, hlater⟩ := List.forall_mem_cons.mp hnow
      have hnext := (h.after fun x hx => (hbefore x hx).masterIn).step hslot.masterIn
        fun _ => .inl
      rw [List.length_append, List.length_cons] at hlen
      rw [Mealy.after_append, Mealy.after_cons]
      exact ih hnext hlater (by omega) (by omega)
    · exact h.after_reached hT hsent hzero

/-- If each unit misses no more than some number of WorkSyncs, all units come in step. -/
theorem InStep.after_missed (h : InStep p T s) (hT : ∀ slot ∈ slots, slot.MasterFrom T)
    (hne : T.Nonempty) {lost : ℕ}
    (hlen : (lost + 1) * ((4 * T.card + 1) * p) ≤ slots.length)
    (hmissed : ∀ i ∉ T, missed i s slots ≤ lost) :
    InStep p Set.univ ((lockstep M n).after s slots) := by
  have hend := h.after fun slot hslot => (hT slot hslot).masterIn
  obtain ⟨-, hready, c, hphase⟩ := hend
  obtain ⟨m, hm⟩ := hne
  refine ⟨h.sound, hready, c, fun i _ => ?_⟩
  by_cases hi : i ∈ T
  · exact hphase i hi
  · have hjoined := h.joins hT ⟨m, hm⟩ hlen (hmissed i hi)
    exact (hjoined.standsAt (.inr hm) (hphase m hm)).phase i (.inl rfl)

end Convergence

/-- The longest silence of units that take turns as master, from any state in which they are in
step. Up to the next alarm no WorkSync is offered, and after it one alarm for each that the
maintenance counters allow; some order of the turns uses all of them, and no order gets further.
That makes at most four alarms for each of the units, and a period for the way to the last. -/
theorem longest_silence (h : InStep p T s) {m : Fin n} (hm : m ∈ T) {u : Firmware M}
    (hu : s m = .ok u) (len : ℕ) :
    ((∃ slots : List (SyncPeriod n), slots.length = len ∧ (∀ slot ∈ slots, slot.MasterFrom T) ∧
        ∀ events ∈ (lockstep M n).outputs s slots, NothingOffered events) ↔
      len < p * ∑ i ∈ T, patience (s i) + (p - u.clock.counter % p)) ∧
    p * ∑ i ∈ T, patience (s i) + (p - u.clock.counter % p) ≤ (4 * T.card + 1) * p := by
  have hlt := Nat.mod_lt u.clock.counter h.sound.pos
  refine ⟨?_, silence_le p u.clock.counter T s⟩
  rw [(silence_countdown ⟨m, hm⟩).exists_quiet_iff (h.silenceLeft hm hu)]
  omega

/-- Two units that work every sync period, with counters one and four short of a multiple of five,
can take turns for three sync periods in silence. -/
theorem longest_silence_pair :
    let unit (maintenance : UInt32) : UnitState (Option MailContents) :=
      .ok { syncPeriodsBetweenWork := 1, maintenanceCounter := maintenance, outMailbox := none,
            inMailbox := none }
    let s : Units (Option MailContents) 2 := ![unit 4, unit 1]
    ∃ slots : List (SyncPeriod 2), slots.length = 3 ∧
      (∀ slot ∈ slots, slot.MasterFrom Finset.univ) ∧
      ∀ events ∈ (lockstep _ 2).outputs s slots, NothingOffered events := by
  intro unit s
  have hstart : InStep 1 ((Finset.univ : Finset (Fin 2)) : Set (Fin 2)) s :=
    { sound := ⟨0, by decide, rfl⟩
      ready := fun i => by fin_cases i <;> exact ⟨_, rfl, by decide, rfl⟩
      phase := ⟨0, fun i _ => by fin_cases i <;> exact ⟨_, rfl, rfl, by decide⟩⟩ }
  exact ((longest_silence hstart (Finset.mem_univ 0) rfl 3).1).mpr (by decide)

/-- The work-sync protocol stabilises itself under masters that take turns, and under loss. Let
units in step share the master role between them, in any order of turns, and let each other unit
miss at most `lost` WorkSyncs. Then `lost + 1` times four periods for each unit of the set and one
more bring the whole clique to agree. From then on all units alarm together, whoever is master and
whatever is lost. -/
theorem rotation_stabilises (h : InStep p T s) (hne : T.Nonempty) (lost : ℕ)
    (before later : List (SyncPeriod n)) (hT : ∀ slot ∈ before, slot.MasterFrom T)
    (hlen : (lost + 1) * ((4 * T.card + 1) * p) ≤ before.length)
    (hmissed : ∀ i ∉ T, missed i s before ≤ lost) :
    Agree p ((lockstep M n).after s (before ++ later)) ∧
      ∀ events ∈ (lockstep M n).outputs ((lockstep M n).after s before) later, ∀ i j,
        raisesWorkAlarm (events i) = raisesWorkAlarm (events j) := by
  have hall := h.after_missed hT hne hlen hmissed
  have hmasters : ∀ slot ∈ later, slot.MasterIn Set.univ := fun _ _ _ _ => trivial
  refine ⟨?_, fun events hevents i j => hall.outputs hmasters events hevents i trivial j trivial⟩
  rw [Mealy.after_append]
  exact (inStep_univ_iff.mp (hall.after hmasters)).1

/-- Two units that share the master role bring a third one in step, whose period was another and
which does not hear the first WorkSync. -/
theorem rotation_stabilises_three :
    let unit (counter period : UInt32) : UnitState (Option MailContents) :=
      .ok { workClockCounter := counter, syncPeriodsBetweenWork := period, outMailbox := none,
            inMailbox := none }
    let s : Units (Option MailContents) 3 := ![unit 7 1, unit 4 1, unit 5 9]
    let before : List (SyncPeriod 3) :=
      List.replicate 9 (.ofMaster 0 0) ++ List.replicate 9 (.ofMaster 1 1)
    Agree 1 ((lockstep _ 3).after s (before ++ [.ofMaster 2 0])) := by
  intro unit s before
  have hstart : InStep 1 (({0, 1} : Finset (Fin 3)) : Set (Fin 3)) s :=
    { sound := ⟨0, by decide, rfl⟩
      ready := fun i => by fin_cases i <;> exact ⟨_, rfl, by decide, rfl⟩
      phase := ⟨0, fun i hi => by
        have hshared : i = 0 ∨ i = 1 := by simpa using hi
        rcases hshared with rfl | rfl <;> exact ⟨_, rfl, rfl, Nat.modEq_one⟩⟩ }
  refine (rotation_stabilises hstart (Finset.insert_nonempty 0 {1}) 1 before [.ofMaster 2 0] ?_
    (by decide) ?_).1
  · intro slot hslot
    rcases List.mem_append.mp hslot with hfirst | hsecond
    · exact ⟨0, by simp, List.eq_of_mem_replicate hfirst ▸ rfl⟩
    · exact ⟨1, by simp, List.eq_of_mem_replicate hsecond ▸ rfl⟩
  · decide

end Firefly
