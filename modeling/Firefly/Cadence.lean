import Firefly.WorkSyncMail

/-!
# The cadence of WorkSyncs

Between two consecutive puts of one unit lie five work alarms as master, whatever else
happens to the unit in between: alarms as slave, WorkSyncs from others, provisioning. Only
where the maintenance counter wraps does a put follow the previous one at the next alarm,
because the last value before the wrap is a multiple of five itself. A unit that has gone four
alarms as master without a put makes one at the fifth.

The argument runs along the inputs. They move the maintenance counter on by the number of alarms
as master, and as long as there is no put, none of the values passed is a multiple of five.
-/

namespace Firefly

open Foundation

variable {M : Type} [Mailbox M]

/-- How many work alarms the unit has as master while it handles the inputs. -/
def masterAlarms (s : UnitState M) (inputs : List (Input M)) : ℕ :=
  (inputs.zip ((unitMachine M).outputs s inputs)).countP fun answered =>
    masterAlarm answered.1 answered.2

/-- The WorkSyncs that the unit offers to its outbox while it handles one input. -/
def putsIn (s : UnitState M) (i : Input M) : List MailContents :=
  workSyncPuts ((unitMachine M).step s i).2

/-- Only a running unit puts. -/
theorem running_of_putsIn {s : UnitState M} {i : Input M} (h : putsIn s i ≠ []) :
    ∃ u u', s = .ok u ∧ u.handle i = .ok (u', ((unitMachine M).step s i).2) := by
  rcases step_cases s i with ⟨u, u', events, rfl, hhandle, hstep⟩ | ⟨fault, hstep, -⟩
  · rw [hstep]
    exact ⟨u, u', rfl, hhandle⟩
  · rw [putsIn, hstep] at h
    exact absurd rfl h

/-- A maintenance counter at zero modulo five is a multiple of five as a number. -/
theorem maintenance_mod_five_iff (x : UInt32) : x % 5 = 0 ↔ 5 ∣ x.toNat := mod_eq_zero_iff x 5

/-- One alarm as master more, then the alarms of the remaining inputs. -/
theorem masterAlarms_cons (s : UnitState M) (i : Input M) (rest : List (Input M)) :
    masterAlarms s (i :: rest) =
      masterAlarms ((unitMachine M).step s i).1 rest +
        if masterAlarm i ((unitMachine M).step s i).2 then 1 else 0 := by
  rw [masterAlarms, Mealy.outputs_cons, List.zip_cons_cons, List.countP_cons]
  rfl

theorem masterAlarms_append (s : UnitState M) (first second : List (Input M)) :
    masterAlarms s (first ++ second) =
      masterAlarms s first + masterAlarms ((unitMachine M).after s first) second := by
  rw [masterAlarms, Mealy.outputs_append, List.zip_append (by simp), List.countP_append]
  rfl

/-- The maintenance counter after `k` further alarms as master. -/
def maintenanceAfter (u : Firmware M) (k : ℕ) : ℕ :=
  (u.maintenanceCounter.toNat + k) % counterModulus

/-- A step that returns shifts the values still to come by its alarm as master, if it is one. -/
theorem maintenanceAfter_step {u v : Firmware M} {i : Input M}
    (hnext : ((unitMachine M).step (.ok u) i).1 = .ok v) (k : ℕ) :
    maintenanceAfter v k = maintenanceAfter u
      (k + if masterAlarm i ((unitMachine M).step (.ok u) i).2 then 1 else 0) := by
  obtain ⟨hcount, -⟩ := handle_puts (handle_of_step hnext)
  rw [maintenanceAfter, hcount]
  split
  · rw [UInt32.toNat_add, maintenanceAfter, Nat.add_comm k 1, ← Nat.add_assoc]
    exact Nat.mod_add_mod _ _ _
  · rfl

omit [Mailbox M] in
/-- Where nothing happens there is no alarm. -/
theorem masterAlarm_nil (i : Input M) : masterAlarm i [] = false := by
  cases i with
  | onPreSyncSlot r => exact Bool.and_false _
  | _ => rfl

/-- A stopped unit has no alarms. -/
theorem masterAlarms_of_fault (fault : Fault) (inputs : List (Input M)) :
    masterAlarms (.error fault) inputs = 0 := by
  induction inputs with
  | nil => rfl
  | cons i rest ih =>
    have hstep : (unitMachine M).step (.error fault) i = (.error fault, []) :=
      Mealy.ofExcept_step_error fault i
    rw [masterAlarms_cons, hstep, ih, masterAlarm_nil]
    rfl

/-- A run moves the maintenance counter on by its alarms as master. -/
theorem maintenance_of_run {u u' : Firmware M} {inputs : List (Input M)}
    (hrun : (unitMachine M).after (.ok u) inputs = .ok u') :
    u'.maintenanceCounter.toNat = maintenanceAfter u (masterAlarms (.ok u) inputs) := by
  induction inputs generalizing u with
  | nil =>
    cases hrun
    exact (Nat.mod_eq_of_lt (UInt32.toNat_lt _)).symm
  | cons i rest ih =>
    rw [Mealy.after_cons] at hrun
    cases hnext : ((unitMachine M).step (.ok u) i).1 with
    | error fault => exact absurd (hnext ▸ hrun) not_running_of_fault
    | ok v =>
      rw [hnext] at hrun
      rw [ih hrun, maintenanceAfter_step hnext, masterAlarms_cons, hnext]

/-- A run without puts reaches no multiple of five on the way. -/
theorem free_of_silent_run {u : Firmware M} {inputs : List (Input M)}
    (hsilent : ∀ events ∈ (unitMachine M).outputs (.ok u) inputs, workSyncPuts events = []) :
    ∀ k, 0 < k → k ≤ masterAlarms (.ok u) inputs → ¬ 5 ∣ maintenanceAfter u k := by
  induction inputs generalizing u with
  | nil => exact fun k hpos hle => absurd hle (Nat.not_le.mpr hpos)
  | cons i rest ih =>
    intro k hpos hle
    rw [Mealy.outputs_cons, List.forall_mem_cons] at hsilent
    rw [masterAlarms_cons] at hle
    rcases step_cases (.ok u) i with ⟨_, v, events, hu, hhandle, hstep⟩ | ⟨fault, hstep, -⟩
    · cases hu
      have hnext : ((unitMachine M).step (.ok u) i).1 = .ok v := by rw [hstep]
      obtain ⟨hcount, hputs⟩ := handle_puts hhandle
      rw [hstep] at hsilent hle
      dsimp only at hsilent hle
      have hlater := ih hsilent.2
      have hshift := maintenanceAfter_step hnext
      rw [hstep] at hshift
      cases halarm : masterAlarm i events with
      | false =>
        rw [halarm] at hshift hle
        exact hshift k ▸ hlater k hpos hle
      | true =>
        rw [halarm, if_pos rfl] at hshift hle
        rcases Nat.lt_or_eq_of_le hpos with hgt | rfl
        · have hkept := hlater (k - 1) (by omega) (by omega)
          rwa [hshift, Nat.sub_add_cancel hpos] at hkept
        · -- the alarm itself put nothing, so its value is no multiple of five
          intro hdvd
          have hlt : v.maintenanceCounter.toNat < counterModulus := UInt32.toNat_lt _
          rw [← hshift 0, maintenanceAfter, Nat.add_zero, Nat.mod_eq_of_lt hlt,
            ← maintenance_mod_five_iff] at hdvd
          rw [hsilent.1, if_pos ⟨halarm, hdvd⟩] at hputs
          cases hputs
    · -- a stopped unit raises no alarm any more
      rw [hstep, masterAlarms_of_fault, masterAlarm_nil] at hle
      exact absurd hle (Nat.not_le.mpr hpos)

/-- A run without puts has at most four alarms as master. -/
theorem masterAlarms_le_of_silent {s : UnitState M} {inputs : List (Input M)}
    (hsilent : ∀ events ∈ (unitMachine M).outputs s inputs, workSyncPuts events = []) :
    masterAlarms s inputs ≤ 4 := by
  cases s with
  | error fault =>
    rw [masterAlarms_of_fault]
    exact Nat.zero_le 4
  | ok u =>
    by_contra hmore
    have hlt : u.maintenanceCounter.toNat < counterModulus := UInt32.toNat_lt _
    obtain ⟨k, hpos, hle, hdvd⟩ := divider_alarm_within (d := 5) (by decide) hlt
    exact free_of_silent_run hsilent k hpos (by omega) hdvd

/-- An attempted put counts one alarm as master, reaches a multiple of five, and carries the
period in force. -/
theorem putsIn_inv {s : UnitState M} {i : Input M} (h : putsIn s i ≠ []) :
    ∃ u u', s = .ok u ∧ ((unitMachine M).step s i).1 = .ok u' ∧
      masterAlarm i ((unitMachine M).step s i).2 = true ∧
      5 ∣ maintenanceAfter u 1 ∧ u'.maintenanceCounter.toNat = maintenanceAfter u 1 ∧
      putsIn s i = [u.syncPeriodsBetweenWork.toUInt8] := by
  obtain ⟨u, u', rfl, hhandle⟩ := running_of_putsIn h
  obtain ⟨hcount, hputs⟩ := handle_puts hhandle
  rw [putsIn, hputs] at h
  split at h
  · rename_i hput
    rw [if_pos hput.1] at hcount
    have hnext : u'.maintenanceCounter.toNat = maintenanceAfter u 1 := by
      rw [hcount, UInt32.toNat_add]
      rfl
    refine ⟨u, u', rfl, by rw [step_of_handle hhandle], hput.1, ?_, hnext, ?_⟩
    · exact hnext ▸ (maintenance_mod_five_iff _).mp hput.2
    · rw [putsIn, hputs, if_pos hput]
  · exact absurd rfl h

/-- A unit on a sound period offers exactly its period. -/
theorem putsIn_eq_period {u : Firmware M} (hu : SoundPeriod u.clock.period) {i : Input M} :
    ∀ work ∈ putsIn (.ok u) i, work.toNat = u.clock.period := by
  intro work hwork
  obtain ⟨v, -, hv, -, -, -, -, hputs⟩ := putsIn_inv (List.ne_nil_of_mem hwork)
  cases hv
  rw [hputs, List.mem_singleton] at hwork
  exact hwork ▸ hu.toUInt8_toNat

/-- A put happens in a tick that raises the work alarm while the unit is master. -/
theorem tick_of_putsIn {s : UnitState M} {i : Input M} (h : putsIn s i ≠ []) :
    ∃ r, i = .onPreSyncSlot r ∧ r.isSelfMaster = true ∧
      raisesWorkAlarm ((unitMachine M).step s i).2 = true := by
  obtain ⟨-, -, -, -, halarm, -⟩ := putsIn_inv h
  cases i with
  | onPreSyncSlot r =>
    obtain ⟨hmaster, hraises⟩ := Bool.and_eq_true_iff.mp halarm
    exact ⟨r, rfl, hmaster, hraises⟩
  | _ => cases halarm

/-- From a put to the next one a unit has five alarms as master, or a single one where the
maintenance counter wraps. -/
theorem masterAlarms_between_puts {s : UnitState M} {i j : Input M} {mid : List (Input M)}
    (hi : putsIn s i ≠ [])
    (hsilent : ∀ events ∈ (unitMachine M).outputs ((unitMachine M).after s [i]) mid,
      workSyncPuts events = [])
    (hj : putsIn ((unitMachine M).after s (i :: mid)) j ≠ []) :
    ∃ v, (unitMachine M).after s (i :: mid) = .ok v ∧
      masterAlarms ((unitMachine M).after s [i]) (mid ++ [j]) =
        if v.maintenanceCounter = 4294967295 then 1 else 5 := by
  obtain ⟨_, first, -, hfirst, -, hfive, hstart, -⟩ := putsIn_inv hi
  obtain ⟨v, last, hv, -, hlast, hdvd, -, -⟩ := putsIn_inv hj
  refine ⟨v, hv, ?_⟩
  rw [Mealy.after_cons] at hv
  rw [Mealy.after_cons, Mealy.after_nil, hfirst] at hsilent ⊢
  rw [hfirst] at hv
  rw [Mealy.after_cons, hfirst, hv] at hlast
  have hcount := maintenance_of_run hv
  have htotal : masterAlarms (.ok first) (mid ++ [j]) = masterAlarms (.ok first) mid + 1 := by
    rw [masterAlarms_append, hv, masterAlarms_cons, hlast]
    rfl
  have hv_eq : v.maintenanceCounter = 4294967295 ↔
      maintenanceAfter first (masterAlarms (.ok first) mid) = counterModulus - 1 := by
    rw [← hcount, ← UInt32.toNat_inj]
    rfl
  have hdvd' : 5 ∣ maintenanceAfter first (masterAlarms (.ok first) mid + 1) := by
    rwa [maintenanceAfter, hcount, maintenanceAfter, Nat.mod_add_mod, Nat.add_assoc] at hdvd
  rw [htotal, if_congr hv_eq rfl rfl]
  exact divider_next_alarm (by decide) (by decide) (UInt32.toNat_lt _) (hstart ▸ hfive) hdvd'
    (free_of_silent_run hsilent)

/-- Where a run without puts would come to a fifth alarm as master, a put comes with it. -/
theorem putsIn_of_fifth {s : UnitState M} {mid : List (Input M)} {j : Input M}
    (hsilent : ∀ events ∈ (unitMachine M).outputs s mid, workSyncPuts events = [])
    (hfifth : masterAlarms s (mid ++ [j]) = 5) :
    putsIn ((unitMachine M).after s mid) j ≠ [] := by
  -- without a put in it, the longer run would have four alarms at most
  intro hnone
  have hlonger : ∀ events ∈ (unitMachine M).outputs s (mid ++ [j]), workSyncPuts events = [] := by
    rw [Mealy.outputs_append, List.forall_mem_append]
    exact ⟨hsilent, List.forall_mem_singleton.mpr hnone⟩
  have hle := masterAlarms_le_of_silent hlonger
  omega

/-- In every run of a unit a WorkSync is offered only in a tick that raises the work alarm while
the unit is master, once, and with the period in force as payload. Up to the next one the unit
has five work alarms as master, or a single one if the maintenance counter wraps there. It never
has more than four of them without an offer, so if one has not come before, the fifth brings it. -/
theorem workSync_cadence {u : Firmware M} (hu : SoundPeriod u.clock.period)
    (pre : List (Input M)) :
    let s := (unitMachine M).after (.ok u) pre
    (∀ i, putsIn s i ≠ [] → ∃ v r, s = .ok v ∧ i = .onPreSyncSlot r ∧ r.isSelfMaster = true ∧
      raisesWorkAlarm ((unitMachine M).step s i).2 = true ∧
      ∃ work, putsIn s i = [work] ∧ work.toNat = v.clock.period) ∧
    (∀ i mid j, putsIn s i ≠ [] →
      (∀ events ∈ (unitMachine M).outputs ((unitMachine M).after s [i]) mid,
        workSyncPuts events = []) →
      putsIn ((unitMachine M).after s (i :: mid)) j ≠ [] →
      ∃ v, (unitMachine M).after s (i :: mid) = .ok v ∧
        masterAlarms ((unitMachine M).after s [i]) (mid ++ [j]) =
          if v.maintenanceCounter = 4294967295 then 1 else 5) ∧
    ∀ mid, (∀ events ∈ (unitMachine M).outputs s mid, workSyncPuts events = []) →
      masterAlarms s mid ≤ 4 ∧
      ∀ j, masterAlarms s (mid ++ [j]) = 5 → putsIn ((unitMachine M).after s mid) j ≠ [] := by
  intro s
  refine ⟨fun i hi => ?_, fun i mid j hi hsilent hj => masterAlarms_between_puts hi hsilent hj,
    fun mid hsilent => ⟨masterAlarms_le_of_silent hsilent, fun j => putsIn_of_fifth hsilent⟩⟩
  obtain ⟨v, -, hs, -, -, -, -, hputs⟩ := putsIn_inv hi
  obtain ⟨r, htick, hmaster, hraises⟩ := tick_of_putsIn hi
  have hsound : SoundState (.ok v) := hs ▸ SoundState.after (s := .ok u) hu pre
  exact ⟨v, r, hs, htick, hmaster, hraises, _, hputs, hsound.toUInt8_toNat⟩

/-- A master that works every sync period and never has its outbox fetched puts its period at the
fifth alarm and, though the outbox stays full, again at the tenth. -/
theorem workSync_cadence_master :
    let r : Readings := ⟨true, false, false, .mediumToHigh, 0⟩
    let tick : Input (Option MailContents) := .onPreSyncSlot r
    let start : UnitState (Option MailContents) := .ok (.powerOn none none)
    let pre : List (Input (Option MailContents)) :=
      .setSyncPeriodsBetweenWorkCoded 0 :: ticks [r, r, r, r]
    let s := (unitMachine _).after start pre
    putsIn s tick = [1] ∧ putsIn ((unitMachine _).after s (tick :: ticks [r, r, r, r])) tick = [1] ∧
      ∃ v, (unitMachine _).after s (tick :: ticks [r, r, r, r]) = .ok v ∧
        masterAlarms ((unitMachine _).after s [tick]) (ticks [r, r, r, r] ++ [tick]) =
          if v.maintenanceCounter = 4294967295 then 1 else 5 := by
  intro r tick start pre s
  let u : Firmware (Option MailContents) := .powerOn none none
  have hu : SoundPeriod u.clock.period := ⟨2, by decide, rfl⟩
  obtain ⟨-, hspacing, -⟩ := workSync_cadence hu pre
  -- the fifth alarm after the first put
  obtain ⟨-, -, hfifth⟩ := workSync_cadence hu (pre ++ [tick])
  rw [Mealy.after_append] at hfifth
  have hsilent : ∀ events ∈ (unitMachine _).outputs ((unitMachine _).after s [tick])
      (ticks [r, r, r, r]), workSyncPuts events = [] := by decide
  have hfirst : putsIn s tick = [1] := by decide
  have hsecond : putsIn ((unitMachine _).after s (tick :: ticks [r, r, r, r])) tick ≠ [] :=
    (hfifth (ticks [r, r, r, r]) hsilent).2 tick (by decide)
  exact ⟨hfirst, by decide, hspacing tick _ tick (by rw [hfirst]; decide) hsilent hsecond⟩

end Firefly
