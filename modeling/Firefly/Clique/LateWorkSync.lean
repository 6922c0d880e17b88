import Firefly.Clique.Lockstep

/-!
# The effect of a late WorkSync

A WorkSync may wait in the outbox of the master while the master ticks on and is provisioned.
Further puts fail on the full box, so what is delivered in the end is the period at the time of
the first put, and the slave starts from zero with that period.

Meanwhile the counter of the master has moved on by the ticks and the advances. The two units
alarm together from then on exactly when the master still has the mailed period and moved on by
a multiple of it.
-/

namespace Firefly

open Foundation

variable {M : Type}

/-- What can happen to the master while its WorkSync waits: ticks and provisioning. -/
def Input.Delays : Input M → Prop
  | .onPreSyncSlot _ | .syncToPast _ | .setSyncPeriodsBetweenWorkCoded _ => True
  | .onWorkSyncMsg _ _ | .setOutMailbox _ => False

/-- The number of ticks among some inputs. -/
def tickCount (inputs : List (Input M)) : ℕ :=
  inputs.countP fun
    | .onPreSyncSlot _ => true
    | _ => false

/-- The sum of the advances among some inputs. -/
def advanceSum (inputs : List (Input M)) : ℕ :=
  (inputs.map fun
    | .syncToPast clockAdvance => clockAdvance.toNat
    | _ => 0).sum

theorem Input.Delays.accepted {i : Input M} (h : i.Delays) : i.Accepted := by
  cases i with
  | onWorkSyncMsg r work => exact h.elim
  | _ => trivial

/-- An input of a delay moves the counter by its tick or its advance. -/
theorem Input.Delays.counter {i : Input M} (h : i.Delays) (c : Clock) (rest : List (Input M)) :
    (i.clockOp.apply c).counter + (tickCount rest + advanceSum rest) =
      c.counter + (tickCount (i :: rest) + advanceSum (i :: rest)) := by
  cases i with
  | onWorkSyncMsg r work => exact h.elim
  | setOutMailbox box => exact h.elim
  | _ =>
    simp only [tickCount, advanceSum, List.countP_cons, List.map_cons, List.sum_cons,
      Input.clockOp, ClockOp.apply, if_true, Bool.false_eq_true, if_false]
    omega

variable [OneItemMailbox M]

/-- Puts on a full mailbox leave it as it was. -/
theorem mailboxAfter_full {box : M} {pending : MailContents}
    (h : OneItemMailbox.mail box = some pending) (works : List MailContents) :
    mailboxAfter box works = box := by
  induction works with
  | nil => rfl
  | cons work rest ih =>
    rw [mailboxAfter, List.foldl_cons, OneItemMailbox.tryPut_of_full box work pending h]
    exact ih

/-- A delay moves the counter by its ticks and advances, and leaves a pending WorkSync alone. -/
theorem delay_run {u : Firmware M} (hu : SoundPeriod u.clock.period) {pending : MailContents}
    (hmail : OneItemMailbox.mail u.outMailbox = some pending) {delay : List (Input M)}
    (hdelay : ∀ i ∈ delay, i.Delays) :
    ∃ v, (unitMachine M).after (.ok u) delay = .ok v ∧ SoundPeriod v.clock.period ∧
      OneItemMailbox.mail v.outMailbox = some pending ∧
      v.clock.counter ≡ u.clock.counter + (tickCount delay + advanceSum delay)
        [MOD counterModulus] := by
  induction delay generalizing u with
  | nil => exact ⟨u, rfl, hu, hmail, rfl⟩
  | cons i rest ih =>
    obtain ⟨hi, hrest⟩ := List.forall_mem_cons.mp hdelay
    obtain ⟨⟨w, events⟩, h⟩ := handle_ok hu.pos hi.accepted
    have hbox : w.outMailbox = u.outMailbox := by
      rw [handle_outMailbox h (by rintro box rfl; exact hi), mailboxAfter_full hmail]
    obtain ⟨v, hv, hsound, hpending, hcounter⟩ :=
      ih (handle_sound h hu) (hbox ▸ hmail) hrest
    refine ⟨v, ?_, hsound, hpending, hcounter.trans ?_⟩
    · rw [Mealy.after_cons, step_of_handle h]
      exact hv
    · rw [← hi.counter u.clock rest, (handle_clock h).1]
      exact (Nat.mod_modEq _ _).add_right _

/-- A put on an empty outbox leaves the mailed period pending, and falls on a multiple of it. -/
theorem put_taken {u : Firmware M} (hu : SoundPeriod u.clock.period) {r : Readings}
    (hempty : OneItemMailbox.mail u.outMailbox = none)
    (hput : putsIn (.ok u) (.onPreSyncSlot r) ≠ []) :
    ∃ v work, ((unitMachine M).step (.ok u) (.onPreSyncSlot r)).1 = .ok v ∧
      OneItemMailbox.mail v.outMailbox = some work ∧ work.toNat = u.clock.period ∧
      v.clock.period = u.clock.period ∧ u.clock.period ∣ v.clock.counter := by
  obtain ⟨_, v, hu', hv, halarm, -, -, hputs⟩ := putsIn_inv hput
  cases hu'
  have h := handle_of_step hv
  obtain ⟨hclock, hraises⟩ := handle_clock h
  have hperiod : v.clock.period = u.clock.period := by rw [hclock]; rfl
  rw [(Bool.and_eq_true_iff.mp halarm).2] at hraises
  refine ⟨v, _, hv, ?_, hu.toUInt8_toNat, hperiod, ?_⟩
  · rw [mail_after_tick h hempty, ← putsIn, hputs]
    rfl
  · exact hperiod ▸ of_decide_eq_true hraises.symm

/-- A slave that hears the byte of a sound period starts from zero with that period, whatever
its state was. -/
theorem step_onWorkSyncMsg {r : Readings} {work : MailContents} (hslave : r.isSelfSlave = true)
    (hwork : SoundPeriod work.toNat) (v : Firmware M) :
    ∃ v', ((unitMachine M).step (.ok v) (.onWorkSyncMsg r work)).1 = .ok v' ∧
      v'.clock = ⟨0, work.toNat⟩ := by
  have hhandle : v.handle (.onWorkSyncMsg r work) = _ :=
    onWorkSyncFromMaster_ok hslave ((isPowerOfTwo_iff work).mpr hwork) v
  rw [step_of_handle hhandle]
  exact ⟨_, rfl, by simp [Firmware.clock]⟩

/-- The exact effect of a late WorkSync.

A master puts a WorkSync on its empty outbox in a reachable state with period `p`. After a delay
of ticks and provisioning, the WorkSync is fetched and passed to a slave in any state. The
slave then has counter zero and period `p`, and from there on the two units alarm in the same
ticks for ever exactly when the period of the master is still `p` and the ticks and advances of
the delay sum to a multiple of `p`. -/
theorem lateWorkSync_effect {u : Firmware M} (hu : u.Reachable) {r : Readings}
    (hempty : OneItemMailbox.mail u.outMailbox = none)
    (hput : putsIn (.ok u) (.onPreSyncSlot r) ≠ []) {delay : List (Input M)}
    (hdelay : ∀ i ∈ delay, i.Delays) (slave : Firmware M) {r' : Readings}
    (hslave : r'.isSelfSlave = true) :
    ∃ master work slave',
      (unitMachine M).after (.ok u) (.onPreSyncSlot r :: delay) = .ok master ∧
      OneItemMailbox.mail master.outMailbox = some work ∧
      ((unitMachine M).step (.ok slave) (.onWorkSyncMsg r' work)).1 = .ok slave' ∧
      slave'.clock = ⟨0, u.clock.period⟩ ∧
      (TickTogether (.ok slave') ((unitMachine M).after (.ok master) (fetchInputs (.ok master))) ↔
        master.clock.period = u.clock.period ∧
          (tickCount delay + advanceSum delay) % u.clock.period = 0) := by
  have hsound := hu.sound
  obtain ⟨v, work, hv, hmail, hwork, hperiod, hdvd⟩ := put_taken hsound hempty hput
  obtain ⟨master, hmaster, hmsound, hpending, hcounter⟩ :=
    delay_run (hperiod ▸ hsound) hmail hdelay
  obtain ⟨slave', hslave', hclock⟩ := step_onWorkSyncMsg hslave (hwork ▸ hsound) slave
  rw [hwork] at hclock
  refine ⟨master, work, slave', ?_, hpending, hslave', hclock, ?_⟩
  · rw [Mealy.after_cons, hv]
    exact hmaster
  have hssound : SoundPeriod slave'.clock.period := by rw [hclock]; exact hsound
  -- the put fell on a multiple of the period, so only the delay counts
  have hphase : master.clock.counter ≡ tickCount delay + advanceSum delay [MOD u.clock.period] := by
    refine (hcounter.of_dvd hsound.dvd_counterModulus).trans ?_
    have hzero := (Nat.modEq_zero_iff_dvd.mpr hdvd).add_right (tickCount delay + advanceSum delay)
    rwa [Nat.zero_add] at hzero
  rw [after_fetchInputs]
  calc TickTogether (.ok slave') (.ok { master with
          outMailbox := OneItemMailbox.fetched master.outMailbox })
      ↔ slave'.clock.period = master.clock.period ∧
          slave'.clock.counter ≡ master.clock.counter [MOD slave'.clock.period] :=
        tickTogether_iff hssound hmsound
    _ ↔ master.clock.period = u.clock.period ∧ 0 ≡ master.clock.counter [MOD u.clock.period] := by
        rw [hclock, eq_comm]
    _ ↔ master.clock.period = u.clock.period ∧
          (tickCount delay + advanceSum delay) % u.clock.period = 0 :=
        and_congr_right fun _ => ⟨fun h => (h.trans hphase).symm,
          fun h => (hphase.trans (Nat.modEq_zero_iff_dvd.mpr (Nat.dvd_of_mod_eq_zero h))).symm⟩

/-- A master with the default period puts its first WorkSync after twenty ticks. During the delay
a further put fails, and the code for a period of two is taken back. -/
theorem lateWorkSync_effect_coded :
    let r : Readings := ⟨true, false, false, .mediumToHigh, 0⟩
    let start : UnitState (Option MailContents) := .ok (.powerOn none none)
    let slave : Firmware (Option MailContents) :=
      { workClockCounter := 6, syncPeriodsBetweenWork := 3, outMailbox := none,
        inMailbox := none }
    let heard : Readings := ⟨false, true, false, .mediumToHigh, 0⟩
    let delay : List (Input (Option MailContents)) :=
      ticks (List.replicate 20 r) ++ [.syncToPast 4294967293, .setSyncPeriodsBetweenWorkCoded 1,
        .onPreSyncSlot r, .setSyncPeriodsBetweenWorkCoded 2]
    ∃ u master work slave',
      (unitMachine _).after start (ticks (List.replicate 19 r)) = .ok u ∧
      (unitMachine _).after (.ok u) (.onPreSyncSlot r :: delay) = .ok master ∧
      OneItemMailbox.mail master.outMailbox = some work ∧
      ((unitMachine _).step (.ok slave) (.onWorkSyncMsg heard work)).1 = .ok slave' ∧
      slave'.clock = ⟨0, u.clock.period⟩ ∧
      (TickTogether (.ok slave') ((unitMachine _).after (.ok master) (fetchInputs (.ok master))) ↔
        master.clock.period = u.clock.period ∧
          (tickCount delay + advanceSum delay) % u.clock.period = 0) := by
  intro r start slave heard delay
  let u : Firmware (Option MailContents) :=
    { workClockCounter := 19, maintenanceCounter := 4, managedAmount := 20, outMailbox := none,
      inMailbox := none }
  have hreach : (unitMachine _).after start (ticks (List.replicate 19 r)) = .ok u := by decide
  have hdelay : ∀ i ∈ delay, i.Delays := by
    intro i hi
    rcases List.mem_append.mp hi with htick | hrest
    · obtain ⟨_, -, rfl⟩ := List.mem_map.mp htick
      trivial
    · simp only [List.mem_cons, List.not_mem_nil, or_false] at hrest
      rcases hrest with rfl | rfl | rfl | rfl <;> trivial
  have hheard : heard.isSelfSlave = true := rfl
  obtain ⟨master, work, slave', h⟩ := lateWorkSync_effect ⟨none, none, _, hreach⟩ (r := r) rfl
    (by decide) hdelay slave hheard
  exact ⟨u, master, work, slave', hreach, h⟩

end Firefly
