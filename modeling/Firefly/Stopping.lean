import Firefly.UnitRuns

/-!
# When a unit stops

A unit on a sound period survives everything but a WorkSync that fails one of the two assertions.
The first such message decides: it is checked for the role of the receiver before its byte is
looked at, and after it the unit does nothing any more.
-/

namespace Firefly

open Foundation

variable {M : Type}

/-- A message that stops a unit, with the assertion that it fails first. -/
inductive Input.Refused : Input M → Assertion → Prop
  | isSelfSlave {r : Readings} {work : MailContents} (h : r.isSelfSlave = false) :
      Refused (.onWorkSyncMsg r work) .isSelfSlave
  | isPowerOfTwo {r : Readings} {work : MailContents} (hslave : r.isSelfSlave = true)
      (h : ¬ SoundPeriod work.toNat) : Refused (.onWorkSyncMsg r work) .isPowerOfTwo

/-- What is not accepted is refused. -/
theorem Input.refused_of_not_accepted {i : Input M} (h : ¬ i.Accepted) :
    ∃ failed, i.Refused failed := by
  cases i with
  | onWorkSyncMsg r work =>
    cases hslave : r.isSelfSlave with
    | false => exact ⟨_, .isSelfSlave hslave⟩
    | true =>
      refine ⟨_, .isPowerOfTwo hslave fun hsound => h ⟨hslave, ?_⟩⟩
      exact (isPowerOfTwo_iff work).mpr hsound
  | _ => exact absurd trivial h

variable [Mailbox M] {u : Firmware M} {i : Input M} {fault : Fault}

/-- A refused message ends in the assertion that it fails. -/
theorem Input.Refused.handle {failed : Assertion} (h : i.Refused failed) (u : Firmware M) :
    u.handle i = .error (.assertion failed) := by
  cases h with
  | isSelfSlave hslave => exact if_pos hslave
  | @isPowerOfTwo r work hslave hsound =>
    have hpow : WorkSyncMaintainer.isPowerOfTwo work = false :=
      Bool.eq_false_iff.mpr fun hpow => hsound ((isPowerOfTwo_iff work).mp hpow)
    exact (if_neg (by simp [hslave])).trans (if_pos hpow)

/-- A unit on a sound period is stopped by an input exactly when it refuses it. -/
theorem handle_error_iff (hu : SoundPeriod u.clock.period) :
    u.handle i = .error fault ↔ ∃ failed, i.Refused failed ∧ fault = .assertion failed := by
  constructor
  · intro h
    have hrefused : ¬ i.Accepted := fun hi => by
      obtain ⟨result, hresult⟩ := handle_ok hu.pos hi
      rw [hresult] at h
      cases h
    obtain ⟨failed, hfailed⟩ := Input.refused_of_not_accepted hrefused
    rw [hfailed.handle] at h
    exact ⟨failed, hfailed, (Except.error.inj h).symm⟩
  · rintro ⟨failed, hfailed, rfl⟩
    exact hfailed.handle u

/-- A run stops a unit exactly when some message in it is refused and all inputs before the first
one of these are accepted. Its fault is the assertion that this message fails, and from there on
it is silent. -/
theorem unit_stops_iff (hu : SoundPeriod u.clock.period) (inputs : List (Input M)) :
    (unitMachine M).after (.ok u) inputs = .error fault ↔
      ∃ before i later failed, inputs = before ++ i :: later ∧ (∀ j ∈ before, j.Accepted) ∧
        i.Refused failed ∧ fault = .assertion failed ∧
        (unitMachine M).outputs (.ok u) inputs =
          (unitMachine M).outputs (.ok u) before ++ List.replicate (later.length + 1) [] := by
  constructor
  · intro h
    induction inputs generalizing u with
    | nil => cases h
    | cons i rest ih =>
      cases hhandle : u.handle i with
      | ok result =>
        obtain ⟨v, events⟩ := result
        have hstep := step_of_handle hhandle
        rw [Mealy.after_cons, hstep] at h
        obtain ⟨before, j, later, failed, rfl, hbefore, hj, hfault, houtputs⟩ :=
          ih (handle_sound hhandle hu) h
        refine ⟨i :: before, j, later, failed, rfl,
          List.forall_mem_cons.mpr ⟨accepted_of_handle_ok hhandle, hbefore⟩, hj, hfault, ?_⟩
        rw [Mealy.outputs_cons, Mealy.outputs_cons, hstep, houtputs, List.cons_append]
      | error stopped =>
        obtain ⟨failed, hfailed, rfl⟩ := (handle_error_iff hu).mp hhandle
        have hstep : (unitMachine M).step (.ok u) i = (.error (.assertion failed), []) :=
          Mealy.ofExcept_step_fault hhandle
        rw [Mealy.after_cons, hstep, unitMachine, Mealy.ofExcept_after_error] at h
        refine ⟨[], i, rest, failed, rfl, List.forall_mem_nil _, hfailed,
          (Except.error.inj h).symm, ?_⟩
        rw [Mealy.outputs_cons, hstep, unitMachine, Mealy.ofExcept_outputs_error]
        rfl
  · rintro ⟨before, i, later, failed, rfl, hbefore, hi, rfl, -⟩
    obtain ⟨v, hv, -⟩ := run_ok hu.pos hbefore
    rw [Mealy.after_append, hv, Mealy.after_cons, unitMachine,
      Mealy.ofExcept_step_fault (hi.handle v), Mealy.ofExcept_after_error]

/-- A master that hears a WorkSync stops on its role, whatever the byte was. -/
theorem unit_stops_master :
    let r : Readings := ⟨true, false, true, .mediumToHigh, 0⟩
    (unitMachine (Option MailContents)).after (.ok (.powerOn none none))
      [.onPreSyncSlot r, .onWorkSyncMsg r 3, .onWorkSyncMsg r 4] =
        .error (.assertion .isSelfSlave) := by
  intro r
  refine (unit_stops_iff ⟨2, by decide, rfl⟩ _).mpr
    ⟨[.onPreSyncSlot r], .onWorkSyncMsg r 3, [.onWorkSyncMsg r 4], .isSelfSlave, rfl, ?_,
      .isSelfSlave rfl, rfl, rfl⟩
  exact List.forall_mem_singleton.mpr trivial

end Firefly
