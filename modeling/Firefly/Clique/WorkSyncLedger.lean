import Firefly.Foundation.Ledger
import Firefly.Clique.Lockstep

/-!
# No WorkSync is lost in the outbox

A unit offers WorkSyncs to its outbox when its alarms want it, and the agent fetches them when it
likes. Whatever the order of the two, what the outbox took is fetched once, in order, or still
pending. What it did not take was offered while another WorkSync was pending.
-/

namespace Firefly

open Foundation

variable {M : Type} [OneItemMailbox M]

/-- What reaches a unit and its outbox: an input of the unit, or the agent fetching the mail. -/
inductive MailInput (M : Type)
  | call (i : Input M)
  | fetch

/-- A unit with an agent that only fetches. The outputs are the events of a call and the item that
was fetched. -/
def mailedUnit (M : Type) [OneItemMailbox M] :
    Mealy (UnitState M) (MailInput M) (List Event × Option MailContents) where
  step
    | s, .call i => (((unitMachine M).step s i).1, ((unitMachine M).step s i).2, none)
    | .ok u, .fetch => (.ok { u with outMailbox := OneItemMailbox.fetched u.outMailbox }, [],
        OneItemMailbox.mail u.outMailbox)
    | .error fault, .fetch => (.error fault, [], none)

/-- An accepted input, other than the agent leaving a box of its own. -/
def MailInput.Accepted : MailInput M → Prop
  | .call i => i.Accepted ∧ ∀ box, i ≠ .setOutMailbox box
  | .fetch => True

/-- The WorkSyncs that the outbox took during a call. -/
def takenWorkSyncs (events : List Event) : List MailContents :=
  events.filterMap fun
    | .tryPutWorkSync work true => some work
    | _ => none

theorem takenWorkSyncs_append (first second : List Event) :
    takenWorkSyncs (first ++ second) = takenWorkSyncs first ++ takenWorkSyncs second :=
  List.filterMap_append

section Calls

variable {u v : Firmware M} {i : Input M} {events : List Event}

/-- The maintenance alarm has its WorkSync taken by an empty outbox only. -/
theorem takenWorkSyncs_maintenanceAlarm (u : Firmware M) :
    takenWorkSyncs (WorkSyncMaintainer.onWorkSyncMaintenanceAlarm u).2 =
      if OneItemMailbox.mail u.outMailbox = none then [u.syncPeriodsBetweenWork.toUInt8]
      else [] := by
  dsimp only [WorkSyncMaintainer.onWorkSyncMaintenanceAlarm]
  cases hmail : OneItemMailbox.mail u.outMailbox with
  | none =>
    rw [(OneItemMailbox.tryPut_of_empty _ _ hmail).1]
    rfl
  | some pending =>
    rw [OneItemMailbox.tryPut_of_full _ _ _ hmail]
    rfl

/-- A work alarm has its WorkSync taken by an empty outbox only. -/
theorem takenWorkSyncs_alarm (r : Readings) (u : Firmware M) :
    takenWorkSyncs (WorkClock.onWorkClockAlarm r u).2 =
      if OneItemMailbox.mail u.outMailbox = none then
        workSyncPuts (WorkClock.onWorkClockAlarm r u).2 else [] := by
  have hworked : takenWorkSyncs (DistributedSynchronizedWorker.onWorkAlarm r u).2 = [] := by
    unfold DistributedSynchronizedWorker.onWorkAlarm
    split <;> rfl
  have hmaintained : takenWorkSyncs (WorkSyncMaintainer.onWorkAlarm r u).2 =
      if OneItemMailbox.mail u.outMailbox = none then
        workSyncPuts (WorkSyncMaintainer.onWorkAlarm r u).2 else [] := by
    unfold WorkSyncMaintainer.onWorkAlarm
    split
    · dsimp only [WorkSyncMaintenanceClock.tick]
      split
      · rw [takenWorkSyncs_maintenanceAlarm, workSyncPuts_maintenanceAlarm]
      · exact (ite_self _).symm
    · exact (ite_self _).symm
  dsimp only [WorkClock.onWorkClockAlarm]
  rw [DistributedSynchronizedWorker.onWorkAlarm_state]
  change takenWorkSyncs ((DistributedSynchronizedWorker.onWorkAlarm r u).2 ++ _) =
    if _ then workSyncPuts ((DistributedSynchronizedWorker.onWorkAlarm r u).2 ++ _) else []
  rw [takenWorkSyncs_append, hworked, hmaintained, workSyncPuts_append, workSyncPuts_work]
  rfl

/-- Every call has its WorkSync taken by an empty outbox only. -/
theorem handle_taken (h : u.handle i = .ok (v, events)) :
    takenWorkSyncs events =
      if OneItemMailbox.mail u.outMailbox = none then workSyncPuts events else [] := by
  cases i with
  | onPreSyncSlot r =>
    rcases tickSyncPeriod_inv h with ⟨-, rfl, rfl⟩ | ⟨-, rfl, rfl⟩
    · exact takenWorkSyncs_alarm r u.counted
    · exact (ite_self _).symm
  | onWorkSyncMsg r work =>
    obtain ⟨-, -, rfl, rfl⟩ := onWorkSyncMsg_inv h
    exact (ite_self _).symm
  | setSyncPeriodsBetweenWorkCoded code =>
    obtain ⟨rfl, rfl⟩ := setSyncPeriodsBetweenWork_inv h
    exact (ite_self _).symm
  | syncToPast clockAdvance =>
    cases h
    exact (ite_self _).symm
  | setOutMailbox box =>
    cases h
    exact (ite_self _).symm

/-- A call adds to the outbox what the outbox took. -/
theorem handle_mail (h : u.handle i = .ok (v, events)) (hi : ∀ box, i ≠ .setOutMailbox box) :
    (OneItemMailbox.mail u.outMailbox).toList ++ takenWorkSyncs events =
      (OneItemMailbox.mail v.outMailbox).toList := by
  rw [handle_taken h, handle_outMailbox h hi, (handle_puts h).2]
  cases hmail : OneItemMailbox.mail u.outMailbox with
  | none =>
    rw [if_pos rfl]
    split
    · rw [mailboxAfter, List.foldl_cons, List.foldl_nil,
        (OneItemMailbox.tryPut_of_empty _ _ hmail).2]
      rfl
    · rw [mailboxAfter, List.foldl_nil, hmail]
      rfl
  | some pending =>
    rw [if_neg (Option.some_ne_none pending), List.append_nil]
    split
    · rw [mailboxAfter, List.foldl_cons, List.foldl_nil,
        OneItemMailbox.tryPut_of_full _ _ _ hmail, hmail]
    · rw [mailboxAfter, List.foldl_nil, hmail]

end Calls

/-- A running unit keeps a ledger of its outbox. -/
theorem outbox_ledger :
    (mailedUnit M).Ledger MailInput.Accepted (fun s => ∃ u, s = .ok u ∧ 0 < u.clock.period)
      (fun s => FreeAddMonoid.ofList (outboxMail s).toList)
      (fun o => FreeAddMonoid.ofList (takenWorkSyncs o.1))
      fun o => FreeAddMonoid.ofList o.2.toList where
  step := by
    rintro s input hinput ⟨u, rfl, hpos⟩
    cases input with
    | call i =>
      obtain ⟨⟨v, events⟩, h⟩ := handle_ok hpos hinput.1
      have hstep : (mailedUnit M).step (.ok u) (.call i) = (.ok v, events, none) := by
        change (((unitMachine M).step (.ok u) i).1, ((unitMachine M).step (.ok u) i).2, none) = _
        rw [step_of_handle h]
      rw [hstep]
      exact ⟨⟨v, rfl, handle_pos h hpos⟩, handle_mail h hinput.2⟩
    | fetch =>
      refine ⟨⟨_, rfl, hpos⟩, ?_⟩
      change _ ++ [] = _ ++ (OneItemMailbox.mail (OneItemMailbox.fetched u.outMailbox)).toList
      rw [OneItemMailbox.mail_fetched]
      rfl

/-- No WorkSync is lost or duplicated between a unit and the agent. In every interleaving of
accepted calls and fetches, what was pending at first and what the outbox took since is, in this
order, what the agent fetched and what is pending at last. A WorkSync that a call offers is taken
unless another one was pending before the call. -/
theorem workSync_mail_conserved {u : Firmware M} (hpos : 0 < u.clock.period)
    {inputs : List (MailInput M)} (hinputs : ∀ i ∈ inputs, i.Accepted) :
    let outs := (mailedUnit M).outputs (.ok u) inputs
    (∃ v, (mailedUnit M).after (.ok u) inputs = .ok v ∧
      (OneItemMailbox.mail u.outMailbox).toList ++ outs.flatMap (fun o => takenWorkSyncs o.1) =
        outs.flatMap (fun o => o.2.toList) ++ (OneItemMailbox.mail v.outMailbox).toList) ∧
    ∀ k o, outs[k]? = some o → workSyncPuts o.1 ≠ takenWorkSyncs o.1 →
      outboxMail ((mailedUnit M).after (.ok u) (inputs.take k)) ≠ none := by
  intro outs
  have hstart : ∃ u', (.ok u : UnitState M) = .ok u' ∧ 0 < u'.clock.period := ⟨u, rfl, hpos⟩
  constructor
  · obtain ⟨v, hv, -⟩ := outbox_ledger.after hinputs hstart
    have hrun := outbox_ledger.run_list hinputs hstart
    rw [hv] at hrun
    exact ⟨v, hv, hrun⟩
  · intro k o hk hrefused hempty
    have hbefore : ∀ i ∈ inputs.take k, i.Accepted :=
      fun i hi => hinputs i (List.mem_of_mem_take hi)
    obtain ⟨w, hw, hwpos⟩ := outbox_ledger.after hbefore hstart
    rw [hw] at hempty
    have hstep := Mealy.outputs_getElem? (mailedUnit M) (.ok u) inputs k
    rw [hk, hw] at hstep
    obtain ⟨input, hinput, rfl⟩ := Option.map_eq_some_iff.mp hstep.symm
    cases input with
    | call i =>
      obtain ⟨⟨v, events⟩, h⟩ := handle_ok hwpos (hinputs _ (List.mem_of_getElem? hinput)).1
      refine hrefused ?_
      change workSyncPuts ((unitMachine M).step (.ok w) i).2 =
        takenWorkSyncs ((unitMachine M).step (.ok w) i).2
      rw [step_of_handle h]
      exact ((handle_taken h).trans (if_pos hempty)).symm
    | fetch => exact hrefused rfl

/-- A WorkSync that finds the outbox full is refused, and the pending one is fetched. -/
theorem workSync_mail_conserved_full :
    let r : Readings := ⟨true, false, true, .mediumToHigh, 0⟩
    let u : Firmware (Option MailContents) :=
      { workClockCounter := 3, maintenanceCounter := 4, outMailbox := some 2, inMailbox := none }
    let outs := (mailedUnit _).outputs (.ok u) [.call (.onPreSyncSlot r), .fetch]
    outs.flatMap (fun o => takenWorkSyncs o.1) = [] ∧ ∃ v : Firmware (Option MailContents),
      [2] = outs.flatMap (fun o => o.2.toList) ++ v.outMailbox.toList := by
  intro r u outs
  have hinputs : ∀ i ∈ [MailInput.call (.onPreSyncSlot r), .fetch],
      (i : MailInput (Option MailContents)).Accepted := by
    intro i hi
    rcases List.mem_pair.mp hi with rfl | rfl
    · exact ⟨trivial, nofun⟩
    · trivial
  obtain ⟨⟨v, -, hledger⟩, -⟩ := workSync_mail_conserved (u := u) (by decide) hinputs
  have htaken : outs.flatMap (fun o => takenWorkSyncs o.1) = [] := by decide
  change [2] ++ outs.flatMap (fun o => takenWorkSyncs o.1) = _ at hledger
  rw [htaken] at hledger
  exact ⟨htaken, v, hledger⟩

end Firefly
