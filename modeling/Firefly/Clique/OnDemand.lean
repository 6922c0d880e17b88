import Firefly.Clique.Lockstep
import Firefly.OnDemand
import Mathlib.Tactic.FinCases

/-!
# Group work in unison

The master of a clique that works on demand decides when the group works. It mails the work,
queues it, and does not flash; in the same sync period the agent passes the mail on, and those that
it reaches queue the work too. In the next sync period they all find it in their inboxes.

The inbox and the outbox are emptied in every sync period, so no work item stands in the way of
another one: each initiation makes each unit that it reaches flash once, one sync period later.
-/

namespace Firefly

open Foundation

variable {M : Type} {n : ℕ}

/-- A sync period, with what `Random::eventWInverseProbability` answers each unit in it. -/
structure DemandPeriod (n : ℕ) extends SyncPeriod n where
  eventWInverseProbability : Fin n → UInt32 → Bool

variable [OneItemMailbox M]

/-- A unit after its call, with the events of that. -/
def DemandPeriod.called (strategies : Fin n → GroupStrategy) (slot : DemandPeriod n)
    (s : Fin n → Firmware M) (i : Fin n) : Firmware M × List Event :=
  (demandUnit M (strategies i)).step (s i)
    (.onPreSyncSlot (slot.readings i) (slot.eventWInverseProbability i))

/-- The group work that the agent finds in the master's outbox after the calls. -/
def DemandPeriod.work (strategies : Fin n → GroupStrategy) (slot : DemandPeriod n)
    (s : Fin n → Firmware M) : Option MailContents :=
  slot.master.bind fun m => OneItemMailbox.mail (slot.called strategies s m).1.outMailbox

/-- What the agent does with a unit after its call: fetch the mail if it is the master, then pass
on the copies of the work. -/
def DemandPeriod.agentInputs (strategies : Fin n → GroupStrategy) (slot : DemandPeriod n)
    (s : Fin n → Firmware M) (i : Fin n) : List DemandInput :=
  (if slot.master = some i then [.fetch] else []) ++
    match slot.work strategies s with
    | none => []
    | some work => List.replicate (slot.copies i) (.onWorkMsg work)

/-- A clique that works on demand, as a machine over sync periods. -/
def demandClique (M : Type) [OneItemMailbox M] (strategies : Fin n → GroupStrategy) :
    Mealy (Fin n → Firmware M) (DemandPeriod n) (Fin n → List Event) where
  step s slot :=
    (fun i => (demandUnit M (strategies i)).after (slot.called strategies s i).1
        (slot.agentInputs strategies s i),
      fun i => (slot.called strategies s i).2 ++ ((demandUnit M (strategies i)).outputs
        (slot.called strategies s i).1 (slot.agentInputs strategies s i)).flatten)

/-- The master of a sync period initiated group work, and a unit is the master or is reached. -/
def DemandPeriod.reaches (slot : DemandPeriod n) (events : Fin n → List Event) (i : Fin n) : Bool :=
  slot.master.any fun m => initiatesGroupWork (events m) && (i = m || slot.copies i ≠ 0)

section Agent

/-- Hearing work queues it, once. -/
theorem after_workMsgs (strategy : GroupStrategy) (work : MailContents) (k : ℕ)
    (u : Firmware M) :
    ∃ box, (demandUnit M strategy).after u (List.replicate k (.onWorkMsg work)) =
        { u with inMailbox := box } ∧
      (OneItemMailbox.mail box).isSome =
        ((OneItemMailbox.mail u.inMailbox).isSome || decide (k ≠ 0)) := by
  induction k generalizing u with
  | zero => exact ⟨u.inMailbox, rfl, (Bool.or_false _).symm⟩
  | succ k ih =>
    obtain ⟨⟨queued, hqueued, hmail⟩, -⟩ := queueLocalWork_spec work u
    obtain ⟨box, hafter, hbox⟩ := ih (GroupWork.queueLocalWork work u).1
    refine ⟨box, hafter.trans (by rw [hqueued]), ?_⟩
    rw [hbox, hqueued, hmail]
    simp

/-- The agent neither makes a unit flash nor initiates work. -/
theorem agent_silent (strategies : Fin n → GroupStrategy) (slot : DemandPeriod n)
    (s : Fin n → Firmware M) (i : Fin n) :
    ∀ events ∈ (demandUnit M (strategies i)).outputs (slot.called strategies s i).1
        (slot.agentInputs strategies s i),
      flashes events = [] ∧ initiatesGroupWork events = false := by
  refine (demandUnit M (strategies i)).outputs_invariant (I := fun _ => True)
    (P := fun input => input = .fetch ∨ ∃ work, input = .onWorkMsg work)
    (Q := fun events => flashes events = [] ∧ initiatesGroupWork events = false)
    (fun v input hinput _ => ⟨trivial, ?_⟩) (fun input hinput => ?_) trivial
  · rcases hinput with rfl | ⟨work, rfl⟩
    · exact ⟨rfl, rfl⟩
    · obtain ⟨-, -, hdark, -, hwaits⟩ := queueLocalWork_spec work v
      exact ⟨hdark, hwaits⟩
  · rcases List.mem_append.mp hinput with hfetch | hcopy
    · split at hfetch
      · exact .inl (List.mem_singleton.mp hfetch)
      · cases hfetch
    · cases hwork : slot.work strategies s with
      | none => simp [hwork] at hcopy
      | some work =>
        rw [hwork] at hcopy
        exact .inr ⟨work, List.eq_of_mem_replicate hcopy⟩

/-- What a sync period shows of a unit, its call shows. -/
theorem demandClique_events (strategies : Fin n → GroupStrategy) (slot : DemandPeriod n)
    (s : Fin n → Firmware M) (i : Fin n) :
    flashes (((demandClique M strategies).step s slot).2 i) =
        flashes (slot.called strategies s i).2 ∧
      initiatesGroupWork (((demandClique M strategies).step s slot).2 i) =
        initiatesGroupWork (slot.called strategies s i).2 := by
  have hsilent := agent_silent strategies slot s i
  constructor
  · refine (flashes_append _ _).trans ?_
    rw [List.append_right_eq_self, flashes, List.filterMap_flatten, List.flatten_eq_nil_iff]
    intro shown hshown
    obtain ⟨events, hevents, rfl⟩ := List.mem_map.mp hshown
    exact (hsilent events hevents).1
  · refine List.any_append.trans ?_
    rw [← initiatesGroupWork, List.any_flatten]
    refine (congrArg _ (List.any_eq_false.mpr fun events hevents => ?_)).trans (Bool.or_false _)
    exact Bool.eq_false_iff.mp (hsilent events hevents).2

end Agent

section SyncPeriods

variable {strategies : Fin n → GroupStrategy} {s : Fin n → Firmware M}

/-- What the call of a unit with an empty outbox shows and leaves. -/
theorem DemandPeriod.called_spec (strategies : Fin n → GroupStrategy) (slot : DemandPeriod n)
    {i : Fin n} (hbox : OneItemMailbox.mail (s i).outMailbox = none) :
    let called := slot.called strategies s i
    called.1.managedAmount = (s i).managedAmount ∧
      flashes called.2 = (if (OneItemMailbox.mail (s i).inMailbox).isSome &&
        (slot.readings i).isPowerForWork then [(s i).managedAmount] else []) ∧
      (OneItemMailbox.mail called.1.outMailbox).isSome = initiatesGroupWork called.2 ∧
      (OneItemMailbox.mail called.1.inMailbox).isSome = initiatesGroupWork called.2 ∧
      (initiatesGroupWork called.2 = true → strategies i ≠ .doRandomWork →
        (slot.readings i).Working) :=
  onPreSyncSlotOnDemand_spec _ _ _ hbox

/-- Only the master initiates work, and what it initiated is then in its outbox. -/
theorem initiates_iff_work (hstrategies : ∀ i, strategies i ≠ .doRandomWork)
    (hs : ∀ i, OneItemMailbox.mail (s i).outMailbox = none) (slot : DemandPeriod n) :
    (∀ i, slot.master ≠ some i →
      initiatesGroupWork (slot.called strategies s i).2 = false) ∧
    ∀ m, slot.master = some m →
      (slot.work strategies s).isSome = initiatesGroupWork (slot.called strategies s m).2 := by
  constructor
  · intro i hi
    obtain ⟨-, -, -, -, hworking⟩ := slot.called_spec strategies (hs i)
    refine Bool.eq_false_iff.mpr fun hinitiates => hi ?_
    exact (slot.isSelfMaster_iff i).mp (hworking hinitiates (hstrategies i)).1
  · intro m hm
    obtain ⟨-, -, hout, -⟩ := slot.called_spec strategies (hs m)
    rw [DemandPeriod.work, hm, Option.bind_some]
    exact hout

/-- Without work to pass on, the agent leaves a unit other than the master as its call left it. -/
theorem agent_idle {slot : DemandPeriod n} {i : Fin n} (hi : slot.master ≠ some i)
    (hwork : slot.work strategies s = none) (u : Firmware M) :
    (demandUnit M (strategies i)).after u (slot.agentInputs strategies s i) = u := by
  rw [DemandPeriod.agentInputs, if_neg hi, hwork]
  rfl

/-- The agent fetches the mail of the master, and passes nothing on to it. -/
theorem agent_master {slot : DemandPeriod n} {i : Fin n} (hi : slot.master = some i)
    (u : Firmware M) :
    (demandUnit M (strategies i)).after u (slot.agentInputs strategies s i) =
      { u with outMailbox := OneItemMailbox.fetched u.outMailbox } := by
  have hcopies : slot.copies i = 0 :=
    not_not.mp fun hcopies => (slot.only_slaves i hcopies).2 hi
  rw [DemandPeriod.agentInputs, if_pos hi, hcopies]
  cases slot.work strategies s <;> rfl

/-- A unit other than the master gains in its inbox the work that reaches it. -/
theorem agent_reached {slot : DemandPeriod n} {i : Fin n} (hi : slot.master ≠ some i)
    {work : MailContents} (hwork : slot.work strategies s = some work) (u : Firmware M) :
    ∃ box, (demandUnit M (strategies i)).after u (slot.agentInputs strategies s i) =
        { u with inMailbox := box } ∧
      (OneItemMailbox.mail box).isSome =
        ((OneItemMailbox.mail u.inMailbox).isSome || decide (slot.copies i ≠ 0)) := by
  rw [DemandPeriod.agentInputs, if_neg hi, hwork]
  exact after_workMsgs (strategies i) work (slot.copies i) u

/-- What the agent leaves of a unit: an empty outbox, and in the inbox what the unit initiated or
was reached by. -/
theorem agent_leaves (hstrategies : ∀ i, strategies i ≠ .doRandomWork)
    (hs : ∀ i, OneItemMailbox.mail (s i).outMailbox = none) (slot : DemandPeriod n) (i : Fin n) :
    let called := slot.called strategies s
    let v := (demandUnit M (strategies i)).after (called i).1 (slot.agentInputs strategies s i)
    v.managedAmount = (called i).1.managedAmount ∧
      OneItemMailbox.mail v.outMailbox = none ∧
      (OneItemMailbox.mail v.inMailbox).isSome = slot.reaches (fun j => (called j).2) i := by
  intro called v
  obtain ⟨hothers, hmaster⟩ := initiates_iff_work hstrategies hs slot
  obtain ⟨-, -, hout, hin, -⟩ := slot.called_spec strategies (hs i)
  by_cases hi : slot.master = some i
  · -- the master queued the work itself
    rw [show v = _ from agent_master hi _, DemandPeriod.reaches, hi]
    refine ⟨rfl, OneItemMailbox.mail_fetched _, hin.trans ?_⟩
    simp [called]
  -- any other unit initiated nothing, so its boxes are empty after the call
  have hwaits : initiatesGroupWork (called i).2 = false := hothers i hi
  have hempty : OneItemMailbox.mail (called i).1.outMailbox = none :=
    Option.not_isSome_iff_eq_none.mp (Bool.eq_false_iff.mp (hout.trans hwaits))
  have hnone : (OneItemMailbox.mail (called i).1.inMailbox).isSome = false := hin.trans hwaits
  have hreaches : slot.reaches (fun j => (called j).2) i =
      ((slot.work strategies s).isSome && decide (slot.copies i ≠ 0)) := by
    cases hm : slot.master with
    | none => simp [DemandPeriod.reaches, DemandPeriod.work, hm]
    | some m =>
      have hne : i ≠ m := fun h => hi (h ▸ hm)
      rw [DemandPeriod.reaches, hm, Option.any_some, ← hmaster m hm]
      simp [hne]
  rw [hreaches]
  cases hwork : slot.work strategies s with
  | none =>
    rw [show v = (called i).1 from agent_idle hi hwork _]
    exact ⟨rfl, hempty, hnone⟩
  | some work =>
    obtain ⟨box, hafter, hbox⟩ := agent_reached hi hwork (called i).1
    rw [show v = _ from hafter]
    refine ⟨rfl, hempty, hbox.trans ?_⟩
    rw [hnone]
    rfl

/-- A sync period of units with empty outboxes: each shows what was in its inbox, and is left with
an empty outbox and what it initiated or was reached by. -/
theorem demandClique_step (hstrategies : ∀ i, strategies i ≠ .doRandomWork)
    (hs : ∀ i, OneItemMailbox.mail (s i).outMailbox = none) (slot : DemandPeriod n) (i : Fin n) :
    let stepped := (demandClique M strategies).step s slot
    flashes (stepped.2 i) = (if (OneItemMailbox.mail (s i).inMailbox).isSome &&
        (slot.readings i).isPowerForWork then [(s i).managedAmount] else []) ∧
      (stepped.1 i).managedAmount = (s i).managedAmount ∧
      OneItemMailbox.mail (stepped.1 i).outMailbox = none ∧
      (OneItemMailbox.mail (stepped.1 i).inMailbox).isSome = slot.reaches stepped.2 i := by
  intro stepped
  obtain ⟨hamount, hflash, -⟩ := slot.called_spec strategies (hs i)
  obtain ⟨hkept, hout, hin⟩ := agent_leaves hstrategies hs slot i
  have hreaches : slot.reaches stepped.2 i =
      slot.reaches (fun j => (slot.called strategies s j).2) i := by
    have hevents (m : Fin n) : initiatesGroupWork (stepped.2 m) =
        initiatesGroupWork (slot.called strategies s m).2 :=
      (demandClique_events strategies slot s m).2
    simp only [DemandPeriod.reaches, hevents]
  exact ⟨(demandClique_events strategies slot s i).1.trans hflash, hkept.trans hamount, hout,
    hin.trans hreaches.symm⟩

/-- After every run the outboxes are empty, and the amounts are as they were. -/
theorem demandClique_after (hstrategies : ∀ i, strategies i ≠ .doRandomWork)
    (hs : ∀ i, OneItemMailbox.mail (s i).outMailbox = none) (slots : List (DemandPeriod n)) :
    ∀ i, OneItemMailbox.mail ((demandClique M strategies).after s slots i).outMailbox = none ∧
      ((demandClique M strategies).after s slots i).managedAmount = (s i).managedAmount := by
  refine (demandClique M strategies).after_invariant (P := fun _ => True)
    (I := fun s' => ∀ i, OneItemMailbox.mail (s' i).outMailbox = none ∧
      (s' i).managedAmount = (s i).managedAmount)
    (fun s' slot _ hs' i => ?_) (fun _ _ => trivial) fun i => ⟨hs i, rfl⟩
  obtain ⟨-, hamount, hout, -⟩ := demandClique_step hstrategies (fun j => (hs' j).1) slot i
  exact ⟨hout, hamount.trans (hs' i).2⟩

end SyncPeriods

/-- Group work is done in unison, one sync period after it is initiated, and once. Let a clique
work on demand, start with empty outboxes, and use strategies in which only the master initiates
work. In every run, whatever its units read and whichever work is lost, a unit flashes in a sync
period exactly if it has power then, and if in the one before the master initiated work and the
unit is that master or was reached. It flashes once, by its own amount. -/
theorem group_work_in_unison {strategies : Fin n → GroupStrategy}
    (hstrategies : ∀ i, strategies i ≠ .doRandomWork) {s : Fin n → Firmware M}
    (hs : ∀ i, OneItemMailbox.mail (s i).outMailbox = none) (slots : List (DemandPeriod n))
    {k : ℕ} {slot next : DemandPeriod n} {events events' : Fin n → List Event}
    (hslot : slots[k]? = some slot) (hnext : slots[k + 1]? = some next)
    (hevents : ((demandClique M strategies).outputs s slots)[k]? = some events)
    (hevents' : ((demandClique M strategies).outputs s slots)[k + 1]? = some events')
    (i : Fin n) :
    flashes (events' i) = if slot.reaches events i && (next.readings i).isPowerForWork then
      [(s i).managedAmount] else [] := by
  rw [Mealy.outputs_getElem?, hslot, Option.map_some, Option.some_inj] at hevents
  rw [Mealy.outputs_getElem?, hnext, Option.map_some, Option.some_inj, List.take_add_one, hslot,
    Mealy.after_append] at hevents'
  have hbefore := demandClique_after hstrategies hs (slots.take k)
  obtain ⟨-, hamount, -, hin⟩ :=
    demandClique_step hstrategies (fun j => (hbefore j).1) slot i
  have hafter (j : Fin n) := demandClique_step hstrategies (fun j => (hbefore j).1) slot j
  obtain ⟨hflash, -⟩ := demandClique_step hstrategies (fun j => (hafter j).2.2.1) next i
  rw [← hevents', ← (hbefore i).2, ← hamount, ← hevents, ← hin]
  exact hflash

/-- A master whose count is above the period, and the slave that it tells. -/
theorem group_work_in_unison_pair :
    let strategies : Fin 2 → GroupStrategy := fun _ => .manageWorkOnlyRegularlyIfPowerAndMaster
    let unit : Firmware (Option MailContents) :=
      { regularWorkCounter := 5, managedAmount := 20, outMailbox := none, inMailbox := none }
    let slot : DemandPeriod 2 := ⟨.ofMaster 0 1, fun _ _ => false⟩
    ∃ events, ((demandClique _ strategies).outputs (fun _ => unit) [slot, slot])[1]? =
      some events ∧ ∀ i, flashes (events i) = [20] := by
  intro strategies unit slot
  refine ⟨_, rfl, fun i => ?_⟩
  have hregular : ∀ i, strategies i ≠ .doRandomWork := fun _ => nofun
  refine (group_work_in_unison hregular (s := fun _ => unit) (fun _ => rfl) [slot, slot] (k := 0)
    rfl rfl rfl rfl i).trans ?_
  fin_cases i <;> rfl

end Firefly
