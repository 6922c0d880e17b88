import Firefly.Clique.Disturbance
import Firefly.IdealUnit
import Firefly.Stopping

/-!
# A clique of both strategies heals

A unit with the excess-power strategy misses a tick of its work clock in every sync period that it
spends at the edges of the voltage. So it falls out of step, and a master that does so takes its
slaves along.

But what it breaks, the protocol repairs. The strategy touches the clock in no other way, so in a
storm of voltages all units keep running, on periods that provisioning can install. Where the
voltages are moderate, each strategy does to the clock and to the mail what the distributed one
does. Once they are, one master that is heard brings the clique in step again.
-/

namespace Firefly

open Foundation

variable {M : Type}

section Amount

/-- The variables with another work amount. -/
def Firmware.withAmount (u : Firmware M) (amount : UInt32) : Firmware M :=
  { u with managedAmount := amount }

/-- The same unit, except for its work amount. -/
inductive SameButAmount : UnitState M → UnitState M → Prop
  | running (u : Firmware M) (amount : UInt32) : SameButAmount (.ok u) (.ok (u.withAmount amount))
  | stopped (fault : Fault) : SameButAmount (.error fault) (.error fault)

/-- The same alarm and the same WorkSyncs. -/
def SameSync (events events' : List Event) : Prop :=
  raisesWorkAlarm events = raisesWorkAlarm events' ∧ workSyncPuts events = workSyncPuts events'

variable [Mailbox M]

/-- The work alarm treats units alike that differ in their amount. -/
theorem onWorkClockAlarm_withAmount (r : Readings) (u : Firmware M) (amount : UInt32) :
    (WorkClock.onWorkClockAlarm r (u.withAmount amount)).1 =
        (WorkClock.onWorkClockAlarm r u).1.withAmount amount ∧
      SameSync (WorkClock.onWorkClockAlarm r u).2
        (WorkClock.onWorkClockAlarm r (u.withAmount amount)).2 := by
  cases hr : r.isSelfMaster with
  | true =>
    obtain ⟨hputs, hstate⟩ := onWorkClockAlarm_master hr u
    obtain ⟨hputs', hstate'⟩ := onWorkClockAlarm_master hr (u.withAmount amount)
    rw [hstate, hstate', SameSync, onWorkClockAlarm_raises, onWorkClockAlarm_raises, hputs, hputs']
    exact ⟨rfl, rfl, rfl⟩
  | false =>
    obtain ⟨hputs, hstate⟩ := onWorkClockAlarm_other hr u
    obtain ⟨hputs', hstate'⟩ := onWorkClockAlarm_other hr (u.withAmount amount)
    rw [hstate, hstate', SameSync, onWorkClockAlarm_raises, onWorkClockAlarm_raises, hputs, hputs']
    exact ⟨rfl, rfl, rfl⟩

/-- A tick treats units alike that differ in their amount, and stops neither or both. -/
theorem tickSyncPeriod_withAmount (r : Readings) (u : Firmware M) (amount : UInt32) :
    (∃ fault, WorkClock.tickSyncPeriod r u = .error fault ∧
        WorkClock.tickSyncPeriod r (u.withAmount amount) = .error fault) ∨
      ∃ v events events', WorkClock.tickSyncPeriod r u = .ok (v, events) ∧
        WorkClock.tickSyncPeriod r (u.withAmount amount) = .ok (v.withAmount amount, events') ∧
        SameSync events events' := by
  have hcounted : (u.withAmount amount).counted = u.counted.withAmount amount := rfl
  rw [tickSyncPeriod_eq, tickSyncPeriod_eq, hcounted]
  by_cases hp : u.syncPeriodsBetweenWork = 0
  · exact .inl ⟨_, if_pos hp, if_pos hp⟩
  by_cases halarm : u.counted.clock.period ∣ u.counted.clock.counter
  · obtain ⟨hstate, hsync⟩ := onWorkClockAlarm_withAmount r u.counted amount
    have hpair : WorkClock.onWorkClockAlarm r (u.counted.withAmount amount) =
        ((WorkClock.onWorkClockAlarm r u.counted).1.withAmount amount,
          (WorkClock.onWorkClockAlarm r (u.counted.withAmount amount)).2) := Prod.ext hstate rfl
    exact .inr ⟨(WorkClock.onWorkClockAlarm r u.counted).1, _, _,
      (if_neg hp).trans (if_pos halarm),
      ((if_neg hp).trans (if_pos halarm)).trans (congrArg Except.ok hpair), hsync⟩
  · exact .inr ⟨_, _, _, (if_neg hp).trans (if_neg halarm),
      (if_neg hp).trans (if_neg halarm), rfl, rfl⟩

/-- Every callback treats units alike that differ in their amount. -/
theorem unit_sameButAmount :
    Mealy.Simulation (unitMachine M) (unitMachine M) Eq SameSync SameButAmount where
  step := by
    rintro s s' i _ hs rfl
    cases hs with
    | stopped fault => exact ⟨.stopped fault, rfl, rfl⟩
    | running u amount =>
      cases i with
      | onPreSyncSlot r =>
        rcases tickSyncPeriod_withAmount r u amount with
          ⟨fault, h, h'⟩ | ⟨v, events, events', h, h', hsync⟩
        · have hstep (u : Firmware M) (h : WorkClock.tickSyncPeriod r u = .error fault) :
              (unitMachine M).step (.ok u) (.onPreSyncSlot r) = (.error fault, []) :=
            Mealy.ofExcept_step_fault h
          rw [hstep u h, hstep _ h']
          exact ⟨.stopped fault, rfl, rfl⟩
        · rw [step_of_handle (i := .onPreSyncSlot r) h, step_of_handle (i := .onPreSyncSlot r) h']
          exact ⟨.running v amount, hsync⟩
      | onWorkSyncMsg r work =>
        by_cases hi : (Input.onWorkSyncMsg (M := M) r work).Accepted
        · have hhandle (u : Firmware M) : u.handle (.onWorkSyncMsg r work) = _ :=
            onWorkSyncFromMaster_ok hi.1 hi.2 u
          rw [step_of_handle (hhandle u), step_of_handle (hhandle _)]
          exact ⟨.running _ amount, rfl, rfl⟩
        · obtain ⟨failed, hfailed⟩ := Input.refused_of_not_accepted hi
          have hstep (u : Firmware M) : (unitMachine M).step (.ok u) (.onWorkSyncMsg r work) =
              (.error (.assertion failed), []) := Mealy.ofExcept_step_fault (hfailed.handle u)
          rw [hstep, hstep]
          exact ⟨.stopped _, rfl, rfl⟩
      | setSyncPeriodsBetweenWorkCoded code =>
        have hhandle (u : Firmware M) : u.handle (.setSyncPeriodsBetweenWorkCoded code) = _ :=
          WorkFrequency.setSyncPeriodsBetweenWork_ok (decodeWorkFreq_sound code).ne_zero u
        rw [step_of_handle (hhandle u), step_of_handle (hhandle _)]
        exact ⟨.running _ amount, rfl, rfl⟩
      | syncToPast clockAdvance => exact ⟨.running _ amount, rfl, rfl⟩
      | setOutMailbox box => exact ⟨.running _ amount, rfl, rfl⟩

end Amount

section Strategies

/-- What a unit does once a sync period: the excess-power strategy of a build, or the distributed
one. -/
def manageBy [Mailbox M] (strategy : Option Build) (r : Readings) (u : Firmware M) :
    Except Fault (Firmware M × List Event) :=
  match strategy with
  | some build => ExcessPowerWorkStrategy.manageExcessPowerWithWork build r u
  | none => WorkStrategyDistributed.manageWorkSynchronizedDistributed r u

/-- A unit with a strategy, once a sync period. -/
def strategyMachine (M : Type) [Mailbox M] (strategy : Option Build) :
    Mealy (UnitState M) Readings (List Event) :=
  Mealy.ofExcept fun u r => manageBy strategy r u

/-- The strategy ticks the clock in this voltage range. -/
def TicksIn (strategy : Option Build) (range : VoltageRange) : Prop :=
  strategy ≠ none → range.delegates = true

/-- Adjusting the usage offers no WorkSync. -/
theorem adjust_workSyncPuts (build : Build) (op : Adjustment) (u : Firmware M) :
    workSyncPuts (PowerAdjuster.adjust build op u).2 = [] := by
  obtain ⟨maxFlashAmount, energyStrategy⟩ := build
  cases energyStrategy <;> cases op <;> rfl

variable [Mailbox M]

/-- Where it ticks the clock, a strategy does what the distributed one does, except for the work
amount. -/
theorem manageBy_of_ticksIn {strategy : Option Build} {r : Readings}
    (h : TicksIn strategy r.voltageRange) (u : Firmware M) :
    (∃ fault, WorkClock.tickSyncPeriod r u = .error fault ∧
        manageBy strategy r u = .error fault) ∨
      ∃ v amount events events', WorkClock.tickSyncPeriod r u = .ok (v, events) ∧
        manageBy strategy r u = .ok (v.withAmount amount, events') ∧
        SameSync events events' := by
  cases strategy with
  | none =>
    cases htick : WorkClock.tickSyncPeriod r u with
    | error fault => exact .inl ⟨fault, rfl, htick⟩
    | ok result => exact .inr ⟨result.1, result.1.managedAmount, _, _, rfl, htick, rfl, rfl⟩
  | some build =>
    have hticks : r.voltageRange.delegates = true := h (Option.some_ne_none build)
    have hstands : ¬ r.voltageRange.sheds = true :=
      fun hsheds => VoltageRange.not_delegates_of_sheds hsheds hticks
    have hcall : manageBy (some build) r u = ExcessPowerWorkStrategy.adjustThenNested r
        (PowerAdjuster.adjust build r.voltageRange.adjustment u) :=
      (manageExcessPowerWithWork_cases build r u).trans
        ((if_neg hstands).trans (if_pos hticks))
    obtain ⟨⟨amount, hframe⟩, -, hsilent, -⟩ :=
      adjust_shows build r.voltageRange.adjustment u
    have hputs := adjust_workSyncPuts build r.voltageRange.adjustment u
    rw [hcall]
    generalize PowerAdjuster.adjust build r.voltageRange.adjustment u = adjusted at *
    obtain ⟨w, before⟩ := adjusted
    obtain rfl : w = u.withAmount amount := hframe
    have hnested : ExcessPowerWorkStrategy.adjustThenNested r (u.withAmount amount, before) =
        (WorkClock.tickSyncPeriod r (u.withAmount amount) >>= fun nested =>
          .ok (nested.1, before ++ nested.2)) := rfl
    rw [hnested]
    rcases tickSyncPeriod_withAmount r u amount with
      ⟨fault, htick, htick'⟩ | ⟨v, events, events', htick, htick', halarm, hmail⟩
    · exact .inl ⟨fault, htick, by rw [htick']; rfl⟩
    · refine .inr ⟨v, amount, events, before ++ events', htick, by rw [htick']; rfl, ?_, ?_⟩
      · rw [raisesWorkAlarm_append, hsilent, Bool.false_or, halarm]
      · rw [workSyncPuts_append, hputs, List.nil_append, hmail]

/-- Where a strategy ticks the clock, it keeps a unit alike to one that only ticks. -/
theorem strategyMachine_sameButAmount {strategy : Option Build} {r : Readings}
    (h : TicksIn strategy r.voltageRange) {s s' : UnitState M} (hs : SameButAmount s s') :
    SameButAmount ((unitMachine M).step s (.onPreSyncSlot r)).1
        ((strategyMachine M strategy).step s' r).1 ∧
      SameSync ((unitMachine M).step s (.onPreSyncSlot r)).2
        ((strategyMachine M strategy).step s' r).2 := by
  cases hs with
  | stopped fault => exact ⟨.stopped fault, rfl, rfl⟩
  | running u amount =>
    rcases tickSyncPeriod_withAmount r u amount with
      ⟨fault, htick, htick'⟩ | ⟨v, events, events', htick, htick', halarm, hmail⟩
    · obtain hstop | ⟨_, _, _, _, hok, -⟩ := manageBy_of_ticksIn h (u.withAmount amount)
      · obtain ⟨fault', hfault', hmanage⟩ := hstop
        cases htick'.symm.trans hfault'
        rw [strategyMachine, Mealy.ofExcept_step_fault hmanage]
        have hstep : (unitMachine M).step (.ok u) (.onPreSyncSlot r) = (.error fault, []) :=
          Mealy.ofExcept_step_fault htick
        rw [hstep]
        exact ⟨.stopped fault, rfl, rfl⟩
      · cases htick'.symm.trans hok
    · obtain ⟨_, hfault, -⟩ | ⟨w, amount', _, events'', hok, hmanage, halarm', hmail'⟩ :=
        manageBy_of_ticksIn h (u.withAmount amount)
      · cases htick'.symm.trans hfault
      · cases htick'.symm.trans hok
        rw [strategyMachine, Mealy.ofExcept_step_ok hmanage,
          step_of_handle (i := .onPreSyncSlot r) htick]
        exact ⟨.running v amount', halarm.trans halarm', hmail.trans hmail'⟩

end Strategies

variable [OneItemMailbox M] {n : ℕ} {strategies : Fin n → Option Build} {s : Units M n}

/-- A unit after its strategy ran, with the events of that. -/
def SyncPeriod.tickBy (strategies : Fin n → Option Build) (slot : SyncPeriod n) (s : Units M n)
    (i : Fin n) : UnitState M × List Event :=
  (strategyMachine M (strategies i)).step (s i) (slot.readings i)

/-- What the agent finds in the master's outbox, once all units have ticked. -/
def SyncPeriod.workSyncOn (slot : SyncPeriod n) (ticked : Units M n) : Option MailContents :=
  slot.master.bind fun i => outboxMail (ticked i)

/-- What the agent does with a unit, once all units have ticked. -/
def SyncPeriod.agentInputsOn (slot : SyncPeriod n) (ticked : Units M n) (i : Fin n) :
    List (Input M) :=
  (if slot.master = some i then fetchInputs (ticked i) else []) ++
    match slot.workSyncOn ticked with
    | none => []
    | some work => List.replicate (slot.copies i) (.onWorkSyncMsg (slot.readings i) work)

/-- A clique whose units each have a strategy, as a machine over sync periods. -/
def mixedLockstep (M : Type) [OneItemMailbox M] (n : ℕ) (strategies : Fin n → Option Build) :
    Mealy (Units M n) (SyncPeriod n) (Fin n → List Event) where
  step s slot :=
    let ticked : Units M n := fun i => (slot.tickBy strategies s i).1
    (fun i => (unitMachine M).after (ticked i) (slot.agentInputsOn ticked i),
      fun i => (slot.tickBy strategies s i).2 ++
        ((unitMachine M).outputs (ticked i) (slot.agentInputsOn ticked i)).flatten)

/-- Every unit reads a voltage in which its strategy ticks the clock. -/
def SyncPeriod.Moderate (strategies : Fin n → Option Build) (slot : SyncPeriod n) : Prop :=
  ∀ i, TicksIn (strategies i) (slot.readings i).voltageRange

section Moderate

omit [OneItemMailbox M] in
/-- Events of the same sync in sequence are of the same sync. -/
theorem SameSync.append {first first' second second' : List Event} (h : SameSync first first')
    (h' : SameSync second second') : SameSync (first ++ second) (first' ++ second') :=
  ⟨by rw [raisesWorkAlarm_append, raisesWorkAlarm_append, h.1, h'.1],
    by rw [workSyncPuts_append, workSyncPuts_append, h.2, h'.2]⟩

omit [OneItemMailbox M] in
theorem SameSync.flatten {runs runs' : List (List Event)}
    (h : List.Forall₂ SameSync runs runs') : SameSync runs.flatten runs'.flatten := by
  induction h with
  | nil => exact ⟨rfl, rfl⟩
  | cons hnow _ ih => exact hnow.append ih

/-- Units that differ in their amount have the same mail. -/
theorem SameButAmount.outboxMail_eq {t t' : UnitState M} (h : SameButAmount t t') :
    outboxMail t = outboxMail t' := by
  cases h <;> rfl

/-- The agent fetches the mail alike from units that differ in their amount. -/
theorem SameButAmount.fetchInputs_eq {t t' : UnitState M} (h : SameButAmount t t') :
    fetchInputs t = fetchInputs t' := by
  cases h <;> rfl

/-- The agent does the same in cliques that differ in amounts. -/
theorem agentInputsOn_eq {slot : SyncPeriod n} {ticked ticked' : Units M n}
    (h : ∀ i, SameButAmount (ticked i) (ticked' i)) (i : Fin n) :
    slot.agentInputsOn ticked i = slot.agentInputsOn ticked' i := by
  have hmail : slot.workSyncOn ticked = slot.workSyncOn ticked' :=
    congrArg slot.master.bind (funext fun j => (h j).outboxMail_eq)
  rw [SyncPeriod.agentInputsOn, SyncPeriod.agentInputsOn, hmail, (h i).fetchInputs_eq]

/-- In moderate sync periods a mixed clique does what a clique of distributed units does, except
for the work amounts. -/
theorem mixedLockstep_simulation (strategies : Fin n → Option Build) :
    Mealy.Simulation (lockstep M n) (mixedLockstep M n strategies)
      (fun slot slot' => slot = slot' ∧ slot.Moderate strategies)
      (fun events events' => ∀ i, SameSync (events i) (events' i))
      (fun s s' => ∀ i, SameButAmount (s i) (s' i)) where
  step := by
    rintro s s' slot _ hs ⟨rfl, hmoderate⟩
    have hticked (i : Fin n) : SameButAmount (slot.tick s i).1 (slot.tickBy strategies s' i).1 ∧
        SameSync (slot.tick s i).2 (slot.tickBy strategies s' i).2 :=
      strategyMachine_sameButAmount (hmoderate i) (hs i)
    have hsame (i : Fin n) : List.Forall₂ Eq (slot.agentInputs s i)
        (slot.agentInputsOn (fun j => (slot.tickBy strategies s' j).1) i) := by
      rw [← agentInputsOn_eq (fun j => (hticked j).1), List.forall₂_eq_eq_eq]
      rfl
    refine ⟨fun i => unit_sameButAmount.after (hticked i).1 (hsame i), fun i => ?_⟩
    have hagent := unit_sameButAmount.outputs (hticked i).1 (hsame i)
    exact (hticked i).2.append (.flatten hagent)

end Moderate

section Storm

/-- Running on a coded period, with nothing in the outbox. -/
def Sane (t : UnitState M) : Prop :=
  ∃ u, t = .ok u ∧ CodedPeriod u.clock.period ∧ OneItemMailbox.mail u.outMailbox = none

/-- Running on a coded period, with nothing in the outbox but, as master, a WorkSync that carries
the period. -/
def Managed (r : Readings) (t : UnitState M) : Prop :=
  ∃ u, t = .ok u ∧ CodedPeriod u.clock.period ∧
    ∀ work, OneItemMailbox.mail u.outMailbox = some work →
      r.isSelfMaster = true ∧ work.toNat = u.clock.period

/-- Whatever the voltage, a strategy leaves a sane unit running on its coded period. -/
theorem Sane.manage {t : UnitState M} (ht : Sane t) (strategy : Option Build) (r : Readings) :
    Managed r ((strategyMachine M strategy).step t r).1 := by
  obtain ⟨u, rfl, hcoded, hmail⟩ := ht
  by_cases hticks : TicksIn strategy r.voltageRange
  · obtain ⟨⟨w, events⟩, hhandle⟩ := handle_ok hcoded.sound.pos (i := .onPreSyncSlot r) trivial
    have htick : WorkClock.tickSyncPeriod r u = .ok (w, events) := hhandle
    obtain ⟨_, hfault, -⟩ | ⟨v, amount, _, _, hok, hmanage, -⟩ := manageBy_of_ticksIn hticks u
    · cases htick.symm.trans hfault
    cases htick.symm.trans hok
    have hperiod : w.clock.period = u.clock.period := by rw [(handle_clock hhandle).1]; rfl
    rw [strategyMachine, Mealy.ofExcept_step_ok hmanage]
    refine ⟨_, rfl, hperiod ▸ hcoded, fun work hwork => ?_⟩
    have hput : work ∈ workSyncPuts events :=
      List.mem_of_head? ((mail_after_tick hhandle hmail).symm.trans hwork)
    obtain ⟨halarm, -, rfl⟩ := mem_workSyncPuts hhandle hput
    exact ⟨(Bool.and_eq_true_iff.mp halarm).1, hcoded.sound.toUInt8_toNat.trans hperiod.symm⟩
  · obtain ⟨hstrategy, hstands⟩ := Classical.not_imp.mp hticks
    obtain ⟨build, rfl⟩ := Option.ne_none_iff_exists'.mp hstrategy
    obtain ⟨⟨amount, hframe⟩, -⟩ := adjust_shows build r.voltageRange.adjustment u
    have hmanage : ∃ events, manageBy (some build) r u =
        .ok (u.withAmount amount, events) := by
      rw [show manageBy (some build) r u = _ from manageExcessPowerWithWork_cases build r u,
        if_neg hstands, show u.withAmount amount = _ from hframe.symm]
      split
      · exact ⟨_, rfl⟩
      · exact ⟨_, rfl⟩
    obtain ⟨events, hmanage⟩ := hmanage
    rw [strategyMachine, Mealy.ofExcept_step_ok hmanage]
    refine ⟨_, rfl, hcoded, fun work hwork => ?_⟩
    cases hmail.symm.trans hwork

/-- After the calls of the strategies, the agent leaves every unit sane. -/
theorem sane_agent {slot : SyncPeriod n} {ticked : Units M n}
    (h : ∀ i, Managed (slot.readings i) (ticked i)) (i : Fin n) :
    Sane ((unitMachine M).after (ticked i) (slot.agentInputsOn ticked i)) := by
  have hwork : ∀ work, slot.workSyncOn ticked = some work → CodedPeriod work.toNat := by
    intro work hwork
    obtain ⟨m, -, hm⟩ := Option.bind_eq_some_iff.mp hwork
    obtain ⟨u, hticked, hcoded, hmail⟩ := h m
    rw [hticked] at hm
    exact (hmail work hm).2 ▸ hcoded
  have hfetched : Sane ((unitMachine M).after (ticked i)
      (if slot.master = some i then fetchInputs (ticked i) else [])) := by
    obtain ⟨u, hticked, hcoded, hmail⟩ := h i
    rw [hticked]
    split
    · exact ⟨_, after_fetchInputs u, hcoded, OneItemMailbox.mail_fetched _⟩
    · rename_i hmaster
      refine ⟨u, rfl, hcoded, Option.eq_none_iff_forall_ne_some.mpr fun work hsome => ?_⟩
      exact hmaster ((slot.isSelfMaster_iff i).mp (hmail work hsome).1)
  rw [SyncPeriod.agentInputsOn, Mealy.after_append]
  obtain ⟨u, hu, hcoded, hmail⟩ := hfetched
  rw [hu]
  cases hsync : slot.workSyncOn ticked with
  | none => exact ⟨u, rfl, hcoded, hmail⟩
  | some work =>
    by_cases hzero : slot.copies i = 0
    · rw [hzero]
      exact ⟨u, rfl, hcoded, hmail⟩
    · have hslave := (slot.only_slaves i hzero).1
      have hcarried := hwork work hsync
      have hpow := (isPowerOfTwo_iff work).mpr hcarried.sound
      refine ⟨_, after_copies hslave hpow (slot.copies i) u, ?_⟩
      rw [if_neg hzero]
      exact ⟨hcarried, hmail⟩

/-- A clique stays sane in any storm of voltages. -/
theorem sane_after (strategies : Fin n → Option Build) (hs : ∀ i, Sane (s i))
    (slots : List (SyncPeriod n)) :
    ∀ i, Sane ((mixedLockstep M n strategies).after s slots i) :=
  (mixedLockstep M n strategies).after_invariant (P := fun _ => True)
    (I := fun s => ∀ i, Sane (s i))
    (fun _ slot _ hs => sane_agent fun i => (hs i).manage (strategies i) (slot.readings i))
    (fun _ _ => trivial) hs

end Storm

section Healing

variable {slots quiet later : List (SyncPeriod n)} {p c : ℕ}

/-- Through moderate sync periods a mixed clique keeps to a clique of distributed units. -/
theorem moderate_after (hmoderate : ∀ slot ∈ slots, slot.Moderate strategies) (i : Fin n) :
    SameButAmount ((lockstep M n).after s slots i)
      ((mixedLockstep M n strategies).after s slots i) := by
  have hsame : List.Forall₂ (fun slot slot' => slot = slot' ∧ slot.Moderate strategies)
      slots slots :=
    List.forall₂_same.mpr fun slot hslot => ⟨rfl, hmoderate slot hslot⟩
  have hstart (j : Fin n) : SameButAmount (s j) (s j) := by
    cases s j with
    | ok u => exact .running u u.managedAmount
    | error fault => exact .stopped fault
  exact (mixedLockstep_simulation strategies).after hstart hsame i

/-- Once a clique of distributed units stands at a phase, the mixed one alarms by that phase. -/
theorem moderate_alarms (hmoderate : ∀ slot ∈ slots, slot.Moderate strategies) {k : ℕ}
    {slot : SyncPeriod n} {events : Fin n → List Event}
    (h : StandsAt p c Set.univ ((lockstep M n).after s (slots.take k)))
    (hk : slots[k]? = some slot)
    (hevents : ((mixedLockstep M n strategies).outputs s slots)[k]? = some events) (i : Fin n) :
    raisesWorkAlarm (events i) = decide (p ∣ c + 1) := by
  rw [Mealy.outputs_getElem?, hk, Option.map_some, Option.some_inj] at hevents
  have hbefore : ∀ j, SameButAmount ((lockstep M n).after s (slots.take k) j)
      ((mixedLockstep M n strategies).after s (slots.take k) j) :=
    moderate_after fun slot hslot => hmoderate slot (List.mem_of_mem_take hslot)
  have hnow : slot.Moderate strategies := hmoderate slot (List.mem_of_getElem? hk)
  have hsync := ((mixedLockstep_simulation strategies).step hbefore ⟨rfl, hnow⟩).2 i
  rw [← hevents, ← hsync.1, (lockstep_events slot _ i).1]
  exact (h.phase i trivial).alarm h.sound slot

end Healing

/-- A clique of both strategies heals from every storm of voltages. From sane units, whatever each
of them reads, whoever is master and whatever is lost, all units keep running on coded periods. If
one unit `m` is then master for twenty sync periods that reach every slave, and all voltages are
and stay moderate, the clique has the clock of that unit from then on, as the storm left it,
whoever is master later: all units alarm in every sync period that brings its counter to a multiple
of its period, and none in any other. -/
theorem mixed_clique_heals (strategies : Fin n → Option Build) (hs : ∀ i, Sane (s i))
    (storm : List (SyncPeriod n)) (m : Fin n) :
    let clique := mixedLockstep M n strategies
    (∀ i, ∃ u, clique.after s storm i = .ok u ∧ CodedPeriod u.clock.period) ∧
    ∃ u, clique.after s storm m = .ok u ∧
      ∀ quiet later : List (SyncPeriod n), MasterThroughout m quiet → 20 ≤ quiet.length →
        (∀ slot ∈ quiet, ∀ i, i ≠ m → slot.copies i ≠ 0) →
        (∀ slot ∈ quiet ++ later, slot.Moderate strategies) →
        ∀ k events, ((clique.outputs (clique.after s (storm ++ quiet)) later)[k]? = some events) →
          ∀ i, raisesWorkAlarm (events i) =
            decide (u.clock.period ∣ u.clock.counter + quiet.length + (k + 1)) := by
  intro clique
  have hsane := sane_after strategies hs storm
  refine ⟨fun i => ?_, ?_⟩
  · obtain ⟨u, hu, hcoded, -⟩ := hsane i
    exact ⟨u, hu, hcoded⟩
  have hready : ∀ i, Ready (clique.after s storm i) := fun i => by
    obtain ⟨v, hv, hcoded, hmail⟩ := hsane i
    exact ⟨v, hv, hcoded.sound.pos, hmail⟩
  obtain ⟨u, hu, hcoded, -⟩ := hsane m
  refine ⟨u, hu, fun quiet later hm hlen hreached hmoderate k events hevents i => ?_⟩
  have hlossless : Lossless m (clique.after s storm) quiet := by
    rintro before slot rest rfl - j hj
    exact hreached slot (List.mem_append_right _ List.mem_cons_self) j hj
  have hk : k < later.length := by
    have hlt := (List.getElem?_eq_some_iff.mp hevents).1
    rwa [Mealy.outputs_length] at hlt
  -- the distributed clique runs through the same sync periods
  have hall := standsAt_of_quiet hready hu hcoded hm hlen hlossless
  have hanyone : ∀ slot ∈ later.take k, slot.MasterIn Set.univ := fun _ _ _ _ => trivial
  have hthen := hall.after hanyone
  rw [List.length_take_of_le hk.le, ← Mealy.after_append, ← List.take_length_add_append] at hthen
  -- the sync period of these events, seen from the end of the storm
  have hslot : (quiet ++ later)[quiet.length + k]? = some later[k] := by
    rw [List.getElem?_append_right (Nat.le_add_right _ _), Nat.add_sub_cancel_left,
      List.getElem?_eq_getElem hk]
  rw [Mealy.after_append, ← Mealy.outputs_append_getElem?] at hevents
  rw [← Nat.add_assoc]
  exact moderate_alarms hmoderate hthen hslot hevents i

/-- A master that stood above excess for three sync periods leads its slave, whose clock did not
stand still, back to its own clock. -/
theorem mixed_clique_heals_pair :
    let strategies : Fin 2 → Option Build := ![some ⟨100, .workOnly⟩, none]
    let unit : UnitState (Option MailContents) :=
      .ok { workClockCounter := 2, outMailbox := none, inMailbox := none }
    let bright : SyncPeriod 2 :=
      { SyncPeriod.ofMaster 0 0 with
        readings := fun i => ⟨i = 0, i ≠ 0, true, .aboveExcess, 0⟩
        isSelfMaster_iff := by decide
        only_slaves := by decide }
    let clique := mixedLockstep _ 2 strategies
    ∃ events, (clique.outputs (clique.after (fun _ => unit)
        (List.replicate 3 bright ++ List.replicate 20 (.ofMaster 0 1)))
        (List.replicate 2 (.ofMaster 1 0)))[1]? = some events ∧
      ∀ i, raisesWorkAlarm (events i) = true := by
  intro strategies unit bright clique
  have hsane : ∀ i : Fin 2, Sane ((fun _ => unit : Units _ 2) i) :=
    fun _ => ⟨_, rfl, .inr (.inr rfl), rfl⟩
  obtain ⟨-, u, hu, hheals⟩ :=
    mixed_clique_heals strategies hsane (List.replicate 3 bright) 0
  have hclock : u.clock = ⟨2, 4⟩ := by
    cases hu
    rfl
  have hquiet : ∀ slot ∈ List.replicate 20 (SyncPeriod.ofMaster (n := 2) 0 1),
      slot = .ofMaster 0 1 := fun _ => List.eq_of_mem_replicate
  have hlater : ∀ slot ∈ List.replicate 2 (SyncPeriod.ofMaster (n := 2) 1 0),
      slot = .ofMaster 1 0 := fun _ => List.eq_of_mem_replicate
  have hmoderate : ∀ slot ∈ List.replicate 20 (SyncPeriod.ofMaster (n := 2) 0 1) ++
      List.replicate 2 (.ofMaster 1 0), slot.Moderate strategies := by
    intro slot hslot i _
    rcases List.mem_append.mp hslot with hslot | hslot
    · exact hquiet slot hslot ▸ rfl
    · exact hlater slot hslot ▸ rfl
  refine ⟨_, Mealy.outputs_getElem? .., fun i => ?_⟩
  refine (hheals (List.replicate 20 (.ofMaster 0 1)) (List.replicate 2 (.ofMaster 1 0))
    (fun slot hslot => hquiet slot hslot ▸ rfl) (by decide) (fun slot hslot j hj => ?_) hmoderate 1
    _ (Mealy.outputs_getElem? ..) i).trans (by rw [hclock]; decide)
  simp [hquiet slot hslot, SyncPeriod.ofMaster, hj]

end Firefly
