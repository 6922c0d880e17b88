import Firefly.Clique.ClosedClique
import Firefly.Clique.Disturbance

/-!
# Lockstep is one order of steps among others

The closed clique takes its steps in any order, and lockstep in one: all units tick, then the agent
fetches what the master offered and passes it on. So every history of a clique in lockstep, with
provisioning in between, is a run of the closed clique, and what is true of all runs of the one is
true of the other.

What ties the two together is that a WorkSync in an outbox was mailed. A unit that hears it in
lockstep is therefore delivered what the closed clique has under way.
-/

namespace Firefly

open Foundation Relation

variable {M : Type} [OneItemMailbox M] {n : ℕ} {c c' : Clique M n} {s : Units M n}

/-- An input that a unit of a closed clique may get: a message must carry what was mailed, to a
slave. -/
def Clique.Allows (c : Clique M n) (input : Input M) : Prop :=
  ∀ r work, input = .onWorkSyncMsg r work → work ∈ c.mailed ∧ r.isSelfSlave = true

/-- Whatever is in an outbox was mailed. -/
def Clique.Pending (c : Clique M n) : Prop :=
  ∀ i work, outboxMail (c.units i) = some work → work ∈ c.mailed

section Steps

omit [OneItemMailbox M] in
theorem Clique.Allows.mono {input : Input M} (h : c.Allows input) (hmailed : c.mailed ⊆ c'.mailed) :
    c'.Allows input :=
  fun r work hinput => ⟨hmailed (h r work hinput).1, (h r work hinput).2⟩

/-- A unit that handles an input it may get takes a step of the closed clique. -/
theorem Clique.Allows.step {input : Input M} (h : c.Allows input) (i : Fin n) :
    c.Step (c.act i input) := by
  by_cases hmessage : input.IsMessage
  · cases input with
    | onWorkSyncMsg r work =>
      obtain ⟨hmailed, hslave⟩ := h r work rfl
      exact .deliver i r work hmailed hslave
    | _ => exact absurd hmessage id
  · exact .own i input hmessage

/-- One unit handles several inputs, and what it offers is mailed. -/
theorem Clique.reach_inputs (i : Fin n) {inputs : List (Input M)}
    (h : ∀ input ∈ inputs, c.Allows input) :
    ∃ c', ReflTransGen Clique.Step c c' ∧
      c'.units = Function.update c.units i ((unitMachine M).after (c.units i) inputs) ∧
      c.mailed ⊆ c'.mailed ∧
      ∀ events ∈ (unitMachine M).outputs (c.units i) inputs, workSyncPuts events ⊆ c'.mailed := by
  induction inputs generalizing c with
  | nil => exact ⟨c, .refl, (Function.update_eq_self i c.units).symm, fun _ => id, nofun⟩
  | cons input rest ih =>
    obtain ⟨hnow, hrest⟩ := List.forall_mem_cons.mp h
    have hmailed : c.mailed ⊆ (c.act i input).mailed := fun _ => List.mem_append_left _
    obtain ⟨c', hreach, hunits, hgrown, hputs⟩ :=
      ih (c := c.act i input) fun later hlater => (hrest later hlater).mono hmailed
    rw [Clique.act_units_self] at hunits hputs
    refine ⟨c', .head (hnow.step i) hreach, ?_, fun _ hwork => hgrown (hmailed hwork), ?_⟩
    · rw [hunits, Mealy.after_cons]
      exact Function.update_idem _ _ _
    · rw [Mealy.outputs_cons, List.forall_mem_cons]
      exact ⟨fun _ hwork => hgrown (List.mem_append_right _ hwork), hputs⟩

/-- All units handle inputs, one unit after the other. -/
theorem Clique.reach_all {inputs : Fin n → List (Input M)}
    (h : ∀ i, ∀ input ∈ inputs i, c.Allows input) :
    ∃ c', ReflTransGen Clique.Step c c' ∧
      (∀ i, c'.units i = (unitMachine M).after (c.units i) (inputs i)) ∧
      c.mailed ⊆ c'.mailed ∧
      ∀ i, ∀ events ∈ (unitMachine M).outputs (c.units i) (inputs i),
        workSyncPuts events ⊆ c'.mailed := by
  have hsome (S : Finset (Fin n)) : ∃ c', ReflTransGen Clique.Step c c' ∧
      (∀ i, c'.units i =
        if i ∈ S then (unitMachine M).after (c.units i) (inputs i) else c.units i) ∧
      c.mailed ⊆ c'.mailed ∧
      ∀ i ∈ S, ∀ events ∈ (unitMachine M).outputs (c.units i) (inputs i),
        workSyncPuts events ⊆ c'.mailed := by
    induction S using Finset.induction_on with
    | empty => exact ⟨c, .refl, fun i => by simp, fun _ => id, by simp⟩
    | insert i S hi ih =>
      obtain ⟨c₁, hreach₁, hunits₁, hgrown₁, hputs₁⟩ := ih
      have hallowed : ∀ input ∈ inputs i, c₁.Allows input :=
        fun input hinput => (h i input hinput).mono hgrown₁
      obtain ⟨c₂, hreach₂, hunits₂, hgrown₂, hputs₂⟩ := Clique.reach_inputs i hallowed
      have hstill : c₁.units i = c.units i := (hunits₁ i).trans (if_neg hi)
      rw [hstill] at hunits₂ hputs₂
      refine ⟨c₂, hreach₁.trans hreach₂, fun j => ?_, fun _ hwork => hgrown₂ (hgrown₁ hwork),
        fun j hj => ?_⟩
      · rw [hunits₂]
        rcases eq_or_ne j i with rfl | hne
        · rw [Function.update_self, if_pos (Finset.mem_insert_self j S)]
        · rw [Function.update_of_ne hne, hunits₁]
          exact if_congr (by simp [hne]) rfl rfl
      · rcases Finset.mem_insert.mp hj with rfl | hj
        · exact hputs₂
        · exact fun events hevents _ hwork => hgrown₂ (hputs₁ j hj events hevents hwork)
  obtain ⟨c', hreach, hunits, hgrown, hputs⟩ := hsome Finset.univ
  exact ⟨c', hreach, fun i => (hunits i).trans (if_pos (Finset.mem_univ i)), hgrown,
    fun i => hputs i (Finset.mem_univ i)⟩

end Steps

section Outboxes

/-- What a mailbox holds after some puts was in it before or is one of them. -/
theorem mem_of_mailboxAfter {box : M} {works : List MailContents} {work : MailContents}
    (h : OneItemMailbox.mail (mailboxAfter box works) = some work) :
    OneItemMailbox.mail box = some work ∨ work ∈ works := by
  induction works generalizing box with
  | nil => exact .inl h
  | cons first rest ih =>
    rcases ih h with hput | hrest
    · change OneItemMailbox.mail (Mailbox.tryPut box first).2 = some work at hput
      cases hmail : OneItemMailbox.mail box with
      | none =>
        rw [(OneItemMailbox.tryPut_of_empty box first hmail).2] at hput
        exact .inr (Option.some.inj hput ▸ List.mem_cons_self)
      | some pending =>
        rw [OneItemMailbox.tryPut_of_full box first pending hmail, hmail] at hput
        exact .inl hput
    · exact .inr (List.mem_cons_of_mem _ hrest)

/-- What is in an outbox after an input was there before or was offered by it, unless the agent
left it there. -/
theorem mem_of_outboxMail {t : UnitState M} {input : Input M} {work : MailContents}
    (hinput : ∀ box, input = .setOutMailbox box → OneItemMailbox.mail box = none)
    (h : outboxMail ((unitMachine M).step t input).1 = some work) :
    outboxMail t = some work ∨ work ∈ workSyncPuts ((unitMachine M).step t input).2 := by
  rcases step_cases t input with ⟨u, v, events, rfl, hhandle, hstep⟩ | ⟨fault, hstep, -⟩
  · rw [hstep] at h ⊢
    by_cases hset : ∃ box, input = .setOutMailbox box
    · obtain ⟨box, rfl⟩ := hset
      cases hhandle
      cases (hinput box rfl).symm.trans h
    · have hbox := handle_outMailbox hhandle fun box heq => hset ⟨box, heq⟩
      rw [outboxMail, hbox] at h
      exact mem_of_mailboxAfter h
  · rw [hstep] at h
    cases h

end Outboxes

section Lockstep

/-- After the ticks of a sync period, whatever is in an outbox was mailed. -/
theorem reach_ticks (hc : c.Pending) (slot : SyncPeriod n) :
    ∃ c', ReflTransGen Clique.Step c c' ∧ (∀ i, c'.units i = (slot.tick c.units i).1) ∧
      c'.Pending := by
  have hallowed : ∀ i, ∀ input ∈ [Input.onPreSyncSlot (slot.readings i)], c.Allows input := by
    intro i input hinput r work heq
    cases (List.mem_singleton.mp hinput).symm.trans heq
  obtain ⟨c', hreach, hunits, hgrown, hputs⟩ := Clique.reach_all hallowed
  refine ⟨c', hreach, hunits, fun i work hwork => ?_⟩
  rw [hunits i] at hwork
  rcases mem_of_outboxMail nofun hwork with hbefore | hput
  · exact hgrown (hc i work hbefore)
  · exact hputs i _ List.mem_cons_self hput

/-- The agent fetches the mail of a running unit, or passes on the WorkSync of the sync period. -/
theorem mem_agentInputs {slot : SyncPeriod n} {i : Fin n} {input : Input M}
    (h : input ∈ slot.agentInputs s i) :
    (∃ u, (slot.tick s i).1 = .ok u ∧
        input = .setOutMailbox (OneItemMailbox.fetched u.outMailbox)) ∨
      ∃ work, slot.workSync s = some work ∧ slot.copies i ≠ 0 ∧
        input = .onWorkSyncMsg (slot.readings i) work := by
  rcases List.mem_append.mp h with hfetch | hcopy
  · left
    split at hfetch
    · cases hstate : (slot.tick s i).1 with
      | error fault => simp [hstate, fetchInputs] at hfetch
      | ok u =>
        rw [hstate] at hfetch
        exact ⟨u, rfl, List.mem_singleton.mp hfetch⟩
    · cases hfetch
  · right
    cases hsync : slot.workSync s with
    | none => simp [hsync] at hcopy
    | some work =>
      rw [hsync] at hcopy
      obtain ⟨hcopies, hinput⟩ := List.mem_replicate.mp hcopy
      exact ⟨work, rfl, hcopies, hinput⟩

/-- What the agent passes on in a sync period was mailed, and goes to slaves. -/
theorem agentInputs_allowed {slot : SyncPeriod n} (hunits : ∀ i, c.units i = (slot.tick s i).1)
    (hc : c.Pending) (i : Fin n) : ∀ input ∈ slot.agentInputs s i, c.Allows input := by
  rintro input hinput r work rfl
  rcases mem_agentInputs hinput with ⟨u, -, hfetch⟩ | ⟨sent, hsync, hcopies, hcopy⟩
  · cases hfetch
  · cases hcopy
    obtain ⟨m, -, hm⟩ := Option.bind_eq_some_iff.mp hsync
    rw [← hunits m] at hm
    exact ⟨hc m _ hm, (slot.only_slaves i hcopies).1⟩

/-- An input that puts nothing in the outbox. -/
def Input.LeavesNothing : Input M → Prop
  | .onPreSyncSlot _ => False
  | .setOutMailbox box => OneItemMailbox.mail box = none
  | _ => True

/-- The agent puts nothing in an outbox. -/
theorem agentInputs_leaveNothing (slot : SyncPeriod n) (s : Units M n) (i : Fin n) :
    ∀ input ∈ slot.agentInputs s i, input.LeavesNothing := by
  intro input hinput
  rcases mem_agentInputs hinput with ⟨u, -, rfl⟩ | ⟨work, -, -, rfl⟩
  · exact OneItemMailbox.mail_fetched u.outMailbox
  · trivial

/-- What is in an outbox at the end of a sync period was there after the tick. -/
theorem outboxMail_of_lockstep {slot : SyncPeriod n} {i : Fin n} {work : MailContents}
    (h : outboxMail (((lockstep M n).step s slot).1 i) = some work) :
    outboxMail (slot.tick s i).1 = some work := by
  have hstep (t : UnitState M) (input : Input M) (hinput : input.LeavesNothing)
      (hwork : outboxMail ((unitMachine M).step t input).1 = some work) :
      outboxMail t = some work := by
    have hset : ∀ box, input = .setOutMailbox box → OneItemMailbox.mail box = none := by
      rintro box rfl
      exact hinput
    rcases mem_of_outboxMail hset hwork with hbefore | hput
    · exact hbefore
    · have hsilent : workSyncPuts ((unitMachine M).step t input).2 = [] :=
        (silent_of_not_tick fun r heq => by rw [heq] at hinput; exact hinput).2
      rw [hsilent] at hput
      cases hput
  have hkept := (unitMachine M).after_invariant (P := Input.LeavesNothing)
    (I := fun t => outboxMail t = some work → outboxMail (slot.tick s i).1 = some work)
    (fun t input hinput ht hwork => ht (hstep t input hinput hwork))
    (agentInputs_leaveNothing slot s i) id
  exact hkept h

/-- A sync period of lockstep is a run of the closed clique. -/
theorem reach_syncPeriod (hc : c.Pending) (slot : SyncPeriod n) :
    ∃ c', ReflTransGen Clique.Step c c' ∧ c'.units = ((lockstep M n).step c.units slot).1 ∧
      c'.Pending := by
  obtain ⟨c₁, hreach₁, hunits₁, hpending₁⟩ := reach_ticks hc slot
  obtain ⟨c₂, hreach₂, hunits₂, hgrown₂, -⟩ :=
    Clique.reach_all (agentInputs_allowed hunits₁ hpending₁)
  have hunits : c₂.units = ((lockstep M n).step c.units slot).1 :=
    funext fun i => (hunits₂ i).trans (by rw [hunits₁ i]; rfl)
  refine ⟨c₂, hreach₁.trans hreach₂, hunits, fun i work hwork => ?_⟩
  rw [hunits] at hwork
  have hticked := outboxMail_of_lockstep hwork
  rw [← hunits₁ i] at hticked
  exact hgrown₂ (hpending₁ i work hticked)

/-- A unit that is provisioned takes one step. -/
theorem reach_own (hc : c.Pending) (i : Fin n) {input : Input M}
    (hown : ∀ r work, input ≠ .onWorkSyncMsg r work) (hset : ∀ box, input ≠ .setOutMailbox box) :
    ∃ c', ReflTransGen Clique.Step c c' ∧ c'.units = (Units.handle c.units i input).1 ∧
      c'.Pending := by
  have hallowed : c.Allows input := fun r work heq => absurd heq (hown r work)
  refine ⟨c.act i input, .single (hallowed.step i), rfl, fun j work hwork => ?_⟩
  rcases eq_or_ne j i with rfl | hne
  · rw [Clique.act_units_self] at hwork
    rcases mem_of_outboxMail (fun box heq => absurd heq (hset box)) hwork with hbefore | hput
    · exact List.mem_append_left _ (hc j work hbefore)
    · exact List.mem_append_right _ hput
  · rw [Clique.act_units_ne hne] at hwork
    exact List.mem_append_left _ (hc j work hwork)

end Lockstep

/-- Nothing that happened to a clique was a restart. -/
def CliqueEvent.KeepsPower : CliqueEvent M n → Prop
  | .restart _ _ _ _ => False
  | _ => True

/-- Lockstep refines the closed clique. Every history of sync periods and provisioning, from units
at power-on with empty outboxes, is a run of the closed clique with the same units at the end. So
none of its units stops, they all run on coded periods, and each WorkSync that waits in an outbox
was mailed and carries such a period. -/
theorem lockstep_refines_clique {outMailbox : Fin n → M} (inMailbox : Fin n → M)
    (hempty : ∀ i, OneItemMailbox.mail (outMailbox i) = none) {history : List (CliqueEvent M n)}
    (hhistory : ∀ event ∈ history, event.KeepsPower) :
    ∃ c, ReflTransGen Clique.Step (.powerOn outMailbox inMailbox) c ∧
      c.units = (disturbed M n).after (.powerOn outMailbox inMailbox) history ∧ c.Coded ∧
      ∀ i work, outboxMail (c.units i) = some work → work ∈ c.mailed := by
  have hrun : ∃ c, ReflTransGen Clique.Step (.powerOn outMailbox inMailbox) c ∧
      c.units = (disturbed M n).after (.powerOn outMailbox inMailbox) history ∧ c.Pending := by
    refine (disturbed M n).after_invariant (P := CliqueEvent.KeepsPower)
      (I := fun s => ∃ c, ReflTransGen Clique.Step (.powerOn outMailbox inMailbox) c ∧
        c.units = s ∧ c.Pending) (fun s event hevent hs => ?_) hhistory
      ⟨_, .refl, rfl, fun i work hwork => ?_⟩
    · obtain ⟨c, hreach, rfl, hpending⟩ := hs
      have hnext : ∃ c', ReflTransGen Clique.Step c c' ∧
          c'.units = ((disturbed M n).step c.units event).1 ∧ c'.Pending := by
        cases event with
        | syncPeriod slot => exact reach_syncPeriod hpending slot
        | setSyncPeriodsBetweenWorkCoded i code => exact reach_own hpending i nofun nofun
        | syncToPast i clockAdvance => exact reach_own hpending i nofun nofun
        | restart i outMailbox inMailbox hempty => cases hevent
      obtain ⟨c', hmore, hunits, hpending'⟩ := hnext
      exact ⟨c', hreach.trans hmore, hunits, hpending'⟩
    · cases (hempty i).symm.trans hwork
  obtain ⟨c, hreach, hunits, hpending⟩ := hrun
  exact ⟨c, hreach, hunits, Clique.coded_of_reachable hreach, hpending⟩

/-- The master is provisioned to work in every sync period; in the fifth one the slave hears its
WorkSync and takes over the period. -/
theorem lockstep_refines_clique_pair :
    let history : List (CliqueEvent (Option MailContents) 2) :=
      .setSyncPeriodsBetweenWorkCoded 0 0 :: List.replicate 5 (.syncPeriod (.ofMaster 0 1))
    ∃ c, ReflTransGen Clique.Step (.powerOn (fun _ => none) fun _ => none) c ∧
      c.units = (disturbed _ 2).after (.powerOn (fun _ => none) fun _ => none) history ∧
      (c.units 1).map Firmware.syncPeriodsBetweenWork = .ok 1 := by
  intro history
  have hhistory : ∀ event ∈ history, event.KeepsPower := by
    intro event hevent
    rcases List.mem_cons.mp hevent with rfl | hevent
    · trivial
    · exact List.eq_of_mem_replicate hevent ▸ trivial
  obtain ⟨c, hreach, hunits, -⟩ :=
    lockstep_refines_clique (fun _ => none) (fun _ => rfl) hhistory
  refine ⟨c, hreach, hunits, ?_⟩
  rw [hunits]
  decide

end Firefly
