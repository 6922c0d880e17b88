import Firefly.Clique.ClosedClique
import Firefly.Clique.Stabilisation
import Firefly.Clique.Unison

/-!
# Recovery from any disturbance

Between sync periods units are provisioned, each on its own, and units that lost their power
start again. Mastership moves at will, and any WorkSync may be lost. A clique so disturbed may be
in any disorder of phases and periods, but no unit stops, and every period is still one that
provisioning can install.

That is all the protocol needs. Once one unit stays master and its WorkSyncs arrive, twenty sync
periods bring the whole clique to the clock of that unit, as the disturbance left it, and all
units flash on its schedule.
-/

namespace Firefly

open Foundation

variable {M : Type} [OneItemMailbox M] {n : ℕ} {s : Units M n}

/-- What happens to a clique from one sync period to the next. -/
inductive CliqueEvent (M : Type) [OneItemMailbox M] (n : ℕ)
  | syncPeriod (slot : SyncPeriod n)
  /-- The work cycle of a unit is provisioned. -/
  | setSyncPeriodsBetweenWorkCoded (i : Fin n) (workFreqCode : UInt32)
  /-- The work time of a unit is provisioned. -/
  | syncToPast (i : Fin n) (clockAdvance : UInt32)
  /-- A unit starts again from power-on, with empty mailboxes. -/
  | restart (i : Fin n) (outMailbox inMailbox : M)
      (hempty : OneItemMailbox.mail outMailbox = none)

/-- One unit handles an input between sync periods. -/
def Units.handle (s : Units M n) (i : Fin n) (input : Input M) :
    Units M n × (Fin n → List Event) :=
  let stepped := (unitMachine M).step (s i) input
  (Function.update s i stepped.1, Function.update (fun _ => []) i stepped.2)

/-- The disturbed clique as a machine. -/
def disturbed (M : Type) [OneItemMailbox M] (n : ℕ) :
    Mealy (Units M n) (CliqueEvent M n) (Fin n → List Event) where
  step s
    | .syncPeriod slot => (lockstep M n).step s slot
    | .setSyncPeriodsBetweenWorkCoded i code => s.handle i (.setSyncPeriodsBetweenWorkCoded code)
    | .syncToPast i clockAdvance => s.handle i (.syncToPast clockAdvance)
    | .restart i outMailbox inMailbox _ =>
      (Function.update s i (.ok (.powerOn outMailbox inMailbox)), fun _ => [])

/-- All units at power-on, with the given mailboxes. -/
def Units.powerOn (outMailbox inMailbox : Fin n → M) : Units M n :=
  fun i => .ok (.powerOn (outMailbox i) (inMailbox i))

/-- A unit from which the clique can recover: it runs on a coded period with an empty outbox, and
works by the amount that was set when it was initialised. -/
def Recoverable (s : UnitState M) : Prop :=
  ∃ u, s = .ok u ∧ CodedPeriod u.clock.period ∧ OneItemMailbox.mail u.outMailbox = none ∧
    u.managedAmount = WorkAmount.amountPerceivable

section Invariant

theorem recoverable_powerOn {outMailbox : M} (inMailbox : M)
    (hempty : OneItemMailbox.mail outMailbox = none) :
    Recoverable (.ok (.powerOn outMailbox inMailbox)) :=
  ⟨_, rfl, .inr (.inr rfl), hempty, rfl⟩

/-- Provisioning the work cycle leaves a unit recoverable. -/
theorem Recoverable.cycle {t : UnitState M} (h : Recoverable t) (code : UInt32) :
    Recoverable ((unitMachine M).step t (.setSyncPeriodsBetweenWorkCoded code)).1 := by
  obtain ⟨u, rfl, -, hmail, hamount⟩ := h
  have hhandle : u.handle (.setSyncPeriodsBetweenWorkCoded code) = _ :=
    WorkFrequency.setSyncPeriodsBetweenWork_ok (decodeWorkFreq_sound code).ne_zero u
  rw [step_of_handle hhandle]
  exact ⟨_, rfl, codedPeriod_iff_dvd.mpr (decodeWorkFreq_dvd code), hmail, hamount⟩

/-- Provisioning the work time leaves a unit recoverable. -/
theorem Recoverable.time {t : UnitState M} (h : Recoverable t) (clockAdvance : UInt32) :
    Recoverable ((unitMachine M).step t (.syncToPast clockAdvance)).1 := by
  obtain ⟨u, rfl, hcoded, hmail, hamount⟩ := h
  exact ⟨_, rfl, hcoded, hmail, hamount⟩

/-- Replacing one unit of a recoverable clique by a recoverable one leaves it recoverable. -/
theorem recoverable_update (h : ∀ i, Recoverable (s i)) {i : Fin n} {t : UnitState M}
    (ht : Recoverable t) (j : Fin n) : Recoverable (Function.update s i t j) := by
  rcases eq_or_ne j i with rfl | hne
  · rwa [Function.update_self]
  · rw [Function.update_of_ne hne]
    exact h j

/-- In a sync period of recoverable units the master, if there is one, stands at some phase of a
coded period. -/
theorem exists_led (h : ∀ i, Recoverable (s i)) (slot : SyncPeriod n) :
    ∃ p c, CodedPeriod p ∧ slot.Led s p c := by
  have hready : ∀ i, Ready (s i) := fun i => by
    obtain ⟨u, hs, hcoded, hmail, -⟩ := h i
    exact ⟨u, hs, hcoded.sound.pos, hmail⟩
  cases hmaster : slot.master with
  | none => exact ⟨1, 0, .inl rfl, ⟨0, by decide, rfl⟩, hready, fun m hm => by simp [hmaster] at hm⟩
  | some m =>
    obtain ⟨u, hs, hcoded, -⟩ := h m
    refine ⟨u.clock.period, u.clock.counter, hcoded, hcoded.sound, hready, fun m' hm' => ?_⟩
    cases hmaster.symm.trans hm'
    exact ⟨u, hs, rfl, rfl⟩

/-- A sync period leaves all units recoverable. -/
theorem recoverable_syncPeriod (h : ∀ i, Recoverable (s i)) (slot : SyncPeriod n) (i : Fin n) :
    Recoverable (((lockstep M n).step s slot).1 i) := by
  obtain ⟨p, c, hp, hled⟩ := exists_led h slot
  obtain ⟨u, hs, hcoded, -, hamount⟩ := h i
  obtain ⟨v, hv, hmail, hclock, -⟩ := hled.unit hs
  have hkept : HasAmount WorkAmount.amountPerceivable (s i) := fun u' hu' => by
    cases hs.symm.trans hu'
    exact hamount
  refine ⟨v, hv, ?_, hmail, hkept.lockstep_step slot v hv⟩
  rw [hclock]
  cases hheard : slot.heard s i with
  | none => exact hcoded
  | some work =>
    change CodedPeriod work.toNat
    rwa [(hled.workSync_inv (workSync_of_heard hheard)).1]

/-- Nothing that happens to a clique takes it out of its recoverable states. -/
theorem recoverable_step (h : ∀ i, Recoverable (s i)) (event : CliqueEvent M n) :
    ∀ i, Recoverable (((disturbed M n).step s event).1 i) := by
  cases event with
  | syncPeriod slot => exact recoverable_syncPeriod h slot
  | setSyncPeriodsBetweenWorkCoded i code => exact recoverable_update h ((h i).cycle code)
  | syncToPast i clockAdvance => exact recoverable_update h ((h i).time clockAdvance)
  | restart i outMailbox inMailbox hempty =>
    exact recoverable_update h (recoverable_powerOn inMailbox hempty)

/-- Every history from power-on leaves all units of a clique recoverable. -/
theorem recoverable_after {outMailbox : Fin n → M} (inMailbox : Fin n → M)
    (hempty : ∀ i, OneItemMailbox.mail (outMailbox i) = none) (history : List (CliqueEvent M n)) :
    ∀ i, Recoverable ((disturbed M n).after (.powerOn outMailbox inMailbox) history i) :=
  (disturbed M n).after_invariant (P := fun _ => True) (I := fun s => ∀ i, Recoverable (s i))
    (fun _ event _ hs => recoverable_step hs event) (fun _ _ => trivial)
    fun i => recoverable_powerOn (inMailbox i) (hempty i)

end Invariant

/-- A master on a coded period that twenty sync periods do not lose brings ready units to its own
clock. -/
theorem standsAt_of_quiet (hready : ∀ i, Ready (s i)) {m : Fin n} {u : Firmware M}
    (hu : s m = .ok u) (hcoded : CodedPeriod u.clock.period) {quiet : List (SyncPeriod n)}
    (hm : MasterThroughout m quiet) (hlen : 20 ≤ quiet.length) (hlossless : Lossless m s quiet) :
    StandsAt u.clock.period (u.clock.counter + quiet.length) Set.univ
      ((lockstep M n).after s quiet) := by
  have hstart : StandsAt u.clock.period u.clock.counter {m} s :=
    ⟨hcoded.sound, hready, fun i hi => hi ▸ ⟨u, hu, rfl, rfl⟩⟩
  -- twenty sync periods are five work periods, whatever the code
  have hle : 5 * u.clock.period ≤ quiet.length := by
    have hfour := Nat.le_of_dvd (by decide) (codedPeriod_iff_dvd.mp hcoded)
    omega
  have hmaster := (hstart.after (MasterThroughout.masterIn hm rfl)).phase m rfl
  exact (hstart.inStep.after_lossless hm hle hlossless).standsAt (i := m) trivial hmaster

/-- A clique recovers from any history of disturbances since power-on. No unit has stopped, and
if one unit `m` is then master for twenty sync periods that lose no WorkSync, the clique has the
clock of that unit from then on, whoever is master later and whatever is lost: each unit with
power flashes once, by the initial amount, in every sync period that brings the counter of `m`, as
the history left it, to a multiple of its period, and in no other. -/
theorem clique_recovers {outMailbox : Fin n → M} (inMailbox : Fin n → M)
    (hempty : ∀ i, OneItemMailbox.mail (outMailbox i) = none) (history : List (CliqueEvent M n))
    (m : Fin n) :
    let s := (disturbed M n).after (.powerOn outMailbox inMailbox) history
    ∃ u, s m = .ok u ∧ CodedPeriod u.clock.period ∧
      ∀ quiet later : List (SyncPeriod n), MasterThroughout m quiet → 20 ≤ quiet.length →
        Lossless m s quiet → ∀ k slot events, later[k]? = some slot →
        ((lockstep M n).outputs ((lockstep M n).after s quiet) later)[k]? = some events →
        ∀ i, flashes (events i) =
          if u.clock.period ∣ u.clock.counter + quiet.length + (k + 1) ∧
              (slot.readings i).isPowerForWork then
            [WorkAmount.amountPerceivable] else [] := by
  intro s
  have hrecoverable := recoverable_after inMailbox hempty history
  obtain ⟨u, hs, hcoded, -⟩ := hrecoverable m
  refine ⟨u, hs, hcoded, ?_⟩
  intro quiet later hm hlen hlossless k slot events hk hevents i
  have hready : ∀ i, Ready (s i) := fun i => by
    obtain ⟨v, hv, hvcoded, hmail, -⟩ := hrecoverable i
    exact ⟨v, hv, hvcoded.sound.pos, hmail⟩
  have hall := standsAt_of_quiet hready hs hcoded hm hlen hlossless
  have hamount : HasAmount WorkAmount.amountPerceivable ((lockstep M n).after s quiet i) := by
    obtain ⟨v, hv, -, -, hvamount⟩ := hrecoverable i
    refine HasAmount.lockstep_after (fun v' hv' => ?_) quiet
    cases hv.symm.trans hv'
    exact hvamount
  exact hall.flashes_run (fun _ _ _ _ => trivial) hk hevents trivial hamount

/-- A master that reaches everyone stays so, and loses nothing. -/
theorem lossless_ofMaster (m : Fin n) (s : Units M n) (len : ℕ) {copies : ℕ} (h : copies ≠ 0) :
    MasterThroughout m (List.replicate len (.ofMaster m copies)) ∧
      Lossless m s (List.replicate len (.ofMaster m copies)) := by
  constructor
  · intro slot hslot
    exact List.eq_of_mem_replicate hslot ▸ rfl
  · rintro before slot rest hsplit - i hi
    have hslot : slot ∈ List.replicate len (SyncPeriod.ofMaster m copies) :=
      hsplit ▸ List.mem_append_right _ List.mem_cons_self
    simp [List.eq_of_mem_replicate hslot, SyncPeriod.ofMaster, hi, h]

/-- A clique of two whose master was provisioned and whose slave lost its power. -/
theorem clique_recovers_pair :
    let history : List (CliqueEvent (Option MailContents) 2) :=
      [.syncPeriod (.ofMaster 1 0), .setSyncPeriodsBetweenWorkCoded 0 1, .syncToPast 0 7,
        .restart 1 none none rfl]
    let s := (disturbed _ 2).after (.powerOn (fun _ => none) fun _ => none) history
    let quiet : List (SyncPeriod 2) := List.replicate 20 (.ofMaster 0 1)
    let later : List (SyncPeriod 2) := List.replicate 2 (.ofMaster 1 0)
    ∃ events, ((lockstep _ 2).outputs ((lockstep _ 2).after s quiet) later)[1]? = some events ∧
      ∀ i, flashes (events i) = [20] := by
  intro history s quiet later
  obtain ⟨u, hu, -, hrecovers⟩ :=
    clique_recovers (M := Option MailContents) (fun _ => none) (fun _ => rfl) history 0
  have hclock : s 0 = .ok
      { workClockCounter := 8, syncPeriodsBetweenWork := 2, managedAmount := 20,
        outMailbox := none, inMailbox := none } := rfl
  cases hu.symm.trans hclock
  obtain ⟨hmaster, hlossless⟩ := lossless_ofMaster 0 s 20 Nat.one_ne_zero
  have hevents := Mealy.outputs_getElem? (lockstep _ 2) ((lockstep _ 2).after s quiet) later 1
  refine ⟨_, hevents, fun i => ?_⟩
  have hflashes := hrecovers quiet later hmaster (by decide) hlossless 1 _ _ rfl hevents i
  exact hflashes.trans (if_pos ⟨by decide, rfl⟩)

end Firefly
