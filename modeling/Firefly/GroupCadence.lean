import Firefly.UnitClock
import Firefly.Work.Group

/-!
# The cadence of regular group work

The group strategy counts the calls since it last initiated work, and initiates when the count
is above the period. The count is back at one after that same call, so it takes as many further
calls as the period to come back above it, and the next one to act on it.

Initiations are therefore always one call more apart than the period. A run shows exactly the
configured spacing only where it is too short to contain two of them.
-/

namespace Firefly

open Foundation

variable {M : Type} [Mailbox M] {p c : ℕ} {u : Firmware M} {r : Readings} {rs : List Readings}

/-- A unit that runs the group strategy once a sync period. -/
def groupMachine (M : Type) [Mailbox M] : Mealy (Firmware M) Readings (List Event) where
  step u r := WorkStrategyGroup.manageWorkOnlyRegularlyIfPowerAndMaster r u

/-- Group work was initiated during a call. -/
def initiatesGroupWork (events : List Event) : Bool :=
  events.any fun
    | .initiateGroupWork _ => true
    | _ => false

/-- The unit is master and has power for work. -/
def Readings.Working (r : Readings) : Prop := r.isSelfMaster = true ∧ r.isPowerForWork = true

/-- A unit with a given period, at a given count of regular work. -/
def Counting (p c : ℕ) (u : Firmware M) : Prop :=
  u.syncPeriodsBetweenWork.toNat = p ∧ u.regularWorkCounter.toNat = c

section Steps

/-- A call of a working unit initiates work, and starts counting again, when the count is one
above the period; otherwise it counts. -/
theorem Counting.step (hp : p + 1 < counterModulus) (hu : Counting p c u) (hc : c ≤ p + 1)
    (hr : r.Working) :
    Counting p (if c = p + 1 then 1 else c + 1) ((groupMachine M).step u r).1 ∧
      initiatesGroupWork ((groupMachine M).step u r).2 = decide (c = p + 1) := by
  obtain ⟨hperiod, hcounter⟩ := hu
  have hwork : (groupMachine M).step u r = WorkStrategyGroup.doRegularWork r u :=
    if_pos (by rw [hr.1, hr.2]; rfl)
  have habove : u.regularWorkCounter > u.syncPeriodsBetweenWork ↔ c = p + 1 := by
    rw [gt_iff_lt, UInt32.lt_iff_toNat_lt, hperiod, hcounter]
    omega
  rw [hwork, WorkStrategyGroup.doRegularWork]
  by_cases hcase : c = p + 1
  · rw [if_pos (habove.mpr hcase), if_pos hcase, decide_eq_true hcase]
    exact ⟨⟨hperiod, rfl⟩, rfl⟩
  · rw [if_neg (fun h => hcase (habove.mp h)), if_neg hcase, decide_eq_false hcase]
    refine ⟨⟨hperiod, ?_⟩, rfl⟩
    change (u.regularWorkCounter + 1).toNat = c + 1
    rw [UInt32.toNat_add, hcounter]
    exact Nat.mod_eq_of_lt (show c + 1 < counterModulus by omega)

/-- Any other call leaves the unit as it is. -/
theorem groupMachine_step_idle (hr : ¬ r.Working) :
    ((groupMachine M).step u r).1 = u := by
  have hidle : ¬ (r.isSelfMaster && r.isPowerForWork) = true := fun h =>
    hr (Bool.and_eq_true_iff.mp h)
  change (WorkStrategyGroup.manageWorkOnlyRegularlyIfPowerAndMaster r u).1 = u
  rw [WorkStrategyGroup.manageWorkOnlyRegularlyIfPowerAndMaster, if_neg hidle]

/-- Whatever the calls find, the count stays at most one above the period, and grows by at most
one for each call. -/
theorem Counting.after (hp : p + 1 < counterModulus) (hu : Counting p c u) (hc : c ≤ p + 1)
    (rs : List Readings) :
    ∃ c', Counting p c' ((groupMachine M).after u rs) ∧ c' ≤ p + 1 ∧ c' ≤ c + rs.length := by
  induction rs generalizing u c with
  | nil => exact ⟨c, hu, hc, Nat.le_add_right c _⟩
  | cons r rest ih =>
    rw [Mealy.after_cons, List.length_cons]
    by_cases hr : r.Working
    · obtain ⟨hnext, -⟩ := hu.step hp hc hr
      obtain ⟨c', hc', hle, hgrow⟩ := ih hnext (by split <;> omega)
      refine ⟨c', hc', hle, Nat.le_trans hgrow ?_⟩
      split <;> omega
    · rw [groupMachine_step_idle hr]
      obtain ⟨c', hc', hle, hgrow⟩ := ih hu hc
      exact ⟨c', hc', hle, by omega⟩

/-- A working unit initiates nothing for exactly as many calls as its count leaves room for, and
counts them. -/
theorem Counting.silent_iff (hp : p + 1 < counterModulus) (hu : Counting p c u) (hc : c ≤ p + 1)
    (hrs : ∀ r ∈ rs, r.Working) :
    ((∀ events ∈ (groupMachine M).outputs u rs, initiatesGroupWork events = false) ↔
      c + rs.length ≤ p + 1) ∧
    (c + rs.length ≤ p + 1 → Counting p (c + rs.length) ((groupMachine M).after u rs)) := by
  induction rs generalizing u c with
  | nil => exact ⟨⟨fun _ => hc, fun _ => nofun⟩, fun _ => hu⟩
  | cons r rest ih =>
    obtain ⟨hr, hrest⟩ := List.forall_mem_cons.mp hrs
    obtain ⟨hnext, hnow⟩ := hu.step hp hc hr
    rw [Mealy.outputs_cons, Mealy.after_cons, List.length_cons, List.forall_mem_cons, hnow,
      decide_eq_false_iff_not]
    by_cases hcase : c = p + 1
    · exact ⟨⟨fun h => absurd hcase h.1, fun h => by omega⟩, fun h => by omega⟩
    · rw [if_neg hcase] at hnext
      obtain ⟨hsilent, hcount⟩ := ih hnext (by omega) hrest
      rw [Nat.add_right_comm] at hsilent hcount
      exact ⟨⟨fun h => hsilent.mp h.2, fun h => ⟨hcase, hsilent.mpr h⟩⟩, hcount⟩

end Steps

/-- In a run, any two consecutive initiations of group work are a given number of calls apart. -/
def InitiationsApart (gap : ℕ) (u : Firmware M) (rs : List Readings) : Prop :=
  ∀ before first mid second later, rs = before ++ first :: (mid ++ second :: later) →
    let atFirst := (groupMachine M).after u before
    let atSecond := (groupMachine M).after u (before ++ first :: mid)
    initiatesGroupWork ((groupMachine M).step atFirst first).2 = true →
    (∀ events ∈ (groupMachine M).outputs ((groupMachine M).step atFirst first).1 mid,
      initiatesGroupWork events = false) →
    initiatesGroupWork ((groupMachine M).step atSecond second).2 = true →
    mid.length + 1 = gap

/-- A unit reached by some calls from a count of zero, with a given period throughout. -/
def RegularWorkReachable (p : ℕ) (u : Firmware M) : Prop :=
  ∃ u₀ rs, Counting p 0 u₀ ∧ (groupMachine M).after u₀ rs = u

/-- Between two consecutive initiations of a working unit lie as many calls as its period, and
the first one comes when the count has reached one above the period. -/
theorem calls_between_initiations (hp : p + 1 < counterModulus) (hu : Counting p c u)
    (hc : c ≤ p + 1) {before mid later : List Readings} {first second : Readings}
    (hrs : ∀ r ∈ before ++ first :: (mid ++ second :: later), r.Working)
    (hfirst : initiatesGroupWork
      ((groupMachine M).step ((groupMachine M).after u before) first).2 = true)
    (hmid : ∀ events ∈ (groupMachine M).outputs
      ((groupMachine M).step ((groupMachine M).after u before) first).1 mid,
      initiatesGroupWork events = false)
    (hsecond : initiatesGroupWork ((groupMachine M).step
      ((groupMachine M).after u (before ++ first :: mid)) second).2 = true) :
    mid.length = p ∧ p + 1 ≤ c + before.length := by
  obtain ⟨-, hworking⟩ := List.forall_mem_append.mp hrs
  obtain ⟨hworkingFirst, hworking⟩ := List.forall_mem_cons.mp hworking
  obtain ⟨hworkingMid, hworking⟩ := List.forall_mem_append.mp hworking
  obtain ⟨c', hbefore, hc', hgrow⟩ := hu.after hp hc before
  obtain ⟨hnext, hinitiates⟩ := hbefore.step hp hc' hworkingFirst
  obtain rfl : c' = p + 1 := of_decide_eq_true (hinitiates.symm.trans hfirst)
  rw [if_pos rfl] at hnext
  -- the call that initiates leaves the count at one, and `mid` only counts
  obtain ⟨hsilent, hcount⟩ := hnext.silent_iff hp (Nat.succ_le_succ (Nat.zero_le p)) hworkingMid
  have hroom := hsilent.mp hmid
  rw [Mealy.after_append, Mealy.after_cons] at hsecond
  have hlast := ((hcount hroom).step hp hroom (hworking second List.mem_cons_self)).2
  have hreached : 1 + mid.length = p + 1 := of_decide_eq_true (hlast.symm.trans hsecond)
  exact ⟨by omega, hgrow⟩

/-- A long enough run of a working unit contains two consecutive initiations. -/
theorem exists_two_initiations (hp : p + 1 < counterModulus) (hu : Counting p c u) (hc : c ≤ p + 1)
    (hrs : ∀ r ∈ rs, r.Working) (hlong : 2 * p + 2 < rs.length + c) :
    ∃ before first mid second later, rs = before ++ first :: (mid ++ second :: later) ∧
      initiatesGroupWork
        ((groupMachine M).step ((groupMachine M).after u before) first).2 = true ∧
      (∀ events ∈ (groupMachine M).outputs
        ((groupMachine M).step ((groupMachine M).after u before) first).1 mid,
        initiatesGroupWork events = false) ∧
      initiatesGroupWork ((groupMachine M).step
        ((groupMachine M).after u (before ++ first :: mid)) second).2 = true := by
  obtain ⟨before, rest, rfl, hbefore⟩ : ∃ before rest, rs = before ++ rest ∧
      before.length = p + 1 - c :=
    ⟨rs.take (p + 1 - c), rs.drop (p + 1 - c), (List.take_append_drop _ _).symm, by
      rw [List.length_take]; omega⟩
  rw [List.length_append] at hlong
  obtain ⟨first, rest, rfl⟩ := List.exists_cons_of_length_pos (l := rest) (by omega)
  obtain ⟨mid, rest, rfl, hmid⟩ : ∃ mid rest', rest = mid ++ rest' ∧ mid.length = p :=
    ⟨rest.take p, rest.drop p, (List.take_append_drop _ _).symm, by
      rw [List.length_cons] at hlong; rw [List.length_take]; omega⟩
  rw [List.length_cons, List.length_append] at hlong
  obtain ⟨second, later, rfl⟩ := List.exists_cons_of_length_pos (l := rest) (by omega)
  obtain ⟨hworkingBefore, hworking⟩ := List.forall_mem_append.mp hrs
  obtain ⟨hworkingFirst, hworking⟩ := List.forall_mem_cons.mp hworking
  obtain ⟨hworkingMid, hworking⟩ := List.forall_mem_append.mp hworking
  have hfull : c + before.length = p + 1 := by omega
  have hatFirst := (hu.silent_iff hp hc hworkingBefore).2 (Nat.le_of_eq hfull)
  rw [hfull] at hatFirst
  obtain ⟨hnext, hfirst⟩ := hatFirst.step hp (Nat.le_refl _) hworkingFirst
  rw [if_pos rfl] at hnext
  have hroom : 1 + mid.length = p + 1 := by omega
  obtain ⟨hsilent, hcount⟩ := hnext.silent_iff hp (Nat.succ_le_succ (Nat.zero_le p)) hworkingMid
  have hatSecond := hcount (Nat.le_of_eq hroom)
  rw [hroom] at hatSecond
  refine ⟨before, first, mid, second, later, rfl, ?_, hsilent.mpr (Nat.le_of_eq hroom), ?_⟩
  · exact hfirst.trans (decide_eq_true rfl)
  · rw [Mealy.after_append, Mealy.after_cons]
    exact (hatSecond.step hp (Nat.le_refl _) (hworking second List.mem_cons_self)).2.trans
      (decide_eq_true rfl)

/-- From any count reachable with its period, a working unit initiates group work one call late
every time: consecutive initiations are `p + 1` calls apart. They are `p` calls apart only
vacuously, in a run that is too short to contain two. -/
theorem initiationsApart_iff (hp : p < counterModulus - 1) (hu : RegularWorkReachable p u)
    (hrs : ∀ r ∈ rs, r.Working) :
    (InitiationsApart p u rs ↔ rs.length + u.regularWorkCounter.toNat ≤ 2 * p + 2) ∧
      InitiationsApart (p + 1) u rs := by
  have hlt : p + 1 < counterModulus := by omega
  obtain ⟨u₀, rs₀, hstart, rfl⟩ := hu
  obtain ⟨c, hcounting, hc, -⟩ := hstart.after hlt (Nat.zero_le _) rs₀
  rw [hcounting.2]
  refine ⟨⟨fun hapart => ?_, ?_⟩, ?_⟩
  · by_contra hlong
    obtain ⟨before, first, mid, second, later, hsplit, hfirst, hmid, hsecond⟩ :=
      exists_two_initiations hlt hcounting hc hrs (by omega)
    have hgap := hapart before first mid second later hsplit hfirst hmid hsecond
    rw [hsplit] at hrs
    have hcalls := calls_between_initiations hlt hcounting hc hrs hfirst hmid hsecond
    omega
  · rintro hshort before first mid second later rfl atFirst atSecond hfirst hmid hsecond
    have hcalls := calls_between_initiations hlt hcounting hc hrs hfirst hmid hsecond
    simp only [List.length_append, List.length_cons] at hshort
    omega
  · rintro before first mid second later rfl atFirst atSecond hfirst hmid hsecond
    exact congrArg (· + 1) (calls_between_initiations hlt hcounting hc hrs hfirst hmid hsecond).1

/-- With the default period of four, a working unit initiates at its sixth and its eleventh call
from power-on, five calls apart. -/
theorem not_initiationsApart_four :
    let r : Readings := ⟨true, false, true, .mediumToHigh, 7⟩
    let u : Firmware (Option MailContents) := { outMailbox := none, inMailbox := none }
    RegularWorkReachable 4 u ∧ r.Working ∧ ¬ InitiationsApart 4 u (List.replicate 11 r) := by
  intro r u
  refine ⟨⟨u, [], ⟨rfl, rfl⟩, rfl⟩, ⟨rfl, rfl⟩, fun hapart => ?_⟩
  have hgap := hapart (List.replicate 5 r) r (List.replicate 4 r) r [] rfl (by decide) (by decide)
    (by decide)
  exact absurd hgap (by decide)

/-- Ten calls from power-on contain only one initiation. -/
theorem initiationsApart_four_short :
    let r : Readings := ⟨true, false, true, .mediumToHigh, 7⟩
    let u : Firmware (Option MailContents) := { outMailbox := none, inMailbox := none }
    InitiationsApart 4 u (List.replicate 10 r) := by
  intro r u
  exact (initiationsApart_iff (by decide) ⟨u, [], ⟨rfl, rfl⟩, rfl⟩ fun _ hr =>
    List.eq_of_mem_replicate hr ▸ ⟨rfl, rfl⟩).1.mpr (by decide)

end Firefly
