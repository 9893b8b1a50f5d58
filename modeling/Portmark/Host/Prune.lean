/-
Retention and the clock: `TrustedClock.now` and `check_time_floor` of _clock.py, `run_prune` of
maintenance.py. A prune deletes the nonce record of an authorization that expired before
`now - tolerance`. Both readings may be off by the tolerance, the prune's ahead and a later
check's behind, so one tolerance is not enough: an authorization whose record is gone can be
judged unexpired again. `prune_safe_iff` says for which prunes that cannot happen.
-/
import Mathlib.Algebra.Order.Archimedean.Real.Basic
import Mathlib.Data.Rat.Floor
import Mathlib.Tactic.Linarith
import Portmark.Host.Approval
import Portmark.Host.Reload
import Portmark.Host.Store

namespace Portmark.Host

open Lib Lib.Json Security

/-! ## The trusted clock -/

structure TrustedClock where
  toleranceSeconds : Int
  wallBase : ℚ
  monotonicBase : ℚ
  rolledBackBy : Option ℚ

/-- What `time.time()` and `time.monotonic()` return. -/
structure Reading where
  wall : PyFloat
  monotonic : ℚ

/-- `int(wall)`. -/
def truncate (q : ℚ) : Int := if 0 ≤ q then ⌊q⌋ else ⌈q⌉

/-- `TrustedClock.now`: the time, and the clock after the reading. A rollback stays one; a forward
jump moves the baseline. -/
def TrustedClock.now (clock : TrustedClock) (reading : Reading) : Except Fault Int × TrustedClock :=
  match reading.wall with
  | .finite wall =>
    let expected := clock.wallBase + (reading.monotonic - clock.monotonicBase)
    let drift := wall - expected
    if clock.rolledBackBy.isSome || decide (drift < -clock.toleranceSeconds) then
      (.error .clockRollback, { clock with rolledBackBy := some (max (clock.rolledBackBy.getD 0) (-drift)) })
    else if clock.toleranceSeconds < drift then
      (.ok (truncate wall), { clock with wallBase := wall, monotonicBase := reading.monotonic })
    else (.ok (truncate wall), clock)
  | _ => (.error .clockRollback, clock)

def checkTimeFloor (store : Store) (mirroredFloor : Int) (databaseNow : Option Int) (tolerance hostNow : Int) :
    Except Fault Unit :=
  if hostNow + tolerance < max store.timeFloor mirroredFloor then .error .clockRollback
  else
    match databaseNow with
    | none => .ok ()
    | some databaseNow =>
      if databaseNow + tolerance < store.timeFloor then .error .clockRollback
      else if tolerance < |hostNow - databaseNow| then .error .clockRollback
      else .ok ()

/-! ## The prune -/

/-- `prune_cutoffs`. -/
def pruneCutoffs (before now tolerance : Int) : Except Fault (Int × Int) :=
  if now < before then .error
    (.py (.value s!"the cutoff {before} is in the future (now {now}); a prune only removes the past"))
  else .ok (min before (now - tolerance), before)

/-- `_validate_prune_args`. -/
def validatePruneArgs (nonceCutoff migrationCutoff : Int) : Except Fault Unit :=
  let refuse := fun (name : String) (value : Int) =>
    (.error (.py (.value s!"{name} must be a positive epoch-seconds integer, got {value}")) : Except Fault Unit)
  if nonceCutoff ≤ 0 then refuse "nonce_cutoff" nonceCutoff
  else if migrationCutoff ≤ 0 then refuse "migration_cutoff" migrationCutoff
  else .ok ()

/-- `run_prune` with `apply`, reading the clock twice. -/
def runPrune (store : Store) (mirroredFloor : Int) (databaseNow : Option Int) (before : Int) (clock : TrustedClock)
    (first second : Reading) : Except Fault Store := do
  let (hostNow, clock') := clock.now first
  checkTimeFloor store mirroredFloor databaseNow clock.toleranceSeconds (← hostNow)
  let (now, _) := clock'.now second
  let (nonceCutoff, migrationCutoff) ← pruneCutoffs before (← now) clock.toleranceSeconds
  validatePruneArgs nonceCutoff migrationCutoff
  return store.prune nonceCutoff migrationCutoff fun _ => true

/-! ## What a prune may have revived -/

/-- A wall clock is off from the true time by at most the tolerance. -/
def Within (tolerance : Int) (wall : ℚ) (time : ℝ) : Prop := |(wall : ℝ) - time| ≤ tolerance

noncomputable def wholeSecond (tolerance : Int) (time : ℝ) : Int := if (tolerance : ℝ) ≤ time then ⌊time⌋ else ⌈time⌉

/-- No check at this reading takes an authorization that ends at `expiresAt` for unexpired. -/
structure JudgedExpired (host : AgentHost) (expiresAt now : Int) : Prop where
  permit : ∀ (permit : Permit) («where» : String), permit.expiresAt = expiresAt →
    requireUnexpired permit «where» now ≠ .ok ()
  approval : ∀ policy token permit taskId tool arguments generation, token.expiresAt = expiresAt →
    host.verifyApproval policy token permit taskId tool arguments generation now ≠ .ok ()

theorem judgedExpired_iff {host : AgentHost} {expiresAt now : Int} :
    JudgedExpired host expiresAt now ↔ expiresAt ≤ now := by
  constructor
  · intro h
    by_contra hlt
    refine h.permit { paymentPermit with expiresAt } "" rfl ?_
    unfold requireUnexpired
    rw [if_neg hlt]
  · intro hle
    refine ⟨fun permit «where» hp hok => ?_, fun policy token permit taskId tool arguments generation ht hok => ?_⟩
    · unfold requireUnexpired at hok
      rw [hp, if_pos hle] at hok
      cases hok
    · have := (verifyApproval_ok hok).unexpired
      omega

section Prune

variable {clock : TrustedClock} {first second : Reading} {hostNow now before : Int}

section

variable (h₁ : (clock.now first).1 = .ok hostNow) (h₂ : ((clock.now first).2.now second).1 = .ok now)

include h₁ h₂

theorem runPrune_eq (store : Store) (mirroredFloor : Int) (databaseNow : Option Int) :
    runPrune store mirroredFloor databaseNow before clock first second = (do
      checkTimeFloor store mirroredFloor databaseNow clock.toleranceSeconds hostNow
      let cutoffs ← pruneCutoffs before now clock.toleranceSeconds
      validatePruneArgs cutoffs.1 cutoffs.2
      return store.prune cutoffs.1 cutoffs.2 fun _ => true) := by
  unfold runPrune
  simp only [h₁, h₂]
  rfl

/-- A record that a prune removed had expired before its cutoff. -/
theorem runPrune_removed {store store' : Store} {mirroredFloor : Int} {databaseNow : Option Int}
    (h : runPrune store mirroredFloor databaseNow before clock first second = .ok store') {nonce : String}
    {row : NonceRow} {expiresAt : Int} (hrow : store.nonces nonce = some row) (hexp : row.expiresAt = some expiresAt)
    (hgone : store'.nonces nonce = none) : expiresAt < min before (now - clock.toleranceSeconds) := by
  rw [runPrune_eq h₁ h₂] at h
  obtain ⟨-, -, h⟩ := bind_ok_iff.1 h
  obtain ⟨cutoffs, hcutoffs, h⟩ := bind_ok_iff.1 h
  obtain ⟨-, -, h⟩ := bind_ok_iff.1 h
  cases h
  unfold pruneCutoffs at hcutoffs
  split at hcutoffs <;> cases hcutoffs
  simpa [Store.prune, hrow, Store.nonceEligible, hexp] using hgone

end

end Prune

section Readings

variable {tolerance : Int} {wall : ℚ} {time : ℝ}

theorem now_finite {clock : TrustedClock} {monotonic : ℚ} {now : Int}
    (h : (clock.now ⟨.finite wall, monotonic⟩).1 = .ok now) : now = truncate wall := by
  unfold TrustedClock.now at h
  dsimp only at h
  split_ifs at h <;> cases h <;> rfl

/-- A clock that was started at a wall time reads it. -/
theorem now_started (htol : 0 ≤ tolerance) :
    ((TrustedClock.mk tolerance wall 0 none).now ⟨.finite wall, 0⟩).1 = .ok (truncate wall) := by
  have htol' : (0 : ℚ) ≤ tolerance := by exact_mod_cast htol
  unfold TrustedClock.now
  simp only [sub_self, add_zero, Option.isSome_none, Bool.false_or, decide_eq_true_eq]
  rw [if_neg (by linarith), if_neg (by linarith)]

theorem wholeSecond_le (h : time - tolerance ≤ wall) : wholeSecond tolerance time - tolerance ≤ truncate wall := by
  unfold wholeSecond truncate
  by_cases htime : (tolerance : ℝ) ≤ time
  · have hwall : 0 ≤ wall := by
      have : (0 : ℝ) ≤ wall := by linarith
      exact_mod_cast this
    rw [if_pos htime, if_pos hwall, Int.le_floor]
    have hfloor := Int.floor_le time
    have : ((⌊time⌋ - tolerance : Int) : ℝ) ≤ wall := by push_cast; linarith
    exact_mod_cast this
  · rw [if_neg htime]
    split
    · rename_i hwall
      have hceil : ⌈time⌉ ≤ tolerance := Int.ceil_le.2 (not_le.1 htime).le
      have hfloor : 0 ≤ ⌊wall⌋ := Int.floor_nonneg.2 hwall
      omega
    · have hceil : (wall : ℝ) ≤ ⌈wall⌉ := by exact_mod_cast Int.le_ceil wall
      have : ⌈time⌉ ≤ ⌈wall⌉ + tolerance := Int.ceil_le.2 (by push_cast; linarith)
      omega

/-- Some reading within the tolerance shows the least second. -/
theorem exists_wholeSecond (htol : 1 ≤ tolerance) (time : ℝ) :
    ∃ wall : ℚ, Within tolerance wall time ∧ truncate wall = wholeSecond tolerance time - tolerance := by
  have htol' : (1 : ℝ) ≤ tolerance := by exact_mod_cast htol
  unfold wholeSecond Within truncate
  by_cases htime : (tolerance : ℝ) ≤ time
  · have hfloor := Int.floor_le time
    obtain ⟨wall, hlow, hhigh⟩ := exists_rat_btwn (sub_lt_sub_right (Int.lt_floor_add_one time) (tolerance : ℝ))
    have hwall : (0 : ℝ) ≤ wall := by linarith
    refine ⟨wall, abs_le.2 ⟨by linarith, by linarith⟩, ?_⟩
    rw [if_pos (by exact_mod_cast hwall), if_pos htime, Int.floor_eq_iff]
    have hge : ((⌊time⌋ - tolerance : Int) : ℝ) ≤ wall := by push_cast; linarith
    have hlt : (wall : ℝ) < ((⌊time⌋ - tolerance : Int) : ℝ) + 1 := by push_cast; linarith
    exact ⟨by exact_mod_cast hge, by exact_mod_cast hlt⟩
  · have hceil := Int.le_ceil time
    have hlt := Int.ceil_lt_add_one time
    refine ⟨((⌈time⌉ - tolerance : Int) : ℚ), abs_le.2 ⟨?_, ?_⟩, ?_⟩
    · push_cast; linarith
    · push_cast; linarith
    · rw [if_neg htime]
      split <;> simp

end Readings

/-- The prunes after which no removed authorization can be judged unexpired again, whatever the
prune's own readings: the retention cutoff lies a tolerance before the true time, or the prune's
reading was not ahead of it, both up to the second that `int` cuts off. -/
theorem prune_safe_iff (host : AgentHost) (clock : TrustedClock) (first second : Reading) (hostNow now before : Int)
    (time : ℝ) (htol : 1 ≤ clock.toleranceSeconds) (h₁ : (clock.now first).1 = .ok hostNow)
    (h₂ : ((clock.now first).2.now second).1 = .ok now) (hbefore : before ≤ now)
    (hpositive : 0 < before ∧ clock.toleranceSeconds < now) :
    (∀ store store' mirroredFloor databaseNow,
      runPrune store mirroredFloor databaseNow before clock first second = .ok store' →
      ∀ nonce row expiresAt, store.nonces nonce = some row → row.expiresAt = some expiresAt →
        store'.nonces nonce = none →
        ∀ later : ℝ, time ≤ later → ∀ (checking : TrustedClock) (wall monotonic : ℚ) (reading : Int),
          checking.toleranceSeconds = clock.toleranceSeconds → Within clock.toleranceSeconds wall later →
          (checking.now ⟨.finite wall, monotonic⟩).1 = .ok reading → JudgedExpired host expiresAt reading) ↔
      before ≤ wholeSecond clock.toleranceSeconds time - clock.toleranceSeconds + 1 ∨
        now ≤ wholeSecond clock.toleranceSeconds time + 1 := by
  simp only [judgedExpired_iff]
  constructor
  · intro h
    by_contra hcon
    -- a store with one record that expires in the last second before the cutoff, read back behind the true time
    obtain ⟨cutoff, hcutoff⟩ : ∃ cutoff, cutoff = min before (now - clock.toleranceSeconds) := ⟨_, rfl⟩
    let store : Store := { Store.empty with
      timeFloor := hostNow
      nonces := fun key => if key = "n" then some ⟨"", "", "", some (cutoff - 1)⟩ else none }
    have hfloor : checkTimeFloor store hostNow none clock.toleranceSeconds hostNow = .ok () := by
      unfold checkTimeFloor
      rw [if_neg (by simp only [store, max_self]; omega)]
    have hrun : runPrune store hostNow none before clock first second =
        .ok (store.prune cutoff before fun _ => true) := by
      rw [runPrune_eq h₁ h₂, hfloor, pruneCutoffs, if_neg (by omega), ← hcutoff]
      show (validatePruneArgs cutoff before >>= _) = _
      unfold validatePruneArgs
      rw [if_neg (by omega), if_neg (by omega)]
      rfl
    obtain ⟨wall, hwithin, hwall⟩ := exists_wholeSecond htol time
    have hexpired := h store _ hostNow none hrun "n" ⟨"", "", "", some (cutoff - 1)⟩ (cutoff - 1) (by simp [store]) rfl
      (by simp [Store.prune, store, Store.nonceEligible]) time le_rfl ⟨clock.toleranceSeconds, wall, 0, none⟩ wall 0 _
      rfl hwithin (now_started (by omega))
    omega
  · intro hsafe store store' mirroredFloor databaseNow hrun nonce row expiresAt hrow hexp hgone later hlater checking
      wall monotonic reading _ hwithin hreading
    have hlt := runPrune_removed h₁ h₂ hrun hrow hexp hgone
    have hle : wholeSecond clock.toleranceSeconds time - clock.toleranceSeconds ≤ reading := by
      rw [now_finite hreading]
      exact wholeSecond_le (by linarith [(abs_le.1 hwithin).1])
    omega

def fiveMinuteClock : TrustedClock := ⟨300, 10000, 0, none⟩

def endedPermit : Permit := { paymentPermit with expiresAt := 9999 }

def consumedStore (expiresAt : Int) : Store :=
  { Store.empty with nonces := fun key => if key = "n1" then some ⟨"agent", "host", "task", some expiresAt⟩ else none }

theorem fiveMinuteClock_now (wall : Int) (monotonic : ℚ) (h : |(wall : ℚ) - (10000 + monotonic)| ≤ 300) :
    fiveMinuteClock.now ⟨.finite wall, monotonic⟩ = (.ok wall, fiveMinuteClock) := by
  obtain ⟨hlow, hhigh⟩ := abs_le.1 h
  have htruncate : truncate wall = wall := by unfold truncate; split <;> simp
  unfold TrustedClock.now fiveMinuteClock
  simp only [sub_zero, Option.isSome_none, Bool.false_or, decide_eq_true_eq, Int.cast_ofNat]
  rw [if_neg (by linarith), if_neg (by linarith), htruncate]

/-- A prune that reads the clock five minutes ahead removes the nonce of a permit that has ended;
a check one second later, five minutes behind, takes the permit for unexpired. The clock itself
accepts both readings. -/
theorem prune_revives : ∃ store',
    (fiveMinuteClock.now ⟨.finite 10300, 0⟩).1 = .ok 10300 ∧ Within 300 10300 10000 ∧
    runPrune (consumedStore 9999) 0 none 10300 fiveMinuteClock ⟨.finite 10300, 0⟩ ⟨.finite 10300, 0⟩ = .ok store' ∧
    (consumedStore 9999).nonces endedPermit.nonce = some ⟨"agent", "host", "task", some endedPermit.expiresAt⟩ ∧
    store'.nonces endedPermit.nonce = none ∧
    (fiveMinuteClock.now ⟨.finite 9701, 1⟩).1 = .ok 9701 ∧ Within 300 9701 10001 ∧
    requireUnexpired endedPermit "before the tool launch" 9701 = .ok () := by
  have hahead : fiveMinuteClock.now ⟨.finite 10300, 0⟩ = (.ok 10300, fiveMinuteClock) :=
    fiveMinuteClock_now 10300 0 (by norm_num)
  have hbehind : (fiveMinuteClock.now ⟨.finite 9701, 1⟩).1 = .ok 9701 :=
    congrArg Prod.fst (fiveMinuteClock_now 9701 1 (by norm_num))
  refine ⟨(consumedStore 9999).prune 10000 10300 fun _ => true, by rw [hahead], by norm_num [Within], ?_, rfl,
    by decide, hbehind, by norm_num [Within], rfl⟩
  rw [runPrune_eq (by rw [hahead]) (by rw [hahead, hahead])]
  rfl

/-- With exact readings the record of a permit that ended 301 seconds ago goes, and a check five
minutes behind the true time still takes the permit for expired. -/
theorem prune_safe_iff_exact : ∃ store',
    runPrune (consumedStore 9699) 0 none 10000 fiveMinuteClock ⟨.finite 10000, 0⟩ ⟨.finite 10000, 0⟩ = .ok store' ∧
    store'.nonces "n1" = none ∧ (fiveMinuteClock.now ⟨.finite 9700, 0⟩).1 = .ok 9700 ∧
    JudgedExpired reloadingHost 9699 9700 := by
  have hnow : fiveMinuteClock.now ⟨.finite 10000, 0⟩ = (.ok 10000, fiveMinuteClock) :=
    fiveMinuteClock_now 10000 0 (by norm_num)
  have hbehind : (fiveMinuteClock.now ⟨.finite 9700, 0⟩).1 = .ok 9700 :=
    congrArg Prod.fst (fiveMinuteClock_now 9700 0 (by norm_num))
  have hrun : runPrune (consumedStore 9699) 0 none 10000 fiveMinuteClock ⟨.finite 10000, 0⟩ ⟨.finite 10000, 0⟩ =
      .ok ((consumedStore 9699).prune 9700 10000 fun _ => true) := by
    rw [runPrune_eq (by rw [hnow]) (by rw [hnow, hnow])]
    rfl
  have hsafe := (prune_safe_iff reloadingHost fiveMinuteClock ⟨.finite 10000, 0⟩ ⟨.finite 10000, 0⟩ 10000 10000 10000
    10000 (by decide) (by rw [hnow]) (by rw [hnow, hnow]) le_rfl (by decide)).2
    (.inr (by norm_num [wholeSecond, fiveMinuteClock]))
  exact ⟨_, hrun, by decide, hbehind, hsafe _ _ 0 none hrun "n1" _ 9699 rfl rfl (by decide) 10000 le_rfl
    fiveMinuteClock 9700 0 9700 rfl (by norm_num [Within, fiveMinuteClock]) hbehind⟩

end Portmark.Host
