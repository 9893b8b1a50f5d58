/-
The trusted clock of _clock.py over whole runs. A reading is judged against a baseline that only
forward jumps move: `now_judged` says all that one call can do. One after another, two calls that
return may be apart by twice the tolerance, once ahead of the baseline and once behind it. Between
threads a call reads the wall clock, the monotonic clock and then takes the lock, so it may be
judged against a baseline younger than its own readings.
-/
import Portmark.Host.Prune

namespace Portmark.Host

open Lib Security

/-! ## One call -/

namespace TrustedClock

def expected (clock : TrustedClock) (monotonic : ℚ) : ℚ := clock.wallBase + (monotonic - clock.monotonicBase)

/-- What a call of `now` can do. -/
inductive Judged (clock : TrustedClock) (reading : Reading) : Except Fault Int → TrustedClock → Prop
  | unreadable (hwall : ∀ wall, reading.wall ≠ .finite wall) : Judged clock reading (.error .clockRollback) clock
  | rolledBack {wall : ℚ} (behind : ℚ) (hwall : reading.wall = .finite wall)
      (hrolled : clock.rolledBackBy.isSome = true ∨ wall < clock.expected reading.monotonic - clock.toleranceSeconds) :
      Judged clock reading (.error .clockRollback) { clock with rolledBackBy := some behind }
  | jumped {wall : ℚ} (hwall : reading.wall = .finite wall) (hnone : clock.rolledBackBy = none)
      (hahead : clock.expected reading.monotonic + clock.toleranceSeconds < wall) :
      Judged clock reading (.ok (truncate wall)) { clock with wallBase := wall, monotonicBase := reading.monotonic }
  | steady {wall : ℚ} (hwall : reading.wall = .finite wall) (hnone : clock.rolledBackBy = none)
      (hlow : clock.expected reading.monotonic - clock.toleranceSeconds ≤ wall)
      (hhigh : wall ≤ clock.expected reading.monotonic + clock.toleranceSeconds) :
      Judged clock reading (.ok (truncate wall)) clock

theorem now_judged (clock : TrustedClock) (reading : Reading) :
    Judged clock reading (clock.now reading).1 (clock.now reading).2 := by
  unfold now
  split
  · rename_i wall hwall
    dsimp only
    split
    · rename_i hrolled
      rw [Bool.or_eq_true, decide_eq_true_eq] at hrolled
      refine .rolledBack _ hwall (hrolled.imp_right fun hdrift => ?_)
      unfold expected
      linarith
    · rename_i hkept
      rw [Bool.or_eq_true, decide_eq_true_eq, not_or, Bool.not_eq_true, Option.isSome_eq_false_iff,
        Option.isNone_iff_eq_none] at hkept
      obtain ⟨hnone, hdrift⟩ := hkept
      split
      · refine .jumped hwall hnone ?_
        unfold expected
        linarith
      · refine .steady hwall hnone ?_ ?_ <;>
        · unfold expected
          linarith
  · rename_i hwall
    exact .unreadable fun wall heq => hwall wall heq

/-! ## One call after another -/

def after (clock : TrustedClock) (readings : List Reading) : TrustedClock :=
  readings.foldl (fun clock reading => (clock.now reading).2) clock

def returns : TrustedClock → List Reading → List (Except Fault Int)
  | _, [] => []
  | clock, reading :: readings => (clock.now reading).1 :: returns (clock.now reading).2 readings

theorem returns_getElem? (clock : TrustedClock) (readings : List Reading) (n : Nat) :
    (clock.returns readings)[n]? = readings[n]?.map fun reading => ((clock.after (readings.take n)).now reading).1 := by
  induction readings generalizing clock n with
  | nil => rfl
  | cons reading readings ih =>
    cases n with
    | zero => rfl
    | succ n => exact ih _ n

/-- The clock before the `j`th call: the `i`th call, and those between them, after what came before. -/
theorem after_take (clock : TrustedClock) {readings : List Reading} {i j : Nat} (hij : i < j) {reading : Reading}
    (h : readings[i]? = some reading) : clock.after (readings.take j) =
      ((clock.after (readings.take i)).now reading).2.after ((readings.take j).drop (i + 1)) := by
  have hget : (readings.take j)[i]? = some reading := by rw [List.getElem?_take_of_lt hij, h]
  obtain ⟨hlt, hget⟩ := List.getElem?_eq_some_iff.1 hget
  have hsplit : readings.take j = readings.take i ++ reading :: (readings.take j).drop (i + 1) := by
    conv_lhs => rw [← List.take_append_drop i (readings.take j), List.drop_eq_getElem_cons hlt, hget]
    rw [List.take_take, Nat.min_eq_left (Nat.le_of_lt hij)]
  conv_lhs => rw [hsplit]
  unfold after
  rw [List.foldl_append, List.foldl_cons]

/-- No call changes the tolerance, and none lowers what the baseline expects. -/
theorem now_expected (clock : TrustedClock) (reading : Reading) (htol : 0 ≤ clock.toleranceSeconds) :
    (clock.now reading).2.toleranceSeconds = clock.toleranceSeconds ∧
      ∀ monotonic, clock.expected monotonic ≤ (clock.now reading).2.expected monotonic := by
  have hjudged := clock.now_judged reading
  generalize (clock.now reading).1 = result at hjudged
  generalize (clock.now reading).2 = clock' at hjudged
  cases hjudged with
  | unreadable | rolledBack | steady => exact ⟨rfl, fun _ => le_refl _⟩
  | jumped hwall hnone hahead =>
    refine ⟨rfl, fun monotonic => ?_⟩
    have htol' : (0 : ℚ) ≤ clock.toleranceSeconds := by exact_mod_cast htol
    unfold expected at hahead ⊢
    linarith

theorem after_expected (clock : TrustedClock) (readings : List Reading) (htol : 0 ≤ clock.toleranceSeconds) :
    (clock.after readings).toleranceSeconds = clock.toleranceSeconds ∧
      ∀ monotonic, clock.expected monotonic ≤ (clock.after readings).expected monotonic := by
  induction readings generalizing clock with
  | nil => exact ⟨rfl, fun _ => le_refl _⟩
  | cons reading readings ih =>
    obtain ⟨hsame, hmono⟩ := clock.now_expected reading htol
    obtain ⟨hsame', hmono'⟩ := ih (clock.now reading).2 (by rw [hsame]; exact htol)
    exact ⟨hsame'.trans hsame, fun monotonic => (hmono monotonic).trans (hmono' monotonic)⟩

variable {clock : TrustedClock}

/-- A call that returns: its reading is not behind the baseline it found by more than the tolerance, nor ahead of the
baseline it leaves. -/
theorem now_returned {reading : Reading} {t : Int} (htol : 0 ≤ clock.toleranceSeconds)
    (h : (clock.now reading).1 = .ok t) : ∃ wall, reading.wall = .finite wall ∧ t = truncate wall ∧
      clock.expected reading.monotonic - clock.toleranceSeconds ≤ wall ∧
      wall ≤ (clock.now reading).2.expected reading.monotonic + clock.toleranceSeconds ∧
      (wall ≤ clock.expected reading.monotonic → wall ≤ (clock.now reading).2.expected reading.monotonic) := by
  have hjudged := clock.now_judged reading
  rw [h] at hjudged
  have htol' : (0 : ℚ) ≤ clock.toleranceSeconds := by exact_mod_cast htol
  generalize (clock.now reading).2 = clock' at hjudged
  cases hjudged with
  | jumped hwall =>
    refine ⟨_, hwall, rfl, by linarith, ?_, fun hle => ?_⟩ <;>
    · unfold expected at *
      linarith
  | steady hwall hnone hlow hhigh => exact ⟨_, hwall, rfl, hlow, hhigh, id⟩

/-- Once a rollback is seen it stays, and no call returns. -/
theorem now_rolledBack (h : clock.rolledBackBy.isSome = true) (reading : Reading) :
    (clock.now reading).1 = .error .clockRollback ∧ (clock.now reading).2.rolledBackBy.isSome = true := by
  have hjudged := clock.now_judged reading
  generalize (clock.now reading).1 = result at hjudged ⊢
  generalize (clock.now reading).2 = clock' at hjudged ⊢
  cases hjudged with
  | unreadable => exact ⟨rfl, h⟩
  | rolledBack => exact ⟨rfl, rfl⟩
  | jumped _ hnone | steady _ hnone => rw [hnone] at h; cases h

theorem after_rolledBack (h : clock.rolledBackBy.isSome = true) (readings : List Reading) :
    (clock.after readings).rolledBackBy.isSome = true := by
  induction readings generalizing clock with
  | nil => exact h
  | cons reading readings ih => exact ih (now_rolledBack h reading).2

end TrustedClock

theorem truncate_sub_le {a b : ℚ} {n : Int} (hn : 0 ≤ n) (h : a - n ≤ b) : truncate a - n ≤ truncate b := by
  unfold truncate
  split <;> split
  · rw [← Int.floor_sub_intCast]
    exact Int.floor_le_floor h
  · calc ⌊a⌋ - n ≤ ⌈a⌉ - n := Int.sub_le_sub_right (Int.floor_le_ceil a) n
      _ = ⌈a - n⌉ := (Int.ceil_sub_intCast a n).symm
      _ ≤ ⌈b⌉ := Int.ceil_le_ceil h
  · rename_i ha hb
    have hceil : ⌈a⌉ ≤ 0 := Int.ceil_le.2 (by push_cast; linarith)
    have hfloor : 0 ≤ ⌊b⌋ := Int.le_floor.2 (by exact_mod_cast hb)
    omega
  · rw [← Int.ceil_sub_intCast]
    exact Int.ceil_le_ceil h

/-- Two calls that return are apart by at most twice the tolerance backwards, and by at most the tolerance where the
earlier reading was not ahead of the baseline; and after a rollback that a finite reading showed no call returns. -/
theorem returns_step_back (clock : TrustedClock) (readings : List Reading) (htol : 1 ≤ clock.toleranceSeconds)
    (hmono : readings.Pairwise fun r r' => r.monotonic ≤ r'.monotonic) (i j : Nat) (hij : i < j) :
    (∀ t t', (clock.returns readings)[i]? = some (.ok t) → (clock.returns readings)[j]? = some (.ok t') →
      t - 2 * clock.toleranceSeconds ≤ t' ∧
      ∀ reading wall, readings[i]? = some reading → reading.wall = .finite wall →
        wall ≤ (clock.after (readings.take i)).expected reading.monotonic → t - clock.toleranceSeconds ≤ t') ∧
    ∀ reading wall fault result, readings[i]? = some reading → reading.wall = .finite wall →
      (clock.returns readings)[i]? = some (.error fault) → (clock.returns readings)[j]? = some result →
      result = .error .clockRollback := by
  have htol₀ : 0 ≤ clock.toleranceSeconds := by omega
  obtain ⟨hsame, -⟩ := clock.after_expected (readings.take i) htol₀
  obtain ⟨hsame', -⟩ := clock.after_expected (readings.take j) htol₀
  have hafter := fun (reading : Reading) (h : readings[i]? = some reading) => clock.after_take hij h
  simp only [TrustedClock.returns_getElem?, Option.map_eq_some_iff]
  generalize clock.after (readings.take i) = earlier, clock.after (readings.take j) = later at hafter hsame hsame' ⊢
  refine ⟨?_, ?_⟩
  · rintro t t' ⟨r, hr, hi⟩ ⟨r', hr', hj⟩
    obtain ⟨wall, hwall, rfl, -, hhigh, hnotAhead⟩ := TrustedClock.now_returned (by omega) hi
    obtain ⟨wall', -, rfl, hlow, -, -⟩ := TrustedClock.now_returned (by omega) hj
    rw [hsame] at hhigh
    rw [hsame', hafter r hr] at hlow
    have hle : r.monotonic ≤ r'.monotonic := by
      obtain ⟨hlt, rfl⟩ := List.getElem?_eq_some_iff.1 hr
      obtain ⟨hlt', rfl⟩ := List.getElem?_eq_some_iff.1 hr'
      exact List.pairwise_iff_getElem.1 hmono i j hlt hlt' hij
    -- from the earlier call on, what the baseline expects only grows
    have hkept := (earlier.now_expected r (by omega)).1
    have hgrown := ((earlier.now r).2.after_expected ((readings.take j).drop (i + 1)) (by omega)).2 r'.monotonic
    have hlater : (earlier.now r).2.expected r.monotonic ≤ (earlier.now r).2.expected r'.monotonic := by
      unfold TrustedClock.expected
      linarith
    refine ⟨truncate_sub_le (by omega) (by push_cast; linarith), ?_⟩
    intro reading wall₀ hreading hwall₀ hbehind
    rw [hr] at hreading
    cases hreading
    rw [hwall] at hwall₀
    cases hwall₀
    have := hnotAhead hbehind
    exact truncate_sub_le htol₀ (by linarith)
  · rintro reading wall fault result hreading hwall ⟨r, hr, hi⟩ ⟨r', -, rfl⟩
    rw [hreading] at hr
    cases hr
    rw [hafter reading hreading]
    refine (TrustedClock.now_rolledBack (TrustedClock.after_rolledBack ?_ _) r').1
    have hjudged := earlier.now_judged reading
    rw [hi] at hjudged
    generalize (earlier.now reading).2 = clock' at hjudged ⊢
    cases hjudged with
    | unreadable hnone => exact absurd hwall (hnone wall)
    | rolledBack => rfl

def swing : List Reading := [⟨.finite 10300, 0⟩, ⟨.finite 9700, 0⟩]

theorem returns_swing : fiveMinuteClock.returns swing = [.ok 10300, .ok 9700] := by
  have hahead : fiveMinuteClock.now ⟨.finite 10300, 0⟩ = (.ok 10300, fiveMinuteClock) :=
    fiveMinuteClock_now 10300 0 (by norm_num)
  have hbehind : fiveMinuteClock.now ⟨.finite 9700, 0⟩ = (.ok 9700, fiveMinuteClock) :=
    fiveMinuteClock_now 9700 0 (by norm_num [abs_le])
  simp only [swing, TrustedClock.returns, hahead, hbehind]

/-- The second call returns a time twice the tolerance before that of the first. -/
theorem swing_past_tolerance : fiveMinuteClock.returns swing = [.ok 10300, .ok 9700] ∧
    ¬ (10300 : Int) - fiveMinuteClock.toleranceSeconds ≤ 9700 :=
  ⟨returns_swing, by decide⟩

theorem returns_step_back_swing : fiveMinuteClock.returns swing = [.ok 10300, .ok 9700] ∧
    (10300 : Int) - 2 * fiveMinuteClock.toleranceSeconds ≤ 9700 := by
  refine ⟨returns_swing, ?_⟩
  exact ((returns_step_back fiveMinuteClock swing (by decide) (by simp [swing]) 0 1 (by decide)).1 10300 9700
    (by rw [returns_swing]; rfl) (by rw [returns_swing]; rfl)).1

/-! ## Calls of several threads -/

structure Clocks where
  wall : ℕ → ℚ
  monotonic : ℕ → ℚ

/-- Neither clock moves backwards, and the wall clock does not fall behind the monotonic time since start-up. -/
structure Clocks.Forward (clocks : Clocks) : Prop where
  wall : Monotone clocks.wall
  monotonic : Monotone clocks.monotonic
  keepsUp : ∀ n, clocks.wall 0 + (clocks.monotonic n - clocks.monotonic 1) ≤ clocks.wall n

inductive Stage where
  | ready
  | wallRead (wallAt : ℕ)
  | bothRead (wallAt monotonicAt : ℕ)

def Stage.readings : Stage → Option (ℕ × ℕ)
  | .bothRead wallAt monotonicAt => some (wallAt, monotonicAt)
  | _ => none

structure Threads where
  moment : ℕ
  clock : TrustedClock
  basedAt : Option ℕ
  stage : ℕ → Stage
  results : List (Except Fault Int)

namespace Threads

/-- `TrustedClock.__init__`: the wall clock is read, then the monotonic clock. -/
def start (clocks : Clocks) (tolerance : Int) : Threads where
  moment := 2
  clock := ⟨tolerance, clocks.wall 0, clocks.monotonic 1, none⟩
  basedAt := none
  stage := fun _ => .ready
  results := []

def judge (clocks : Clocks) (s : Threads) (thread wallAt monotonicAt : ℕ) : Threads :=
  let reading : Reading := ⟨.finite (clocks.wall wallAt), clocks.monotonic monotonicAt⟩
  let (result, clock) := s.clock.now reading
  { moment := s.moment + 1, clock
    basedAt := if s.clock.expected reading.monotonic + s.clock.toleranceSeconds < clocks.wall wallAt ∧
      s.clock.rolledBackBy = none then some wallAt else s.basedAt
    stage := Function.update s.stage thread .ready, results := s.results ++ [result] }

def step (clocks : Clocks) (s : Threads) (thread : ℕ) : Threads :=
  match s.stage thread with
  | .ready => { s with moment := s.moment + 1, stage := Function.update s.stage thread (.wallRead s.moment) }
  | .wallRead wallAt =>
    { s with moment := s.moment + 1, stage := Function.update s.stage thread (.bothRead wallAt s.moment) }
  | .bothRead wallAt monotonicAt => s.judge clocks thread wallAt monotonicAt

def run (clocks : Clocks) (s : Threads) (schedule : List ℕ) : Threads := schedule.foldl (step clocks) s

def Prompt (clocks : Clocks) (s : Threads) (thread : ℕ) : Prop :=
  ∀ readings ∈ (s.stage thread).readings,
    (s.basedAt = none → clocks.monotonic readings.2 - clocks.monotonic readings.1 ≤ s.clock.toleranceSeconds) ∧
    ∀ basedAt ∈ s.basedAt, clocks.monotonic readings.2 - clocks.monotonic basedAt ≤
      clocks.wall readings.1 - clocks.wall basedAt + s.clock.toleranceSeconds

instance (clocks : Clocks) (s : Threads) (thread : ℕ) : Decidable (s.Prompt clocks thread) :=
  inferInstanceAs (Decidable (∀ readings ∈ (s.stage thread).readings, (_ → _) ∧ ∀ basedAt ∈ s.basedAt, _))

def AllPrompt (clocks : Clocks) : Threads → List ℕ → Prop
  | _, [] => True
  | s, thread :: schedule => s.Prompt clocks thread ∧ AllPrompt clocks (s.step clocks thread) schedule

instance decidableAllPrompt (clocks : Clocks) :
    (s : Threads) → (schedule : List ℕ) → Decidable (AllPrompt clocks s schedule)
  | _, [] => isTrue trivial
  | s, thread :: schedule =>
    have := decidableAllPrompt clocks (s.step clocks thread) schedule
    inferInstanceAs (Decidable (s.Prompt clocks thread ∧ AllPrompt clocks (s.step clocks thread) schedule))

structure Sound (clocks : Clocks) (tolerance : Int) (s : Threads) : Prop where
  tolerance : s.clock.toleranceSeconds = tolerance
  kept : s.clock.rolledBackBy = none
  returned : ∀ result ∈ s.results, ∃ t, result = .ok t
  ordered : ∀ thread wallAt monotonicAt, s.stage thread = .bothRead wallAt monotonicAt →
    clocks.monotonic wallAt ≤ clocks.monotonic monotonicAt
  past : ∀ thread wallAt, s.stage thread = .wallRead wallAt → wallAt ≤ s.moment
  startup : s.basedAt = none → s.clock.wallBase = clocks.wall 0 ∧ s.clock.monotonicBase = clocks.monotonic 1
  rebased : ∀ basedAt, s.basedAt = some basedAt →
    s.clock.wallBase = clocks.wall basedAt ∧ clocks.monotonic basedAt ≤ s.clock.monotonicBase

variable {clocks : Clocks} {tolerance : Int} {s : Threads}

theorem sound_start (clocks : Clocks) (tolerance : Int) : (start clocks tolerance).Sound clocks tolerance where
  tolerance := rfl
  kept := rfl
  returned := nofun
  ordered := nofun
  past := nofun
  startup := fun _ => ⟨rfl, rfl⟩
  rebased := nofun

variable {thread : ℕ}

/-- A prompt call is not judged behind its baseline. -/
theorem Sound.not_behind (h : s.Sound clocks tolerance) (hforward : clocks.Forward) {wallAt monotonicAt : ℕ}
    (hstage : s.stage thread = .bothRead wallAt monotonicAt) (hprompt : s.Prompt clocks thread) :
    s.clock.expected (clocks.monotonic monotonicAt) - s.clock.toleranceSeconds ≤ clocks.wall wallAt := by
  obtain ⟨hpause, hbased⟩ := hprompt (wallAt, monotonicAt) (by rw [hstage]; rfl)
  unfold TrustedClock.expected
  cases hbasedAt : s.basedAt with
  | none =>
    obtain ⟨hwall, hmonotonic⟩ := h.startup hbasedAt
    have hahead := hforward.keepsUp wallAt
    have hpause := hpause hbasedAt
    linarith
  | some basedAt =>
    obtain ⟨hwall, hmonotonic⟩ := h.rebased basedAt hbasedAt
    have hkeeps := hbased basedAt hbasedAt
    linarith

theorem update_cases {stages : ℕ → Stage} {other : ℕ} {moved stage : Stage}
    (h : Function.update stages thread moved other = stage) :
    other = thread ∧ moved = stage ∨ stages other = stage := by
  by_cases hother : other = thread
  · rw [hother, Function.update_self] at h
    exact .inl ⟨hother, h⟩
  · rw [Function.update_of_ne hother] at h
    exact .inr h

variable (h : s.Sound clocks tolerance)

include h

/-- A thread moves on to a stage whose readings are in order. -/
theorem Sound.moved {moved : Stage} (hordered : ∀ i j, moved = .bothRead i j → clocks.monotonic i ≤ clocks.monotonic j)
    (hpast : ∀ i, moved = .wallRead i → i ≤ s.moment + 1) :
    Sound clocks tolerance { s with moment := s.moment + 1, stage := Function.update s.stage thread moved } := by
  refine ⟨h.tolerance, h.kept, h.returned, ?_, ?_, h.startup, h.rebased⟩
  · intro other i j heq
    obtain ⟨-, hmoved⟩ | hsame := update_cases heq
    · exact hordered i j hmoved
    · exact h.ordered other i j hsame
  · intro other i heq
    obtain ⟨-, hmoved⟩ | hsame := update_cases heq
    · exact hpast i hmoved
    · exact (h.past other i hsame).trans (Nat.le_succ _)

variable (hforward : clocks.Forward)

include hforward

theorem Sound.judge {wallAt monotonicAt : ℕ}
    (hstage : s.stage thread = .bothRead wallAt monotonicAt) (hprompt : s.Prompt clocks thread) :
    (s.judge clocks thread wallAt monotonicAt).Sound clocks tolerance := by
  have hnotBehind := h.not_behind hforward hstage hprompt
  have hmoved : Sound clocks tolerance
      { s with moment := s.moment + 1, stage := Function.update s.stage thread .ready } :=
    h.moved (by rintro _ _ ⟨⟩) (by rintro _ ⟨⟩)
  have hreturned : ∀ t, ∀ result ∈ s.results ++ [.ok t], ∃ t, result = (.ok t : Except Fault Int) := by
    intro t result hresult
    rcases List.mem_append.1 hresult with hresult | hresult
    · exact h.returned result hresult
    · exact ⟨t, List.mem_singleton.1 hresult⟩
  have hjudged := s.clock.now_judged ⟨.finite (clocks.wall wallAt), clocks.monotonic monotonicAt⟩
  unfold Threads.judge
  dsimp only
  generalize s.clock.now ⟨.finite (clocks.wall wallAt), clocks.monotonic monotonicAt⟩ = outcome at hjudged ⊢
  obtain ⟨result, clock⟩ := outcome
  cases hjudged with
  | unreadable hwall => exact absurd rfl (hwall _)
  | rolledBack behind hwall hrolled =>
    cases hwall
    rcases hrolled with hrolled | hbehind
    · rw [h.kept] at hrolled
      cases hrolled
    · exact absurd hbehind (not_lt.2 hnotBehind)
  | jumped hwall hnone hahead =>
    cases hwall
    rw [if_pos ⟨hahead, hnone⟩]
    refine ⟨h.tolerance, h.kept, hreturned _, hmoved.ordered, hmoved.past, nofun, ?_⟩
    rintro basedAt ⟨⟩
    exact ⟨rfl, h.ordered thread _ _ hstage⟩
  | steady hwall hnone hlow hhigh =>
    cases hwall
    rw [if_neg fun hahead => absurd hahead.1 (not_lt.2 hhigh)]
    exact { hmoved with returned := hreturned _ }

theorem Sound.step (hprompt : s.Prompt clocks thread) : (s.step clocks thread).Sound clocks tolerance := by
  unfold Threads.step
  split
  · refine h.moved (by rintro _ _ ⟨⟩) ?_
    rintro _ ⟨⟩
    exact Nat.le_succ _
  · rename_i wallAt hstage
    refine h.moved ?_ (by rintro _ ⟨⟩)
    rintro _ _ ⟨⟩
    exact hforward.monotonic (h.past thread wallAt hstage)
  · rename_i wallAt monotonicAt hstage
    exact h.judge hforward hstage hprompt

theorem Sound.run {schedule : List ℕ}
    (hprompt : AllPrompt clocks s schedule) : (s.run clocks schedule).Sound clocks tolerance := by
  induction schedule generalizing s with
  | nil => exact h
  | cons thread schedule ih => exact ih (h.step hforward hprompt.1) hprompt.2

end Threads

/-- Where the clocks go forward and every call that takes the lock is prompt, no call raises, in any interleaving. -/
theorem no_false_alarm (clocks : Clocks) (hforward : clocks.Forward) (tolerance : Int) (schedule : List ℕ)
    (hprompt : Threads.AllPrompt clocks (.start clocks tolerance) schedule) :
    ∀ result ∈ ((Threads.start clocks tolerance).run clocks schedule).results, ∃ t, result = .ok t :=
  ((Threads.sound_start clocks tolerance).run hforward hprompt).returned

def jumpingClocks : Clocks where
  wall := fun n => if n < 4 then 10000 else 11000
  monotonic := fun n => if n < 4 then 0 else if n < 8 then 1 else 101

theorem jumpingClocks_forward : jumpingClocks.Forward := by
  refine ⟨fun m n hmn => ?_, fun m n hmn => ?_, fun n => ?_⟩ <;> dsimp only [jumpingClocks] <;> split_ifs <;>
    first | omega | norm_num

/-- A thread has made its readings when another sees the jump and moves the baseline: the first then fails, and so does
every later call. No clock has moved backwards. -/
theorem overtaken_call_fails :
    jumpingClocks.Forward ∧
    ((Threads.start jumpingClocks 300).run jumpingClocks [0, 0, 1, 1, 1, 0]).results =
      [.ok 11000, .error .clockRollback] := by
  refine ⟨jumpingClocks_forward, ?_⟩
  decide +kernel

/-- Two threads overlap before, across and after the jump, the last time behind a baseline it has set. -/
theorem no_false_alarm_overlapping :
    ((Threads.start jumpingClocks 300).run jumpingClocks [0, 0, 1, 1, 0, 1, 0, 1, 1, 0, 0, 1]).results.length = 4 ∧
    ∀ result ∈ ((Threads.start jumpingClocks 300).run jumpingClocks [0, 0, 1, 1, 0, 1, 0, 1, 1, 0, 0, 1]).results,
      ∃ t, result = .ok t :=
  ⟨by decide +kernel, no_false_alarm jumpingClocks jumpingClocks_forward 300 _ (by decide +kernel)⟩

end Portmark.Host
