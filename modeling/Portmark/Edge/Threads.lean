/-
The thread path of a tool registry. A caller takes a slot, starts a worker thread and waits for its
result until the deadline; the worker keeps the slot until it ends, also when nobody waits any more.
Both read and write the two flags of a call under one lock, so a step is one of them alone.
-/
import Portmark.Lib.Program

namespace Portmark.Edge

open Lib List

/-- Where the caller of `_invoke_threaded` is. -/
inductive Caller where
  | starting
  | refused
  | waiting
  | late
  | failed
  | answered
  | timedOut
  deriving DecidableEq

inductive Worker where
  | unborn
  | running
  | ended
  | marked
  | gone
  deriving DecidableEq

/-- A call that was given a slot: its queue, its `progress`, and how often the slot was released. -/
structure ThreadedCall where
  caller : Caller
  worker : Worker
  queued : Bool
  finished : Bool
  overdue : Bool
  releases : Nat
  deriving DecidableEq

inductive ThreadStep where
  | start (ok : Bool)
  | giveUp
  | receive
  | deadline
  | markOverdue
  | toolEnds (put : Bool)
  | markFinished
  | release

namespace ThreadedCall

def step (c : ThreadedCall) (s : ThreadStep) : Option (ThreadedCall × Nat × Int) :=
  match s, c.caller, c.worker with
  | .start true, .starting, _ => some ({ c with caller := .waiting, worker := .running }, 0, 0)
  | .start false, .starting, _ => some ({ c with caller := .refused }, 0, 0)
  | .giveUp, .refused, _ => some ({ c with caller := .failed, releases := c.releases + 1 }, 1, 0)
  | .receive, .waiting, _ => if c.queued then some ({ c with caller := .answered }, 0, 0) else none
  | .deadline, .waiting, _ => if c.queued then none else some ({ c with caller := .late }, 0, 0)
  | .markOverdue, .late, _ =>
    if c.finished then some ({ c with caller := .timedOut }, 0, 0)
    else some ({ c with caller := .timedOut, overdue := true }, 0, 1)
  | .toolEnds put, _, .running => some ({ c with worker := .ended, queued := put }, 0, 0)
  | .markFinished, _, .ended =>
    some ({ c with worker := .marked, finished := true }, 0, if c.overdue then -1 else 0)
  | .release, _, .marked => some ({ c with worker := .gone, releases := c.releases + 1 }, 1, 0)
  | _, _, _ => none

@[mk_iff]
structure Sound (c : ThreadedCall) : Prop where
  unborn : c.worker = .unborn ↔ c.caller = .starting ∨ c.caller = .refused ∨ c.caller = .failed
  releases : c.releases = if c.worker = .gone ∨ c.caller = .failed then 1 else 0
  finished : c.finished = true ↔ c.worker = .marked ∨ c.worker = .gone
  overdue : c.overdue = true → c.caller = .timedOut
  timedOut : c.caller = .timedOut → c.overdue = true ∨ c.finished = true

def held (c : ThreadedCall) : Nat := 1 - c.releases

def counted (c : ThreadedCall) : Nat := if c.overdue ∧ ¬ c.finished then 1 else 0

variable {c c' : ThreadedCall} {s : ThreadStep} {released : Nat} {change : Int}

theorem step_sound (hc : c.Sound) (h : c.step s = some (c', released, change)) :
    c'.Sound ∧ c'.held + released = c.held ∧ (c'.counted : Int) = c.counted + change := by
  obtain ⟨hunborn, hreleases, hfinished, hoverdue, htimedOut⟩ := hc
  rw [sound_iff]
  unfold step at h
  -- one case for each step where it is possible; what is left of it is a table of flags
  split at h
  all_goals try split_ifs at h
  all_goals cases h
  all_goals simp_all [held, counted]

def quiet (c : ThreadedCall) : Bool := decide (c.caller ≠ .late ∧ c.worker ≠ .ended)

def abandoned (c : ThreadedCall) : Bool := decide (c.worker = .running ∧ c.caller = .timedOut)

theorem Sound.counted_eq (hc : c.Sound) (hquiet : c.quiet = true) : c.counted = if c.abandoned then 1 else 0 := by
  obtain ⟨hlate, hended⟩ := of_decide_eq_true hquiet
  have hiff : (c.overdue = true ∧ ¬ c.finished = true) ↔ c.worker = .running ∧ c.caller = .timedOut := by
    rw [hc.finished]
    constructor
    · rintro ⟨hoverdue, hfinished⟩
      have hcaller := hc.overdue hoverdue
      have hborn : c.worker ≠ .unborn := by
        rw [Ne, hc.unborn, hcaller]
        decide
      cases hworker : c.worker <;> simp_all
    · rintro ⟨hworker, hcaller⟩
      have hfinished := mt hc.finished.1 (by rw [hworker]; decide)
      exact ⟨(hc.timedOut hcaller).resolve_right hfinished, by rw [hworker]; decide⟩
  simp only [counted, abandoned, hiff, decide_eq_true_eq]

end ThreadedCall

/-- The slots taken of `_inflight_threaded`, `_overdue_threads`, and the calls that were given one. -/
structure Threads where
  taken : Nat
  overdueThreads : Int
  calls : List ThreadedCall

/-- A call of `_invoke_threaded`, or the next step in one. -/
inductive ThreadEvent where
  | invoke
  | step (call : Nat) (s : ThreadStep)

namespace Threads

def step (limit : Nat) (t : Threads) : ThreadEvent → Threads
  | .invoke =>
    if t.taken < limit then
      ⟨t.taken + 1, t.overdueThreads, t.calls ++ [⟨.starting, .unborn, false, false, false, 0⟩]⟩
    else t
  | .step n s =>
    match t.calls[n]?.bind (·.step s) with
    | none => t
    | some (c, released, change) => ⟨t.taken - released, t.overdueThreads + change, t.calls.set n c⟩

def run (limit : Nat) (events : List ThreadEvent) : Threads := events.foldl (step limit) ⟨0, 0, []⟩

structure Inv (limit : Nat) (t : Threads) : Prop where
  bound : t.taken ≤ limit
  taken : t.taken = (t.calls.map (·.held)).sum
  overdue : t.overdueThreads = ((t.calls.map (·.counted)).sum : Nat)
  sound : ∀ c ∈ t.calls, c.Sound

variable {limit : Nat} {t : Threads}

theorem Inv.step (h : Inv limit t) (e : ThreadEvent) : Inv limit (t.step limit e) := by
  cases e with
  | invoke =>
    simp only [Threads.step]
    split
    · next hfree =>
      refine ⟨hfree, ?_, ?_, forall_mem_append.2 ⟨h.sound, forall_mem_singleton.2 ?_⟩⟩
      · simp [h.taken, ThreadedCall.held]
      · simp [h.overdue, ThreadedCall.counted]
      · constructor <;> simp
    · exact h
  | step n s =>
    simp only [Threads.step]
    rcases hstep : t.calls[n]?.bind (·.step s) with _ | ⟨c', released, change⟩
    · exact h
    obtain ⟨c, hc, hc'⟩ := Option.bind_eq_some_iff.1 hstep
    obtain ⟨hsound, hheld, hcounted⟩ := ThreadedCall.step_sound (h.sound c (mem_of_getElem? hc)) hc'
    obtain ⟨hbound, htaken, hoverdue, hall⟩ := h
    have hslots := sum_map_set (·.held) (y := c') hc
    have hcount := sum_map_set (·.counted) (y := c') hc
    refine ⟨?_, ?_, ?_, fun d hd => ?_⟩
    · dsimp only; omega
    · dsimp only; omega
    · dsimp only; omega
    rcases mem_or_eq_of_mem_set hd with hd | rfl
    · exact hall d hd
    · exact hsound

theorem inv_run (limit : Nat) (events : List ThreadEvent) : Inv limit (run limit events) := by
  have hfold : ∀ t, Inv limit t → Inv limit (events.foldl (Threads.step limit) t) := by
    induction events with
    | nil => exact fun _ h => h
    | cons e events ih => exact fun t h => ih _ (h.step e)
  exact hfold _ ⟨Nat.zero_le _, rfl, rfl, fun _ h => absurd h not_mem_nil⟩

theorem sum_eq_countP {β : Type} {f : β → Nat} {p : β → Bool} {l : List β}
    (h : ∀ x ∈ l, f x = if p x then 1 else 0) : (l.map f).sum = l.countP p := by
  induction l with
  | nil => rfl
  | cons x l ih =>
    rw [map_cons, sum_cons, h x mem_cons_self, ih fun y hy => h y (mem_cons_of_mem _ hy), countP_cons, Nat.add_comm]

/-- Slots and the overdue count are exact, over every interleaving of the steps of any calls. -/
theorem slots_and_overdue_exact (limit : Nat) (events : List ThreadEvent) :
    let t := run limit events
    t.taken ≤ limit ∧ t.taken = t.calls.countP (·.releases = 0) ∧
    (∀ c ∈ t.calls, c.releases ≤ 1 ∧ (c.releases = 1 ↔ c.worker = .gone ∨ c.caller = .failed) ∧
      (c.worker = .running → c.releases = 0)) ∧
    0 ≤ t.overdueThreads ∧
    (t.calls.all (·.quiet) → t.overdueThreads = t.calls.countP (·.abandoned)) := by
  intro t
  obtain ⟨hbound, htaken, hoverdue, hsound⟩ : Inv limit t := inv_run limit events
  refine ⟨hbound, ?_, fun c hc => ?_, by omega, fun hquiet => ?_⟩
  · rw [htaken]
    refine sum_eq_countP fun c hc => ?_
    have hreleases := (hsound c hc).releases
    unfold ThreadedCall.held
    split at hreleases <;> simp [hreleases]
  · obtain ⟨hunborn, hreleases, -, -, -⟩ := hsound c hc
    rw [hreleases]
    refine ⟨by split <;> decide, by split <;> simp_all, fun hworker => if_neg ?_⟩
    rintro (hgone | hfailed)
    · cases hworker.symm.trans hgone
    · cases hworker.symm.trans (hunborn.2 (.inr (.inr hfailed)))
  · rw [hoverdue, sum_eq_countP fun c hc => (hsound c hc).counted_eq (all_eq_true.1 hquiet c hc)]

end Threads

end Portmark.Edge
