/-
The rate limiter of a2a.py: one queue of admission times for each tracked client, pruned at the front
when the client calls, and forgotten when the client is evicted to make room for another. A queue is
what is left of the admissions since the last eviction, and what was pruned is older than a window.
-/
import Mathlib.Data.List.TakeWhile
import Mathlib.Data.Rat.Defs
import Mathlib.Tactic.Linarith
import Portmark.Lib.Assoc

namespace Portmark.Edge

open Lib List Assoc

/-- `RateLimiter`, with what its constructor demands. -/
structure RateLimiter where
  limitPerIp : Nat
  windowSeconds : Nat
  maxTrackedClients : Nat
  one_le_limitPerIp : 1 ≤ limitPerIp
  one_le_windowSeconds : 1 ≤ windowSeconds
  one_le_maxTrackedClients : 1 ≤ maxTrackedClients

/-- What one call of `admit` did. -/
structure Admission where
  client : String
  now : ℚ
  evicted : Option String
  admitted : Bool

namespace RateLimiter

def requests (table : Assoc (List ℚ)) (client : String) : List ℚ := (Assoc.get? table client).getD []

variable (r : RateLimiter) (table : Assoc (List ℚ)) (client : String) (now : ℚ)

def makeRoom : Option String × Assoc (List ℚ) :=
  if !Assoc.contains table client && decide (r.maxTrackedClients ≤ table.length) then
    (table.head?.map Prod.fst, table.tail)
  else (none, table)

def fresh : List ℚ := (requests table client).dropWhile fun t => decide (t ≤ now - r.windowSeconds)

/-- `admit`, with the reading of the clock and the table of requests. -/
def admitCall : Admission × Assoc (List ℚ) :=
  let room := r.makeRoom table client
  let requests := r.fresh room.2 client now
  if r.limitPerIp ≤ requests.length then (⟨client, now, room.1, false⟩, Assoc.set room.2 client requests)
  else (⟨client, now, room.1, true⟩, Assoc.set room.2 client (requests ++ [now]))

def run : List (String × ℚ) → List Admission × Assoc (List ℚ)
  | [] => ([], [])
  | (client, now) :: calls =>
    let (log, table) := run calls
    let (a, table) := r.admitCall table client now
    (a :: log, table)

/-- A window-long interval from `start`, open at its end or at its beginning. -/
def inWindow (start : ℚ) (openEnd : Bool) (t : ℚ) : Bool :=
  if openEnd then decide (start ≤ t ∧ t < start + r.windowSeconds) else decide (start < t ∧ t ≤ start + r.windowSeconds)

end RateLimiter

def admissions (client : String) (log : List Admission) : List ℚ :=
  (log.filter fun a => a.client == client && a.admitted).map Admission.now

def sinceEviction (client : String) : List Admission → List ℚ
  | [] => []
  | a :: log => admissions client [a] ++ if a.evicted = some client then [] else sinceEviction client log

variable {client : String} {a : Admission} {log : List Admission}

theorem admissions_cons : admissions client (a :: log) = admissions client [a] ++ admissions client log := by
  simp only [admissions, filter_cons, filter_nil]
  split <;> rfl

theorem sinceEviction_sublist : (sinceEviction client log).Sublist (admissions client log) := by
  induction log with
  | nil => exact .refl _
  | cons a log ih =>
    rw [admissions_cons, sinceEviction]
    apply Sublist.append (.refl _)
    split
    · exact nil_sublist _
    · exact ih

theorem mem_admissions {t : ℚ} (h : t ∈ admissions client log) : ∃ a ∈ log, a.now = t := by
  obtain ⟨a, ha, rfl⟩ := mem_map.1 h
  exact ⟨a, (mem_filter.1 ha).1, rfl⟩

/-- In an interval that has not ended and without an eviction, the admissions are those since the last one. -/
theorem filter_admissions {p : ℚ → Bool} {last : ℚ} (hlast : p last)
    (hp : ∀ {x y z}, p x → p z → x ≤ y → y ≤ z → p y) (hsorted : log.Pairwise fun later earlier => earlier.now ≤
    later.now)
    (hle : ∀ a ∈ log, a.now ≤ last) (hkept : ∀ a ∈ log, p a.now → a.evicted ≠ some client) :
    (admissions client log).filter p = (sinceEviction client log).filter p := by
  induction log with
  | nil => rfl
  | cons a log ih =>
    obtain ⟨hfirst, hsorted⟩ := pairwise_cons.1 hsorted
    rw [admissions_cons, sinceEviction, filter_append, filter_append]
    congr 1
    split
    · rename_i hev
      -- The eviction lies outside the interval, and with it all that came before.
      rw [filter_nil, filter_eq_nil_iff]
      intro t ht hpt
      obtain ⟨b, hb, rfl⟩ := mem_admissions ht
      exact hkept a mem_cons_self (hp hpt hlast (hfirst b hb) (hle a mem_cons_self)) hev
    · exact ih hsorted (fun b hb => hle b (mem_cons_of_mem _ hb)) fun b hb => hkept b (mem_cons_of_mem _ hb)

theorem lt_of_mem_dropWhile {q : List ℚ} {cutoff t : ℚ} (hq : q.Pairwise (· ≤ ·))
    (ht : t ∈ q.dropWhile fun t => decide (t ≤ cutoff)) : cutoff < t := by
  induction q with
  | nil => cases ht
  | cons x q ih =>
    obtain ⟨hx, hq⟩ := pairwise_cons.1 hq
    rw [dropWhile_cons] at ht
    split at ht
    · exact ih hq ht
    rename_i hcut
    have hcut : cutoff < x := not_le.1 fun h => hcut (decide_eq_true h)
    rcases mem_cons.1 ht with rfl | ht
    · exact hcut
    · exact hcut.trans_le (hx t ht)

namespace RateLimiter

section Calls

variable (r : RateLimiter) (table : Assoc (List ℚ)) (client : String) (now : ℚ)

theorem fresh_suffix : ∃ pruned, requests table client = pruned ++ r.fresh table client now ∧
    ∀ t ∈ pruned, t ≤ now - r.windowSeconds := by
  refine ⟨_, takeWhile_append_dropWhile.symm, fun t ht => ?_⟩
  have := mem_takeWhile_imp ht
  exact of_decide_eq_true this

/-- One call: whom it forgets, whether there is room for it, and what it leaves of the queue. -/
theorem admit_eq : ∃ admitted, r.admitCall table client now =
      (⟨client, now, (r.makeRoom table client).1, admitted⟩, Assoc.set (r.makeRoom table client).2 client
        (r.fresh (r.makeRoom table client).2 client now ++ if admitted then [now] else [])) ∧
    (admitted = false ↔ r.limitPerIp ≤ (r.fresh (r.makeRoom table client).2 client now).length) := by
  unfold admitCall
  dsimp only
  split
  · rename_i h
    exact ⟨false, by rw [if_neg Bool.false_ne_true, append_nil], by simp [h]⟩
  · rename_i h
    exact ⟨true, rfl, by simp [h]⟩

end Calls

variable {r : RateLimiter} {table : Assoc (List ℚ)} {now : ℚ}

/-- The queues of the tracked clients: of the admissions since the last eviction all but those that
readings of the clock up to `now` have pruned. -/
structure Kept (r : RateLimiter) (log : List Admission) (table : Assoc (List ℚ)) (now : ℚ) : Prop where
  nodup : (keys table).Nodup
  size : table.length ≤ r.maxTrackedClients
  queue : ∀ client, ∃ pruned, sinceEviction client log = (requests table client).reverse ++ pruned ∧
    ∀ t ∈ pruned, t ≤ now - r.windowSeconds
  bound : ∀ client, (requests table client).length ≤ r.limitPerIp
  sorted : log.Pairwise fun later earlier => earlier.now ≤ later.now
  past : ∀ a ∈ log, a.now ≤ now

theorem length_set (d : Assoc (List ℚ)) (q : List ℚ) :
    (Assoc.set d client q).length = if Assoc.contains d client then d.length else d.length + 1 := by
  rw [← length_map (f := Prod.fst), ← Assoc.keys, keys_set]
  split <;> simp [Assoc.keys]

theorem makeRoom_spec (client : String) (hn : (keys table).Nodup) (hsize : table.length ≤ r.maxTrackedClients) :
    (keys (r.makeRoom table client).2).Nodup ∧ (r.makeRoom table client).1 ≠ some client ∧
      (∀ who, requests (r.makeRoom table client).2 who =
        if (r.makeRoom table client).1 = some who then [] else requests table who) ∧
      ∀ q, (Assoc.set (r.makeRoom table client).2 client q).length ≤ r.maxTrackedClients := by
  have hpos := r.one_le_maxTrackedClients
  unfold makeRoom
  split
  · rename_i hfull
    simp only [Bool.and_eq_true, Bool.not_eq_true', decide_eq_true_eq] at hfull
    rcases table with _ | ⟨e, table⟩
    · simp only [length_nil] at hfull; omega
    obtain ⟨oldest, q₀⟩ := e
    rw [Assoc.keys, map_cons, nodup_cons] at hn
    have hne : oldest ≠ client := by
      rintro rfl
      rw [Assoc.contains, get?_cons, if_pos rfl] at hfull
      cases hfull.1
    refine ⟨hn.2, fun h => hne (Option.some.inj h), fun who => ?_, fun q => ?_⟩
    · simp only [head?_cons, Option.map_some, tail_cons, Option.some.injEq, requests, get?_cons]
      by_cases hwho : oldest = who
      · subst hwho
        rw [if_pos rfl, get?_eq_none_iff.2 hn.1]
        rfl
      · rw [if_neg hwho, if_neg fun h => hwho h.symm]
    · rw [length_cons] at hsize
      refine (length_set table q).trans_le ?_
      split <;> omega
  · rename_i hroom
    refine ⟨hn, by simp, by simp, fun q => ?_⟩
    rw [length_set]
    split
    · exact hsize
    · rename_i hnew
      simp only [hnew, Bool.not_false, Bool.true_and, decide_eq_true_eq, not_le] at hroom
      exact hroom

theorem Kept.admitCall (h : Kept r log table now) (client : String) {later : ℚ} (hlater : now ≤ later) :
    Kept r ((r.admitCall table client later).1 :: log) (r.admitCall table client later).2 later := by
  obtain ⟨hn, hnot, hrequests, hlen⟩ := makeRoom_spec client h.nodup h.size
  obtain ⟨admitted, heq, hlimit⟩ := admit_eq r table client later
  obtain ⟨pruned, hq, hpruned⟩ := fresh_suffix r (r.makeRoom table client).2 client later
  generalize r.fresh (r.makeRoom table client).2 client later = q at heq hlimit hq
  rw [hrequests, if_neg hnot] at hq
  have hset : ∀ who, requests (r.admitCall table client later).2 who = if who = client then
      q ++ (if admitted then [later] else [])
      else if (r.makeRoom table client).1 = some who then [] else requests table who := by
    intro who
    rw [heq, requests, get?_set, ← hrequests]
    split <;> rfl
  have hbound := h.bound
  refine ⟨heq ▸ nodup_set hn _ _, heq ▸ hlen _, fun who => ?_, fun who => ?_,
    heq ▸ pairwise_cons.2 ⟨fun a ha => (h.past a ha).trans hlater, h.sorted⟩, ?_⟩
  · obtain ⟨older, hsince, holder⟩ := h.queue who
    have holder : ∀ t ∈ older, t ≤ later - r.windowSeconds := fun t ht => (holder t ht).trans (by linarith)
    rw [hset, heq]
    simp only [sinceEviction, admissions, filter_cons, filter_nil]
    by_cases hwho : who = client
    · subst hwho
      refine ⟨pruned.reverse ++ older, ?_, ?_⟩
      · rw [if_neg hnot, if_pos rfl, hsince, hq]
        cases admitted <;> simp
      · intro t ht
        rcases mem_append.1 ht with ht | ht
        · exact hpruned t (mem_reverse.1 ht)
        · exact holder t ht
    · rw [if_neg hwho, beq_false_of_ne fun h => hwho h.symm, Bool.false_and, if_neg Bool.false_ne_true,
        map_nil, nil_append]
      split
      · exact ⟨[], rfl, by simp⟩
      · exact ⟨older, hsince, holder⟩
  · rw [hset]
    split
    · have hbound := hbound client
      rw [hq, length_append] at hbound
      cases admitted
      · simp only [Bool.false_eq_true, if_false, append_nil]; omega
      simp only [Bool.true_eq_false, false_iff] at hlimit
      simp only [if_true, length_append, length_singleton]
      omega
    · split
      · exact Nat.zero_le _
      · exact hbound who
  · rw [heq]
    rintro a (_ | ⟨_, ha⟩)
    · exact le_rfl
    · exact (h.past a ha).trans hlater

theorem kept_run {calls : List (String × ℚ)} (hcalls : calls.Pairwise fun later earlier => earlier.2 ≤ later.2)
    {now : ℚ} (hnow : ∀ call ∈ calls, call.2 ≤ now) : Kept r (r.run calls).1 (r.run calls).2 now := by
  induction calls generalizing now with
  | nil => exact ⟨.nil, Nat.zero_le _, fun _ => ⟨[], rfl, by simp⟩, fun _ => Nat.zero_le _, .nil, by simp [run]⟩
  | cons call calls ih =>
    obtain ⟨hfirst, hcalls⟩ := pairwise_cons.1 hcalls
    have hstep := (ih hcalls hfirst).admitCall call.1 le_rfl
    have hcall := hnow call mem_cons_self
    refine ⟨hstep.nodup, hstep.size, fun who => ?_, hstep.bound, hstep.sorted,
      fun a ha => (hstep.past a ha).trans hcall⟩
    obtain ⟨pruned, hsince, hpruned⟩ := hstep.queue who
    exact ⟨pruned, hsince, fun t ht => (hpruned t ht).trans (by linarith)⟩

theorem inWindow_between {start x y z : ℚ} {openEnd : Bool} (hx : r.inWindow start openEnd x)
    (hz : r.inWindow start openEnd z) (hxy : x ≤ y) (hyz : y ≤ z) : r.inWindow start openEnd y := by
  cases openEnd <;> simp only [inWindow, Bool.false_eq_true, if_false, if_true, decide_eq_true_eq] at hx hz ⊢ <;>
    constructor <;> linarith [hx.1, hz.2]

theorem inWindow_close {start x z : ℚ} {openEnd : Bool} (hx : r.inWindow start openEnd x)
    (hz : r.inWindow start openEnd z) : z - r.windowSeconds < x := by
  cases openEnd <;> simp only [inWindow, Bool.false_eq_true, if_false, if_true, decide_eq_true_eq] at hx hz <;>
    linarith [hx.1, hz.2]

/-- Of the admissions in an interval that has not ended, none has been pruned. -/
theorem Kept.window {start : ℚ} {openEnd : Bool} (h : Kept r log table now) (hnow : r.inWindow start openEnd now)
    (hkept : ∀ a ∈ log, r.inWindow start openEnd a.now → a.evicted ≠ some client) :
    ((admissions client log).filter (r.inWindow start openEnd)).length ≤ r.limitPerIp := by
  obtain ⟨pruned, hsince, hpruned⟩ := h.queue client
  have hnone : pruned.filter (r.inWindow start openEnd) = [] := by
    rw [filter_eq_nil_iff]
    intro t ht hin
    exact absurd (hpruned t ht) (not_le.2 (inWindow_close hin hnow))
  rw [filter_admissions hnow inWindow_between h.sorted h.past hkept, hsince, filter_append, hnone, append_nil]
  calc ((requests table client).reverse.filter _).length ≤ (requests table client).reverse.length :=
    length_filter_le _ _
    _ ≤ r.limitPerIp := by rw [length_reverse]; exact h.bound client

/-- A refused client has as many admissions in the window before the call as the limit allows. -/
theorem Kept.refused (h : Kept r log table now) (hrefused : (r.admitCall table client now).1.admitted = false) :
    r.limitPerIp ≤ ((admissions client log).filter (r.inWindow (now - r.windowSeconds) false)).length := by
  obtain ⟨-, hnot, hrequests, -⟩ := makeRoom_spec client h.nodup h.size
  obtain ⟨admitted, heq, hlimit⟩ := admit_eq r table client now
  rw [heq] at hrefused
  have hfresh : r.fresh (r.makeRoom table client).2 client now = r.fresh table client now := by
    rw [fresh, hrequests, if_neg hnot, fresh]
  rw [hfresh] at hlimit
  obtain ⟨older, hq, -⟩ := fresh_suffix r table client now
  obtain ⟨pruned, hsince, -⟩ := h.queue client
  have hsub : (r.fresh table client now).reverse.Sublist (admissions client log) := by
    have hpart : (r.fresh table client now).reverse.Sublist (sinceEviction client log) := by
      rw [hsince, hq, reverse_append, append_assoc]
      exact sublist_append_left _ _
    exact hpart.trans sinceEviction_sublist
  have hsorted : (requests table client).Pairwise (· ≤ ·) := by
    have hall : (admissions client log).Pairwise (· ≥ ·) := pairwise_map.2 (h.sorted.filter _)
    have := hall.sublist sinceEviction_sublist
    rw [hsince] at this
    exact pairwise_reverse.1 (pairwise_append.1 this).1
  have hin : ∀ t ∈ (r.fresh table client now).reverse, r.inWindow (now - r.windowSeconds) false t := by
    intro t ht
    obtain ⟨a, ha, rfl⟩ := mem_admissions (hsub.subset ht)
    have hcut := lt_of_mem_dropWhile hsorted (mem_reverse.1 ht)
    have hpast := h.past a ha
    simp only [inWindow, Bool.false_eq_true, if_false, decide_eq_true_eq]
    exact ⟨hcut, by linarith⟩
  calc r.limitPerIp ≤ (r.fresh table client now).length := hlimit.1 hrefused
    _ = ((r.fresh table client now).reverse.filter (r.inWindow (now - r.windowSeconds) false)).length := by
      rw [filter_eq_self.2 hin, length_reverse]
    _ ≤ _ := (hsub.filter _).length_le

/-- Over any calls with clock readings that never go back: the table keeps its size, no client is admitted
more often than the limit in a window-long interval in which it is not evicted, and a call is refused
only when the window before it holds as many admissions as the limit. -/
theorem clients_bounded (r : RateLimiter) (calls : List (String × ℚ))
    (hcalls : calls.Pairwise fun later earlier => earlier.2 ≤ later.2) :
    (r.run calls).2.length ≤ r.maxTrackedClients ∧
      (∀ client start openEnd,
        (∀ a ∈ (r.run calls).1, r.inWindow start openEnd a.now → a.evicted ≠ some client) →
        ((admissions client (r.run calls).1).filter (r.inWindow start openEnd)).length ≤ r.limitPerIp) ∧
      ∀ client now, (∀ call ∈ calls, call.2 ≤ now) → (r.admitCall (r.run calls).2 client now).1.admitted = false →
        r.limitPerIp ≤
          ((admissions client (r.run calls).1).filter (r.inWindow (now - r.windowSeconds) false)).length := by
  refine ⟨?_, ?_, fun client now hnow => (kept_run hcalls hnow).refused⟩
  · cases calls with
    | nil => exact Nat.zero_le _
    | cons call calls =>
      exact ((kept_run (pairwise_cons.1 hcalls).2 (pairwise_cons.1 hcalls).1).admitCall _ le_rfl).size
  · intro client start openEnd hkept
    induction calls with
    | nil => exact Nat.zero_le _
    | cons call calls ih =>
      obtain ⟨hfirst, hcalls⟩ := pairwise_cons.1 hcalls
      obtain ⟨admitted, heq, -⟩ := admit_eq r (r.run calls).2 call.1 call.2
      have hstep : Kept r (r.run (call :: calls)).1 (r.run (call :: calls)).2 call.2 :=
        (kept_run hcalls hfirst).admitCall _ le_rfl
      by_cases hin : r.inWindow start openEnd call.2 = true
      · exact hstep.window hin hkept
      -- A call outside the interval adds nothing to it.
      have hnone :
        (admissions client [(r.admitCall (r.run calls).2 call.1 call.2).1]).filter (r.inWindow start openEnd) = [] := by
        rw [filter_eq_nil_iff, heq]
        intro t ht
        obtain ⟨a, ha, rfl⟩ := mem_admissions ht
        rw [mem_singleton.1 ha]
        exact hin
      have hlog : (r.run (call :: calls)).1 = (r.admitCall (r.run calls).2 call.1 call.2).1 :: (r.run calls).1 := rfl
      rw [hlog, admissions_cons, filter_append, hnone, nil_append]
      exact ih hcalls fun a ha => hkept a (mem_cons_of_mem _ ha)

theorem clients_bounded_pair :
    [("b", (1 : ℚ)), ("a", 0)].Pairwise (fun later earlier => earlier.2 ≤ later.2) ∧
      (run ⟨1, 1, 1, le_rfl, le_rfl, le_rfl⟩ [("b", 1), ("a", 0)]).2.length ≤ 1 := by
  have h : [("b", (1 : ℚ)), ("a", 0)].Pairwise (fun later earlier => earlier.2 ≤ later.2) := by decide
  exact ⟨h, (clients_bounded ⟨1, 1, 1, le_rfl, le_rfl, le_rfl⟩ _ h).1⟩

end RateLimiter

end Portmark.Edge
