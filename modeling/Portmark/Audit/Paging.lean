/-
What one page of the export can be: it passes the first heads whole and then ends, stops before a head
its budget no longer serves, or cuts the next task short. What one task of a page does to the run: only
its own entry of the cursor moves, by the rows that check out.
-/
import Portmark.Audit.Export

namespace Portmark.Audit

open Lib Lib.Json List

/-! ## Lists side by side -/

theorem forall₂_left {α β : Type} {R : α → β → Prop} {xs : List α} {ys : List β} (h : List.Forall₂ R xs ys) :
    ∀ x ∈ xs, ∃ y ∈ ys, R x y := by
  induction h with
  | nil => simp
  | cons hR _ ih =>
    rw [forall_mem_cons]
    refine ⟨⟨_, mem_cons_self, hR⟩, fun x hx => ?_⟩
    obtain ⟨y, hy, hxy⟩ := ih x hx
    exact ⟨y, mem_cons_of_mem _ hy, hxy⟩

theorem forall₂_right {α β : Type} {R : α → β → Prop} {xs : List α} {ys : List β} (h : List.Forall₂ R xs ys) :
    ∀ y ∈ ys, ∃ x ∈ xs, R x y := forall₂_left h.flip

/-! ## Heads in order -/

def lastOf (lastDone : Option Text) (passed : List TaskHead) : Option Text :=
  match passed.getLast? with
  | some h => some h.taskId
  | none => lastDone

@[simp] theorem lastOf_nil (lastDone : Option Text) : lastOf lastDone [] = lastDone := rfl

theorem lastOf_cons (lastDone : Option Text) (h : TaskHead) (heads : List TaskHead) :
    lastOf lastDone (h :: heads) = lastOf (some h.taskId) heads := by
  cases heads with
  | nil => rfl
  | cons => simp [lastOf, getLast?_cons]

/-! ## Pages -/

variable {task : ExportTask}

section Pages

variable (env : Env) (fetch : Text → Int → Nat → Except PyException (List ExportEvent)) (watermark : Text → Int)

structure ReadWhole (budget : Nat) (h : TaskHead) (task : ExportTask) : Prop where
  taskId : task.taskId = h.taskId
  head : task.head = h.head
  whole : task.truncated = false
  events : ∃ s, h.head.sequence.toInt env = .ok s ∧
    (s ≤ watermark h.taskId ∧ task.events = [] ∨
      watermark h.taskId < s ∧ s - watermark h.taskId ≤ budget ∧
        fetch h.taskId (watermark h.taskId) (s - watermark h.taskId).toNat = .ok task.events)

inductive PageEnd (budget : Nat) (passed : List TaskHead) : List TaskHead → List ExportTask → Bool → Prop where
  | ended : PageEnd budget passed [] [] true
  | stopped (h : TaskHead) (rest : List TaskHead) (hused : passed ≠ [] ∨ budget = 0) :
    PageEnd budget passed (h :: rest) [] false
  | cut (h : TaskHead) (rest : List TaskHead) (s : Int) (left : Nat) (events : List ExportEvent)
      (hsequence : h.head.sequence.toInt env = .ok s) (hpos : 0 < left) (hleft : left ≤ budget)
      (hfirst : passed = [] → left = budget) (hneeded : (left : Int) < s - watermark h.taskId)
      (hevents : fetch h.taskId (watermark h.taskId) left = .ok events) :
      PageEnd budget passed (h :: rest) [⟨h.taskId, h.head, events, true⟩] false

variable {env fetch watermark}

theorem ReadWhole.mono {budget budget' : Nat} {h : TaskHead} (hr : ReadWhole env fetch watermark budget h task)
    (hb : budget ≤ budget') : ReadWhole env fetch watermark budget' h task := by
  obtain ⟨htask, hhead, hwhole, s, hs, hevents⟩ := hr
  refine ⟨htask, hhead, hwhole, s, hs, hevents.imp id ?_⟩
  rintro ⟨hlt, hle, hfetch⟩
  exact ⟨hlt, by omega, hfetch⟩

/-- A page that starts with a smaller budget, behind a head that was passed. -/
theorem PageEnd.behind {budget budget' : Nat} {h : TaskHead} {passed rest : List TaskHead} {tasks : List ExportTask}
    {done : Bool} (he : PageEnd env fetch watermark budget passed rest tasks done) (hb : budget ≤ budget') :
    PageEnd env fetch watermark budget' (h :: passed) rest tasks done := by
  cases he with
  | ended => exact .ended
  | stopped h' rest _ => exact .stopped h' rest (.inl (cons_ne_nil _ _))
  | cut h' rest s left events hsequence hpos hleft _ hneeded hevents =>
    exact .cut h' rest s left events hsequence hpos (by omega) (fun hc => absurd hc (cons_ne_nil _ _)) hneeded hevents

/-- Every page passes some heads and then ends in one of the three ways. -/
theorem assemble_spec : ∀ {heads : List TaskHead} {budget : Nat} {lastDone : Option Text} {page : Page},
    assemble env fetch watermark heads budget lastDone = .ok page →
    ∃ passed rest tasks tail, heads = passed ++ rest ∧
      List.Forall₂ (ReadWhole env fetch watermark budget) passed tasks ∧
      PageEnd env fetch watermark budget passed rest tail page.done ∧ page.tasks = tasks ++ tail ∧
      page.nextAfter = lastOf lastDone passed := by
  intro heads
  induction heads with
  | nil =>
    intro budget lastDone page h
    cases h
    exact ⟨[], [], [], [], rfl, .nil, .ended, rfl, rfl⟩
  | cons h heads ih =>
    intro budget lastDone page hpage
    obtain ⟨s, hs, hpage⟩ := bind_ok_iff.1 hpage
    dsimp only at hpage
    split at hpage
    · rename_i hneeded
      obtain ⟨page', hpage', hpage⟩ := bind_ok_iff.1 hpage
      cases hpage
      obtain ⟨passed, rest, tasks, tail, rfl, hread, hend, htasks, hnext⟩ := ih hpage'
      refine ⟨h :: passed, rest, ⟨h.taskId, h.head, [], false⟩ :: tasks, tail, rfl, ?_, hend.behind le_rfl, ?_, ?_⟩
      · exact .cons ⟨rfl, rfl, rfl, s, hs, .inl ⟨by omega, rfl⟩⟩ hread
      · simp [Page.cons, htasks]
      · simpa [Page.cons, lastOf_cons] using hnext
    · rename_i hneeded
      split at hpage
      · rename_i hbudget
        cases hpage
        exact ⟨[], h :: heads, [], [], rfl, .nil, .stopped h heads (.inr hbudget), rfl, rfl⟩
      · rename_i hbudget
        obtain ⟨events, hevents, hpage⟩ := bind_ok_iff.1 hpage
        split at hpage
        · rename_i hcut
          cases hpage
          have hmin : min (s - watermark h.taskId).toNat budget = budget := by omega
          rw [hmin] at hevents hcut
          exact ⟨[], h :: heads, [], _, rfl, .nil,
            .cut h heads s budget events hs (by omega) le_rfl (fun _ => rfl) hcut hevents, rfl, rfl⟩
        · rename_i hwhole
          obtain ⟨page', hpage', hpage⟩ := bind_ok_iff.1 hpage
          cases hpage
          have hmin : min (s - watermark h.taskId).toNat budget = (s - watermark h.taskId).toNat := by omega
          rw [hmin] at hevents
          obtain ⟨passed, rest, tasks, tail, rfl, hread, hend, htasks, hnext⟩ := ih hpage'
          have hle : budget - events.length ≤ budget := Nat.sub_le _ _
          refine ⟨h :: passed, rest, ⟨h.taskId, h.head, events, false⟩ :: tasks, tail, rfl, ?_, hend.behind hle, ?_, ?_⟩
          · exact .cons ⟨rfl, rfl, rfl, s, hs, .inr ⟨by omega, by omega, hevents⟩⟩ (hread.imp fun _ _ hr => hr.mono hle)
          · simp [Page.cons, htasks]
          · simpa [Page.cons, lastOf_cons] using hnext

end Pages

/-! ## Rows that check out -/

def entryPosition (entry : Option (Int × Cell)) : Int := entry.elim 0 Prod.fst

def entryHash (entry : Option (Int × Cell)) : Option Cell := entry.map Prod.snd

inductive Chain (env : Env) : Int → Option Cell → List ExportEvent → Int → Option Cell → Prop where
  | nil (position : Int) (previous : Option Cell) : Chain env position previous [] position previous
  | cons {position position' : Int} {previous previous' : Option Cell} {row : ExportEvent} {rows : List ExportEvent}
      {details : Data} (hrow : checkEvent env position previous row = .ok (.ok details))
      (hrows : Chain env (position + 1) (some row.hash) rows position' previous') :
      Chain env position previous (row :: rows) position' previous'

variable {p p' : Int} {previous previous' : Option Cell}

theorem Chain.position_eq {env : Env} {rows : List ExportEvent} (h : Chain env p previous rows p' previous') :
    p' = p + rows.length := by
  induction h with
  | nil => simp
  | cons _ _ ih =>
    rw [ih, length_cons]
    omega

theorem Chain.empty {env : Env} (h : Chain env p previous [] p' previous') : p' = p ∧ previous' = previous := by
  cases h
  exact ⟨rfl, rfl⟩

theorem Chain.previous_isSome {env : Env} {rows : List ExportEvent} (h : Chain env p previous rows p' previous')
    (hrows : rows ≠ [] ∨ previous.isSome = true) : previous'.isSome = true := by
  induction h with
  | nil => exact hrows.resolve_left fun h => h rfl
  | cons _ _ ih => exact ih (.inr rfl)

theorem checkEvent_sequence {env : Env} {row : ExportEvent} {details : Data}
    (h : checkEvent env p previous row = .ok (.ok details)) : row.sequence = p := by
  unfold checkEvent at h
  split at h
  · cases h
  · rename_i hne
    exact not_not.1 hne

variable {taskId : Text} {x : Exporter}

/-- The exported rows are the first ones that check out; what follows them does not. -/
theorem exportRows_spec : ∀ {rows : List ExportEvent} {p : Int} {previous : Option Cell}
    {r : RowsExport}, exportRows x taskId p previous rows = .ok r →
    ∃ good bad, rows = good ++ bad ∧ r.lines.length = good.length ∧ Chain x.env p previous good r.position r.previous ∧
      (r.reason = none ∧ bad = [] ∨
        ∃ reason row bad', r.reason = some reason ∧ bad = row :: bad' ∧
          checkEvent x.env r.position r.previous row = .ok (.error reason)) := by
  intro rows
  induction rows with
  | nil =>
    intro p previous r h
    cases h
    exact ⟨[], [], rfl, rfl, .nil _ _, .inl ⟨rfl, rfl⟩⟩
  | cons row rows ih =>
    intro p previous r h
    rw [exportRows] at h
    split at h
    · cases h
    · rename_i reason hcheck
      cases h
      exact ⟨[], row :: rows, rfl, rfl, .nil _ _, .inr ⟨reason, row, rows, rfl, rfl, hcheck⟩⟩
    · rename_i details hcheck
      obtain ⟨record, -, h⟩ := bind_ok_iff.1 h
      obtain ⟨line, -, h⟩ := bind_ok_iff.1 h
      obtain ⟨rest, hrest, h⟩ := bind_ok_iff.1 h
      cases h
      obtain ⟨good, bad, rfl, hlines, hchain, hend⟩ := ih hrest
      refine ⟨row :: good, bad, rfl, by simp [hlines], .cons hcheck hchain, hend⟩

variable {entry : Option (Int × Cell)}

theorem newEntry_spec {env : Env} {r : RowsExport} {good : List ExportEvent} (hlines : r.lines.length = good.length)
    (h : Chain env (entryPosition entry) (entryHash entry) good r.position r.previous) :
    entryPosition (newEntry entry r) = r.position ∧ entryHash (newEntry entry r) = r.previous := by
  unfold newEntry
  split
  · rename_i hnil
    rw [hnil, length_nil] at hlines
    obtain rfl := length_eq_zero_iff.1 hlines.symm
    obtain ⟨hposition, hprevious⟩ := h.empty
    exact ⟨hposition.symm, hprevious.symm⟩
  · rename_i hne
    have hgood : good ≠ [] := by
      rintro rfl
      exact hne (length_eq_zero_iff.1 hlines)
    obtain ⟨hash, hhash⟩ := Option.isSome_iff_exists.1 (h.previous_isSome (.inl hgood))
    rw [hhash]
    exact ⟨rfl, rfl⟩

theorem exportTask_sequence {t : TaskExport} (h : exportTask x entry task = .ok t) :
    ∃ s, task.head.sequence.toInt x.env = .ok s := by
  unfold exportTask at h
  split at h
  · cases h
  · rename_i s hs
    exact ⟨s, hs⟩

/-- A task moves its entry along the rows that check out, and along all of them if it was cut short and did not fail. -/
theorem exportTask_moves {t : TaskExport} {s : Int} (h : exportTask x entry task = .ok t)
    (hs : task.head.sequence.toInt x.env = .ok s) : ∃ good bad, task.events = good ++ bad ∧
      Chain x.env (entryPosition entry) (entryHash entry) good (entryPosition t.entry) (entryHash t.entry) ∧
      (entryPosition entry < s → t.reason = none → bad = []) := by
  unfold exportTask at h
  rw [hs] at h
  dsimp only at h
  split at h
  · rename_i hlt
    cases h
    exact ⟨[], task.events, rfl, .nil _ _, fun hp => absurd hlt (by unfold entryPosition at hp; omega)⟩
  split at h
  · rename_i heq
    have hno : ¬ entryPosition entry < s := by unfold entryPosition; omega
    split at h
    · cases h
      exact ⟨[], task.events, rfl, .nil _ _, fun hp => absurd hp hno⟩
    · cases h
      exact ⟨[], task.events, rfl, .nil _ _, fun hp => absurd hp hno⟩
  obtain ⟨r, hr, h⟩ := bind_ok_iff.1 h
  obtain ⟨good, bad, hrows, hlines, hchain, hend⟩ := exportRows_spec hr
  obtain ⟨hposition, hhash⟩ := newEntry_spec hlines hchain
  have hmoves : Chain x.env (entryPosition entry) (entryHash entry) good (entryPosition (newEntry entry r))
      (entryHash (newEntry entry r)) := by
    rw [hposition, hhash]
    exact hchain
  refine ⟨good, bad, hrows, ?_⟩
  split at h
  · cases h
    exact ⟨hmoves, fun _ hc => by cases hc⟩
  rename_i hnone
  have hbad : bad = [] := by
    rcases hend with ⟨-, hbad⟩ | ⟨reason, row, bad', hreason, -⟩
    · exact hbad
    · rw [hnone] at hreason
      cases hreason
  split at h
  · cases h
    exact ⟨hmoves, fun _ _ => hbad⟩
  split at h
  · cases h
    exact ⟨hmoves, fun _ _ => hbad⟩
  obtain ⟨status, -, h⟩ := bind_ok_iff.1 h
  obtain ⟨line, -, h⟩ := bind_ok_iff.1 h
  cases h
  exact ⟨hmoves, fun _ _ => hbad⟩

/-! ## One task of a run -/

variable {run run' : Run}

/-- A task that has not failed before is exported from its entry, and only it is touched. -/
theorem exportOne_spec (h : exportOne x run task = .ok run') (hfailed : task.taskId ∉ run.failed) :
    ∃ t, exportTask x (run.cursor task.taskId) task = .ok t ∧
      run'.cursor = Function.update run.cursor task.taskId t.entry ∧
      run'.failed = run.failed ++ (if t.reason.isSome then [task.taskId] else []) ∧ run'.after = run.after := by
  unfold exportOne at h
  rw [if_neg (by simpa using hfailed)] at h
  obtain ⟨t, ht, h⟩ := bind_ok_iff.1 h
  refine ⟨t, ht, ?_⟩
  split at h
  · rename_i hnone
    cases h
    exact ⟨rfl, by simp [hnone], rfl⟩
  · rename_i reason hsome
    obtain ⟨line, -, h⟩ := bind_ok_iff.1 h
    cases h
    exact ⟨rfl, by simp [hsome], rfl⟩

theorem exportOne_failed (h : exportOne x run task = .ok run') (hfailed : task.taskId ∈ run.failed) : run' = run := by
  unfold exportOne at h
  rw [if_pos (by simpa using hfailed)] at h
  exact (Except.ok.inj h).symm

def SameAt (taskId : Text) (run run' : Run) : Prop :=
  run'.cursor taskId = run.cursor taskId ∧ (taskId ∈ run'.failed ↔ taskId ∈ run.failed)

theorem exportOne_other (h : exportOne x run task = .ok run') (hne : taskId ≠ task.taskId) :
    SameAt taskId run run' := by
  by_cases hfailed : task.taskId ∈ run.failed
  · rw [exportOne_failed h hfailed]
    exact ⟨rfl, Iff.rfl⟩
  obtain ⟨t, -, hcursor, hfailed', -⟩ := exportOne_spec h hfailed
  refine ⟨by rw [hcursor, Function.update_of_ne hne], ?_⟩
  rw [hfailed', mem_append]
  split
  · simp [hne]
  · simp

theorem exportAll_other {tasks : List ExportTask} {run run' : Run} (h : tasks.foldlM (exportOne x) run = .ok run')
    (hne : ∀ task ∈ tasks, taskId ≠ task.taskId) : SameAt taskId run run' := by
  refine foldlM_ok ⟨rfl, Iff.rfl⟩ (fun task ht run₁ run₂ h₁ hone => ?_) h
  have h₂ := exportOne_other hone (hne task ht)
  exact ⟨h₂.1.trans h₁.1, h₂.2.trans h₁.2⟩

end Portmark.Audit
