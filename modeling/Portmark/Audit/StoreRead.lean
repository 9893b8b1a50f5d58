/-
The pages `verify_against_store` of audit_export.py reads: every event of the tasks it wants, with the
store's own paging; a task it does not want is skipped. The loop takes what a page has without checking
it, so it can only stay at a task that has no event left and whose head is still further on.
-/
import Portmark.Audit.Finish
import Portmark.Audit.Verdict

namespace Portmark.Audit

open Lib Lib.Json List

/-! ## The loop -/

structure StoreRead where
  watermarks : Text → Option Int
  after : Option Text
  stored : List (Text × Text × ExportEvent)

def StoreRead.start : StoreRead := ⟨fun _ => none, none, []⟩

def StoreRead.watermark (st : StoreRead) (taskId : Text) : Int := (st.watermarks taskId).getD 0

def takeTask (wanted : Text → Bool) (st : StoreRead) (task : ExportTask) : StoreRead :=
  if !wanted task.taskId then { st with watermarks := Function.update st.watermarks task.taskId (some skipTask) }
  else
    { st with
      stored := st.stored ++ task.events.map fun e => (eventKey task.taskId e, task.taskId, e)
      watermarks :=
        match task.events.getLast? with
        | some last => Function.update st.watermarks task.taskId (some (last.sequence + 1))
        | none => st.watermarks }

def takePage (env : Env) (store : Store) (size : PageSize) (wanted : Text → Bool) (st : StoreRead) :
    Except PyException (StoreRead × Bool) := do
  let page ← auditExportPage env store size st.after st.watermark
  return ({ page.tasks.foldl (takeTask wanted) st with after := page.nextAfter }, page.done)

/-- The loop of `verify_against_store`. -/
def readStore (env : Env) (store : Store) (size : PageSize) (wanted : Text → Bool) :
    Nat → StoreRead → Option (Except PyException StoreRead) :=
  overPages (takePage env store size wanted)

/-! ## One page -/

variable {done : Bool} {env : Env} {size : PageSize} {st st' : StoreRead} {store : Store} {wanted : Text → Bool}

theorem takePage_spec (h : takePage env store size wanted st = .ok (st', done)) :
    ∃ passed rest tasks tail, PageRead env store size st.after st.watermark passed rest tasks tail done ∧
      st' = { (tasks ++ tail).foldl (takeTask wanted) st with after := lastOf st.after passed } := by
  obtain ⟨page, hpage, h⟩ := bind_ok_iff.1 h
  cases h
  obtain ⟨passed, rest, tasks, tail, hp, htasks, hnext⟩ := auditExportPage_spec hpage
  refine ⟨passed, rest, tasks, tail, hp, ?_⟩
  rw [htasks, hnext]

variable {task : ExportTask} {taskId : Text}

theorem takeTask_other (h : taskId ≠ task.taskId) :
    (takeTask wanted st task).watermarks taskId = st.watermarks taskId := by
  unfold takeTask
  split
  · exact Function.update_of_ne h _ _
  dsimp only
  cases task.events.getLast? with
  | none => rfl
  | some => exact Function.update_of_ne h _ _

theorem takeAll_other : ∀ {tasks : List ExportTask} {st : StoreRead},
    (∀ task ∈ tasks, taskId ≠ task.taskId) →
    (tasks.foldl (takeTask wanted) st).watermarks taskId = st.watermarks taskId := by
  intro tasks
  induction tasks with
  | nil => intro st _; rfl
  | cons task tasks ih =>
    intro st h
    rw [foldl_cons, ih fun t ht => h t (mem_cons_of_mem _ ht), takeTask_other (h task mem_cons_self)]

theorem takeTask_self (h : wanted task.taskId = true) : (takeTask wanted st task).watermarks task.taskId =
      (task.events.getLast?.map fun last => some (last.sequence + 1)).getD (st.watermarks task.taskId) := by
  unfold takeTask
  rw [if_neg (by simp [h])]
  cases task.events.getLast? with
  | none => rfl
  | some => simp

theorem takeTask_unwanted (h : wanted task.taskId = false) :
    (takeTask wanted st task).watermarks task.taskId = some skipTask := by
  unfold takeTask
  rw [if_pos (by simp [h])]
  simp

/-! ## Events by sequence -/

theorem exportEventRow_sequence {row : EventRow} {event : ExportEvent} {n : Int}
    (h : exportEventRow env row = .ok event) (hn : row.sequence = .int n) : event.sequence = n := by
  unfold exportEventRow at h
  rw [hn] at h
  cases h
  rfl

theorem fetch_atLeast {start : Int} {count : Nat} {events : List ExportEvent} (hint : store.Integral taskId)
    (h : store.fetch env taskId start count = .ok events) : ∀ e ∈ events, start ≤ e.sequence := by
  intro e he
  obtain ⟨row, hrow, hread⟩ := mapM_exportEventRow (fetch_rows h) e he
  unfold Store.rowsFrom at hrow
  split at hrow
  · obtain ⟨hmem, hwithin⟩ := mem_filter.1 hrow
    obtain ⟨n, hn⟩ := hint row hmem
    rw [hn] at hwithin
    simp only [Cell.within, decide_eq_true_eq] at hwithin
    rw [exportEventRow_sequence hread hn]
    exact hwithin.1
  · obtain ⟨hmem, hleast⟩ := mem_filter.1 (mem_of_mem_take hrow)
    obtain ⟨n, hn⟩ := hint row hmem
    rw [hn] at hleast
    rw [exportEventRow_sequence hread hn]
    simpa [Cell.atLeast] using hleast

/-- Where a page has nothing to read, what is read before it stays before it. -/
theorem fetch_below {start w : Int} {count budget : Nat} {events : List ExportEvent} (hint : store.Integral taskId)
    (hdry : store.rowsFrom taskId w budget = []) (hbudget : 1 ≤ budget) (hstart : start ≤ w) (hcount : count ≤ budget)
    (h : store.fetch env taskId start count = .ok events) : ∀ e ∈ events, e.sequence < w := by
  intro e he
  obtain ⟨row, hrow, hread⟩ := mapM_exportEventRow (fetch_rows h) e he
  unfold Store.rowsFrom at hrow hdry
  split at hrow
  · rename_i hkind
    rw [hkind] at hdry
    obtain ⟨hmem, hwithin⟩ := mem_filter.1 hrow
    obtain ⟨n, hn⟩ := hint row hmem
    have hout := filter_eq_nil_iff.1 hdry row hmem
    rw [hn] at hwithin hout
    simp only [Cell.within, decide_eq_true_eq] at hwithin hout
    rw [exportEventRow_sequence hread hn]
    omega
  · rename_i hkind
    rw [hkind] at hdry
    obtain ⟨hmem, -⟩ := mem_filter.1 (mem_of_mem_take hrow)
    obtain ⟨n, hn⟩ := hint row hmem
    have hnone := (take_eq_nil_iff.1 hdry).resolve_left (by omega)
    have hout := filter_eq_nil_iff.1 hnone row hmem
    rw [hn] at hout
    rw [exportEventRow_sequence hread hn]
    simpa [Cell.atLeast] using hout

/-! ## The loop ends -/

/-- A stretch as long as a page's budget has no event of the task, and its head is past it. -/
def Dry (env : Env) (store : Store) (size : PageSize) (h : TaskHead) : Prop :=
  ∃ s w, h.head.sequence.toInt env = .ok s ∧ 0 ≤ w ∧ store.fetch env h.taskId w size.maxEvents = .ok [] ∧
    w + size.maxEvents < s

def Marked (st : StoreRead) : Prop := ∀ taskId, 0 ≤ st.watermark taskId

theorem Marked.takeTask (hmarked : Marked st)
    (hleast : ∀ e ∈ task.events, wanted task.taskId = true → 0 ≤ e.sequence) :
    Marked (takeTask wanted st task) := by
  intro taskId
  by_cases hid : taskId = task.taskId
  · subst hid
    cases hwanted : wanted task.taskId
    · rw [StoreRead.watermark, takeTask_unwanted hwanted]
      decide
    rw [StoreRead.watermark, takeTask_self hwanted]
    cases hlast : task.events.getLast? with
    | none => exact hmarked _
    | some last =>
      have := hleast last (mem_of_getLast? hlast) hwanted
      simp only [Option.map_some, Option.getD_some]
      omega
  · rw [StoreRead.watermark, takeTask_other hid]
    exact hmarked taskId

theorem Marked.takePage (hmarked : Marked st)
    (hint : ∀ h ∈ store.heads, wanted h.taskId = true → store.Integral h.taskId)
    (h : Audit.takePage env store size wanted st = .ok (st', done)) : Marked st' := by
  obtain ⟨passed, rest, tasks, tail, hp, rfl⟩ := takePage_spec h
  have hleast := hp.of_fetched (P := fun taskId e => wanted taskId = true → st.watermark taskId ≤ e.sequence)
    fun h hm _ _ hfetch e he hwanted => fetch_atLeast (hint h hm hwanted) hfetch e he
  have hall : ∀ (tasks : List ExportTask) (st : StoreRead), Marked st →
      (∀ task ∈ tasks, ∀ e ∈ task.events, wanted task.taskId = true → 0 ≤ e.sequence) →
      Marked (tasks.foldl (Audit.takeTask wanted) st) := by
    intro tasks
    induction tasks with
    | nil => exact fun _ hm _ => hm
    | cons task tasks ih =>
      intro st hm hleast
      exact ih _ (hm.takeTask (hleast task mem_cons_self)) fun t ht => hleast t (mem_cons_of_mem _ ht)
  exact hall _ _ hmarked fun task htask e he hwanted => (hmarked task.taskId).trans (hleast task htask e he hwanted)

def StoreRead.work (env : Env) (store : Store) (wanted : Text → Bool) (st : StoreRead) : Nat × Nat :=
  ((store.headsAfter st.after).length,
    match (store.headsAfter st.after).head? with
    | none => 0
    | some h =>
      if wanted h.taskId then
        match h.head.sequence.toInt env with
        | .ok s => (s - st.watermark h.taskId).toNat + 1
        | .error _ => 0
      else if st.watermarks h.taskId = some skipTask then 0 else 1)

def Legible (env : Env) (store : Store) (size : PageSize) (wanted : Text → Bool) : Prop :=
  ∀ h ∈ store.heads, if wanted h.taskId then store.Integral h.taskId ∧ ¬ Dry env store size h else ¬ Beyond env size h

theorem Legible.integral (hl : Legible env store size wanted) :
    ∀ h ∈ store.heads, wanted h.taskId = true → store.Integral h.taskId := by
  intro h hm hwanted
  have := hl h hm
  rw [if_pos hwanted] at this
  exact this.1

theorem takePage_progress (hl : Legible env store size wanted) (hmarked : Marked st)
    (hpage : takePage env store size wanted st = .ok (st', false)) :
    Prod.Lex (· < ·) (· < ·) (st'.work env store wanted) (st.work env store wanted) := by
  obtain ⟨passed, rest, tasks, tail, hp, rfl⟩ := takePage_spec hpage
  rcases hp.progress with hfewer | ⟨h, s, events, rfl, rfl, rfl, hhead, hstore, hsequence, hneeded, hevents⟩
  · exact Prod.Lex.left _ _ hfewer
  have hhead' := hl h hstore
  rw [nil_append, foldl_cons, foldl_nil]
  simp only [StoreRead.work, lastOf_nil, hhead, hsequence]
  refine Prod.Lex.right _ ?_
  by_cases hwanted : wanted h.taskId = true
  · -- some event is left, so the watermark moves
    rw [if_pos hwanted] at hhead'
    rw [if_pos hwanted, if_pos hwanted]
    have hne : events ≠ [] := by
      rintro rfl
      exact hhead'.2 ⟨s, st.watermark h.taskId, hsequence, hmarked h.taskId, hevents, by omega⟩
    obtain ⟨last, hlast⟩ := Option.ne_none_iff_exists'.1 (mt getLast?_eq_none_iff.1 hne)
    have hle := fetch_atLeast hhead'.1 hevents last (mem_of_getLast? hlast)
    have hself := @takeTask_self st wanted ⟨h.taskId, h.head, events, true⟩ hwanted
    rw [hlast] at hself
    simp only [StoreRead.watermark] at hneeded hle ⊢
    rw [hself]
    simp only [Option.map_some, Option.getD_some]
    omega
  · rw [if_neg hwanted] at hhead'
    rw [if_neg hwanted, if_neg hwanted]
    have hself := @takeTask_unwanted st wanted ⟨h.taskId, h.head, events, true⟩ (eq_false_of_ne_true hwanted)
    rw [if_pos hself]
    split
    · rename_i hskip
      have : st.watermark h.taskId = skipTask := by rw [StoreRead.watermark, hskip]; rfl
      exact absurd ⟨s, hsequence, by omega⟩ hhead'
    · exact Nat.one_pos

theorem readStore_ends (hl : Legible env store size wanted) :
    ∃ pages result, readStore env store size wanted pages StoreRead.start = some result :=
  overPages_ends (StoreRead.work env store wanted) (I := Marked)
    (fun _ _ hm hpage => ⟨takePage_progress hl hm hpage, hm.takePage hl.integral hpage⟩) _ fun _ => le_rfl

/-! ## A task that holds the loop -/

/-- The loop is at or before a task, and its watermark is not past `w`. -/
structure Parched (h : TaskHead) (w : Int) (st : StoreRead) : Prop where
  after : isAfter st.after h.taskId = true
  below : st.watermark h.taskId ≤ w

variable {h : TaskHead} {s w : Int}

/-- With a head more than a page's budget past `w`, no page is the last as long as what it has of the task leaves the
watermark there. -/
theorem Parched.takePage (hp : Parched h w st) (hm : h ∈ store.heads) (hs : h.head.sequence.toInt env = .ok s)
    (hfar : w + size.maxEvents < s)
    (hcut : ∀ st₁ left events, left ≤ size.maxEvents →
      store.fetch env h.taskId (st.watermark h.taskId) left = .ok events → st₁.watermark h.taskId ≤ w →
      (takeTask wanted st₁ ⟨h.taskId, h.head, events, true⟩).watermark h.taskId ≤ w)
    (hpage : takePage env store size wanted st = .ok (st', done)) : done = false ∧ Parched h w st' := by
  obtain ⟨passed, rest, tasks, tail, hread, rfl⟩ := takePage_spec hpage
  have hbelow := hp.below
  have hno : ∀ task, ¬ ReadWhole env (store.fetch env) st.watermark size.maxEvents h task := by
    intro task hone
    obtain ⟨s', hs', hcase⟩ := hone.events
    cases hs.symm.trans hs'
    omega
  have hkept : ∀ {tasks : List ExportTask}, (∀ task ∈ tasks, h.taskId ≠ task.taskId) →
      (tasks.foldl (takeTask wanted) st).watermark h.taskId ≤ w := by
    intro tasks hother
    rw [StoreRead.watermark, takeAll_other hother]
    exact hbelow
  obtain ⟨hlast, hafter, hother | ⟨hother, left, events, rfl, hleft, hevents⟩⟩ := hread.held hm hp.after hno
  · exact ⟨hlast, hafter, hkept hother⟩
  · rw [foldl_append]
    exact ⟨hlast, hafter, hcut _ left events hleft hevents (hkept hother)⟩

theorem Dry.readStore (hd : Dry env store size h) (hint : store.Integral h.taskId) (hm : h ∈ store.heads)
    (hwanted : wanted h.taskId = true) (pages : Nat) :
    ∀ st', readStore env store size wanted pages StoreRead.start ≠ some (.ok st') := by
  obtain ⟨s, w, hs, hw, hdry, hfar⟩ := hd
  have hstart : Parched h w StoreRead.start := ⟨rfl, hw⟩
  refine overPages_held (P := Parched h w) (fun st _ _ hp => hp.takePage hm hs hfar ?_) pages hstart
  intro st₁ left events hleft hevents hbelow
  have hself := @takeTask_self st₁ wanted ⟨h.taskId, h.head, events, true⟩ hwanted
  rw [StoreRead.watermark, hself]
  cases hl : events.getLast? with
  | none => exact hbelow
  | some last =>
    have hlt := fetch_below hint (rowsFrom_of_fetch_nil hdry) size.maxEvents_pos hp.below hleft hevents last
      (mem_of_getLast? hl)
    simp only [Option.map_some, Option.getD_some]
    omega

/-- A task that is not wanted holds the loop where its head is further on than a page can skip. -/
theorem Beyond.readStore (hb : Beyond env size h) (hm : h ∈ store.heads) (hwanted : wanted h.taskId = false)
    (pages : Nat) : ∀ st', readStore env store size wanted pages StoreRead.start ≠ some (.ok st') := by
  obtain ⟨s, hs, hfar⟩ := hb
  have hstart : Parched h skipTask StoreRead.start := ⟨rfl, show (0 : Int) ≤ skipTask by decide⟩
  refine overPages_held (P := Parched h skipTask) (fun st _ _ hp => hp.takePage hm hs hfar ?_) pages hstart
  intro st₁ _ events _ _ _
  have hself := @takeTask_unwanted st₁ wanted ⟨h.taskId, h.head, events, true⟩ hwanted
  rw [StoreRead.watermark, hself]
  exact le_rfl

/-! ## Both loops -/

/-- Each loop ends where no task of the store keeps it: it comes to its report or raises. With a task that keeps it, it
never comes to its report. -/
theorem exportLoops_end (x : Exporter) (store : Store) (size readSize : PageSize) (cursor : Cursor)
    (wanted : Text → Bool) :
    ((∀ h ∈ store.heads, ¬ Starved x.env store size cursor h ∧ ¬ Beyond x.env size h) →
        ∃ pages result, runExport x store size pages (Run.start cursor) = some result) ∧
      ((∃ h ∈ store.heads, Starved x.env store size cursor h ∧ store.Integral h.taskId ∨
          Beyond x.env size h ∧
            ∀ entry, Reaches x.env store h.taskId (cursor h.taskId) entry → entryPosition entry ≤ skipTask) →
        ∀ pages run, runExport x store size pages (Run.start cursor) ≠ some (.ok run)) ∧
      ((∀ h ∈ store.heads, if wanted h.taskId then store.Integral h.taskId ∧ ¬ Dry x.env store readSize h
          else ¬ Beyond x.env readSize h) →
        ∃ pages result, readStore x.env store readSize wanted pages StoreRead.start = some result) ∧
      ((∃ h ∈ store.heads, if wanted h.taskId then store.Integral h.taskId ∧ Dry x.env store readSize h
          else Beyond x.env readSize h) →
        ∀ pages st, readStore x.env store readSize wanted pages StoreRead.start ≠ some (.ok st)) := by
  refine ⟨runExport_ends, ?_, readStore_ends, ?_⟩
  · rintro ⟨h, hm, ⟨hstarved, hint⟩ | ⟨hbeyond, hfew⟩⟩ pages
    · exact hstarved.runExport hint hm pages
    · exact hbeyond.runExport hm hfew pages
  · rintro ⟨h, hm, hkeeps⟩ pages
    split at hkeeps
    · rename_i hwanted
      exact hkeeps.2.readStore hkeeps.1 hm hwanted pages
    · rename_i hwanted
      exact hkeeps.readStore hm (eq_false_of_ne_true hwanted) pages

def emptiedStore : Store where
  kind := .sql
  heads := [⟨['t'], ⟨.text ['h'], .int 2001, .null, .null, .null, .null⟩⟩]
  events _ := []
  sorted := List.pairwise_singleton _ _
  ordered _ := .nil

/-- `DEFAULT_ADMIN_PAGE_SIZE` and `DEFAULT_EXPORT_EVENTS`. -/
def defaultSize : PageSize := ⟨500, 2000, by decide, by decide⟩

def widerSize : PageSize := ⟨500, 2000 + 1, by decide, by decide⟩

def plainExporter : Exporter := ⟨plainEnv, ⟨⟨[], [], []⟩, none, fun _ _ => []⟩, none, encodeRecord plainEnv.depth⟩

theorem exportPage_emptied (x : Exporter) :
    exportPage x emptiedStore defaultSize (Run.start fun _ => none) = .ok (Run.start fun _ => none, false) := by
  simp [exportPage, auditExportPage, emptiedStore, defaultSize, Store.headsAfter, isAfter, assemble, Cell.toInt,
    Run.watermark,
    Run.start, Store.fetch, fitsInt64, exportOne, exportTask, exportRows, newEntry, bind, Except.bind, pure,
      Except.pure]

theorem takePage_emptied (env : Env) :
    takePage env emptiedStore defaultSize (fun _ => true) StoreRead.start = .ok (StoreRead.start, false) := by
  simp [takePage, auditExportPage, emptiedStore, defaultSize, Store.headsAfter, isAfter, assemble, Cell.toInt,
    StoreRead.watermark, StoreRead.start, Store.fetch, fitsInt64, takeTask, bind, Except.bind, pure, Except.pure]

theorem loops_emptied (x : Exporter) (pages : Nat) :
    runExport x emptiedStore defaultSize pages (Run.start fun _ => none) = none ∧
      readStore x.env emptiedStore defaultSize (fun _ => true) pages StoreRead.start = none := by
  induction pages with
  | zero => exact ⟨rfl, rfl⟩
  | succ pages ih =>
    rw [runExport, readStore, overPages, overPages, exportPage_emptied, takePage_emptied]
    exact ih

/-- Neither loop ends on the emptied store: every page asks for the missing events again. -/
theorem exportLoops_emptied :
    ¬ ((∃ pages result, runExport plainExporter emptiedStore defaultSize pages (Run.start fun _ => none) =
      some result) ∨
      ∃ pages result, readStore plainEnv emptiedStore defaultSize (fun _ => true) pages StoreRead.start =
        some result) := by
  rintro (⟨pages, result, h⟩ | ⟨pages, result, h⟩)
  · rw [(loops_emptied plainExporter pages).1] at h
    cases h
  · have hnone := (loops_emptied plainExporter pages).2
    rw [show plainExporter.env = plainEnv from rfl, h] at hnone
    cases hnone

/-- With a budget that reaches the head, both end. -/
theorem exportLoops_end_emptied :
    (∃ pages result, runExport plainExporter emptiedStore widerSize pages (Run.start fun _ => none) =
        some result) ∧
      ∃ pages result, readStore plainExporter.env emptiedStore widerSize (fun _ => true) pages
        StoreRead.start = some result := by
  obtain ⟨hruns, -, hreads, -⟩ :=
    exportLoops_end plainExporter emptiedStore widerSize widerSize (fun _ => none) fun _ => true
  refine ⟨hruns ?_, hreads ?_⟩
  · intro h hm
    cases List.mem_singleton.1 hm
    refine ⟨?_, ?_⟩
    · rintro ⟨s, entry, hs, ⟨rows, hhas, hchain⟩, -, hfar⟩
      cases hs
      have hposition := hchain.position_eq
      simp only [widerSize, entryPosition, Option.elim_none] at hfar hposition
      omega
    · rintro ⟨s, hs, hfar⟩
      cases hs
      exact absurd hfar (by decide)
  · intro h hm
    cases List.mem_singleton.1 hm
    rw [if_pos rfl]
    refine ⟨fun _ hrow => (by cases hrow), ?_⟩
    rintro ⟨s, w, hs, hw, -, hfar⟩
    cases hs
    simp only [widerSize] at hfar
    omega

end Portmark.Audit
