/-
When the export loops end. A page that is not the last one moves on to a later task, fails the task it
is at, or takes some of its events; so the loop can only stay where it is with a task that has no event
left and whose head is still further on than the budget of a page.
-/
import Portmark.Audit.Paging

namespace Portmark.Audit

open Lib Lib.Json List

variable {after : Option Text} {count : Nat} {cursor : Cursor} {done : Bool} {env : Env} {events : List ExportEvent}
  {h : TaskHead} {passed rest : List TaskHead} {run run' : Run} {size : PageSize} {start : Int} {store : Store}
  {tail tasks : List ExportTask} {taskId : Text} {watermark : Text → Int} {x : Exporter}

/-! ## The order of tasks -/

theorem isAfter_trans {t u : Text} (h : isAfter after t = true) (h' : t < u) : isAfter after u = true := by
  cases after with
  | none => rfl
  | some =>
    simp only [isAfter, decide_eq_true_eq] at h ⊢
    exact List.lt_trans h h'

/-- The heads after a head that was still to come are fewer. -/
theorem headsAfter_shrinks (hm : h ∈ store.headsAfter after) :
    (store.headsAfter (some h.taskId)).length < (store.headsAfter after).length := by
  obtain ⟨-, hafter⟩ := mem_filter.1 hm
  have hsub : store.headsAfter (some h.taskId) =
      (store.headsAfter after).filter fun h' => isAfter (some h.taskId) h'.taskId := by
    unfold Store.headsAfter
    rw [filter_filter]
    apply filter_congr
    intro h' _
    rw [Bool.eq_iff_iff, Bool.and_eq_true]
    refine ⟨fun hlt => ⟨hlt, isAfter_trans hafter ?_⟩, fun hlt => hlt.1⟩
    simpa [isAfter] using hlt
  rw [hsub, length_filter_lt_length_iff_exists]
  exact ⟨h, hm, by simp [isAfter, List.lt_irrefl]⟩

theorem lastOf_mem (lastDone : Option Text) (h : passed ≠ []) :
    ∃ last ∈ passed, lastOf lastDone passed = some last.taskId := by
  obtain ⟨last, hlast⟩ := Option.ne_none_iff_exists'.1 (mt getLast?_eq_none_iff.1 h)
  exact ⟨last, mem_of_getLast? hlast, by rw [lastOf, hlast]⟩

/-! ## Events of the store -/

def Store.Has (env : Env) (store : Store) (taskId : Text) (event : ExportEvent) : Prop :=
  ∃ row ∈ store.events taskId, exportEventRow env row = .ok event

theorem mapM_exportEventRow {rows : List EventRow} (h : rows.mapM (exportEventRow env) = .ok events) :
    ∀ e ∈ events, ∃ row ∈ rows, exportEventRow env row = .ok e :=
  forall₂_right (mapM_ok_forall₂ h)

theorem fetch_has (h : store.fetch env taskId start count = .ok events) : ∀ e ∈ events, store.Has env taskId e := by
  intro e he
  unfold Store.fetch at h
  split at h
  · obtain ⟨row, hrow, hev⟩ := mapM_exportEventRow h e he
    exact ⟨row, mem_of_mem_filter hrow, hev⟩
  split at h
  · obtain ⟨row, hrow, hev⟩ := mapM_exportEventRow h e he
    exact ⟨row, mem_of_mem_filter (mem_of_mem_take hrow), hev⟩
  · cases h

/-! ## One page -/

structure PageRead (env : Env) (store : Store) (size : PageSize) (after : Option Text) (watermark : Text → Int)
    (passed rest : List TaskHead) (tasks tail : List ExportTask) (done : Bool) : Prop where
  heads : (store.headsAfter after).take size.limit = passed ++ rest
  read : List.Forall₂ (ReadWhole env (store.fetch env) watermark size.maxEvents) passed tasks
  ends : ∃ ended, PageEnd env (store.fetch env) watermark size.maxEvents passed rest tail ended ∧
    (done = true ↔ ended = true ∧ (passed ++ rest).length < size.limit)

theorem auditExportPage_spec {page : Page} (h : auditExportPage env store size after watermark = .ok page) :
    ∃ passed rest tasks tail, PageRead env store size after watermark passed rest tasks tail page.done ∧
      page.tasks = tasks ++ tail ∧ page.nextAfter = lastOf after passed := by
  obtain ⟨page', hassemble, hpage⟩ := bind_ok_iff.1 h
  cases hpage
  obtain ⟨passed, rest, tasks, tail, hheads, hread, hend, htasks, hnext⟩ := assemble_spec hassemble
  refine ⟨passed, rest, tasks, tail, ⟨hheads, hread, page'.done, hend, ?_⟩, htasks, hnext⟩
  rw [← hheads]
  simp

theorem mem_of_take {n : Nat} (hheads : (store.headsAfter after).take n = passed ++ rest) (hm : h ∈ passed ++ rest) :
    h ∈ store.headsAfter after :=
  mem_of_mem_take (by rw [hheads]; exact hm)

theorem head?_of_take (hheads : (store.headsAfter after).take size.limit = h :: rest) :
    (store.headsAfter after).head? = some h := by
  have hlimit := size.limit_pos
  cases hall : store.headsAfter after with
  | nil => rw [hall, take_nil] at hheads; cases hheads
  | cons =>
    obtain ⟨n, hn⟩ : ∃ n, size.limit = n + 1 := ⟨size.limit - 1, by omega⟩
    rw [hall, hn, take_succ_cons] at hheads
    rw [head?_cons, (List.cons.inj hheads).1]

theorem head_unique {h' : TaskHead} (hm : h ∈ store.heads) (hm' : h' ∈ store.heads) (heq : h.taskId = h'.taskId) :
    h = h' := by
  have hnodup : (store.heads.map TaskHead.taskId).Nodup :=
    store.sorted.imp fun {a b} (hlt : a < b) => by
      rintro rfl
      exact List.lt_irrefl a hlt
  exact inj_on_of_nodup_map hnodup hm hm' heq

theorem isAfter_lastOf {n : Nat} (hheads : (store.headsAfter after).take n = passed ++ rest)
    (hm : h ∈ store.headsAfter after) (hno : h ∉ passed) : isAfter (lastOf after passed) h.taskId = true := by
  by_cases hpassed : passed = []
  · subst hpassed
    exact (mem_filter.1 hm).2
  obtain ⟨last, hlast, hnext⟩ := lastOf_mem after hpassed
  have hsplit : store.headsAfter after = passed ++ (rest ++ (store.headsAfter after).drop n) := by
    conv_lhs => rw [← take_append_drop n (store.headsAfter after), hheads]
    rw [append_assoc]
  have hsorted : (store.headsAfter after).Pairwise fun a b => a.taskId < b.taskId :=
    (pairwise_map.1 store.sorted).sublist filter_sublist
  rw [hsplit] at hsorted hm
  have hlater := (mem_append.1 hm).resolve_left hno
  rw [hnext, isAfter, decide_eq_true_eq]
  exact (pairwise_append.1 hsorted).2.2 last hlast h hlater

namespace PageRead

/-- What holds of events that are read from the watermarks holds of the events of the page. -/
theorem of_fetched {P : Text → ExportEvent → Prop}
    (hp : PageRead env store size after watermark passed rest tasks tail done)
    (hP : ∀ h ∈ store.heads, ∀ count events, store.fetch env h.taskId (watermark h.taskId) count = .ok events →
      ∀ e ∈ events, P h.taskId e) : ∀ task ∈ tasks ++ tail, ∀ e ∈ task.events, P task.taskId e := by
  have hstore : ∀ h ∈ passed ++ rest, h ∈ store.heads := fun h hh => (mem_filter.1 (mem_of_take hp.heads hh)).1
  intro task hmem e he
  rcases mem_append.1 hmem with htask | htask
  · obtain ⟨h, hh, hone⟩ := forall₂_right hp.read task htask
    obtain ⟨s, -, ⟨-, hnil⟩ | ⟨-, -, hfetch⟩⟩ := hone.events
    · rw [hnil] at he
      cases he
    · rw [hone.taskId]
      exact hP h (hstore h (mem_append_left _ hh)) _ _ hfetch e he
  · obtain ⟨ended, hend, -⟩ := hp.ends
    cases hend with
    | ended => cases htask
    | stopped => cases htask
    | cut h rest s left events _ _ _ _ _ hevents =>
      cases mem_singleton.1 htask
      exact hP h (hstore h (by simp)) _ _ hevents e he

/-- A page that is not the last passes a head, or cuts the next one short. -/
theorem progress (hp : PageRead env store size after watermark passed rest tasks tail false) :
    (store.headsAfter (lastOf after passed)).length < (store.headsAfter after).length ∨
      ∃ h s events, passed = [] ∧ tasks = [] ∧ tail = [⟨h.taskId, h.head, events, true⟩] ∧
        (store.headsAfter after).head? = some h ∧ h ∈ store.heads ∧ h.head.sequence.toInt env = .ok s ∧
        size.maxEvents < s - watermark h.taskId ∧
        store.fetch env h.taskId (watermark h.taskId) size.maxEvents = .ok events := by
  obtain ⟨hheads, hread, ended, hend, hdone⟩ := hp
  by_cases hpassed : passed = []
  · subst hpassed
    cases hread
    cases hend with
    | ended =>
      -- no head is left, so the page is the last
      exact absurd (hdone.2 ⟨rfl, size.limit_pos⟩) (by simp)
    | stopped _ _ hused =>
      have := size.maxEvents_pos
      exact absurd hused (by simp; omega)
    | cut h rest s left events hsequence _ _ hfirst hneeded hevents =>
      obtain rfl := hfirst rfl
      have hhead := head?_of_take hheads
      have hstore := (mem_filter.1 (mem_of_mem_head? hhead)).1
      exact .inr ⟨h, s, events, rfl, rfl, rfl, hhead, hstore, hsequence, hneeded, hevents⟩
  · obtain ⟨last, hlast, hnext⟩ := lastOf_mem after hpassed
    rw [hnext]
    exact .inl (headsAfter_shrinks (mem_of_take hheads (mem_append_left _ hlast)))

/-- A page does not get past a head that it cannot read whole: it has none of its events, or it cuts it short. -/
theorem held (hp : PageRead env store size after watermark passed rest tasks tail done) (hm : h ∈ store.heads)
    (hafter : isAfter after h.taskId = true)
    (hno : ∀ task, ¬ ReadWhole env (store.fetch env) watermark size.maxEvents h task) :
    done = false ∧ isAfter (lastOf after passed) h.taskId = true ∧
      ((∀ task ∈ tasks ++ tail, h.taskId ≠ task.taskId) ∨ (∀ task ∈ tasks, h.taskId ≠ task.taskId) ∧
        ∃ left events, tail = [⟨h.taskId, h.head, events, true⟩] ∧ left ≤ size.maxEvents ∧
          store.fetch env h.taskId (watermark h.taskId) left = .ok events) := by
  obtain ⟨hheads, hread, ended, hend, hdone⟩ := hp
  have hmem : h ∈ store.headsAfter after := mem_filter.2 ⟨hm, hafter⟩
  have hpassed : h ∉ passed := by
    intro hh
    obtain ⟨task, -, hone⟩ := forall₂_left hread h hh
    exact hno task hone
  have hstore : ∀ h' ∈ passed ++ rest, h' ∈ store.heads := fun h' hh' => (mem_filter.1 (mem_of_take hheads hh')).1
  refine ⟨?_, isAfter_lastOf hheads hmem hpassed, ?_⟩
  · rw [Bool.eq_false_iff]
    intro hd
    -- the last page would have passed every head
    obtain ⟨rfl, hlimit⟩ := hdone.1 hd
    cases hend
    rw [← hheads, length_take] at hlimit
    rw [append_nil, take_of_length_le (by omega)] at hheads
    exact hpassed (hheads ▸ hmem)
  have hother : ∀ task ∈ tasks, h.taskId ≠ task.taskId := by
    intro task htask heq
    obtain ⟨h', hh', hone⟩ := forall₂_right hread task htask
    obtain rfl := head_unique hm (hstore h' (mem_append_left _ hh')) (heq.trans hone.taskId)
    exact hpassed hh'
  cases hend with
  | ended | stopped => exact .inl (by simpa using hother)
  | cut h' rest s left events _ _ hleft _ _ hevents =>
    by_cases hid : h.taskId = h'.taskId
    · obtain rfl := head_unique hm (hstore h' (by simp)) hid
      exact .inr ⟨hother, left, events, rfl, hleft, hevents⟩
    · exact .inl (forall_mem_append.2 ⟨hother, forall_mem_singleton.2 hid⟩)

end PageRead

theorem exportPage_spec (h : exportPage x store size run = .ok (run', done)) :
    ∃ passed rest tasks tail run₁, PageRead x.env store size run.after run.watermark passed rest tasks tail done ∧
      (tasks ++ tail).foldlM (exportOne x) run = .ok run₁ ∧ run' = { run₁ with after := lastOf run.after passed } := by
  unfold exportPage at h
  split at h
  · cases h
  rename_i page hpage
  obtain ⟨run₁, hfold, h⟩ := bind_ok_iff.1 h
  cases h
  obtain ⟨passed, rest, tasks, tail, hp, htasks, hnext⟩ := auditExportPage_spec hpage
  exact ⟨passed, rest, tasks, tail, run₁, hp, htasks ▸ hfold, by rw [hnext]⟩

/-! ## Where a task can get -/

/-- The entry moves along events of the store that check out. -/
def Reaches (env : Env) (store : Store) (taskId : Text) (entry entry' : Option (Int × Cell)) : Prop :=
  ∃ rows, (∀ e ∈ rows, store.Has env taskId e) ∧
    Chain env (entryPosition entry) (entryHash entry) rows (entryPosition entry') (entryHash entry')

variable {p q : Int} {previous previous' : Option Cell} {rows : List ExportEvent}

theorem Chain.append {p' p'' : Int} {previous'' : Option Cell} {rows' : List ExportEvent}
    (h : Chain env p previous rows p' previous') (h' : Chain env p' previous' rows' p'' previous'') :
    Chain env p previous (rows ++ rows') p'' previous'' := by
  induction h with
  | nil => exact h'
  | cons hrow _ ih => exact .cons hrow (ih h')

theorem Reaches.refl (env : Env) (store : Store) (taskId : Text) (entry : Option (Int × Cell)) :
    Reaches env store taskId entry entry := ⟨[], by simp, .nil _ _⟩

theorem Reaches.trans {e e' e'' : Option (Int × Cell)} (h : Reaches env store taskId e e')
    (h' : Reaches env store taskId e' e'') : Reaches env store taskId e e'' := by
  obtain ⟨rows, hrows, hchain⟩ := h
  obtain ⟨rows', hrows', hchain'⟩ := h'
  refine ⟨rows ++ rows', ?_, hchain.append hchain'⟩
  intro e he
  exact (mem_append.1 he).elim (hrows e) (hrows' e)

/-- Every entry of the cursor was reached from the one the run began with. -/
def Reached (env : Env) (store : Store) (cursor : Cursor) (run : Run) : Prop :=
  ∀ taskId, Reaches env store taskId (cursor taskId) (run.cursor taskId)

section

variable (hr : Reached x.env store cursor run)

include hr

theorem reached_exportOne {task : ExportTask}
    (h : exportOne x run task = .ok run') (hhas : ∀ e ∈ task.events, store.Has x.env task.taskId e) :
    Reached x.env store cursor run' := by
  intro taskId
  by_cases hfailed : task.taskId ∈ run.failed
  · rw [exportOne_failed h hfailed]
    exact hr taskId
  by_cases hid : taskId = task.taskId
  · subst hid
    obtain ⟨t, ht, hcursor, -, -⟩ := exportOne_spec h hfailed
    obtain ⟨s, hs⟩ := exportTask_sequence ht
    obtain ⟨good, bad, hevents, hchain, -⟩ := exportTask_moves ht hs
    rw [hcursor, Function.update_self]
    refine (hr _).trans ⟨good, fun e he => hhas e ?_, hchain⟩
    rw [hevents]
    exact mem_append_left _ he
  · rw [(exportOne_other h hid).1]
    exact hr taskId

theorem reached_exportAll {tasks : List ExportTask} (h : tasks.foldlM (exportOne x) run = .ok run')
    (hhas : ∀ task ∈ tasks, ∀ e ∈ task.events, store.Has x.env task.taskId e) : Reached x.env store cursor run' :=
  foldlM_ok hr (fun task ht _ _ hr hone => reached_exportOne hr hone (hhas task ht)) h

theorem reached_exportPage (h : exportPage x store size run = .ok (run', done)) : Reached x.env store cursor run' := by
  obtain ⟨passed, rest, tasks, tail, run₁, hp, hfold, rfl⟩ := exportPage_spec h
  have hreached := reached_exportAll hr hfold (hp.of_fetched fun _ _ _ _ => fetch_has)
  exact hreached

end

/-- The events of a task run out more than a page's budget before its head. -/
def Starved (env : Env) (store : Store) (size : PageSize) (cursor : Cursor) (h : TaskHead) : Prop :=
  ∃ s entry, h.head.sequence.toInt env = .ok s ∧ Reaches env store h.taskId (cursor h.taskId) entry ∧
    store.fetch env h.taskId (entryPosition entry) size.maxEvents = .ok [] ∧ entryPosition entry + size.maxEvents < s

/-! ## The loop goes on -/

def work (env : Env) (store : Store) (run : Run) : Nat × Nat :=
  ((store.headsAfter run.after).length,
    match (store.headsAfter run.after).head? with
    | none => 0
    | some h =>
      if h.taskId ∈ run.failed then 0
      else
        match h.head.sequence.toInt env with
        | .ok s => (s - entryPosition (run.cursor h.taskId)).toNat + 1
        | .error _ => 0)

theorem watermark_eq (h : taskId ∉ run.failed) : run.watermark taskId = entryPosition (run.cursor taskId) := by
  rw [Run.watermark, if_neg (by simpa using h), entryPosition]

theorem watermark_failed (h : taskId ∈ run.failed) : run.watermark taskId = skipTask := by
  rw [Run.watermark, if_pos (by simpa using h)]

/-- The head is further on than a page can skip. -/
def Beyond (env : Env) (size : PageSize) (h : TaskHead) : Prop :=
  ∃ s, h.head.sequence.toInt env = .ok s ∧ skipTask + size.maxEvents < s

theorem cut_progress {run₁ : Run} {s : Int} (hr : Reached x.env store cursor run)
    (hstarved : ¬ Starved x.env store size cursor h) (hbound : ¬ Beyond x.env size h)
    (hs : h.head.sequence.toInt x.env = .ok s) (hneeded : (size.maxEvents : Int) < s - run.watermark h.taskId)
    (hevents : store.fetch x.env h.taskId (run.watermark h.taskId) size.maxEvents = .ok events)
    (hone : exportOne x run ⟨h.taskId, h.head, events, true⟩ = .ok run₁) :
    h.taskId ∉ run.failed ∧ (h.taskId ∈ run₁.failed ∨
      entryPosition (run.cursor h.taskId) < entryPosition (run₁.cursor h.taskId) ∧
        entryPosition (run.cursor h.taskId) < s) := by
  have hfailed : h.taskId ∉ run.failed := by
    intro hf
    rw [watermark_failed hf] at hneeded
    exact hbound ⟨s, hs, by omega⟩
  rw [watermark_eq hfailed] at hneeded hevents
  obtain ⟨t, ht, hcursor, hfailed', -⟩ := exportOne_spec hone hfailed
  obtain ⟨good, bad, hsplit, hchain, hall⟩ := exportTask_moves ht hs
  dsimp only at hsplit hchain hall hcursor hfailed'
  refine ⟨hfailed, ?_⟩
  cases hreason : t.reason with
  | some =>
    rw [hfailed', hreason]
    simp
  | none =>
    obtain rfl := hall (by omega) hreason
    have hne : events ≠ [] := by
      rintro rfl
      exact hstarved ⟨s, run.cursor h.taskId, hs, hr h.taskId, hevents, by omega⟩
    have hposition := hchain.position_eq
    rw [append_nil] at hsplit
    rw [hcursor, Function.update_self, hposition, ← hsplit]
    have := length_pos_iff.2 hne
    omega

/-- A page that is not the last one leaves less to do. -/
theorem exportPage_progress (hr : Reached x.env store cursor run)
    (hheads : ∀ h ∈ store.heads, ¬ Starved x.env store size cursor h ∧ ¬ Beyond x.env size h)
    (hpage : exportPage x store size run = .ok (run', false)) :
    Prod.Lex (· < ·) (· < ·) (work x.env store run') (work x.env store run) := by
  obtain ⟨passed, rest, tasks, tail, run₁, hp, hfold, rfl⟩ := exportPage_spec hpage
  rcases hp.progress with hfewer | ⟨h, s, events, rfl, rfl, rfl, hhead, hstore, hsequence, hneeded, hevents⟩
  · exact Prod.Lex.left _ _ hfewer
  have hone : exportOne x run ⟨h.taskId, h.head, events, true⟩ = .ok run₁ := by
    obtain ⟨run₂, hone, hfold⟩ := bind_ok_iff.1 hfold
    cases hfold
    exact hone
  obtain ⟨hstarved, hbound⟩ := hheads h hstore
  obtain ⟨hfailed, hmoved⟩ := cut_progress hr hstarved hbound hsequence hneeded hevents hone
  -- the same head comes next, with fewer events to its head or as a task that failed
  simp only [work, lastOf_nil, hhead, hsequence, if_neg hfailed]
  refine Prod.Lex.right _ ?_
  rcases hmoved with hf | ⟨hlt, hle⟩
  · rw [if_pos hf]
    exact Nat.succ_pos _
  · split
    · exact Nat.succ_pos _
    · omega

/-- A loop ends where every page that is not the last leaves less work. -/
theorem overPages_ends {σ ε : Type} {page : σ → Except ε (σ × Bool)} (work : σ → Nat × Nat) {I : σ → Prop}
    (hpage : ∀ s s', I s → page s = .ok (s', false) → Prod.Lex (· < ·) (· < ·) (work s') (work s) ∧ I s') :
    ∀ s, I s → ∃ pages result, overPages page pages s = some result := by
  have wf : WellFounded (InvImage (Prod.Lex (· < ·) (· < ·)) work) :=
    InvImage.wf _ (WellFounded.prod_lex wellFounded_lt wellFounded_lt)
  intro s
  induction s using wf.induction with
  | _ s ih =>
    intro hs
    rcases heq : page s with e | ⟨s', _ | _⟩
    · exact ⟨1, .error e, by simp [overPages, heq]⟩
    · obtain ⟨hless, hs'⟩ := hpage s s' hs heq
      obtain ⟨pages, result, hend⟩ := ih s' hless hs'
      exact ⟨pages + 1, result, by simp [overPages, heq, hend]⟩
    · exact ⟨1, .ok s', by simp [overPages, heq]⟩

/-- A loop never comes to its end where no page is the last as long as `P` holds, and every page keeps it. -/
theorem overPages_held {σ ε : Type} {page : σ → Except ε (σ × Bool)} {P : σ → Prop}
    (hpage : ∀ s s' done, P s → page s = .ok (s', done) → done = false ∧ P s') (pages : Nat) {s : σ} (h : P s) :
    ∀ s', overPages page pages s ≠ some (.ok s') := by
  intro s' hr
  induction pages generalizing s with
  | zero => cases hr
  | succ pages ih =>
    rw [overPages] at hr
    split at hr
    · cases hr
    · rename_i heq
      exact absurd (hpage _ _ _ h heq).1 (by simp)
    · rename_i heq
      exact ih (hpage _ _ _ h heq).2 hr

/-- Without starved tasks and heads that are out of reach a run ends, with a report or with what it raises. -/
theorem runExport_ends (hheads : ∀ h ∈ store.heads, ¬ Starved x.env store size cursor h ∧ ¬ Beyond x.env size h) :
    ∃ pages result, runExport x store size pages (Run.start cursor) = some result :=
  overPages_ends (work x.env store) (I := Reached x.env store cursor)
    (fun _ _ hr hpage => ⟨exportPage_progress hr hheads hpage, reached_exportPage hr hpage⟩) _
    fun _ => Reaches.refl _ _ _ _

/-! ## Integer sequences -/

/-- The sequences of a task's events are integers, as the schema declares the column. -/
def Store.Integral (store : Store) (taskId : Text) : Prop := ∀ row ∈ store.events taskId, ∃ n, row.sequence = .int n

/-- The rows `fetch_events` reads. -/
def Store.rowsFrom (store : Store) (taskId : Text) (start : Int) (count : Nat) : List EventRow :=
  match store.kind with
  | .memory => (store.events taskId).filter fun r => r.sequence.within start count
  | .sql => ((store.events taskId).filter fun r => r.sequence.atLeast start).take count

theorem fetch_rows (h : store.fetch env taskId start count = .ok events) :
    (store.rowsFrom taskId start count).mapM (exportEventRow env) = .ok events := by
  unfold Store.fetch at h
  split at h
  · rename_i hkind
    simpa only [Store.rowsFrom, hkind] using h
  rename_i hkind
  split at h
  · simpa only [Store.rowsFrom, hkind] using h
  · cases h

theorem rowsFrom_of_fetch_nil (h : store.fetch env taskId start count = .ok []) :
    store.rowsFrom taskId start count = [] := by
  have hall := mapM_ok_forall₂ (fetch_rows h)
  cases hrows : store.rowsFrom taskId start count with
  | nil => rfl
  | cons =>
    rw [hrows] at hall
    cases hall

theorem before_int {a b : Int} : Cell.before (.int a) (.int b) = true ↔ a < b := by
  simp [Cell.before, Cell.rank, Cell.number]

/-- In order, the row with a sequence is the first of those that are not before it. -/
theorem filter_first {rows : List EventRow} {row : EventRow} (q q' : Cell → Bool)
    (hint : ∀ r ∈ rows, ∃ n, r.sequence = .int n)
    (hord : rows.Pairwise fun a b => a.sequence.before b.sequence = true) (hrow : row ∈ rows)
    (hp : row.sequence = .int p) (hq : q (.int p) = true) (hq' : q' (.int p) = false)
    (hmin : ∀ n, q (.int n) = true → p ≤ n) (hsame : ∀ n, n ≠ p → q (.int n) = q' (.int n)) :
    (rows.filter fun r => q r.sequence) = row :: rows.filter fun r => q' r.sequence := by
  induction rows with
  | nil => cases hrow
  | cons r rows ih =>
    rw [pairwise_cons] at hord
    obtain ⟨n, hn⟩ := hint r mem_cons_self
    have hint' : ∀ r ∈ rows, ∃ n, r.sequence = .int n := fun r hr => hint r (mem_cons_of_mem _ hr)
    rcases mem_cons.1 hrow with rfl | hmem
    · have hrest : (rows.filter fun r => q r.sequence) = rows.filter fun r => q' r.sequence := by
        apply filter_congr
        intro r' hr'
        obtain ⟨m, hm⟩ := hint' r' hr'
        have hlt := hord.1 r' hr'
        rw [hp, hm, before_int] at hlt
        rw [hm]
        exact hsame m (by omega)
      rw [filter_cons_of_pos (by rw [hp]; exact hq), filter_cons_of_neg (by rw [hp, hq']; simp), hrest]
    · have hlt := hord.1 row hmem
      rw [hn, hp, before_int] at hlt
      have hq₀ : q (.int n) = false := by
        cases hc : q (.int n) with
        | false => rfl
        | true => exact absurd (hmin n hc) (by omega)
      rw [filter_cons_of_neg (by rw [hn, hq₀]; simp),
        filter_cons_of_neg (by rw [hn, ← hsame n (by omega), hq₀]; simp)]
      exact ih hint' hord.2 hmem

theorem rowsFrom_succ {row : EventRow} (hint : store.Integral taskId) (hrow : row ∈ store.events taskId)
    (hp : row.sequence = .int p) (count : Nat) :
    store.rowsFrom taskId p (count + 1) = row :: store.rowsFrom taskId (p + 1) count := by
  unfold Store.rowsFrom
  cases store.kind with
  | memory =>
    refine filter_first (fun c => c.within p (count + 1)) (fun c => c.within (p + 1) count) hint
      (store.ordered taskId) hrow hp ?_ ?_ ?_ ?_
    · simp only [Cell.within, decide_eq_true_eq]
      omega
    · simp only [Cell.within, decide_eq_false_iff_not]
      omega
    · intro n hn
      simp only [Cell.within, decide_eq_true_eq] at hn
      exact hn.1
    · intro n hn
      simp only [Cell.within, decide_eq_decide]
      omega
  | sql =>
    have hfirst := filter_first (fun c => c.atLeast p) (fun c => c.atLeast (p + 1)) hint (store.ordered taskId)
      hrow hp (by simp [Cell.atLeast]) (by simp [Cell.atLeast]) (fun n hn => by simpa [Cell.atLeast] using hn)
      (fun n hn => by simp only [Cell.atLeast, decide_eq_decide]; omega)
    rw [hfirst, take_succ_cons]

theorem rowsFrom_nil {count' : Nat} (hint : store.Integral taskId) (h : store.rowsFrom taskId start count = [])
    (hle : count' ≤ count) : store.rowsFrom taskId start count' = [] := by
  unfold Store.rowsFrom at h ⊢
  cases hkind : store.kind with
  | memory =>
    rw [hkind] at h
    rw [filter_eq_nil_iff] at h ⊢
    intro r hr hw
    obtain ⟨n, hn⟩ := hint r hr
    refine h r hr ?_
    rw [hn] at hw ⊢
    simp only [Cell.within, decide_eq_true_eq] at hw ⊢
    omega
  | sql =>
    rw [hkind] at h
    rw [take_eq_nil_iff] at h ⊢
    rcases h with h | h
    · exact .inl (by omega)
    · exact .inr h

/-! ## A starved task holds the loop -/

/-- What is read along rows that check out and then end is a part of them. -/
theorem fetched_along {budget : Nat} (hint : store.Integral taskId) (h : Chain env p previous rows q previous')
    (hhas : ∀ e ∈ rows, store.Has env taskId e) (hend : store.rowsFrom taskId q budget = []) :
    ∀ {count : Nat} {events : List ExportEvent}, count ≤ budget →
      (store.rowsFrom taskId p count).mapM (exportEventRow env) = .ok events → events = rows.take count := by
  induction h with
  | nil =>
    intro count events hle hfetch
    rw [rowsFrom_nil hint hend hle, mapM_nil] at hfetch
    cases hfetch
    rw [take_nil]
  | cons hrow _ ih =>
    rename_i p _ previous _ row rows details _
    intro count events hle hfetch
    obtain ⟨stored, hstored, hread⟩ := hhas row mem_cons_self
    cases count with
    | zero =>
      have hnil : store.rowsFrom taskId p 0 = [] := by
        unfold Store.rowsFrom
        cases store.kind with
        | memory =>
          rw [filter_eq_nil_iff]
          intro r hr hw
          obtain ⟨n, hn⟩ := hint r hr
          rw [hn] at hw
          simp only [Cell.within, decide_eq_true_eq] at hw
          omega
        | sql => exact take_zero
      rw [hnil, mapM_nil] at hfetch
      cases hfetch
      rw [take_zero]
    | succ =>
      have hsequence : stored.sequence = .int p := by
        obtain ⟨n, hn⟩ := hint stored hstored
        unfold exportEventRow at hread
        rw [hn] at hread
        cases hread
        rw [hn, ← checkEvent_sequence hrow]
      rw [rowsFrom_succ hint hstored hsequence, mapM_cons] at hfetch
      obtain ⟨first, hfirst, hfetch⟩ := bind_ok_iff.1 hfetch
      obtain ⟨events', hevents', hfetch⟩ := bind_ok_iff.1 hfetch
      cases hfetch
      rw [hread] at hfirst
      cases hfirst
      rw [take_succ_cons, ih (fun e he => hhas e (mem_cons_of_mem _ he)) hend (by omega) hevents']

theorem Chain.split (h : Chain env p previous rows q previous') (n : Nat) :
    ∃ p₁ previous₁, Chain env p previous (rows.take n) p₁ previous₁ ∧
      Chain env p₁ previous₁ (rows.drop n) q previous' := by
  induction h generalizing n with
  | nil p previous => exact ⟨p, previous, by simpa using .nil p previous, by simpa using .nil p previous⟩
  | cons hrow hrows ih =>
    cases n with
    | zero => exact ⟨_, _, .nil _ _, .cons hrow hrows⟩
    | succ n =>
      obtain ⟨p₁, previous₁, h₁, h₂⟩ := ih n
      exact ⟨p₁, previous₁, .cons hrow h₁, h₂⟩

theorem exportRows_chain (h : Chain x.env p previous rows q previous') :
    ∀ {r : RowsExport}, exportRows x taskId p previous rows = .ok r →
      r.reason = none ∧ r.position = q ∧ r.previous = previous' ∧ r.lines.length = rows.length := by
  induction h with
  | nil =>
    intro r hr
    cases hr
    exact ⟨rfl, rfl, rfl, rfl⟩
  | cons hrow _ ih =>
    intro r hr
    rw [exportRows, hrow] at hr
    obtain ⟨record, -, hr⟩ := bind_ok_iff.1 hr
    obtain ⟨line, -, hr⟩ := bind_ok_iff.1 hr
    obtain ⟨rest, hrest, hr⟩ := bind_ok_iff.1 hr
    cases hr
    obtain ⟨h₁, h₂, h₃, h₄⟩ := ih hrest
    exact ⟨h₁, h₂, h₃, by simp [h₄]⟩

theorem exportTask_cut {entry : Option (Int × Cell)} {head : Head} {t : TaskExport} {s : Int}
    (ht : exportTask x entry ⟨taskId, head, events, true⟩ = .ok t) (hs : head.sequence.toInt x.env = .ok s)
    (hlt : entryPosition entry < s) (hchain : Chain x.env (entryPosition entry) (entryHash entry) events q previous') :
    t.reason = none ∧ entryPosition t.entry = q ∧ entryHash t.entry = previous' := by
  unfold exportTask at ht
  rw [hs] at ht
  dsimp only at ht
  have hlt' : entry.elim 0 Prod.fst < s := hlt
  rw [if_neg (by omega), if_neg (by omega)] at ht
  obtain ⟨r, hr, ht⟩ := bind_ok_iff.1 ht
  obtain ⟨hreason, hposition, hprevious, hlines⟩ := exportRows_chain hchain hr
  rw [hreason] at ht
  cases ht
  rw [← hposition, ← hprevious] at hchain
  obtain ⟨hposition', hhash'⟩ := newEntry_spec hlines hchain
  exact ⟨rfl, by rw [hposition', hposition], by rw [hhash', hprevious]⟩

structure Held (env : Env) (store : Store) (size : PageSize) (h : TaskHead) (run : Run) : Prop where
  after : isAfter run.after h.taskId = true
  unfailed : h.taskId ∉ run.failed
  dry : ∃ s q previous rows, h.head.sequence.toInt env = .ok s ∧ (∀ e ∈ rows, store.Has env h.taskId e) ∧
    Chain env (entryPosition (run.cursor h.taskId)) (entryHash (run.cursor h.taskId)) rows q previous ∧
    store.rowsFrom h.taskId q size.maxEvents = [] ∧ q + size.maxEvents < s

theorem Held.unread (hheld : Held env store size h run) (task : ExportTask) :
    ¬ ReadWhole env (store.fetch env) run.watermark size.maxEvents h task := by
  intro hread
  obtain ⟨s, q, previous, rows, hs, -, hchain, -, hfar⟩ := hheld.dry
  have hq := hchain.position_eq
  obtain ⟨s', hs', hcase⟩ := hread.events
  rw [hs] at hs'
  cases hs'
  rw [watermark_eq hheld.unfailed] at hcase
  omega

theorem Held.exportPage (hheld : Held x.env store size h run) (hint : store.Integral h.taskId) (hm : h ∈ store.heads)
    (hpage : Audit.exportPage x store size run = .ok (run', done)) : done = false ∧ Held x.env store size h run' := by
  obtain ⟨passed, rest, tasks, tail, run₁, hp, hfold, rfl⟩ := exportPage_spec hpage
  obtain ⟨s, q, previous, rows, hs, hhas, hchain, hdry, hfar⟩ := hheld.dry
  obtain ⟨hlast, hafter, hother | ⟨hother, left, events, rfl, hleft, hevents⟩⟩ := hp.held hm hheld.after hheld.unread
  · -- the page does not touch the task
    obtain ⟨hcursor, hfailed⟩ := exportAll_other hfold hother
    exact ⟨hlast, hafter, fun hf => hheld.unfailed (hfailed.1 hf), s, q, previous, rows, hs, hhas,
      by rw [hcursor]; exact hchain, hdry, hfar⟩
  rw [foldlM_append] at hfold
  obtain ⟨run₂, hfold₂, hfold⟩ := bind_ok_iff.1 hfold
  obtain ⟨run₃, hone, hfold⟩ := bind_ok_iff.1 hfold
  cases hfold
  have hsame := exportAll_other hfold₂ hother
  have hfailed₂ : h.taskId ∉ run₂.failed := fun hf => hheld.unfailed (hsame.2.1 hf)
  rw [watermark_eq hheld.unfailed] at hevents
  have hevents' := fetched_along hint hchain hhas hdry hleft (fetch_rows hevents)
  obtain ⟨p₁, previous₁, hchain₁, hchain₂⟩ := hchain.split left
  rw [← hevents'] at hchain₁
  obtain ⟨t, ht, hcursor, hfailed, -⟩ := exportOne_spec hone hfailed₂
  rw [hsame.1] at ht
  have hq := hchain.position_eq
  obtain ⟨hreason, hposition, hhash⟩ := exportTask_cut ht hs (by omega) hchain₁
  refine ⟨hlast, hafter, ?_, s, q, previous, rows.drop left, hs, fun e he => hhas e (mem_of_mem_drop he), ?_, hdry,
    hfar⟩
  · rw [hfailed, hreason]
    simpa using hfailed₂
  · rw [hcursor, Function.update_self, hposition, hhash]
    exact hchain₂

theorem Starved.held (hs : Starved env store size cursor h) : Held env store size h (Run.start cursor) := by
  obtain ⟨s, entry, hsequence, ⟨rows, hhas, hchain⟩, hdry, hfar⟩ := hs
  exact ⟨rfl, by simp [Run.start], s, _, _, rows, hsequence, hhas, hchain, rowsFrom_of_fetch_nil hdry, hfar⟩

theorem Starved.runExport (hs : Starved x.env store size cursor h) (hint : store.Integral h.taskId)
    (hm : h ∈ store.heads) (pages : Nat) : ∀ run, runExport x store size pages (Run.start cursor) ≠ some (.ok run) :=
  overPages_held (fun _ _ _ hheld => hheld.exportPage hint hm) pages hs.held

/-- A head out of reach holds the loop: its task is never read whole, and once it has failed it is not skipped. -/
theorem Beyond.runExport (hb : Beyond x.env size h) (hm : h ∈ store.heads)
    (hfew : ∀ entry, Reaches x.env store h.taskId (cursor h.taskId) entry → entryPosition entry ≤ skipTask)
    (pages : Nat) : ∀ run, runExport x store size pages (Run.start cursor) ≠ some (.ok run) := by
  obtain ⟨s, hs, hfar⟩ := hb
  refine overPages_held (P := fun run => isAfter run.after h.taskId = true ∧ Reached x.env store cursor run) ?_ pages
    ⟨rfl, fun taskId => Reaches.refl _ _ _ _⟩
  rintro run run' done ⟨hafter, hr⟩ hpage
  have hno : ∀ task, ¬ ReadWhole x.env (store.fetch x.env) run.watermark size.maxEvents h task := by
    intro task hread
    obtain ⟨s', hs', hcase⟩ := hread.events
    cases hs.symm.trans hs'
    have hle : run.watermark h.taskId ≤ skipTask := by
      by_cases hf : h.taskId ∈ run.failed
      · exact (watermark_failed hf).le
      · rw [watermark_eq hf]
        exact hfew _ (hr h.taskId)
    omega
  obtain ⟨passed, rest, tasks, tail, run₁, hp, -, heq⟩ := exportPage_spec hpage
  obtain ⟨hlast, hafter', -⟩ := hp.held hm hafter hno
  exact ⟨hlast, by rw [heq]; exact hafter', reached_exportPage hr hpage⟩

end Portmark.Audit
