/-
The local floor detects every rollback. The invariant says what the floor knows of a task: if it
has an entry, there is one chain with that head of which every committed chain is a prefix; if it
has none, every committed database holds the same chain. A database that passes the comparison is
at least as long as that chain, so it is that chain, and the save extends it.
-/
import Portmark.Host.Floor
import Portmark.Host.Reload

namespace Portmark.Host

open Lib Lib.Json Security List Durable

/-! ## The floor's operations -/

variable {Q : Except Fault Unit → FloorSystem → Prop} {db : Store} {body : FloorBody}

section Rules

variable {P : FloorSystem → Prop} {s : FloorSystem}

theorem passes_commitDb (hP : P { s with db, commits := s.commits ++ [db] })
    (hQ : Q (.ok ()) { s with db, commits := s.commits ++ [db] }) : Durable.Passes P (commitDb db) Q s :=
  passes_read_bind (passes_write hP hQ)

theorem passes_loadFloor {Q : Except Fault FloorBody → FloorSystem → Prop} (herror : ∀ e, Q (.error e) s)
    (hQ : ∀ body, s.floor = some body → Q (.ok body) s) : Durable.Passes P loadFloor Q s := by
  refine passes_read_bind ?_
  cases hfloor : s.floor with
  | none => exact passes_lift (herror _)
  | some body => exact passes_pure (hQ body hfloor)

theorem passes_writeFloor (herror : ∀ e, Q (.error e) s) (hP : P { s with floor := some body })
    (hQ : Q (.ok ()) { s with floor := some body }) : Durable.Passes P (writeFloor body) Q s := by
  refine passes_lift_bind (fun e _ => herror e) fun _ _ => ?_
  exact passes_read_bind (passes_write hP hQ)

theorem passes_updateFloor {mutate : FloorBody → Except Fault (Option FloorBody)} (herror : ∀ e, Q (.error e) s)
    (hsame : ∀ body, s.floor = some body → mutate body = .ok none → Q (.ok ()) s)
    (hnew : ∀ body body', s.floor = some body → mutate body = .ok (some body') →
      P { s with floor := some body' } ∧ Q (.ok ()) { s with floor := some body' }) :
    Durable.Passes P (updateFloor mutate) Q s := by
  refine passes_bind (passes_loadFloor herror fun body hfloor => ?_)
  refine passes_lift_bind (fun e _ => herror e) fun changed hmutate => ?_
  cases changed with
  | none => exact passes_pure (hsame body hfloor hmutate)
  | some body' =>
    obtain ⟨hP, hQ⟩ := hnew body body' hfloor hmutate
    exact passes_writeFloor herror hP hQ

end Rules

theorem advanceRegistry_tasks {registry : Option (Int × String)} {body' : FloorBody}
    (h : advanceRegistry registry body = .ok (some body')) : body'.tasks = body.tasks := by
  unfold advanceRegistry at h
  split at h
  · cases h
  · cases h
    rfl
  · split_ifs at h
    · cases h
      rfl
    · cases h

theorem raiseTimeFloor_tasks {floorAt : Int} {body' : FloorBody} (h : raiseTimeFloor floorAt body = .ok (some body')) :
    body'.tasks = body.tasks := by
  unfold raiseTimeFloor at h
  split at h
  · cases h
    rfl
  · cases h

variable {taskId : String}

variable {s : FloorSystem}

theorem entry_of_floor (h : s.floor = some body) (taskId : String) :
    s.entry taskId = Assoc.get? body.tasks taskId := by
  unfold FloorSystem.entry
  rw [h]
  rfl

theorem advanceEntry_ok {env : Env} {head : String × Int} {changed : Option FloorBody}
    (h : advanceEntry env taskId head body = .ok changed) :
    (changed.getD body).tasks = Assoc.set body.tasks taskId head ∨
    (changed = none ∧ ∃ current, Assoc.get? body.tasks taskId = some current ∧
      (head = current ∨ head.2 < current.2)) := by
  unfold advanceEntry at h
  split at h
  · cases h
    exact .inl rfl
  next current hcurrent =>
  split_ifs at h with hfork hahead
  · cases h
    exact .inl rfl
  cases h
  refine .inr ⟨rfl, current, hcurrent, ?_⟩
  rcases lt_trichotomy head.2 current.2 with hlt | heq | hgt
  · exact .inr hlt
  · refine .inl (Prod.ext ?_ heq)
    by_contra hne
    exact hfork ⟨heq, hne⟩
  · exact absurd hgt hahead

/-! ## The comparison -/

theorem refuse_ok {status : HeadStatus} {older diverged : String} (h : status.refuse older diverged = .ok ()) :
    status ≠ .rolledBack ∧ status ≠ .forked := by
  cases status with
  | rolledBack => cases h
  | forked => cases h
  | _ => exact ⟨by decide, by decide⟩

/-- A database that passed the comparison is as long as the recorded head, and has its hash there. -/
theorem compareHead_some {recorded : String × Int} {events : List AuditEvent} {eventHashAt : Int → Option String}
    (hrolled : compareHead (some recorded) (chainHead events) eventHashAt ≠ .rolledBack) :
    recorded.2 ≤ events.length ∧ (compareHead (some recorded) (chainHead events) eventHashAt ≠ .forked →
      eventHashAt (recorded.2 - 1) = some recorded.1) := by
  cases hhead : chainHead events with
  | none => exact absurd (by rw [hhead]; rfl) hrolled
  | some =>
    have hlength := chainHead_length hhead
    rw [hhead] at hrolled
    simp only [compareHead] at hrolled ⊢
    split_ifs at hrolled ⊢ with hshort hsame
    · exact absurd rfl hrolled
    · exact ⟨by omega, fun h => absurd rfl h⟩
    · exact ⟨by omega, fun _ => not_not.1 hsame⟩

/-- The database has what the floor recorded of a task: long enough, with the recorded hash, so it begins with any
chain of that head. -/
structure Upholds (host : AgentHost) (db : Store) (taskId : String) (recorded : String × Int) : Prop where
  long : recorded.2 ≤ (db.auditEvents taskId).length
  same : db.auditEventHash taskId (recorded.2 - 1) = some recorded.1
  begins : ∀ chain, Linked host chain → chainHead chain = some recorded →
    chain.map (·.hash) <+: (db.auditEvents taskId).map (·.hash)

variable {host : AgentHost}

theorem compareHead_upholds (hsha : Function.Injective host.sha256) (hc : Chained host db) {recorded : String × Int}
    (hrolled : compareHead (some recorded) (chainHead (db.auditEvents taskId)) (db.auditEventHash taskId) ≠ .rolledBack)
    (hforked : compareHead (some recorded) (chainHead (db.auditEvents taskId)) (db.auditEventHash taskId) ≠ .forked) :
    Upholds host db taskId recorded := by
  obtain ⟨hash, sequence⟩ := recorded
  obtain ⟨hlong, hhash⟩ := compareHead_some hrolled
  have hsame := hhash hforked
  refine ⟨hlong, hsame, fun chain hlinked hchain => ?_⟩
  -- the recorded chain has as many events as the recorded position says
  have hn : sequence = chain.length := chainHead_length hchain
  obtain ⟨e, he, -⟩ := Option.map_eq_some_iff.1 hchain
  have hpos : 0 < chain.length := length_pos_of_mem (mem_of_getLast? he)
  unfold Store.auditEventHash at hsame
  rw [if_pos (by show 0 ≤ sequence - 1; omega)] at hsame
  obtain ⟨d, hd, hdhash⟩ := Option.map_eq_some_iff.1 hsame
  have htake : chainHead ((db.auditEvents taskId).take chain.length) = some (hash, sequence) := by
    have hindex : (sequence - 1).toNat = chain.length - 1 := by omega
    rw [hindex] at hd
    have h := chainHead_take (by omega) hd
    rw [Nat.sub_add_cancel hpos, hdhash] at h
    rw [h]
    congr 2
    omega
  have hstart := take_prefix chain.length (db.auditEvents taskId)
  have hunique := Linked.hashes_unique hsha chain.length rfl hlinked ((hc.linked taskId).initial hstart)
    (hchain.trans htake.symm)
  rw [hunique]
  exact hstart.map _

/-! ## The invariant -/

def Recorded (host : AgentHost) (commits : List Store) (taskId : String) : Option (String × Int) → Prop
  | none => ∀ d ∈ commits, ∀ d' ∈ commits, d.auditEvents taskId = d'.auditEvents taskId
  | some entry => ∃ chain, Linked host chain ∧ chainHead chain = some entry ∧
      ∀ d ∈ commits, d.auditEvents taskId <+: chain

/-- Commits with the chains of earlier ones add nothing to what the entry says. -/
theorem Recorded.congr {commits commits' : List Store} {recorded : Option (String × Int)}
    (h : Recorded host commits taskId recorded)
    (hfrom : ∀ d ∈ commits', ∃ d' ∈ commits, d.auditEvents taskId = d'.auditEvents taskId) :
    Recorded host commits' taskId recorded := by
  cases recorded with
  | none =>
    intro d hd e he
    obtain ⟨d', hd', hevents⟩ := hfrom d hd
    obtain ⟨e', he', hevents'⟩ := hfrom e he
    rw [hevents, hevents']
    exact h d' hd' e' he'
  | some =>
    obtain ⟨chain, hlinked, hhead, hall⟩ := h
    refine ⟨chain, hlinked, hhead, fun d hd => ?_⟩
    obtain ⟨d', hd', hevents⟩ := hfrom d hd
    rw [hevents]
    exact hall d' hd'

structure FloorInv (host : AgentHost) (s : FloorSystem) : Prop where
  current : s.db ∈ s.commits
  chained : ∀ d ∈ s.commits, Chained host d
  recorded : ∀ taskId, Recorded host s.commits taskId (s.entry taskId)

/-- No entry of the floor is lost or lowered. -/
def Raised (s s' : FloorSystem) : Prop :=
  ∀ taskId entry, s.entry taskId = some entry → ∃ entry', s'.entry taskId = some entry' ∧ entry.2 ≤ entry'.2

theorem Raised.refl (s : FloorSystem) : Raised s s := fun _ entry h => ⟨entry, h, le_refl _⟩

variable {s' : FloorSystem}

theorem Raised.trans {s'' : FloorSystem} (h : Raised s s') (h' : Raised s' s'') : Raised s s'' := by
  intro taskId entry he
  obtain ⟨entry', he', hle⟩ := h taskId entry he
  obtain ⟨entry'', he'', hle'⟩ := h' taskId entry' he'
  exact ⟨entry'', he'', le_trans hle hle'⟩

/-- Of any two committed chains of a task one is a prefix of the other. -/
theorem FloorInv.comparable (h : FloorInv host s) {d d' : Store} (hd : d ∈ s.commits)
    (hd' : d' ∈ s.commits) (taskId : String) :
    d.auditEvents taskId <+: d'.auditEvents taskId ∨ d'.auditEvents taskId <+: d.auditEvents taskId := by
  have hrecorded := h.recorded taskId
  cases hentry : s.entry taskId with
  | none =>
    rw [hentry] at hrecorded
    exact .inl (hrecorded d hd d' hd' ▸ prefix_refl _)
  | some =>
    rw [hentry] at hrecorded
    obtain ⟨chain, -, -, hall⟩ := hrecorded
    exact prefix_or_prefix_of_prefix (hall d hd) (hall d' hd')

/-- A database as long as its floor entry holds every chain that was ever committed for the task. -/
theorem FloorInv.covers (h : FloorInv host s)
    (hlong : ∀ entry, s.entry taskId = some entry → entry.2 ≤ (s.db.auditEvents taskId).length) :
    ∀ d ∈ s.commits, d.auditEvents taskId <+: s.db.auditEvents taskId := by
  intro d hd
  have hrecorded := h.recorded taskId
  rcases hentry : s.entry taskId with _ | entry
  · rw [hentry] at hrecorded
    exact hrecorded d hd s.db h.current ▸ prefix_refl _
  rw [hentry] at hrecorded
  obtain ⟨chain, -, hhead, hall⟩ := hrecorded
  have hlength := chainHead_length hhead
  have hle := hlong entry hentry
  have hwhole : s.db.auditEvents taskId = chain := (hall s.db h.current).eq_of_length_le (by omega)
  rw [hwhole]
  exact hall d hd

structure Settles (s s' : FloorSystem) : Prop where
  events : s'.db.auditEvents = s.db.auditEvents
  heads : s'.db.auditHeads = s.db.auditHeads
  entry : ∀ taskId, s'.entry taskId = s.entry taskId
  kept : ∀ d ∈ s.commits, d ∈ s'.commits
  commits : ∀ d ∈ s'.commits,
    d ∈ s.commits ∨ (d.auditEvents = s.db.auditEvents ∧ d.auditHeads = s.db.auditHeads)
  current : s.db ∈ s.commits → s'.db ∈ s'.commits

theorem Settles.refl (s : FloorSystem) : Settles s s :=
  ⟨rfl, rfl, fun _ => rfl, fun _ hd => hd, fun _ hd => .inl hd, id⟩

theorem Settles.floor (h : Settles s s') {floor : Option FloorBody}
    (htasks : ∀ taskId, floor.bind (fun body => Assoc.get? body.tasks taskId) = s.entry taskId) :
    Settles s { s' with floor } :=
  ⟨h.events, h.heads, htasks, h.kept, h.commits, h.current⟩

theorem Settles.commit (h : Settles s s') (hevents : db.auditEvents = s'.db.auditEvents)
    (hheads : db.auditHeads = s'.db.auditHeads) : Settles s { s' with db, commits := s'.commits ++ [db] } := by
  have hchains := And.intro (hevents.trans h.events) (hheads.trans h.heads)
  exact ⟨hchains.1, hchains.2, h.entry, fun d hd => mem_append_left _ (h.kept d hd),
    forall_mem_append.2 ⟨h.commits, forall_mem_singleton.2 (.inr hchains)⟩,
    fun _ => mem_append_right _ (mem_singleton_self _)⟩

theorem FloorInv.settles (h : FloorInv host s) (hs : Settles s s') : FloorInv host s' := by
  -- every commit of `s'` has the chain that some commit of `s` has
  have hchains : ∀ d ∈ s'.commits, ∃ d' ∈ s.commits, d.auditEvents = d'.auditEvents ∧ d.auditHeads = d'.auditHeads := by
    intro d hd
    rcases hs.commits d hd with hd | ⟨hevents, hheads⟩
    · exact ⟨d, hd, rfl, rfl⟩
    · exact ⟨s.db, h.current, hevents, hheads⟩
  refine ⟨hs.current h.current, ?_, ?_⟩
  · intro d hd
    obtain ⟨d', hd', hevents, hheads⟩ := hchains d hd
    exact chained_congr (h.chained d' hd') hevents hheads
  · intro taskId
    rw [hs.entry taskId]
    refine (h.recorded taskId).congr fun d hd => ?_
    obtain ⟨d', hd', hevents, -⟩ := hchains d hd
    exact ⟨d', hd', congrFun hevents taskId⟩

theorem Settles.raised (h : Settles s s') : Raised s s' :=
  fun taskId entry he => ⟨entry, (h.entry taskId).trans he, le_refl _⟩

/-! ## Raising the floor -/

/-- The head of `target`'s chain may be recorded: the chain holds every committed one and is no
shorter than what is recorded. -/
structure Advances (host : AgentHost) (s : FloorSystem) (target : Store) (taskId : String) (head : String × Int) :
    Prop where
  isHead : chainHead (target.auditEvents taskId) = some head
  linked : Linked host (target.auditEvents taskId)
  covers : ∀ d ∈ s.commits, d.auditEvents taskId <+: target.auditEvents taskId
  ahead : ∀ entry, s.entry taskId = some entry → entry.2 ≤ head.2

theorem entry_some (s : FloorSystem) (body : FloorBody) (taskId : String) :
    FloorSystem.entry { s with floor := some body } taskId = Assoc.get? body.tasks taskId := rfl

theorem advanceEntry_inv {target : Store} {head : String × Int} {changed : Option FloorBody}
    (hfloor : s.floor = some body) (hinv : FloorInv host s) (hadv : Advances host s target taskId head)
    (h : advanceEntry host.env taskId head body = .ok changed) :
    (∀ other, FloorSystem.entry { s with floor := some (changed.getD body) } other =
      if other = taskId then some head else s.entry other) ∧
    FloorInv host { s with floor := some (changed.getD body) } ∧
    Raised s { s with floor := some (changed.getD body) } := by
  have hentry := entry_of_floor hfloor
  have hnew : ∀ other, FloorSystem.entry { s with floor := some (changed.getD body) } other =
      if other = taskId then some head else s.entry other := by
    intro other
    rw [entry_some, hentry]
    rcases advanceEntry_ok h with htasks | ⟨rfl, current, hcurrent, hsame⟩
    · rw [htasks, Assoc.get?_set]
    have hle := hadv.ahead current ((hentry taskId).trans hcurrent)
    have heq : head = current := by
      rcases hsame with heq | hlt
      · exact heq
      · omega
    split
    · next ho => rw [ho, heq]; exact hcurrent
    · rfl
  refine ⟨hnew, ⟨hinv.current, hinv.chained, fun other => ?_⟩, fun other entry he => ?_⟩
  · rw [hnew other]
    split
    · next ho =>
      rw [ho]
      exact ⟨target.auditEvents taskId, hadv.linked, hadv.isHead, hadv.covers⟩
    · exact hinv.recorded other
  · rw [hnew other]
    split
    · next ho => exact ⟨head, rfl, hadv.ahead entry (ho ▸ he)⟩
    · exact ⟨entry, he, le_refl _⟩

theorem advanceHeads_singleton (env : Env) (taskId : String) (head : String × Int) (body : FloorBody) :
    advanceHeads env [(taskId, head)] body = advanceEntry env taskId head body := by
  unfold advanceHeads
  cases advanceEntry env taskId head body with
  | error => rfl
  | ok => rfl

theorem advanceHeads_inv {target : Store} :
    ∀ {heads : List (String × String × Int)} {s : FloorSystem} {body : FloorBody} {changed : Option FloorBody},
      s.floor = some body → FloorInv host s → (∀ entry ∈ heads, Advances host s target entry.1 entry.2) →
      advanceHeads host.env heads body = .ok changed →
      FloorInv host { s with floor := some (changed.getD body) } ∧
      Raised s { s with floor := some (changed.getD body) }
  | [], s, body, changed, hfloor, hinv, _, h => by
    cases h
    have hsame : ({ s with floor := some body } : FloorSystem) = s := by rw [← hfloor]
    show FloorInv host { s with floor := some body } ∧ Raised s { s with floor := some body }
    rw [hsame]
    exact ⟨hinv, Raised.refl s⟩
  | (taskId, head) :: heads, s, body, changed, hfloor, hinv, hadv, h => by
    unfold advanceHeads at h
    obtain ⟨first, hfirst, h⟩ := bind_ok_iff.1 h
    obtain ⟨further, hfurther, h⟩ := bind_ok_iff.1 h
    obtain rfl := Except.ok.inj h
    have hhead := hadv (taskId, head) mem_cons_self
    obtain ⟨hentry, hinv1, hraised1⟩ := advanceEntry_inv hfloor hinv hhead hfirst
    -- a later head of the same task is the same head
    have hadv1 : ∀ entry ∈ heads,
        Advances host { s with floor := some (first.getD body) } target entry.1 entry.2 := by
      intro entry hm
      have hlater := hadv entry (mem_cons_of_mem _ hm)
      refine ⟨hlater.isHead, hlater.linked, hlater.covers, fun current hcurrent => ?_⟩
      rw [hentry entry.1] at hcurrent
      split at hcurrent
      · next ho =>
        have heq := hlater.isHead
        rw [ho, hhead.isHead] at heq
        rw [← Option.some.inj hcurrent, Option.some.inj heq]
      · exact hlater.ahead current hcurrent
    obtain ⟨hinv2, hraised2⟩ := advanceHeads_inv rfl hinv1 hadv1 hfurther
    have hfinal : (further.or first).getD body = further.getD (first.getD body) := by
      cases further with
      | none => rfl
      | some => rfl
    rw [hfinal]
    exact ⟨hinv2, hraised1.trans hraised2⟩

/-! ## A save -/

theorem appendEvent_hashed {log log' : AuditLog} {event : String} {details : Dict}
    (hlog : ∀ e ∈ log.events, Hashed host e) (h : host.appendEvent log event details = .ok log') :
    ∀ e ∈ log'.events, Hashed host e := by
  obtain ⟨text, htext, h⟩ := bind_ok_iff.1 h
  obtain rfl := Except.ok.inj h
  intro e he
  rcases mem_append.1 he with he | he
  · exact hlog e he
  · rw [mem_singleton.1 he]
    exact ⟨text, htext, rfl⟩

variable {entries : List (String × Dict)} {head : String} {startSequence : Int}

theorem logEvents_hashed {log : AuditLog} (h : host.logEvents head startSequence entries = .ok log) :
    ∀ e ∈ log.events, Hashed host e :=
  foldlM_ok (P := fun log => ∀ e ∈ log.events, Hashed host e) (fun _ he => absurd he not_mem_nil)
    (fun _ _ _ _ hlog h => appendEvent_hashed hlog h) h

variable {fh : FloorHost}

theorem checkHead_ok (hfloor : s.floor = some body) (hc : Chained fh.host s.db)
    (h : fh.checkHead body s.db taskId = .ok ()) :
    let status := compareHead (s.entry taskId) (chainHead (s.db.auditEvents taskId)) (s.db.auditEventHash taskId)
    status ≠ .rolledBack ∧ status ≠ .forked := by
  obtain ⟨_, hcompare, -⟩ := bind_ok_iff.1 h
  rw [hc.heads] at hcompare
  rw [entry_of_floor hfloor]
  exact refuse_ok hcompare

def Good (host : AgentHost) (s s' : FloorSystem) : Prop := FloorInv host s' ∧ Raised s s'

theorem Good.refl (h : FloorInv host s) : Good host s s := ⟨h, Raised.refl s⟩

/-- The commit of a chain whose head the floor has. -/
theorem FloorInv.commit (h : FloorInv host s) (hc : Chained host db)
    (hothers : ∀ other, other ≠ taskId → db.auditEvents other = s.db.auditEvents other)
    (hcovers : ∀ d ∈ s.commits, d.auditEvents taskId <+: db.auditEvents taskId)
    (hentry : s.entry taskId = chainHead (db.auditEvents taskId) ∨
      db.auditEvents taskId = s.db.auditEvents taskId) :
    FloorInv host { s with db, commits := s.commits ++ [db] } := by
  refine ⟨mem_append_right _ (mem_singleton_self _),
    forall_mem_append.2 ⟨h.chained, forall_mem_singleton.2 hc⟩, fun other => ?_⟩
  show Recorded host (s.commits ++ [db]) other (s.entry other)
  by_cases hsame : db.auditEvents other = s.db.auditEvents other
  · -- the new commit has the chain that the database had
    refine (h.recorded other).congr fun d hd => ?_
    rcases mem_append.1 hd with hd | hd
    · exact ⟨d, hd, rfl⟩
    · exact ⟨s.db, h.current, mem_singleton.1 hd ▸ hsame⟩
  · -- the chain of the saved task grew: the floor has its head already
    have ho : other = taskId := by
      by_contra ho
      exact hsame (hothers other ho)
    subst ho
    rcases hentry with hentry | hentry
    · rw [hentry]
      cases hhead : chainHead (db.auditEvents other) with
      | none =>
        have hnil := chainHead_eq_none hhead
        have hdb := hcovers s.db h.current
        rw [hnil, prefix_nil] at hdb
        exact absurd (hnil.trans hdb.symm) hsame
      | some =>
        exact ⟨db.auditEvents other, hc.linked other, hhead,
          forall_mem_append.2 ⟨hcovers, forall_mem_singleton.2 (prefix_refl _)⟩⟩
    · exact absurd hentry hsame

theorem passes_sameTasks {mutate : FloorBody → Except Fault (Option FloorBody)}
    (hmutate : ∀ body body', mutate body = .ok (some body') → body'.tasks = body.tasks) (hs : Settles s s') :
    Durable.Passes (Settles s) (updateFloor mutate) (fun _ s'' => Settles s s'' ∧ s''.commits = s'.commits ∧
      s''.db = s'.db) s' := by
  refine passes_updateFloor (fun e => ⟨hs, rfl, rfl⟩) (fun body _ _ => ⟨hs, rfl, rfl⟩) fun body body' hfloor h => ?_
  have hsettles : Settles s { s' with floor := some body' } := by
    refine hs.floor fun taskId => ?_
    rw [← hs.entry taskId, entry_of_floor hfloor, ← hmutate body body' h]
    rfl
  exact ⟨hsettles, hsettles, rfl, rfl⟩

theorem FloorInv.chainedDb (h : FloorInv host s) : Chained host s.db :=
  h.chained s.db h.current

/-- The last steps of a save: the floor is raised to the head of the new database, then that
database is committed. -/
theorem advance_commit_good {s1 : FloorSystem} {generation : Int} {events : List AuditEvent}
    (hinv : FloorInv fh.host s1) (hraised : Raised s s1) (hc : Chained fh.host db)
    (hextends : Extends taskId events s1.db db)
    (hcovers : ∀ d ∈ s1.commits, d.auditEvents taskId <+: s1.db.auditEvents taskId)
    (hlong : ∀ entry, s1.entry taskId = some entry → entry.2 ≤ (s1.db.auditEvents taskId).length) :
    Durable.Passes (Good fh.host s)
      (do
        fh.witnessHead taskId (db.transactionAuditHead taskId)
        commitDb db
        return generation)
      (fun _ s' => Good fh.host s s') s1 := by
  have hgrown : ∀ d ∈ s1.commits, d.auditEvents taskId <+: db.auditEvents taskId := by
    intro d hd
    rw [hextends.own]
    exact (hcovers d hd).trans (prefix_append _ _)
  rw [hc.heads]
  cases hhead : chainHead (db.auditEvents taskId) with
  | none =>
    have hgood : Good fh.host s { s1 with db, commits := s1.commits ++ [db] } := by
      refine ⟨hinv.commit hc hextends.others hgrown (.inr ?_), hraised⟩
      have hown := hextends.own
      rw [chainHead_eq_none hhead] at hown ⊢
      exact (append_eq_nil_iff.1 hown.symm).1.symm
    exact passes_bind (passes_pure
      (passes_bind (passes_commitDb hgood (passes_pure hgood))))
  | some head =>
    have hadv : Advances fh.host s1 db taskId head := by
      refine ⟨hhead, hc.linked taskId, hgrown, fun entry he => ?_⟩
      have hle := hlong entry he
      rw [chainHead_length hhead, hextends.own, length_append]
      omega
    -- whether or not the floor was written, it has the head now
    have hcommit : ∀ {body : FloorBody} {changed : Option FloorBody}, s1.floor = some body →
        advanceHeads fh.host.env [(taskId, head)] body = .ok changed →
        Good fh.host s { s1 with floor := some (changed.getD body) } ∧
        Good fh.host s { s1 with floor := some (changed.getD body), db, commits := s1.commits ++ [db] } := by
      intro body changed hfloor h
      rw [advanceHeads_singleton] at h
      obtain ⟨hentry, hinv', hraised'⟩ := advanceEntry_inv hfloor hinv hadv h
      refine ⟨⟨hinv', hraised.trans hraised'⟩, ?_, hraised.trans hraised'⟩
      refine FloorInv.commit hinv' hc hextends.others hgrown (.inl ?_)
      rw [hentry taskId, if_pos rfl, hhead]
    refine passes_bind (passes_updateFloor (fun e => ⟨hinv, hraised⟩) (fun body hfloor h => ?_)
      fun body body' hfloor h => ?_)
    · obtain ⟨-, hgood⟩ := hcommit hfloor h
      have hsame : ({ s1 with floor := some ((none : Option FloorBody).getD body), db, commits := s1.commits ++ [db] } :
          FloorSystem) = { s1 with db, commits := s1.commits ++ [db] } := by
        rw [Option.getD_none, ← hfloor]
      rw [hsame] at hgood
      exact passes_bind (passes_commitDb hgood (passes_pure hgood))
    · obtain ⟨hraise, hgood⟩ := hcommit hfloor h
      exact ⟨hraise, passes_bind (passes_commitDb hgood (passes_pure hgood))⟩

theorem witnessTime_settles (floorAt : Option Int) (s : FloorSystem) : Durable.Passes (Settles s) (witnessTime floorAt)
      (fun _ s' => Settles s s' ∧ s'.commits = s.commits ∧ s'.db = s.db) s := by
  cases floorAt with
  | none => exact passes_pure ⟨Settles.refl s, rfl, rfl⟩
  | some => exact passes_sameTasks (fun _ _ => raiseTimeFloor_tasks) (Settles.refl s)

variable {save : Save} {signedAt : Int}

theorem persist_good (hinv : FloorInv fh.host s) (he : ∀ e ∈ save.events, Hashed fh.host e) :
    Durable.Passes (Good fh.host s) (fh.persist save signedAt) (fun _ s' => Good fh.host s s') s := by
  refine passes_bind (passes_loadFloor (fun e => Good.refl hinv) fun body hfloor => ?_)
  refine passes_read_bind ?_
  refine passes_lift_bind (fun e _ => Good.refl hinv) fun _ hcheck => ?_
  refine passes_lift_bind (fun e _ => Good.refl hinv) ?_
  rintro ⟨generation, db⟩ hsave
  have hlong : ∀ entry, s.entry save.taskId = some entry → entry.2 ≤ (s.db.auditEvents save.taskId).length := by
    intro entry hentry
    have hrolled := (checkHead_ok hfloor hinv.chainedDb hcheck).1
    rw [hentry] at hrolled
    exact (compareHead_some hrolled).1
  have hcovers := hinv.covers hlong
  have hc := Store.save_chained hinv.chainedDb he hsave
  have hextends := (Store.save_ok hsave).chain
  refine passes_bind ((witnessTime_settles (advancedFloor s.db signedAt) s).mono
    (fun s' hs => ⟨hinv.settles hs, hs.raised⟩) ?_)
  rintro (e | _) s1 ⟨hsettles, hcommits, hdb⟩
  · exact ⟨hinv.settles hsettles, hsettles.raised⟩
  -- the time floor changes no head
  refine advance_commit_good (hinv.settles hsettles) hsettles.raised hc (hdb ▸ hextends) ?_ ?_
  · rw [hcommits, hdb]
    exact hcovers
  · intro entry hentry
    rw [hsettles.entry] at hentry
    rw [hdb]
    exact hlong entry hentry

theorem save_good (hinv : FloorInv fh.host s) :
    Durable.Passes (Good fh.host s) (fh.save save head startSequence entries signedAt)
      (fun _ s' => Good fh.host s s') s :=
  passes_lift_bind (fun _ _ => Good.refl hinv) fun _ hlog => persist_good hinv (logEvents_hashed hlog)

variable {entry : String × Int}

/-- A save succeeds only from a database that has what the floor recorded of its task. -/
theorem save_upholds (hsha : Function.Injective fh.host.sha256) (hc : Chained fh.host s.db)
    {generation : Int} (h : (fh.save save head startSequence entries signedAt s).2 = .ok generation)
    (hentry : s.entry save.taskId = some entry) : Upholds fh.host s.db save.taskId entry := by
  have hpasses : Durable.Passes (fun _ => True) (fh.save save head startSequence entries signedAt)
      (fun r _ => ∀ g, r = .ok g → Upholds fh.host s.db save.taskId entry) s := by
    refine passes_lift_bind (fun e _ g hg => by cases hg) fun log _ => ?_
    refine passes_bind (passes_loadFloor (fun e g hg => by cases hg) fun body hfloor => ?_)
    refine passes_read_bind ?_
    refine passes_lift_bind (fun e _ g hg => by cases hg) fun _ hcheck => ?_
    obtain ⟨hrolled, hforked⟩ := checkHead_ok hfloor hc hcheck
    rw [hentry] at hrolled hforked
    have hupholds := compareHead_upholds hsha hc hrolled hforked
    exact (passes_const hupholds).mono (fun _ _ => trivial) fun _ _ h _ _ => h
  exact hpasses.ends generation h

/-! ## The start of a host -/

theorem passes_setFloorMarker {hostId : String} {epoch : Int} {pending : Bool} (hs : Settles s s')
    (hQ : ∀ s'', Settles s s'' → Q (.ok ()) s'') :
    Durable.Passes (Settles s) (setFloorMarker hostId epoch pending) Q s' := by
  refine passes_read_bind (passes_commitDb ?_ (hQ _ ?_))
  · exact hs.commit rfl rfl
  · exact hs.commit rfl rfl

/-- The marker and the file are settled without any head changing; the body has the floor's heads. -/
theorem openFloor_settles (fh : FloorHost) (registry : Option (Int × String)) (s : FloorSystem) :
    Durable.Passes (Settles s) (fh.openFloor registry)
      (fun r s' => Settles s s' ∧ ∀ body, r = .ok body → ∀ taskId,
        Assoc.get? body.tasks taskId = s.entry taskId) s := by
  have hrefl := Settles.refl s
  refine passes_read_bind ?_
  cases hfloor : s.floor with
  | none =>
    -- a new floor has no heads, and there was no floor to have any
    have hempty : ∀ taskId, (none : Option (String × Int)) = s.entry taskId := by
      intro taskId
      unfold FloorSystem.entry
      rw [hfloor]
      rfl
    have hcreate : ∀ epoch : Int, Durable.Passes (Settles s)
        (do
          setFloorMarker fh.host.hostId epoch true
          writeFloor ⟨epoch, registry, [], 0⟩
          setFloorMarker fh.host.hostId epoch false
          loadFloor)
        (fun r s' => Settles s s' ∧ ∀ body, r = .ok body → ∀ taskId,
          Assoc.get? body.tasks taskId = s.entry taskId) s := by
      intro epoch
      refine passes_bind (passes_setFloorMarker hrefl fun s1 hs1 => ?_)
      have hs2 : Settles s { s1 with floor := some ⟨epoch, registry, [], 0⟩ } := hs1.floor hempty
      refine passes_bind (passes_writeFloor (fun e => ⟨hs1, fun _ h => by cases h⟩) hs2 ?_)
      refine passes_bind (passes_setFloorMarker hs2 fun s3 hs3 => ?_)
      refine passes_loadFloor (fun e => ⟨hs3, fun _ h => by cases h⟩) fun body hbody => ⟨hs3, fun _ h taskId => ?_⟩
      rw [← Except.ok.inj h, ← hs3.entry taskId, entry_of_floor hbody]
    cases hmarker : s.db.floorMarkers fh.host.hostId with
    | none => exact hcreate 1
    | some marker =>
      obtain ⟨epoch, _ | _⟩ := marker
      · exact passes_lift ⟨hrefl, fun _ h => by cases h⟩
      · exact hcreate epoch
  | some body =>
    rcases hmarker : s.db.floorMarkers fh.host.hostId with _ | marker
    · exact passes_lift ⟨hrefl, fun _ h => by cases h⟩
    obtain ⟨epoch, pending⟩ := marker
    show Durable.Passes _ (if epoch ≠ body.epoch then _ else if pending then _ else _) _ s
    split_ifs with hepoch hpending
    · exact passes_lift ⟨hrefl, fun _ h => by cases h⟩
    · refine passes_bind (passes_setFloorMarker hrefl fun s1 hs1 => passes_pure ⟨hs1, fun _ h => ?_⟩)
      rw [← Except.ok.inj h]
      exact fun taskId => (entry_of_floor hfloor taskId).symm
    · refine passes_pure ⟨hrefl, fun _ h => ?_⟩
      rw [← Except.ok.inj h]
      exact fun taskId => (entry_of_floor hfloor taskId).symm

theorem mem_candidates {entry : String × String × Int} (h : entry ∈ fh.candidates body db) :
    db.transactionAuditHead entry.1 = some entry.2 ∧
      ∀ witnessed, Assoc.get? body.tasks entry.1 = some witnessed → witnessed.2 < entry.2.2 := by
  obtain ⟨⟨taskId, head⟩, hmem, hsome⟩ := mem_filterMap.1 h
  split_ifs at hsome with hcond
  obtain rfl := Option.some.inj hsome
  refine ⟨?_, fun witnessed hw => ?_⟩
  · unfold Store.transactionAuditHead
    rw [Assoc.mem_items_iff.1 hmem]
    rfl
  · have hall := hcond.2
    rw [hw] at hall
    exact of_decide_eq_true hall

/-- A head of this host that the floor has not seen may be recorded. -/
theorem FloorInv.candidate (h : FloorInv fh.host s)
    (hbody : ∀ taskId, Assoc.get? body.tasks taskId = s.entry taskId) {entry : String × String × Int}
    (hmem : entry ∈ fh.candidates body s.db) : Advances fh.host s s.db entry.1 entry.2 := by
  obtain ⟨hhead, hahead⟩ := mem_candidates hmem
  rw [h.chainedDb.heads] at hhead
  have hnew : ∀ current, s.entry entry.1 = some current → current.2 < entry.2.2 :=
    fun current hc => hahead current ((hbody entry.1).trans hc)
  refine ⟨hhead, h.chainedDb.linked entry.1, h.covers fun current hc => ?_,
    fun current hc => le_of_lt (hnew current hc)⟩
  have hlt := hnew current hc
  have hlength := chainHead_length hhead
  omega

theorem openAuditFloor_good (registry : Option (Int × String)) (hinv : FloorInv fh.host s) :
    Durable.Passes (Good fh.host s) (fh.openAuditFloor registry) (fun _ s' => Good fh.host s s') s := by
  have hgood : ∀ s', Settles s s' → Good fh.host s s' := fun s' hs => ⟨hinv.settles hs, hs.raised⟩
  refine passes_bind ((openFloor_settles fh registry s).mono hgood ?_)
  rintro (e | body) s1 ⟨hs1, hbody⟩
  · exact hgood s1 hs1
  refine passes_lift_bind (fun _ _ => hgood s1 hs1) fun _ _ => ?_
  refine passes_bind ((passes_sameTasks (fun _ _ => advanceRegistry_tasks) hs1).mono hgood ?_)
  rintro (e | _) s2 ⟨hs2, -, -⟩
  · exact hgood s2 hs2
  refine passes_read_bind ?_
  refine passes_lift_bind (fun _ _ => hgood s2 hs2) fun _ _ => ?_
  have hinv2 := hinv.settles hs2
  have hadopt : ∀ entry ∈ fh.candidates body s2.db, Advances fh.host s2 s2.db entry.1 entry.2 :=
    fun entry hm => hinv2.candidate (fun taskId => (hbody body rfl taskId).trans (hs2.entry taskId).symm) hm
  show Durable.Passes _ (if _ then _ else if _ then _ else _) _ s2
  split_ifs
  · exact passes_lift (hgood s2 hs2)
  · exact passes_pure (hgood s2 hs2)
  · refine passes_updateFloor (fun _ => hgood s2 hs2) (fun _ _ _ => hgood s2 hs2) fun old new hfloor h => ?_
    obtain ⟨hinv3, hraised3⟩ := advanceHeads_inv hfloor hinv2 hadopt h
    have hfinal : Good fh.host s { s2 with floor := some new } := ⟨hinv3, hs2.raised.trans hraised3⟩
    exact ⟨hfinal, hfinal⟩

theorem compareAll_upholds (hsha : Function.Injective host.sha256) (hc : Chained host db)
    (h : compareAll host.env body db = .ok ()) (hentry : Assoc.get? body.tasks taskId = some entry) :
    Upholds host db taskId entry := by
  have hone := (forM_ok_iff _ _).1 h (taskId, entry) (Assoc.mem_items_iff.2 hentry)
  rw [hc.auditHead] at hone
  obtain ⟨hrolled, hforked⟩ := refuse_ok hone
  exact compareHead_upholds hsha hc hrolled hforked

/-- A host starts only on a database that has what the floor recorded of every task. -/
theorem openAuditFloor_upholds (hsha : Function.Injective fh.host.sha256)
    (hc : Chained fh.host s.db) {registry : Option (Int × String)} (h : (fh.openAuditFloor registry s).2 = .ok ())
    (hentry : s.entry taskId = some entry) : Upholds fh.host s.db taskId entry := by
  have hpasses : Durable.Passes (fun _ => True) (fh.openAuditFloor registry)
      (fun r _ => r = .ok () → Upholds fh.host s.db taskId entry) s := by
    refine passes_bind ((openFloor_settles fh registry s).mono (fun _ _ => trivial) ?_)
    rintro (e | body) s1 ⟨hs1, hbody⟩
    · exact fun hr => by cases hr
    refine passes_lift_bind (fun _ _ hr => by cases hr) fun _ _ => ?_
    refine passes_bind ((passes_sameTasks (fun _ _ => advanceRegistry_tasks) hs1).mono (fun _ _ => trivial) ?_)
    rintro (e | _) s2 ⟨hs2, -, -⟩
    · exact fun hr => by cases hr
    refine passes_read_bind ?_
    refine passes_lift_bind (fun _ _ hr => by cases hr) fun _ hcompare => ?_
    have hupholds := compareAll_upholds hsha (chained_congr hc hs2.events hs2.heads) hcompare
      ((hbody body rfl taskId).trans hentry)
    -- the database that was compared has the chains of the one it started with
    have hsame : Upholds fh.host s.db taskId entry := by
      refine ⟨hs2.events ▸ hupholds.long, ?_, hs2.events ▸ hupholds.begins⟩
      have hhash := hupholds.same
      unfold Store.auditEventHash at hhash ⊢
      rw [hs2.events] at hhash
      exact hhash
    exact (passes_const hsame).mono (fun _ _ => trivial) fun _ _ h _ => h
  exact hpasses.ends h

/-! ## Whole runs -/

theorem leave_good {α : Type} {code : FloorCode α} (hinv : FloorInv host s)
    (h : Durable.Passes (Good host s) code (fun _ s' => Good host s s') s) (crash : Option Nat) :
    Good host s (leave code s crash) := by
  rcases crash with _ | writes
  · exact h.ends
  unfold leave
  rcases eq_nil_or_concat ((code s).1.take writes) with hnil | ⟨init, last, hlast⟩
  · simp only [hnil]
    exact Good.refl hinv
  have hmem : last ∈ (code s).1 := by
    refine mem_of_mem_take (i := writes) ?_
    rw [hlast, concat_eq_append]
    exact mem_append_right _ (mem_singleton_self last)
  simp only [hlast, concat_eq_append, getLastD_concat]
  exact h.all last hmem

theorem step_good (hinv : FloorInv fh.host s) (event : FloorEvent) : Good fh.host s (fh.step s event) := by
  cases event with
  | boot registry crash => exact leave_good hinv (openAuditFloor_good registry hinv) crash
  | save save head startSequence entries signedAt crash => exact leave_good hinv (save_good hinv) crash
  | restore snapshot =>
    simp only [FloorHost.step]
    cases hget : s.commits[snapshot]? with
    | none => exact Good.refl hinv
    | some => exact ⟨⟨mem_of_getElem? hget, hinv.chained, hinv.recorded⟩, Raised.refl s⟩

theorem run_good (hinv : FloorInv fh.host s) (events : List FloorEvent) : Good fh.host s (fh.run s events) := by
  induction events generalizing s with
  | nil => exact Good.refl hinv
  | cons event events ih =>
    obtain ⟨hinv1, hraised1⟩ := step_good hinv event
    obtain ⟨hinv2, hraised2⟩ := ih hinv1
    exact ⟨hinv2, hraised1.trans hraised2⟩

def firstStart (db : Store) : FloorSystem := ⟨db, none, [db]⟩

theorem firstStart_inv (hc : Chained host db) : FloorInv host (firstStart db) := by
  refine ⟨mem_singleton_self db, forall_mem_singleton.2 hc, fun taskId d hd d' hd' => ?_⟩
  rw [mem_singleton.1 hd, mem_singleton.1 hd']

/-- After any run of starts, saves, crashes and restores: the committed chains of a task lie on one
chain; the floor only rises from there on; and no save and no start succeeds on a database, whatever
it is, that lacks what the floor recorded. -/
theorem floor_detects_rollback (fh : FloorHost) (hsha : Function.Injective fh.host.sha256) (db : Store)
    (hdb : Chained fh.host db) (events : List FloorEvent) :
    let s := fh.run (firstStart db) events
    (∀ d ∈ s.commits, ∀ d' ∈ s.commits, ∀ taskId,
      d.auditEvents taskId <+: d'.auditEvents taskId ∨ d'.auditEvents taskId <+: d.auditEvents taskId) ∧
    (∀ more taskId entry, s.entry taskId = some entry →
      ∃ entry', (fh.run s more).entry taskId = some entry' ∧ entry.2 ≤ entry'.2) ∧
    ∀ now, Chained fh.host now →
      (∀ save head startSequence entries signedAt generation,
        (fh.save save head startSequence entries signedAt { s with db := now }).2 = .ok generation →
        ∀ entry, s.entry save.taskId = some entry → Upholds fh.host now save.taskId entry) ∧
      (∀ registry, (fh.openAuditFloor registry { s with db := now }).2 = .ok () →
        ∀ taskId entry, s.entry taskId = some entry → Upholds fh.host now taskId entry) := by
  intro s
  have hinv : FloorInv fh.host s := (run_good (firstStart_inv hdb) events).1
  refine ⟨?_, ?_, ?_⟩
  · intro d hd d' hd' taskId
    exact hinv.comparable hd hd' taskId
  · intro more
    exact (run_good hinv more).2
  · intro now hnow
    refine ⟨?_, ?_⟩
    · intro save head startSequence entries signedAt generation h entry hentry
      exact save_upholds hsha (s := { s with db := now }) hnow h hentry
    · intro registry h taskId entry hentry
      exact openAuditFloor_upholds hsha (s := { s with db := now }) hnow h hentry

def literalHost : FloorHost := ⟨{ reloadingHost with sha256 := String.ofList }, fun _ _ => true⟩

def firstSave : Save where
  taskId := "task"
  effective := paymentAuthority.effective
  state := ⟨"task", "pay", 0, 0, 0, .dict [], .list [], .running, .null⟩
  nonce := none
  migrated := false
  events := []
  auditHead := ""
  closed := false
  owner := none
  authorityCeiling := none
  binding := none
  migration := none

theorem empty_chained (host : AgentHost) : Chained host Store.empty :=
  ⟨fun _ => linked_nil host, fun _ => rfl⟩

/-- A start and a save, then the database from before the save: the floor has the head, and the next
save is refused. -/
theorem floor_detects_rollback_restored :
    let s := literalHost.run (firstStart .empty)
      [.boot none none, .save firstSave "" 0 [("admitted", [])] 100 none, .restore 1]
    (s.commits.length = 4 ∧ (s.entry "task").map Prod.snd = some 1 ∧
      (literalHost.save firstSave "" 0 [("admitted", [])] 100 s).2.toOption = none) ∧
    ∀ d ∈ s.commits, ∀ d' ∈ s.commits, ∀ taskId,
      d.auditEvents taskId <+: d'.auditEvents taskId ∨ d'.auditEvents taskId <+: d.auditEvents taskId :=
  ⟨by decide +kernel,
    (floor_detects_rollback literalHost (fun _ _ h => String.ofList_injective h) .empty (empty_chained _) _).1⟩

end Portmark.Host
