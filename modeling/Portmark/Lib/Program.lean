/-
Programs that ask their surroundings one question at a time, code with local variables and
exceptions on top of them, and pools of such programs run in any interleaving over one world. A
`Monitor` watches the calls of a program: `Prog.Follows` says that every call it can make is
allowed by the monitor, whatever is answered, and `Pool.follows` carries that to every process of
every run of a pool, its state being the fold of the process's own history.
-/
import Mathlib.Algebra.GroupWithZero.Nat
import Mathlib.Data.List.Basic

namespace Portmark.Lib

open List

inductive Prog {ι : Type} (ρ : ι → Type) (α : Type) : Type where
  | ret (a : α)
  | ask (i : ι) (k : ρ i → Prog ρ α)

structure Call {ι : Type} (ρ : ι → Type) where
  op : ι
  answer : ρ op

section Programs

variable {ι : Type} {ρ : ι → Type} {α β : Type}

namespace Prog

def bind : Prog ρ α → (α → Prog ρ β) → Prog ρ β
  | ret a, f => f a
  | ask i k, f => ask i fun r => (k r).bind f

instance : Monad (Prog ρ) where
  pure := ret
  bind := bind

end Prog

structure Monitor (ρ : ι → Type) where
  State : Type
  next : State → (i : ι) → ρ i → State
  allows : State → ι → Prop
  answers : (i : ι) → ρ i → Prop

namespace Monitor

def advance (m : Monitor ρ) (s : m.State) (c : Call ρ) : m.State := m.next s c.op c.answer

def after (m : Monitor ρ) (s : m.State) (h : List (Call ρ)) : m.State := h.foldl m.advance s

@[simp] theorem after_nil (m : Monitor ρ) (s : m.State) : m.after s [] = s := rfl

@[simp] theorem after_concat (m : Monitor ρ) (s : m.State) (h : List (Call ρ)) (c : Call ρ) :
    m.after s (h ++ [c]) = m.next (m.after s h) c.op c.answer := by
  simp [after, advance]

end Monitor

/-- Every question the program can come to is allowed, and it ends in a state with `Q`. -/
def Prog.Follows (m : Monitor ρ) (Q : α → m.State → Prop) : Prog ρ α → m.State → Prop
  | .ret a, s => Q a s
  | .ask i k, s => m.allows s i ∧ ∀ r, m.answers i r → (k r).Follows m Q (m.next s i r)

theorem Prog.Follows.mono {m : Monitor ρ} {Q Q' : α → m.State → Prop} (hQ : ∀ a s, Q a s → Q' a s) :
    ∀ {p : Prog ρ α} {s : m.State}, p.Follows m Q s → p.Follows m Q' s
  | .ret a, s, h => hQ a s h
  | .ask _ _, _, h => ⟨h.1, fun r hr => (h.2 r hr).mono hQ⟩

theorem Prog.follows_congr {m : Monitor ρ} {Q Q' : α → m.State → Prop} (hQ : ∀ a s, Q a s ↔ Q' a s) {p : Prog ρ α}
    {s : m.State} : p.Follows m Q s ↔ p.Follows m Q' s :=
  ⟨.mono fun a s => (hQ a s).1, .mono fun a s => (hQ a s).2⟩

theorem Prog.follows_bind {m : Monitor ρ} {Q : β → m.State → Prop} {f : α → Prog ρ β} : ∀ {p : Prog ρ α} {s : m.State},
      (p.bind f).Follows m Q s ↔ p.Follows m (fun a s' => (f a).Follows m Q s') s
  | .ret _, _ => Iff.rfl
  | .ask _ _, _ => and_congr_right fun _ => forall_congr' fun _ => imp_congr_right fun _ => Prog.follows_bind

end Programs

/-! ## Code -/

/-- Code with local variables `σ` that may raise `ε`. What it changed stays changed when it raises. -/
def Code {ι : Type} (ρ : ι → Type) (σ ε α : Type) : Type := σ → Prog ρ (Except ε α × σ)

namespace Code

variable {ι : Type} {ρ : ι → Type} {σ ε α β : Type}

protected def pure (a : α) : Code ρ σ ε α := fun l => .ret (.ok a, l)

protected def throw (e : ε) : Code ρ σ ε α := fun l => .ret (.error e, l)

protected def bind (c : Code ρ σ ε α) (f : α → Code ρ σ ε β) : Code ρ σ ε β := fun l =>
  (c l).bind fun
    | (.ok a, l') => f a l'
    | (.error e, l') => .ret (.error e, l')

/-- `try: c except e: f(e)`. -/
protected def tryCatch (c : Code ρ σ ε α) (f : ε → Code ρ σ ε α) : Code ρ σ ε α := fun l =>
  (c l).bind fun
    | (.ok a, l') => .ret (.ok a, l')
    | (.error e, l') => f e l'

instance : Monad (Code ρ σ ε) where
  pure := Code.pure
  bind := Code.bind

instance : MonadExceptOf ε (Code ρ σ ε) where
  throw := Code.throw
  tryCatch := Code.tryCatch

instance : MonadStateOf σ (Code ρ σ ε) where
  get := fun l => .ret (.ok l, l)
  set l := fun _ => .ret (.ok (), l)
  modifyGet f := fun l => .ret (.ok (f l).1, (f l).2)

def ask (i : ι) : Code ρ σ ε (ρ i) := fun l => .ask i fun r => .ret (.ok r, l)

def lift : Except ε α → Code ρ σ ε α
  | .ok a => Code.pure a
  | .error e => Code.throw e

/-- `try: c finally: f`: an error of the clean-up replaces the outcome. -/
def finally_ (c : Code ρ σ ε α) (f : Code ρ σ ε Unit) : Code ρ σ ε α := fun l =>
  (c l).bind fun (r, l') => (f l').bind fun
    | (.ok _, l'') => .ret (r, l'')
    | (.error e, l'') => .ret (.error e, l'')

/-! ### What code does -/

/-- Every question the code can come to is allowed, and it ends, by returning or raising, with `Q`. -/
def Meets (m : Monitor ρ) (c : Code ρ σ ε α) (Q : Except ε α → σ → m.State → Prop) (l : σ) (s : m.State) : Prop :=
  (c l).Follows m (fun r s' => Q r.1 r.2 s') s

section Rules

variable {m : Monitor ρ} {l : σ} {s : m.State}

variable {c : Code ρ σ ε α} {Q : Except ε α → σ → m.State → Prop}

theorem Meets.mono {Q' : Except ε α → σ → m.State → Prop} (h : Meets m c Q l s)
    (hQ : ∀ r l' s', Q r l' s' → Q' r l' s') : Meets m c Q' l s :=
  Prog.Follows.mono (fun (r : Except ε α × σ) s' => hQ r.1 r.2 s') h

@[simp] theorem meets_pure {a : α} : Meets m (pure a) Q l s ↔ Q (.ok a) l s := Iff.rfl

@[simp] theorem meets_throw {e : ε} : Meets m (throw e) Q l s ↔ Q (.error e) l s := Iff.rfl

@[simp] theorem meets_get {Q : Except ε σ → σ → m.State → Prop} :
    Meets m (get : Code ρ σ ε σ) Q l s ↔ Q (.ok l) l s := Iff.rfl

@[simp] theorem meets_set {l₀ : σ} {Q : Except ε PUnit → σ → m.State → Prop} :
    Meets m (set l₀ : Code ρ σ ε PUnit) Q l s ↔ Q (.ok ⟨⟩) l₀ s := Iff.rfl

@[simp] theorem meets_modify {f : σ → σ} {Q : Except ε PUnit → σ → m.State → Prop} :
    Meets m (modify f : Code ρ σ ε PUnit) Q l s ↔ Q (.ok ⟨⟩) (f l) s := Iff.rfl

@[simp] theorem meets_ask {i : ι} {Q : Except ε (ρ i) → σ → m.State → Prop} :
    Meets m (ask i : Code ρ σ ε (ρ i)) Q l s ↔
      m.allows s i ∧ ∀ r, m.answers i r → Q (.ok r) l (m.next s i r) := Iff.rfl

@[simp] theorem meets_lift {x : Except ε α} : Meets m (lift x : Code ρ σ ε α) Q l s ↔ Q x l s := by
  cases x <;> rfl

variable {f : α → Code ρ σ ε β}

theorem meets_bind {Q : Except ε β → σ → m.State → Prop} : Meets m (c >>= f) Q l s ↔ Meets m c (fun r l' s' =>
      match r with
      | .ok a => Meets m (f a) Q l' s'
      | .error e => Q (.error e) l' s') l s := by
  show ((c l).bind _).Follows m _ s ↔ _
  rw [Prog.follows_bind]
  refine Prog.follows_congr fun r s' => ?_
  rcases r with ⟨e | a, l'⟩ <;> rfl

theorem meets_tryCatch {f : ε → Code ρ σ ε α} : Meets m (tryCatch c f) Q l s ↔ Meets m c (fun r l' s' =>
      match r with
      | .ok a => Q (.ok a) l' s'
      | .error e => Meets m (f e) Q l' s') l s := by
  show ((c l).bind _).Follows m _ s ↔ _
  rw [Prog.follows_bind]
  refine Prog.follows_congr fun r s' => ?_
  rcases r with ⟨e | a, l'⟩ <;> rfl

theorem meets_finally {f : Code ρ σ ε Unit} :
    Meets m (finally_ c f) Q l s ↔ Meets m c (fun r l' s' => Meets m f (fun r' l'' s'' =>
      match r' with
      | .ok _ => Q r l'' s''
      | .error e => Q (.error e) l'' s'') l' s') l s := by
  show ((c l).bind _).Follows m _ s ↔ _
  rw [Prog.follows_bind]
  have hstep : ∀ (r : Except ε α) (l' : σ) (s' : m.State),
      ((f l').bind fun x : Except ε Unit × σ => (match x with
        | (.ok _, l'') => Prog.ret (r, l'')
        | (.error e, l'') => .ret (.error e, l'') : Prog ρ (Except ε α × σ))).Follows m (fun r s' => Q r.1 r.2 s') s' ↔
      (f l').Follows m (fun x s'' => match x.1 with
        | .ok _ => Q r x.2 s''
        | .error e => Q (.error e) x.2 s'') s' := by
    intro r l' s'
    rw [Prog.follows_bind]
    refine Prog.follows_congr fun x s'' => ?_
    rcases x with ⟨e | a, l''⟩ <;> rfl
  exact Prog.follows_congr fun (r : Except ε α × σ) s' => hstep r.1 r.2 s'

variable {R : Except ε α → σ → m.State → Prop}

/-- Code in sequence: what the first part ends with is enough for the second. -/
theorem Meets.bind {Q : Except ε β → σ → m.State → Prop} (h : Meets m c R l s)
    (hok : ∀ a l' s', R (.ok a) l' s' → Meets m (f a) Q l' s')
    (herror : ∀ e l' s', R (.error e) l' s' → Q (.error e) l' s') : Meets m (c >>= f) Q l s := by
  refine meets_bind.2 (h.mono fun r l' s' hr => ?_)
  cases r with
  | ok a => exact hok a l' s' hr
  | error e => exact herror e l' s' hr

theorem meets_get_bind {f : σ → Code ρ σ ε β} {Q : Except ε β → σ → m.State → Prop} (h : Meets m (f l) Q l s) :
    Meets m (get >>= f) Q l s :=
  meets_bind.2 (meets_get.2 h)

theorem meets_lift_bind {x : Except ε α} {Q : Except ε β → σ → m.State → Prop}
    (hok : ∀ a, x = .ok a → Meets m (f a) Q l s) (herror : ∀ e, Q (.error e) l s) : Meets m (lift x >>= f) Q l s := by
  cases x with
  | ok a => exact hok a rfl
  | error e => exact herror e

theorem Meets.tryCatch {f : ε → Code ρ σ ε α} (h : Meets m c R l s)
    (hok : ∀ a l' s', R (.ok a) l' s' → Q (.ok a) l' s')
    (herror : ∀ e l' s', R (.error e) l' s' → Meets m (f e) Q l' s') : Meets m (MonadExceptOf.tryCatch c f) Q l s := by
  refine meets_tryCatch.2 (h.mono fun r l' s' hr => ?_)
  cases r with
  | ok a => exact hok a l' s' hr
  | error e => exact herror e l' s' hr

theorem meets_ite {d : Code ρ σ ε α} {P : Prop} [Decidable P]
    (hc : P → Meets m c Q l s) (hd : ¬ P → Meets m d Q l s) : Meets m (if P then c else d) Q l s := by
  split
  · exact hc ‹P›
  · exact hd ‹¬ P›

theorem Meets.finally {f : Code ρ σ ε Unit} (h : Meets m c R l s)
    (hf : ∀ r l' s', R r l' s' → Meets m f (fun r' l'' s'' =>
      (r' = .ok () → Q r l'' s'') ∧ ∀ e, r' = .error e → Q (.error e) l'' s'') l' s') :
        Meets m (finally_ c f) Q l s := by
  refine meets_finally.2 (h.mono fun r l' s' hr => (hf r l' s' hr).mono fun r' l'' s'' hr' => ?_)
  cases r' with
  | ok => exact hr'.1 rfl
  | error e => exact hr'.2 e rfl

end Rules

end Code

/-! ## Pools -/

structure Proc {ι : Type} (ρ : ι → Type) (J α : Type) where
  job : J
  rest : Prog ρ α
  history : List (Call ρ)
  alive : Bool

structure Pool {ι : Type} (ρ : ι → Type) (J α W : Type) where
  world : W
  procs : List (Proc ρ J α)

inductive PoolEvent (J H A : Type) where
  | start (job : J)
  | step (pid : Nat) (hint : H)
  | crash (pid : Nat)
  | act (a : A)

structure Machine {ι : Type} (ρ : ι → Type) (J α W H A : Type) where
  program : J → Prog ρ α
  serve : J → (i : ι) → H → W → Option (ρ i × W)
  act : A → W → W

namespace Machine

variable {ι : Type} {ρ : ι → Type} {J α W H A : Type}

def step (M : Machine ρ J α W H A) (pool : Pool ρ J α W) : PoolEvent J H A → Pool ρ J α W
  | .start job => { pool with procs := pool.procs ++ [⟨job, M.program job, [], true⟩] }
  | .step pid hint =>
    match pool.procs[pid]? with
    | some ⟨job, .ask i k, history, true⟩ =>
      match M.serve job i hint pool.world with
      | some (r, w) => ⟨w, pool.procs.set pid ⟨job, k r, history ++ [⟨i, r⟩], true⟩⟩
      | none => pool
    | _ => pool
  | .crash pid =>
    match pool.procs[pid]? with
    | some p => { pool with procs := pool.procs.set pid { p with alive := false } }
    | none => pool
  | .act a => { pool with world := M.act a pool.world }

def run (M : Machine ρ J α W H A) (pool : Pool ρ J α W) (events : List (PoolEvent J H A)) : Pool ρ J α W :=
  events.foldl M.step pool

/-- A condition met at every event of a run, before it happens. -/
def Each (M : Machine ρ J α W H A) (C : Pool ρ J α W → PoolEvent J H A → Prop) :
    Pool ρ J α W → List (PoolEvent J H A) → Prop
  | _, [] => True
  | pool, e :: events => C pool e ∧ M.Each C (M.step pool e) events

instance decidableEach (M : Machine ρ J α W H A) (C : Pool ρ J α W → PoolEvent J H A → Prop)
    [∀ pool e, Decidable (C pool e)] (pool : Pool ρ J α W) (events : List (PoolEvent J H A)) :
    Decidable (M.Each C pool events) :=
  match events with
  | [] => isTrue trivial
  | e :: events =>
    have := decidableEach M C (M.step pool e) events
    inferInstanceAs (Decidable (C pool e ∧ M.Each C (M.step pool e) events))

variable {M : Machine ρ J α W H A}

theorem run_cons (pool : Pool ρ J α W) (e : PoolEvent J H A) (events : List (PoolEvent J H A)) :
    M.run pool (e :: events) = M.run (M.step pool e) events := rfl

theorem run_append (pool : Pool ρ J α W) (es fs : List (PoolEvent J H A)) :
    M.run pool (es ++ fs) = M.run (M.run pool es) fs := by
  simp [run]

variable {pool : Pool ρ J α W}

theorem each_append {C : Pool ρ J α W → PoolEvent J H A → Prop}
    {es fs : List (PoolEvent J H A)} : M.Each C pool (es ++ fs) ↔ M.Each C pool es ∧ M.Each C (M.run pool es) fs := by
  induction es generalizing pool with
  | nil => exact ⟨fun h => ⟨trivial, h⟩, fun h => h.2⟩
  | cons e es ih => exact (and_congr_right fun _ => ih).trans (and_assoc.symm)

theorem Each.invariant {C : Pool ρ J α W → PoolEvent J H A → Prop} {I : Pool ρ J α W → Prop}
    (hstep : ∀ pool e, C pool e → I pool → I (M.step pool e)) {events : List (PoolEvent J H A)}
    (hC : M.Each C pool events) (h : I pool) : I (M.run pool events) := by
  induction events generalizing pool with
  | nil => exact h
  | cons e events ih => exact ih hC.2 (hstep pool e hC.1 h)

theorem invariant {I : Pool ρ J α W → Prop} (hstep : ∀ pool e, I pool → I (M.step pool e))
    (pool : Pool ρ J α W) (events : List (PoolEvent J H A)) (h : I pool) : I (M.run pool events) := by
  induction events generalizing pool with
  | nil => exact h
  | cons e events ih => exact ih (M.step pool e) (hstep pool e h)

inductive Moves (M : Machine ρ J α W H A) (pool : Pool ρ J α W) : PoolEvent J H A → Pool ρ J α W → Prop
  | idle (e : PoolEvent J H A) : Moves M pool e pool
  | started (job : J) :
    Moves M pool (.start job) { pool with procs := pool.procs ++ [⟨job, M.program job, [], true⟩] }
  | served {pid : Nat} {hint : H} {job : J} {i : ι} {k : ρ i → Prog ρ α} {history : List (Call ρ)} {r : ρ i} {w : W}
    (hp : pool.procs[pid]? = some ⟨job, .ask i k, history, true⟩) (hs : M.serve job i hint pool.world = some (r, w)) :
    Moves M pool (.step pid hint) ⟨w, pool.procs.set pid ⟨job, k r, history ++ [⟨i, r⟩], true⟩⟩
  | crashed {pid : Nat} {p : Proc ρ J α} (hp : pool.procs[pid]? = some p) :
    Moves M pool (.crash pid) { pool with procs := pool.procs.set pid { p with alive := false } }
  | acted (a : A) : Moves M pool (.act a) { pool with world := M.act a pool.world }

theorem step_moves (pool : Pool ρ J α W) (e : PoolEvent J H A) : Moves M pool e (M.step pool e) := by
  cases e with
  | start job => exact .started job
  | step =>
    simp only [step]
    split
    · rename_i job i k history hp
      split
      · exact .served hp ‹_›
      · exact .idle _
    · exact .idle _
  | crash =>
    simp only [step]
    split
    · exact .crashed ‹_›
    · exact .idle _
  | act a => exact .acted a

def started : PoolEvent J H A → Option J
  | .start job => some job
  | _ => none

theorem getElem?_set_cases {β : Type} {l : List β} {n m : Nat} {x y : β} (h : (l.set n x)[m]? = some y) :
    n = m ∧ x = y ∨ n ≠ m ∧ l[m]? = some y := by
  rw [getElem?_set] at h
  split at h
  · split at h <;> cases h
    exact .inl ⟨‹_›, rfl⟩
  · exact .inr ⟨‹_›, h⟩

theorem map_job_set {procs : List (Proc ρ J α)} {pid : Nat} {p q : Proc ρ J α} (hp : procs[pid]? = some p)
    (hjob : q.job = p.job) : (procs.set pid q).map (·.job) = procs.map (·.job) := by
  obtain ⟨hlt, rfl⟩ := List.getElem?_eq_some_iff.1 hp
  rw [map_set, hjob]
  refine ext_getElem? fun n => ?_
  rw [getElem?_set]
  split
  · rename_i heq
    subst heq
    simp [hlt]
  · rfl

theorem step_jobs (pool : Pool ρ J α W) (e : PoolEvent J H A) :
    (M.step pool e).procs.map (·.job) = pool.procs.map (·.job) ++ (started e).toList := by
  cases e with
  | start | act => simp [step, started]
  | step =>
    simp only [step, started, Option.toList_none, append_nil]
    split
    · rename_i hp
      split
      · exact map_job_set hp rfl
      · rfl
    · rfl
  | crash =>
    simp only [step, started, Option.toList_none, append_nil]
    split
    · rename_i hp
      exact map_job_set hp rfl
    · rfl

theorem run_jobs (pool : Pool ρ J α W) (events : List (PoolEvent J H A)) :
    (M.run pool events).procs.map (·.job) = pool.procs.map (·.job) ++ events.filterMap started := by
  induction events generalizing pool with
  | nil => exact (append_nil _).symm
  | cons e events ih =>
    rw [run_cons, ih, step_jobs, append_assoc]
    cases h : started e <;> simp [h]

/-! ### Watching a pool -/

structure Watch (M : Machine ρ J α W H A) where
  monitor : Monitor ρ
  init : J → monitor.State
  post : J → α → monitor.State → Prop
  starts : ∀ job, (M.program job).Follows monitor (post job) (init job)
  served : ∀ {job i hint w r w'}, M.serve job i hint w = some (r, w') → monitor.answers i r

namespace Watch

variable (X : Watch M)

def state (p : Proc ρ J α) : X.monitor.State := X.monitor.after (X.init p.job) p.history

structure Kept (p : Proc ρ J α) : Prop where
  rest : p.rest.Follows X.monitor (X.post p.job) (X.state p)
  history : ∀ before c after, p.history = before ++ c :: after →
    X.monitor.allows (X.monitor.after (X.init p.job) before) c.op ∧ X.monitor.answers c.op c.answer

def AllKept (pool : Pool ρ J α W) : Prop := ∀ p ∈ pool.procs, X.Kept p

variable {X}

theorem Kept.call {job : J} {i : ι} {k : ρ i → Prog ρ α} {history : List (Call ρ)} {alive alive' : Bool} {r : ρ i}
    (h : X.Kept ⟨job, .ask i k, history, alive⟩) (hr : X.monitor.answers i r) :
    X.Kept ⟨job, k r, history ++ [⟨i, r⟩], alive'⟩ := by
  obtain ⟨hallow, hrest⟩ := h.rest
  refine ⟨?_, ?_⟩
  · unfold state
    rw [Monitor.after_concat]
    exact hrest r hr
  · intro before c after heq
    rcases eq_nil_or_concat after with rfl | ⟨after', c', rfl⟩
    · obtain ⟨rfl, hc⟩ := append_inj' heq rfl
      cases hc
      exact ⟨hallow, hr⟩
    · rw [concat_eq_append, ← cons_append, ← append_assoc] at heq
      obtain ⟨heq, -⟩ := append_inj' heq rfl
      exact h.history before c after' heq

theorem AllKept.step (h : X.AllKept pool) (e : PoolEvent J H A) : X.AllKept (M.step pool e) := by
  have hmoves := M.step_moves pool e
  generalize M.step pool e = pool' at hmoves
  intro p hp
  cases hmoves with
  | idle => exact h p hp
  | started job =>
    rcases mem_append.1 hp with hp | hp
    · exact h p hp
    · cases mem_singleton.1 hp
      exact ⟨X.starts job, fun before c after heq => by simp at heq⟩
  | served hq hs =>
    rcases mem_or_eq_of_mem_set hp with hp | rfl
    · exact h p hp
    · exact (h _ (mem_of_getElem? hq)).call (X.served hs)
  | crashed hq =>
    rcases mem_or_eq_of_mem_set hp with hp | rfl
    · exact h p hp
    · obtain ⟨hrest, hhist⟩ := h _ (mem_of_getElem? hq)
      exact ⟨hrest, hhist⟩
  | acted => exact h p hp

/-- Every process of every run keeps to the monitor. -/
theorem allKept_run (w : W) (events : List (PoolEvent J H A)) : X.AllKept (M.run ⟨w, []⟩ events) :=
  M.invariant (fun _ e h => h.step e) ⟨w, []⟩ events fun _ hp => by cases hp

theorem state_call {job : J} {i : ι} {k : ρ i → Prog ρ α} {history : List (Call ρ)} {alive alive' : Bool} (r : ρ i) :
    X.state ⟨job, k r, history ++ [⟨i, r⟩], alive'⟩ = X.monitor.next (X.state ⟨job, .ask i k, history, alive⟩) i r :=
  Monitor.after_concat _ _ _ _

/-- An invariant of a pool: a property of the world, and for every process one of the world and its record. A process
keeps its own by its calls, and a call of any process keeps those of all. -/
theorem pool_invariant (X : Watch M) {I : W → Prop} {P : W → X.monitor.State → Prop}
    (hstart : ∀ w job, I w → P w (X.init job))
    (hcall : ∀ {w w' job i hint r s}, I w → P w s → X.monitor.allows s i → M.serve job i hint w = some (r, w') →
      I w' ∧ P w' (X.monitor.next s i r) ∧ ∀ s', P w s' → P w' s')
    (hact : ∀ a w, I w → I (M.act a w) ∧ ∀ s, P w s → P (M.act a w) s) (w : W) (events : List (PoolEvent J H A))
    (h : I w) : I (M.run ⟨w, []⟩ events).world ∧ ∀ p ∈ (M.run ⟨w, []⟩ events).procs,
    P (M.run ⟨w, []⟩ events).world (X.state p) := by
  have hstep : ∀ pool e, X.AllKept pool ∧ I pool.world ∧ (∀ p ∈ pool.procs, P pool.world (X.state p)) →
      X.AllKept (M.step pool e) ∧ I (M.step pool e).world ∧
        ∀ p ∈ (M.step pool e).procs, P (M.step pool e).world (X.state p) := by
    rintro pool e ⟨hkept, hI, hP⟩
    refine ⟨hkept.step e, ?_⟩
    have hmoves := M.step_moves pool e
    generalize M.step pool e = pool' at hmoves
    cases hmoves with
    | idle => exact ⟨hI, hP⟩
    | started job =>
      refine ⟨hI, fun p hp => ?_⟩
      rcases mem_append.1 hp with hp | hp
      · exact hP p hp
      · cases mem_singleton.1 hp
        exact hstart _ job hI
    | @served pid hint job i k history r w' hq hs =>
      have hmem := mem_of_getElem? hq
      obtain ⟨hI', hown, hothers⟩ := hcall hI (hP _ hmem) (hkept _ hmem).rest.1 hs
      refine ⟨hI', fun p hp => ?_⟩
      rcases mem_or_eq_of_mem_set hp with hp | rfl
      · exact hothers _ (hP p hp)
      · rw [@state_call _ _ _ _ _ _ _ _ X job i k history true true r]
        exact hown
    | @crashed pid q hq =>
      refine ⟨hI, fun p hp => ?_⟩
      rcases mem_or_eq_of_mem_set hp with hp | rfl
      · exact hP p hp
      · exact hP q (mem_of_getElem? hq)
    | acted a =>
      obtain ⟨hI', hothers⟩ := hact a pool.world hI
      exact ⟨hI', fun p hp => hothers _ (hP p hp)⟩
  exact (M.invariant hstep ⟨w, []⟩ events ⟨nofun, h, nofun⟩).2

/-- What every allowed call of a process keeps, a process keeps over every run. -/
theorem kept_along (X : Watch M) {P : X.monitor.State → Prop}
    (hnext : ∀ s i r, P s → X.monitor.allows s i → P (X.monitor.next s i r)) (hkept : X.AllKept pool)
    {pid : Nat} {p : Proc ρ J α} (hp : pool.procs[pid]? = some p) (h : P (X.state p))
    (events : List (PoolEvent J H A)) : ∃ p', (M.run pool events).procs[pid]? = some p' ∧ P (X.state p') := by
  have hlt : ∀ {procs : List (Proc ρ J α)} {q : Proc ρ J α}, procs[pid]? = some q → pid < procs.length :=
    fun hq => (List.getElem?_eq_some_iff.1 hq).1
  refine (M.invariant (I := fun pool => X.AllKept pool ∧ ∃ p', pool.procs[pid]? = some p' ∧ P (X.state p'))
    ?_ pool events ⟨hkept, p, hp, h⟩).2
  rintro pool e ⟨hkept, p, hp, h⟩
  refine ⟨hkept.step e, ?_⟩
  have hmoves := M.step_moves pool e
  generalize M.step pool e = pool' at hmoves
  cases hmoves with
  | idle | acted => exact ⟨p, hp, h⟩
  | started => exact ⟨p, by rw [getElem?_append_left (hlt hp), hp], h⟩
  | @served pid' hint job i k history r w' hq hs =>
    by_cases hpid : pid' = pid
    · subst hpid
      rw [hp] at hq
      cases hq
      refine ⟨_, getElem?_set_self (hlt hp), ?_⟩
      rw [@state_call _ _ _ _ _ _ _ _ X job i k history true true r]
      exact hnext _ i r h (hkept _ (mem_of_getElem? hp)).rest.1
    · exact ⟨p, by rw [getElem?_set_ne hpid, hp], h⟩
  | @crashed pid' q hq =>
    by_cases hpid : pid' = pid
    · subst hpid
      rw [hp] at hq
      cases hq
      exact ⟨_, getElem?_set_self (hlt hp), h⟩
    · exact ⟨p, by rw [getElem?_set_ne hpid, hp], h⟩

end Watch

end Machine

/-! ### Sums over the processes -/

theorem sum_map_set {β : Type} (f : β → Nat) {l : List β} {n : Nat} {x y : β} (h : l[n]? = some x) :
    ((l.set n y).map f).sum + f x = (l.map f).sum + f y := by
  induction l generalizing n with
  | nil => cases h
  | cons z l ih =>
    cases n with
    | zero =>
      cases h
      simp only [set_cons_zero, map_cons, sum_cons]
      omega
    | succ n =>
      have := ih (n := n) (by simpa using h)
      simp only [set_cons_succ, map_cons, sum_cons]
      omega

end Portmark.Lib
