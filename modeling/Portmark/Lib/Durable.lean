/-
Code whose writes are durable one by one. It passes through a list of states; a crash leaves the
one it had reached. `Passes` says what holds of every state passed and of the outcome.
-/
import Mathlib.Data.List.Basic

namespace Portmark.Lib

open List

def Durable (σ ε α : Type) : Type := σ → List σ × Except ε α

namespace Durable

variable {σ ε α β : Type}

def final (c : Durable σ ε α) (s : σ) : σ := (c s).1.getLastD s

protected def pure (a : α) : Durable σ ε α := fun _ => ([], .ok a)

protected def bind (c : Durable σ ε α) (f : α → Durable σ ε β) : Durable σ ε β := fun s =>
  match (c s).2 with
  | .ok a => ((c s).1 ++ (f a (c.final s)).1, (f a (c.final s)).2)
  | .error e => ((c s).1, .error e)

instance : Monad (Durable σ ε) where
  pure := Durable.pure
  bind := Durable.bind

def read : Durable σ ε σ := fun s => ([], .ok s)

def write (s' : σ) : Durable σ ε Unit := fun _ => ([s'], .ok ())

def lift (x : Except ε α) : Durable σ ε α := fun _ => ([], x)

/-- Every state passed has `P`, and the code ends with `Q`. -/
structure Passes (P : σ → Prop) (c : Durable σ ε α) (Q : Except ε α → σ → Prop) (s : σ) : Prop where
  all : ∀ s' ∈ (c s).1, P s'
  ends : Q (c s).2 (c.final s)

section Rules

variable {P : σ → Prop} {s : σ}

variable {c : Durable σ ε α} {f : α → Durable σ ε β}

theorem final_bind_ok {a : α} (h : (c s).2 = .ok a) :
    (c >>= f) s = ((c s).1 ++ (f a (c.final s)).1, (f a (c.final s)).2) ∧
    Durable.final (c >>= f) s = (f a).final (c.final s) := by
  have heq : (c >>= f) s = ((c s).1 ++ (f a (c.final s)).1, (f a (c.final s)).2) := by
    show Durable.bind c f s = _
    simp only [Durable.bind, h]
  unfold Durable.final at heq ⊢
  rw [heq]
  rcases eq_nil_or_concat (f a ((c s).1.getLastD s)).1 with hnil | ⟨init, last, hlast⟩
  · rw [hnil]
    simp
  · rw [hlast]
    simp

variable {Q : Except ε α → σ → Prop}

theorem Passes.mono {P' : σ → Prop} {Q' : Except ε α → σ → Prop} (h : Passes P c Q s)
    (hP : ∀ s', P s' → P' s') (hQ : ∀ r s', Q r s' → Q' r s') : Passes P' c Q' s :=
  ⟨fun s' hs => hP s' (h.all s' hs), hQ _ _ h.ends⟩

theorem passes_const {p : Prop} (h : p) : Passes (fun _ => True) c (fun _ _ => p) s :=
  ⟨fun _ _ => trivial, h⟩

theorem passes_pure {a : α} (h : Q (.ok a) s) : Passes P (pure a) Q s :=
  ⟨fun _ hs => absurd hs not_mem_nil, h⟩

theorem passes_read {Q : Except ε σ → σ → Prop} (h : Q (.ok s) s) : Passes P read Q s :=
  ⟨fun _ hs => absurd hs not_mem_nil, h⟩

theorem passes_write {s' : σ} {Q : Except ε Unit → σ → Prop} (hP : P s') (h : Q (.ok ()) s') :
    Passes P (write s') Q s :=
  ⟨fun _ hs => mem_singleton.1 hs ▸ hP, h⟩

theorem passes_lift {x : Except ε α} (h : Q x s) : Passes P (lift x) Q s :=
  ⟨fun _ hs => absurd hs not_mem_nil, h⟩

theorem passes_bind {Q : Except ε β → σ → Prop} (h : Passes P c (fun r s' =>
      match r with
      | .ok a => Passes P (f a) Q s'
      | .error e => Q (.error e) s') s) : Passes P (c >>= f) Q s := by
  have hends := h.ends
  cases hr : (c s).2 with
  | ok =>
    obtain ⟨heq, hfinal⟩ := final_bind_ok (f := f) hr
    simp only [hr] at hends
    refine ⟨fun s' hs => ?_, ?_⟩
    · rw [heq] at hs
      rcases mem_append.1 hs with hs | hs
      · exact h.all s' hs
      · exact hends.all s' hs
    · rw [heq, hfinal]
      exact hends.ends
  | error e =>
    have heq : (c >>= f) s = ((c s).1, .error e) := by
      show Durable.bind c f s = _
      simp only [Durable.bind, hr]
    simp only [hr] at hends
    refine ⟨fun s' hs => h.all s' (by rw [heq] at hs; exact hs), ?_⟩
    unfold Durable.final
    rw [heq]
    exact hends

theorem passes_read_bind {f : σ → Durable σ ε β} {Q : Except ε β → σ → Prop} (h : Passes P (f s) Q s) :
    Passes P (read >>= f) Q s :=
  passes_bind (passes_read h)

theorem passes_lift_bind {x : Except ε α} {Q : Except ε β → σ → Prop}
    (herror : ∀ e, x = .error e → Q (.error e) s) (h : ∀ a, x = .ok a → Passes P (f a) Q s) :
    Passes P (lift x >>= f) Q s := by
  refine passes_bind (passes_lift ?_)
  cases hx : x with
  | error e => exact herror e hx
  | ok a => exact h a hx

end Rules

end Durable

end Portmark.Lib
