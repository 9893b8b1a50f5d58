/-
A resource that callers claim under a lease: a claim is granted, renewed, used to start some work,
and given up by settling the resource for good or by releasing it. A journal lists what happened,
in order. `Valid` says that every entry was possible in the standing the journal had reached, and
`Valid.exclusive` what follows for any journal: one settlement, by the latest claim and under a
live lease, and nothing by a claim that was superseded.
-/
import Mathlib.Data.List.Basic
import Mathlib.Data.List.Induction
import Mathlib.Data.List.Pairwise
import Mathlib.Tactic.Common

namespace Portmark.Lib.Claim

open List

variable {π κ : Type}

/-! ## Journals -/

inductive Deed where
  | granted
  | renewed
  | started
  | settled
  | released
deriving DecidableEq

structure Entry (π κ : Type) where
  caller : π
  claim : κ
  deed : Deed
  time : Int
deriving DecidableEq

inductive Standing (π κ : Type) where
  | initial
  | held (caller : π) (claim : κ) (lease : Int)
  | free
  | closed

section Journal

variable (term : Int)

/-- The standing after one more entry. A grant and a renewal run for `term`. -/
def Standing.after (s : Standing π κ) (e : Entry π κ) : Standing π κ :=
  match e.deed with
  | .granted => .held e.caller e.claim (e.time + term)
  | .renewed => .held e.caller e.claim (e.time + term)
  | .started => s
  | .settled => .closed
  | .released => .free

def standing (journal : List (Entry π κ)) : Standing π κ := journal.foldl (Standing.after term) .initial

def latestGrant (journal : List (Entry π κ)) : Option (π × κ) :=
  (journal.reverse.find? fun e => e.deed == .granted).map fun e => (e.caller, e.claim)

def leaseOf [DecidableEq κ] (journal : List (Entry π κ)) (claim : κ) : Option Int :=
  (journal.reverse.find? fun e => decide (e.claim = claim) && (e.deed == .granted || e.deed == .renewed)).map
    fun e => e.time + term

/-- What an entry needs: only the holder acts, it settles within its lease, and a grant finds the resource free or the
lease over. -/
def Standing.Admits (s : Standing π κ) (e : Entry π κ) : Prop :=
  match e.deed with
  | .granted => s ≠ .closed ∧ ∀ caller claim lease, s = .held caller claim lease → lease ≤ e.time
  | .settled => ∃ lease, s = .held e.caller e.claim lease ∧ e.time < lease
  | _ => ∃ lease, s = .held e.caller e.claim lease

structure Proper (journal : List (Entry π κ)) (e : Entry π κ) : Prop where
  admits : (standing term journal).Admits e
  fresh : e.deed = .granted → ∀ f ∈ journal, f.claim ≠ e.claim
  renewed : e.deed = .started → ∃ time, ⟨e.caller, e.claim, .renewed, time⟩ ∈ journal

def Valid (journal : List (Entry π κ)) : Prop :=
  ∀ before e after, journal = before ++ e :: after → Proper term before e

end Journal

@[simp] theorem standing_nil (term : Int) : standing term ([] : List (Entry π κ)) = .initial := rfl

@[simp] theorem standing_concat (term : Int) (journal : List (Entry π κ)) (e : Entry π κ) :
    standing term (journal ++ [e]) = (standing term journal).after term e := by
  simp [standing]

variable {claim : κ} {journal : List (Entry π κ)} {lease : Int}

theorem standing_held_mem {term : Int} {caller : π} (h : standing term journal = .held caller claim lease) :
    ∃ e ∈ journal, e.caller = caller ∧ e.claim = claim := by
  induction journal using reverseRecOn with
  | nil => cases h
  | append_singleton journal e ih =>
    rw [standing_concat] at h
    unfold Standing.after at h
    cases hdeed : e.deed with
    | granted | renewed =>
      rw [hdeed] at h
      cases h
      exact ⟨e, by simp, rfl, rfl⟩
    | started =>
      rw [hdeed] at h
      obtain ⟨f, hf, hcaller, hclaim⟩ := ih h
      exact ⟨f, mem_append_left _ hf, hcaller, hclaim⟩
    | settled | released =>
      rw [hdeed] at h
      cases h

variable {e : Entry π κ}

theorem standing_initial {term : Int} (h : standing term journal = .initial) (he : e ∈ journal) :
    e.deed = .started := by
  induction journal using reverseRecOn with
  | nil => cases he
  | append_singleton journal f ih =>
    rw [standing_concat] at h
    unfold Standing.after at h
    cases hdeed : f.deed with
    | started =>
      rw [hdeed] at h
      rcases mem_append.1 he with he | he
      · exact ih h he
      · cases mem_singleton.1 he
        exact hdeed
    | _ => rw [hdeed] at h; cases h

theorem latestGrant_concat (journal : List (Entry π κ)) (e : Entry π κ) :
    latestGrant (journal ++ [e]) = if e.deed = .granted then some (e.caller, e.claim) else latestGrant journal := by
  unfold latestGrant
  by_cases h : e.deed = .granted
  · simp [h]
  · have : (e.deed == Deed.granted) = false := by simpa using h
    simp [this, h]

/-! ## Valid journals -/

section Valid

variable {term : Int}

theorem valid_nil : Valid term ([] : List (Entry π κ)) := by
  intro before e after h
  simp at h

theorem valid_concat : Valid term (journal ++ [e]) ↔ Valid term journal ∧ Proper term journal e := by
  constructor
  · intro h
    refine ⟨fun before f after heq => h before f (after ++ [e]) ?_, h journal e [] rfl⟩
    rw [heq, append_assoc, cons_append]
  · rintro ⟨h, he⟩ before f after heq
    rcases eq_nil_or_concat after with rfl | ⟨after', g, rfl⟩
    · obtain ⟨rfl, hf⟩ := append_inj' heq rfl
      cases hf
      exact he
    · rw [concat_eq_append, ← cons_append, ← append_assoc] at heq
      obtain ⟨rfl, -⟩ := append_inj' heq rfl
      exact h before f after' rfl

theorem Valid.take {before after : List (Entry π κ)} (h : Valid term (before ++ after)) : Valid term before :=
  fun pre e post heq => h pre e (post ++ after) (by rw [heq, append_assoc, cons_append])

theorem Valid.closed (h : Valid term journal) (he : e ∈ journal) (hsettled : e.deed = .settled) :
    standing term journal = .closed := by
  induction journal using reverseRecOn with
  | nil => cases he
  | append_singleton journal f ih =>
    obtain ⟨hvalid, hproper⟩ := valid_concat.1 h
    rcases mem_append.1 he with he | he
    · have hclosed := ih hvalid he
      have hadmits := hproper.admits
      unfold Standing.Admits at hadmits
      rw [hclosed] at hadmits
      cases hdeed : f.deed with
      | _ => simp [hdeed] at hadmits
    · cases mem_singleton.1 he
      simp [Standing.after, hsettled]

end Valid

section Lease

variable [DecidableEq κ] {term : Int}

theorem leaseOf_concat (journal : List (Entry π κ)) (e : Entry π κ) (claim : κ) : leaseOf term (journal ++ [e]) claim =
      if e.claim = claim ∧ (e.deed = .granted ∨ e.deed = .renewed) then some (e.time + term)
      else leaseOf term journal claim := by
  unfold leaseOf
  rw [reverse_concat, find?_cons]
  by_cases h : e.claim = claim ∧ (e.deed = .granted ∨ e.deed = .renewed)
  · have hdeed : (e.deed == .granted || e.deed == .renewed) = true := by simpa using h.2
    rw [if_pos h]
    simp [h.1, hdeed]
  · have : (decide (e.claim = claim) && (e.deed == .granted || e.deed == .renewed)) = false := by
      simpa using h
    rw [if_neg h, this]

theorem leaseOf_isSome (h : leaseOf term journal claim = some lease) : ∃ e ∈ journal, e.claim = claim := by
  obtain ⟨e, he, -⟩ := Option.map_eq_some_iff.1 h
  refine ⟨e, mem_reverse.1 (mem_of_find?_eq_some he), ?_⟩
  have := find?_some he
  simp only [Bool.and_eq_true, decide_eq_true_eq] at this
  exact this.1

/-- The holder is the caller of the latest grant, and its lease the one last given. -/
theorem Valid.held (h : Valid term journal) {caller : π} (hheld : standing term journal = .held caller claim lease) :
    latestGrant journal = some (caller, claim) ∧ leaseOf term journal claim = some lease := by
  induction journal using reverseRecOn generalizing lease with
  | nil => cases hheld
  | append_singleton journal e ih =>
    obtain ⟨hvalid, hproper⟩ := valid_concat.1 h
    have hadmits := hproper.admits
    rw [standing_concat] at hheld
    rw [latestGrant_concat, leaseOf_concat]
    unfold Standing.after at hheld
    unfold Standing.Admits at hadmits
    cases hdeed : e.deed with
    | granted =>
      rw [hdeed] at hheld
      cases hheld
      simp
    | renewed =>
      rw [hdeed] at hheld hadmits
      cases hheld
      obtain ⟨lease, hs⟩ := hadmits
      simp [(ih hvalid hs).1]
    | started =>
      rw [hdeed] at hheld
      simpa using ih hvalid hheld
    | settled | released =>
      rw [hdeed] at hheld
      cases hheld

/-! ## Exclusion -/

structure Exclusive (term : Int) (before : List (Entry π κ)) (e : Entry π κ) : Prop where
  once : e.deed = .settled → ∀ f ∈ before, f.deed ≠ .settled
  latest : e.deed = .settled → latestGrant before = some (e.caller, e.claim) ∧
    ∃ lease, leaseOf term before e.claim = some lease ∧ e.time < lease
  started : e.deed = .started → ∃ time, ⟨e.caller, e.claim, .renewed, time⟩ ∈ before
  superseded : ∀ f ∈ before, f.deed = .granted → f.claim = e.claim → latestGrant before = some (e.caller, e.claim)
  lapsed : ∀ lease, leaseOf term before e.claim = some lease → lease ≤ e.time →
    e.deed = .renewed ∨ e.deed = .released ∨ e.deed = .started
  since : e.deed = .settled → ∀ pre f mid lease, before = pre ++ f :: mid → leaseOf term pre e.claim = some lease →
    lease ≤ f.time → ∃ g ∈ f :: mid, g.deed = .renewed ∧ g.claim = e.claim

/-- A lease changes only by the claim's own renewal, once the claim was granted. -/
theorem Valid.leaseOf_eq {pre post : List (Entry π κ)} (h : Valid term (pre ++ post))
    (hlease : leaseOf term pre claim = some lease) (hno : ∀ g ∈ post, ¬ (g.deed = .renewed ∧ g.claim = claim)) :
    leaseOf term (pre ++ post) claim = some lease := by
  induction post using reverseRecOn with
  | nil => simpa using hlease
  | append_singleton post e ih =>
    rw [← append_assoc] at h ⊢
    obtain ⟨hvalid, hproper⟩ := valid_concat.1 h
    rw [leaseOf_concat, if_neg ?_]
    · exact ih hvalid fun g hg => hno g (mem_append_left _ hg)
    · rintro ⟨hclaim, hdeed | hdeed⟩
      · obtain ⟨f, hf, hfc⟩ := leaseOf_isSome hlease
        exact hproper.fresh hdeed f (mem_append_left _ hf) (hfc.trans hclaim.symm)
      · exact hno e (by simp) ⟨hdeed, hclaim⟩

/-- Every entry of a valid journal with a clock that does not go back is exclusive. -/
theorem Valid.exclusive (h : Valid term journal) (hclock : (journal.map (·.time)).Pairwise (· ≤ ·))
    {before after : List (Entry π κ)} (heq : journal = before ++ e :: after) : Exclusive term before e := by
  have hproper := h before e after heq
  subst heq
  have hbefore : Valid term before := h.take
  have hadmits := hproper.admits
  unfold Standing.Admits at hadmits
  -- every deed but a grant is the holder's
  have hholder : e.deed ≠ .granted → ∃ lease, standing term before = .held e.caller e.claim lease := by
    intro hne
    cases hdeed : e.deed with
    | granted => exact absurd hdeed hne
    | settled =>
      rw [hdeed] at hadmits
      exact hadmits.imp fun _ h => h.1
    | _ => rw [hdeed] at hadmits; exact hadmits
  have hsettles : e.deed = .settled → latestGrant before = some (e.caller, e.claim) ∧
      ∃ lease, leaseOf term before e.claim = some lease ∧ e.time < lease := by
    intro hdeed
    rw [hdeed] at hadmits
    obtain ⟨lease, hs, hlt⟩ := hadmits
    obtain ⟨hgrant, hlease⟩ := hbefore.held hs
    exact ⟨hgrant, lease, hlease, hlt⟩
  refine ⟨?_, hsettles, hproper.renewed, ?_, ?_, ?_⟩
  · intro hdeed f hf hsettled
    obtain ⟨lease, hs⟩ := hholder (by rw [hdeed]; nofun)
    rw [hbefore.closed hf hsettled] at hs
    cases hs
  · intro f hf hgranted hclaim
    by_cases hdeed : e.deed = .granted
    · exact absurd hclaim (hproper.fresh hdeed f hf)
    · obtain ⟨lease, hs⟩ := hholder hdeed
      exact (hbefore.held hs).1
  · intro lease hlease hle
    cases hdeed : e.deed with
    | renewed => exact .inl rfl
    | released => exact .inr (.inl rfl)
    | started => exact .inr (.inr rfl)
    | granted =>
      obtain ⟨f, hf, hclaim⟩ := leaseOf_isSome hlease
      exact absurd hclaim (hproper.fresh hdeed f hf)
    | settled =>
      obtain ⟨-, lease', hlease', hlt⟩ := hsettles hdeed
      rw [hlease] at hlease'
      cases hlease'
      omega
  · rintro hdeed pre f mid lease rfl hlease hle
    by_contra hno
    push Not at hno
    obtain ⟨-, lease', hlease', hlt⟩ := hsettles hdeed
    rw [hbefore.leaseOf_eq hlease fun g hg hren => hno g hg hren.1 hren.2] at hlease'
    cases hlease'
    have hclock' : f.time ≤ e.time := by
      rw [append_assoc, map_append, cons_append, map_cons] at hclock
      refine rel_of_pairwise_cons (pairwise_append.1 hclock).2.1 ?_
      simp
    omega

end Lease

end Portmark.Lib.Claim
