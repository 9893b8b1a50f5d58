/-
The recursive descent of `json.loads`, whatever is made of the text. A `Reader` says what becomes of
strings, literals, arrays and objects. A text that the grammar derives is read as what it stands for,
and readers that make related things of the parts make related things of the whole.
-/
import Portmark.Lib.Json.Basic

namespace Portmark.Lib.Json

open List

theorem skipBlanks_cons {c : Char} (h : isBlank c = false) (cs : Text) : skipBlanks (c :: cs) = c :: cs := by
  simp [skipBlanks, h]

theorem skipBlanks_length (cs : Text) : (skipBlanks cs).length ≤ cs.length := (dropWhile_suffix _).length_le

theorem skipBlanks_shorter {cs r : Text} {c : Char} (h : skipBlanks cs = c :: r) : r.length < cs.length := by
  have hle := skipBlanks_length cs
  rw [h, length_cons] at hle
  omega

namespace Reader

variable {δ ε S α : Type} (R : Reader δ ε S α)

/-! ## Related readers -/

def Sim {ε ε' β β' : Type} (Q : β → β' → Prop) (x : Except ε β) (y : Except ε' β') : Prop :=
  ∀ a, x = .ok a → ∃ b, y = .ok b ∧ Q a b

section Sim

variable {ε ε' β β' γ γ' : Type} {Q : β → β' → Prop} {Q' : γ → γ' → Prop}

theorem Sim.pure {a : β} {b : β'} (h : Q a b) : Sim Q (.ok a : Except ε β) (.ok b : Except ε' β') := by
  rintro _ ⟨⟩
  exact ⟨b, rfl, h⟩

theorem Sim.error {e : ε} {y : Except ε' β'} : Sim Q (.error e) y := by
  rintro _ ⟨⟩

theorem Sim.bind {x : Except ε β} {y : Except ε' β'} {f : β → Except ε γ} {g : β' → Except ε' γ'} (h : Sim Q x y)
    (hf : ∀ a b, Q a b → Sim Q' (f a) (g b)) : Sim Q' (x >>= f) (y >>= g) := by
  intro c hc
  obtain ⟨a, ha, hc⟩ := bind_ok_iff.1 hc
  obtain ⟨b, hb, hab⟩ := h a ha
  obtain ⟨c', hc', hcc⟩ := hf a b hab c hc
  exact ⟨c', bind_ok_iff.2 ⟨b, hb, hc'⟩, hcc⟩

end Sim

section Related

variable {δ' ε' S' α' : Type} {R} {R' : Reader δ' ε' S' α'}

def Left {β β' : Type} (P : β → β' → Prop) (p : β × Text) (q : β' × Text) : Prop := P p.1 q.1 ∧ p.2 = q.2

/-- Whatever `R` makes of a part, `R'` makes something of it too, and the two are related. -/
structure Related (R : Reader δ ε S α) (R' : Reader δ' ε' S' α') (D : δ → δ' → Prop) (K : S → S' → Prop)
    (P : α → α' → Prop) : Prop where
  string : ∀ cs, Sim (Left K) (R.string cs) (R'.string cs)
  str : ∀ {s s'}, K s s' → P (R.str s) (R'.str s')
  atom : ∀ cs, Sim (Left P) (R.atom cs) (R'.atom cs)
  list : ∀ {xs xs'}, List.Forall₂ P xs xs' → P (R.list xs) (R'.list xs')
  object : ∀ {ps ps'}, List.Forall₂ (fun e e' => K e.1 e'.1 ∧ P e.2 e'.2) ps ps' → Sim P (R.object ps) (R'.object ps')
  enter : ∀ {d d'}, D d d' → Sim D (R.enter d) (R'.enter d')

variable {D : δ → δ' → Prop} {K : S → S' → Prop} {P : α → α' → Prop}

/-- Related readers make related things of every text, by induction on the fuel. -/
theorem Related.scan (h : R.Related R' D K P) : ∀ n : Nat,
    (∀ {d d'} cs, D d d' → Sim (Left P) (R.scan n d cs) (R'.scan n d' cs)) ∧
    (∀ {d d'} cs, D d d' → Sim (Left (List.Forall₂ P)) (R.elements n d cs) (R'.elements n d' cs)) ∧
    ∀ {d d'} cs, D d d' →
      Sim (Left (List.Forall₂ fun e e' => K e.1 e'.1 ∧ P e.2 e'.2)) (R.members n d cs) (R'.members n d' cs)
  | 0 => by
    refine ⟨fun cs _ => ?_, fun cs _ => ?_, fun cs _ => ?_⟩
    · rw [Reader.scan.eq_def]; exact .error
    · rw [elements.eq_def]; exact .error
    · rw [members.eq_def]; exact .error
  | n + 1 => by
    obtain ⟨hv, he, hm⟩ := Related.scan h n
    refine ⟨fun cs hd => ?_, fun cs hd => ?_, fun cs hd => ?_⟩
    · rw [Reader.scan.eq_def, Reader.scan.eq_def]
      dsimp only
      split
      · refine (h.string _).bind ?_
        rintro ⟨s, r⟩ ⟨s', _⟩ ⟨hs, rfl⟩
        exact .pure ⟨h.str hs, rfl⟩
      · refine (h.enter hd).bind fun d d' hd => ?_
        split
        · exact .pure ⟨h.list .nil, rfl⟩
        · refine (he _ hd).bind ?_
          rintro ⟨xs, r⟩ ⟨xs', _⟩ ⟨hxs, rfl⟩
          exact .pure ⟨h.list hxs, rfl⟩
      · refine (h.enter hd).bind fun d d' hd => ?_
        split
        · exact (h.object .nil).bind fun _ _ hx => .pure ⟨hx, rfl⟩
        · refine (hm _ hd).bind ?_
          rintro ⟨ps, r⟩ ⟨ps', _⟩ ⟨hps, rfl⟩
          exact (h.object hps).bind fun _ _ hx => .pure ⟨hx, rfl⟩
      · exact h.atom _
    · rw [elements.eq_def, elements.eq_def]
      refine (hv _ hd).bind ?_
      rintro ⟨x, r⟩ ⟨x', _⟩ ⟨hx, rfl⟩
      dsimp only
      split
      · exact .pure ⟨.cons hx .nil, rfl⟩
      · refine (he _ hd).bind ?_
        rintro ⟨xs, r⟩ ⟨xs', _⟩ ⟨hxs, rfl⟩
        exact .pure ⟨.cons hx hxs, rfl⟩
      · exact .error
    · rw [members.eq_def, members.eq_def]
      dsimp only
      split
      · refine (h.string _).bind ?_
        rintro ⟨k, r⟩ ⟨k', _⟩ ⟨hk, rfl⟩
        dsimp only
        split
        · refine (hv _ hd).bind ?_
          rintro ⟨x, r⟩ ⟨x', _⟩ ⟨hx, rfl⟩
          dsimp only
          split
          · exact .pure ⟨.cons ⟨hk, hx⟩ .nil, rfl⟩
          · refine (hm _ hd).bind ?_
            rintro ⟨ps, r⟩ ⟨ps', _⟩ ⟨hps, rfl⟩
            exact .pure ⟨.cons ⟨hk, hx⟩ hps, rfl⟩
          · exact .error
        · exact .error
      · exact .error

theorem Related.document (h : R.Related R' D K P) {d : δ} {d' : δ'} (hd : D d d') (cs : Text) :
    Sim P (R.document d cs) (R'.document d' cs) := by
  refine ((h.scan _).1 _ hd).bind ?_
  rintro ⟨x, r⟩ ⟨x', _⟩ ⟨hx, rfl⟩
  dsimp only
  split
  · exact .pure hx
  · exact .error

end Related

/-! ## What is read has a property -/

section All

variable {R} {P : α → Prop}

/-- What every part has, the whole has. -/
theorem document_all (hstr : ∀ s, P (R.str s)) (hatom : ∀ {cs x r}, R.atom cs = .ok (x, r) → P x)
    (hlist : ∀ {xs}, (∀ x ∈ xs, P x) → P (R.list xs))
    (hobject : ∀ {ps x}, (∀ e ∈ ps, P e.2) → R.object ps = .ok x → P x) {d : δ} {cs : Text} {x : α}
    (h : R.document d cs = .ok x) : P x := by
  have hall : ∀ {β : Type} {Q : β → Prop} {xs xs' : List β}, List.Forall₂ (fun x x' => x = x' ∧ Q x) xs xs' →
      xs = xs' ∧ ∀ x ∈ xs, Q x := by
    intro β Q xs xs' h
    induction h with
    | nil => simp
    | cons hx _ ih =>
      obtain ⟨rfl, hx⟩ := hx
      obtain ⟨rfl, hxs⟩ := ih
      exact ⟨rfl, forall_mem_cons.2 ⟨hx, hxs⟩⟩
  have hrelated : R.Related R Eq Eq fun x x' => x = x' ∧ P x := by
    refine ⟨fun _ p h => ⟨p, h, rfl, rfl⟩, ?_, fun _ p h => ⟨p, h, ⟨rfl, hatom h⟩, rfl⟩, fun h => ?_, fun h x hx => ?_,
      ?_⟩
    · rintro s _ rfl
      exact ⟨rfl, hstr s⟩
    · obtain ⟨rfl, hxs⟩ := hall h
      exact ⟨rfl, hlist hxs⟩
    · obtain ⟨rfl, hps⟩ := hall (h.imp fun e e' he => ⟨Prod.ext he.1 he.2.1, he.2.2⟩)
      exact ⟨x, hx, rfl, hobject hps hx⟩
    · rintro d _ rfl e he
      exact ⟨e, he, rfl⟩
  obtain ⟨-, -, -, hx⟩ := hrelated.document rfl cs x h
  exact hx

end All

/-! ## The grammar -/

inductive Part (S α : Type) where
  | value (x : α)
  | elements (xs : List α)
  | members (ps : List (S × α))

inductive Derives : δ → Text → Part S α → Text → Prop
  | atom {d c cs x r} : isBlank c = false → c ∉ ['"', '[', '{', ']', '}'] → R.atom (c :: cs) = .ok (x, r) →
    r.length ≤ cs.length → Derives d (c :: cs) (.value x) r
  | str {d cs s r} : R.string cs = .ok (s, r) → r.length ≤ cs.length → Derives d ('"' :: cs) (.value (R.str s)) r
  | nil {d d' cs r} : R.enter d = .ok d' → skipBlanks cs = ']' :: r → Derives d ('[' :: cs) (.value (R.list [])) r
  | list {d d' cs xs r} : R.enter d = .ok d' → Derives d' (skipBlanks cs) (.elements xs) r →
    Derives d ('[' :: cs) (.value (R.list xs)) r
  | empty {d d' cs x r} : R.enter d = .ok d' → skipBlanks cs = '}' :: r → R.object [] = .ok x →
    Derives d ('{' :: cs) (.value x) r
  | object {d d' cs ps x r} : R.enter d = .ok d' → Derives d' (skipBlanks cs) (.members ps) r → R.object ps = .ok x →
    Derives d ('{' :: cs) (.value x) r
  | last {d cs x r r'} : Derives d cs (.value x) r → skipBlanks r = ']' :: r' → Derives d cs (.elements [x]) r'
  | more {d cs x r r' xs r''} : Derives d cs (.value x) r → skipBlanks r = ',' :: r' →
    Derives d (skipBlanks r') (.elements xs) r'' → Derives d cs (.elements (x :: xs)) r''
  | lastMember {d cs k r r₁ x r₂ r'} : R.string cs = .ok (k, r) → r.length ≤ cs.length → skipBlanks r = ':' :: r₁ →
    Derives d (skipBlanks r₁) (.value x) r₂ → skipBlanks r₂ = '}' :: r' → Derives d ('"' :: cs) (.members [(k, x)]) r'
  | moreMembers {d cs k r r₁ x r₂ r' ps r''} : R.string cs = .ok (k, r) → r.length ≤ cs.length →
    skipBlanks r = ':' :: r₁ → Derives d (skipBlanks r₁) (.value x) r₂ → skipBlanks r₂ = ',' :: r' →
    Derives d (skipBlanks r') (.members ps) r'' → Derives d ('"' :: cs) (.members ((k, x) :: ps)) r''

variable {R} {d d' : δ} {cs r r' : Text} {p : Part S α}

/-- A part begins with no blank and with no closing bracket. -/
theorem Derives.head (h : R.Derives d cs p r) : ∃ c t, cs = c :: t ∧ isBlank c = false ∧ c ≠ ']' ∧ c ≠ '}' := by
  induction h with
  | atom hb hc => exact ⟨_, _, rfl, hb, by rintro rfl; simp at hc, by rintro rfl; simp at hc⟩
  | last _ _ ih => exact ih
  | more _ _ _ ih => exact ih
  | _ => exact ⟨_, _, rfl, by decide⟩

theorem Derives.skip (h : R.Derives d cs p r) : skipBlanks cs = cs := by
  obtain ⟨c, t, rfl, hb, -⟩ := h.head
  exact skipBlanks_cons hb t

section Compact

variable {x : α} {xs : List α} {k : S} {ps : List (S × α)}

theorem Derives.array (hd : R.enter d = .ok d') (h : R.Derives d' cs (.elements xs) r) :
    R.Derives d ('[' :: cs) (.value (R.list xs)) r :=
  .list hd (by rw [h.skip]; exact h)

theorem Derives.braces (hd : R.enter d = .ok d') (h : R.Derives d' cs (.members ps) r) (hx : R.object ps = .ok x) :
    R.Derives d ('{' :: cs) (.value x) r :=
  .object hd (by rw [h.skip]; exact h) hx

theorem Derives.comma (h : R.Derives d cs (.value x) (',' :: r)) (hs : R.Derives d r (.elements xs) r') :
    R.Derives d cs (.elements (x :: xs)) r' :=
  .more h (skipBlanks_cons (by decide) _) (by rw [hs.skip]; exact hs)

theorem Derives.entry (hk : R.string cs = .ok (k, ':' :: r)) (hr : r.length < cs.length)
    (h : R.Derives d r (.value x) ('}' :: r')) : R.Derives d ('"' :: cs) (.members [(k, x)]) r' :=
  .lastMember hk hr (skipBlanks_cons (by decide) _) (by rw [h.skip]; exact h) (skipBlanks_cons (by decide) _)

theorem Derives.entries {r'' : Text} (hk : R.string cs = .ok (k, ':' :: r)) (hr : r.length < cs.length)
    (h : R.Derives d r (.value x) (',' :: r')) (hs : R.Derives d r' (.members ps) r'') :
    R.Derives d ('"' :: cs) (.members ((k, x) :: ps)) r'' :=
  .moreMembers hk hr (skipBlanks_cons (by decide) _) (by rw [h.skip]; exact h) (skipBlanks_cons (by decide) _)
    (by rw [hs.skip]; exact hs)

end Compact

def Reads (R : Reader δ ε S α) (n : Nat) (d : δ) (cs r : Text) : Part S α → Prop
  | .value x => R.scan n d cs = .ok (x, r)
  | .elements xs => R.elements n d cs = .ok (xs, r)
  | .members ps => R.members n d cs = .ok (ps, r)

/-- What the grammar derives is read, with as much fuel as the part is long. -/
theorem Derives.reads_of_length (h : R.Derives d cs p r) :
    r.length < cs.length ∧ ∀ n, cs.length ≤ n + 1 + r.length → R.Reads (n + 1) d cs r p := by
  induction h with
  | atom hb hc hx hr =>
    refine ⟨Nat.lt_succ_of_le hr, fun n _ => ?_⟩
    simp only [mem_cons, not_mem_nil, or_false, not_or] at hc
    rw [Reads, scan.eq_def]
    dsimp only
    split
    · rename_i heq; exact absurd (List.cons.inj heq).1 hc.1
    · rename_i heq; exact absurd (List.cons.inj heq).1 hc.2.1
    · rename_i heq; exact absurd (List.cons.inj heq).1 hc.2.2.1
    · exact hx
  | str hs hr =>
    refine ⟨Nat.lt_succ_of_le hr, fun n _ => ?_⟩
    rw [Reads, scan.eq_def]
    simp only [hs, bind, Except.bind, pure, Except.pure]
  | nil hd hskip =>
    refine ⟨Nat.lt_succ_of_lt (skipBlanks_shorter hskip), fun n _ => ?_⟩
    rw [Reads, scan.eq_def]
    simp only [hd, hskip, bind, Except.bind, pure, Except.pure]
  | @list d d' cs xs r hd h ih =>
    have hlen := skipBlanks_length cs
    refine ⟨by rw [length_cons]; omega, fun n hn => ?_⟩
    obtain ⟨c, t, ht, -, hc, -⟩ := h.head
    rw [length_cons] at hn
    obtain ⟨k, rfl⟩ : ∃ k, n = k + 1 := ⟨n - 1, by omega⟩
    have hread := ih.2 k (by omega)
    rw [ht, Reads] at hread
    rw [Reads, scan.eq_def]
    simp only [hd, ht, bind, Except.bind]
    split
    · rename_i heq; exact absurd (List.cons.inj heq).1 hc
    · rw [hread]; rfl
  | empty hd hskip hx =>
    refine ⟨Nat.lt_succ_of_lt (skipBlanks_shorter hskip), fun n _ => ?_⟩
    rw [Reads, scan.eq_def]
    simp only [hd, hskip, hx, bind, Except.bind, pure, Except.pure]
  | @object d d' cs ps x r hd h hx ih =>
    have hlen := skipBlanks_length cs
    refine ⟨by rw [length_cons]; omega, fun n hn => ?_⟩
    obtain ⟨c, t, ht, -, -, hc⟩ := h.head
    rw [length_cons] at hn
    obtain ⟨k, rfl⟩ : ∃ k, n = k + 1 := ⟨n - 1, by omega⟩
    have hread := ih.2 k (by omega)
    rw [ht, Reads] at hread
    rw [Reads, scan.eq_def]
    simp only [hd, ht, bind, Except.bind]
    split
    · rename_i heq; exact absurd (List.cons.inj heq).1 hc
    · rw [hread]; dsimp only; rw [hx]; rfl
  | last h hskip ih =>
    have hshort := skipBlanks_shorter hskip
    refine ⟨by omega, fun n hn => ?_⟩
    obtain ⟨k, rfl⟩ : ∃ k, n = k + 1 := ⟨n - 1, by omega⟩
    have hread := ih.2 k (by omega)
    rw [Reads] at hread
    rw [Reads, elements.eq_def]
    simp only [hread, hskip, bind, Except.bind, pure, Except.pure]
  | @more _ _ _ _ r' _ _ h hskip hs ih ih' =>
    have hshort := skipBlanks_shorter hskip
    have hlen := skipBlanks_length r'
    refine ⟨by omega, fun n hn => ?_⟩
    obtain ⟨k, rfl⟩ : ∃ k, n = k + 1 := ⟨n - 1, by omega⟩
    have hread := ih.2 k (by omega)
    have hreads := ih'.2 k (by omega)
    simp only [Reads] at hread hreads
    rw [Reads, elements.eq_def]
    simp only [hread, hskip, hreads, bind, Except.bind, pure, Except.pure]
  | @lastMember _ _ _ _ r₁ _ _ _ hk hr hskip h hskip' ih =>
    have h₁ := skipBlanks_shorter hskip
    have h₂ := skipBlanks_shorter hskip'
    have hlen := skipBlanks_length r₁
    refine ⟨by rw [length_cons]; omega, fun n hn => ?_⟩
    rw [length_cons] at hn
    obtain ⟨k, rfl⟩ : ∃ k, n = k + 1 := ⟨n - 1, by omega⟩
    have hread := ih.2 k (by omega)
    rw [Reads] at hread
    rw [Reads, members.eq_def]
    simp only [hk, hskip, hread, hskip', bind, Except.bind, pure, Except.pure]
  | @moreMembers _ _ _ _ r₁ _ _ r' _ _ hk hr hskip h hskip' hs ih ih' =>
    have h₁ := skipBlanks_shorter hskip
    have h₂ := skipBlanks_shorter hskip'
    have hlen := skipBlanks_length r₁
    have hlen' := skipBlanks_length r'
    refine ⟨by rw [length_cons]; omega, fun n hn => ?_⟩
    rw [length_cons] at hn
    obtain ⟨k, rfl⟩ : ∃ k, n = k + 1 := ⟨n - 1, by omega⟩
    have hread := ih.2 k (by omega)
    have hreads := ih'.2 k (by omega)
    simp only [Reads] at hread hreads
    rw [Reads, members.eq_def]
    simp only [hk, hskip, hread, hskip', hreads, bind, Except.bind, pure, Except.pure]

/-- A text that is derived as a whole is read as what it stands for. -/
theorem Derives.document {x : α} (h : R.Derives d cs (.value x) []) : R.document d cs = .ok x := by
  have hread : R.scan (cs.length + 1) d cs = .ok (x, []) := h.reads_of_length.2 cs.length (by simp)
  rw [Reader.document, h.skip, hread]
  rfl

end Reader

end Portmark.Lib.Json
