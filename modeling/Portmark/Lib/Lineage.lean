/-
Chains in two phases. A node is issued on a parent and waits. The next node is either built on the
waiting one, which settles it, or on the waiting one's own parent, which drops it. A root may be
issued at any time: it drops what waits, settles at once and opens the next epoch.
-/
import Mathlib.Data.List.Chain
import Mathlib.Data.List.Nodup

namespace Portmark.Lib

open List

variable {ι : Type}

/-! ## Ids that name their predecessor -/

/-- Ids newest first, each with the id before it as `R` has it. -/
def Follows (R : ι → Option ι → Prop) : List ι → Prop
  | [] => True
  | i :: l => R i l.head? ∧ Follows R l

variable {R : ι → Option ι → Prop}

theorem Follows.eq_of_head (hR : ∀ i a b, R i a → R i b → a = b) :
    ∀ {l m : List ι}, Follows R l → Follows R m → l.head? = m.head? → l = m
  | [], [], _, _, _ => rfl
  | [], _ :: _, _, _, h => by simp at h
  | _ :: _, [], _, _, h => by simp at h
  | i :: l, j :: m, hl, hm, h => by
    obtain rfl : i = j := by simpa using h
    have hlm : l.head? = m.head? := hR i _ _ hl.1 hm.1
    rw [Follows.eq_of_head hR hl.2 hm.2 hlm]

theorem Follows.append_right : ∀ {l m : List ι}, Follows R (l ++ m) → Follows R m
  | [], _, h => h
  | _ :: l, _, h => Follows.append_right (l := l) h.2

/-- Where an id has one predecessor, none of them comes twice: from a second time on the whole list
would repeat. -/
theorem Follows.nodup (hR : ∀ i a b, R i a → R i b → a = b) : ∀ {l : List ι}, Follows R l → l.Nodup
  | [], _ => nodup_nil
  | i :: l, h => by
    refine nodup_cons.2 ⟨fun hi => ?_, Follows.nodup hR h.2⟩
    obtain ⟨a, b, rfl⟩ := append_of_mem hi
    have hb : Follows R (i :: b) := Follows.append_right h.2
    have hlen := congrArg length (Follows.eq_of_head hR h hb (by simp))
    simp only [length_cons, length_append] at hlen
    omega

/-! ## Lineages -/

structure Node (ι : Type) where
  id : ι
  parent : Option ι
  epoch : Int
  seq : Int
  root : Bool
deriving DecidableEq

structure Lineage (ι : Type) where
  settled : List (Node ι)
  waiting : Option (Node ι)
  dropped : List ι
  issued : List (Node ι)

def endId (l : List (Node ι)) : Option ι := l.head?.map Node.id

def endSeq (l : List (Node ι)) : Int := (l.head?.map Node.seq).getD 0

def endEpoch (l : List (Node ι)) : Int := (l.head?.map Node.epoch).getD 1

@[simp] theorem endId_cons (n : Node ι) (l : List (Node ι)) : endId (n :: l) = some n.id := rfl
@[simp] theorem endSeq_cons (n : Node ι) (l : List (Node ι)) : endSeq (n :: l) = n.seq := rfl
@[simp] theorem endEpoch_cons (n : Node ι) (l : List (Node ι)) : endEpoch (n :: l) = n.epoch := rfl
@[simp] theorem endId_nil : endId ([] : List (Node ι)) = none := rfl
@[simp] theorem endSeq_nil : endSeq ([] : List (Node ι)) = 0 := rfl
@[simp] theorem endEpoch_nil : endEpoch ([] : List (Node ι)) = 1 := rfl

variable {c c' : Lineage ι}

namespace Lineage

def empty : Lineage ι := ⟨[], none, [], []⟩

def baseId (c : Lineage ι) : Option ι := endId c.settled

def baseSeq (c : Lineage ι) : Int := endSeq c.settled

def epoch (c : Lineage ι) : Int := endEpoch c.settled

def tipId (c : Lineage ι) : Option ι := (c.waiting.map Node.id).or c.baseId

def tipSeq (c : Lineage ι) : Int := (c.waiting.map Node.seq).getD c.baseSeq

def build (c : Lineage ι) (p n : Node ι) : Lineage ι :=
  { c with settled := p :: c.settled, waiting := some n, issued := n :: c.issued }

def replace (c : Lineage ι) (n : Node ι) : Lineage ι :=
  { c with waiting := some n, dropped := (c.waiting.map Node.id).toList ++ c.dropped, issued := n :: c.issued }

def restart (c : Lineage ι) (n : Node ι) : Lineage ι :=
  { settled := n :: c.settled, waiting := none, dropped := (c.waiting.map Node.id).toList ++ c.dropped,
    issued := n :: c.issued }

structure Next (c : Lineage ι) (parent : Option ι) (seq : Int) (n : Node ι) : Prop where
  parent : n.parent = parent
  seq : n.seq = seq + 1
  epoch : n.epoch = c.epoch
  root : n.root = false
  fresh : ∀ m ∈ c.issued, m.id ≠ n.id

structure NextRoot (c : Lineage ι) (n : Node ι) : Prop where
  parent : n.parent = c.tipId
  seq : n.seq = c.tipSeq + 1
  epoch : n.epoch = c.epoch + 1
  root : n.root = true
  fresh : ∀ m ∈ c.issued, m.id ≠ n.id

inductive Step : Lineage ι → Lineage ι → Prop
  | build {c : Lineage ι} {p n : Node ι} (hp : c.waiting = some p) (hn : c.Next (some p.id) p.seq n) :
    Step c (c.build p n)
  | replace {c : Lineage ι} {n : Node ι} (hn : c.Next c.baseId c.baseSeq n) : Step c (c.replace n)
  | restart {c : Lineage ι} {n : Node ι} (hn : c.NextRoot n) : Step c (c.restart n)

theorem Step.issues (h : Step c c') : ∃ n, c'.issued = n :: c.issued := by
  cases h with
  | _ => exact ⟨_, rfl⟩

/-! ## What every step keeps -/

def kept (c : Lineage ι) : List (Node ι) := c.waiting.toList ++ c.settled

def Live (c : Lineage ι) (i : ι) : Prop := c.baseId = some i ∨ c.waiting.map Node.id = some i

/-- What a next node may name as its parent; before anything is settled it may name none. -/
def Allows (c : Lineage ι) (parent : Option ι) : Prop :=
  parent = c.baseId ∨ ∃ p, c.waiting = some p ∧ parent = some p.id

end Lineage

def Linked : List (Node ι) → Prop
  | [] => True
  | n :: l =>
    (n.root = false ∧ n.parent = endId l ∧ n.seq = endSeq l + 1 ∧ n.epoch = endEpoch l ∨
      n.root = true ∧ endSeq l < n.seq ∧ n.epoch = endEpoch l + 1) ∧ Linked l

namespace Lineage

structure Valid (c : Lineage ι) : Prop where
  ids : (c.issued.map Node.id).Nodup
  newest : endId c.issued = c.tipId
  kept_issued : c.kept.Sublist c.issued
  kept_undropped : ∀ n ∈ c.kept, n.id ∉ c.dropped
  dropped_issued : ∀ i ∈ c.dropped, ∃ n ∈ c.issued, n.id = i
  parent_issued : ∀ n ∈ c.issued, ∀ i, n.parent = some i → ∃ m ∈ c.issued, m.id = i
  parent_settled : ∀ n ∈ c.issued, n.root = false → ∀ i, n.parent = some i → ∃ m ∈ c.settled, m.id = i
  waiting_next : ∀ p, c.waiting = some p →
    p.root = false ∧ p.parent = c.baseId ∧ p.seq = c.baseSeq + 1 ∧ p.epoch = c.epoch
  childless : ∀ n ∈ c.settled, ∀ i, n.parent = some i → ¬ c.Live i
  children : ∀ n ∈ c.settled, ∀ m ∈ c.settled, ∀ i, n.parent = some i → m.parent = some i → n = m
  linked : Linked c.settled

theorem Valid.empty : Valid (empty : Lineage ι) := by
  constructor <;> simp [Lineage.empty, kept, Linked, tipId, baseId]

variable {n : Node ι}

theorem mem_kept : n ∈ c.kept ↔ c.waiting = some n ∨ n ∈ c.settled := by
  simp [kept, Option.mem_toList]

theorem Valid.node_eq (hc : c.Valid) {m : Node ι} (hn : n ∈ c.issued) (hm : m ∈ c.issued) (h : n.id = m.id) : n = m :=
  inj_on_of_nodup_map hc.ids hn hm h

theorem Valid.issued_of_kept (hc : c.Valid) (hn : n ∈ c.kept) : n ∈ c.issued :=
  hc.kept_issued.subset hn

theorem Live.kept {i : ι} (h : c.Live i) : ∃ n ∈ c.kept, n.id = i := by
  rcases h with h | h
  · obtain ⟨n, hn, rfl⟩ := Option.map_eq_some_iff.1 h
    exact ⟨n, mem_kept.2 (.inr (mem_of_mem_head? hn)), rfl⟩
  · obtain ⟨n, hn, rfl⟩ := Option.map_eq_some_iff.1 h
    exact ⟨n, mem_kept.2 (.inl hn), rfl⟩

theorem Valid.waiting_ne_settled (hc : c.Valid) {p m : Node ι} (hp : c.waiting = some p)
    (hm : m ∈ c.settled) : m.id ≠ p.id := by
  have hnd : (c.kept.map Node.id).Nodup := hc.ids.sublist (hc.kept_issued.map _)
  simp only [kept, hp, Option.toList_some, singleton_append, map_cons, nodup_cons] at hnd
  exact fun hid => hnd.1 (hid ▸ mem_map_of_mem hm)

/-- A node on a live id has no sibling among the settled ones. -/
theorem Valid.children_cons (hc : c.Valid) {x : Node ι} (hx : ∀ i, x.parent = some i → c.Live i) :
    ∀ n ∈ x :: c.settled, ∀ m ∈ x :: c.settled, ∀ i, n.parent = some i → m.parent = some i → n = m := by
  intro n hn m hm i hni hmi
  rcases mem_cons.1 hn with hnx | hns <;> rcases mem_cons.1 hm with hmx | hms
  · rw [hnx, hmx]
  · exact absurd (hx i (hnx ▸ hni)) (hc.childless m hms i hmi)
  · exact absurd (hx i (hmx ▸ hmi)) (hc.childless n hns i hni)
  · exact hc.children n hns m hms i hni hmi

/-- What has been dropped may never be built on. -/
theorem Valid.not_live_of_dropped (hc : c.Valid) {i : ι} (hi : i ∈ c.dropped) : ¬ c.Live i := by
  intro h
  obtain ⟨n, hn, rfl⟩ := h.kept
  exact hc.kept_undropped n hn hi

/-- Once a node has a grandchild, it may never be built on. -/
theorem Valid.not_live_of_grandchild (hc : c.Valid) {a : ι} {b : Node ι} (hb : b ∈ c.issued)
    (hba : b.parent = some a) (hn : n ∈ c.issued) (hroot : n.root = false) (hnb : n.parent = some b.id) :
    ¬ c.Live a := by
  obtain ⟨m, hm, hid⟩ := hc.parent_settled n hn hroot b.id hnb
  have hmb : m = b := hc.node_eq (hc.issued_of_kept (mem_kept.2 (.inr hm))) hb hid
  exact hc.childless m hm a (hmb ▸ hba)

theorem Allows.live {i : ι} (h : c.Allows (some i)) : c.Live i := by
  rcases h with h | ⟨p, hp, hi⟩
  · exact .inl h.symm
  · exact .inr (by rw [hp, Option.map_some, hi])

/-- Once a node has a child with a child of its own, its first child was the last. -/
theorem Valid.not_allows_of_grandchild (hc : c.Valid) {b : Node ι} (hb : b ∈ c.issued)
    (hn : n ∈ c.issued) (hroot : n.root = false) (hnb : n.parent = some b.id) : ¬ c.Allows b.parent := by
  intro h
  cases hparent : b.parent with
  | some =>
    rw [hparent] at h
    exact hc.not_live_of_grandchild hb hparent hn hroot hnb h.live
  | none =>
    -- the first child is settled, so the settled end is some node
    obtain ⟨m, hm, -⟩ := hc.parent_settled n hn hroot b.id hnb
    rcases h with h | ⟨p, -, hp⟩
    · rw [hparent] at h
      rw [head?_eq_none_iff.1 (Option.map_eq_none_iff.1 h.symm)] at hm
      cases hm
    · rw [hparent] at hp
      cases hp

theorem live_of_tip {i : ι} (h : c.tipId = some i) : c.Live i := by
  unfold tipId at h
  cases hw : c.waiting with
  | none =>
    rw [hw] at h
    exact .inl h
  | some =>
    exact .inr (hw ▸ h)

section Issue

variable {c : Lineage ι} {n : Node ι} (hc : c.Valid) (fresh : ∀ m ∈ c.issued, m.id ≠ n.id)
include hc fresh

theorem Valid.ids_cons : ((n :: c.issued).map Node.id).Nodup := by
  refine nodup_cons.2 ⟨fun h => ?_, hc.ids⟩
  obtain ⟨m, hm, hid⟩ := mem_map.1 h
  exact fresh m hm hid

theorem Valid.fresh_undropped : n.id ∉ c.dropped := by
  intro h
  obtain ⟨m, hm, hid⟩ := hc.dropped_issued _ h
  exact fresh m hm hid

theorem Valid.parent_ne {m : Node ι} (hm : m ∈ c.issued) : m.parent ≠ some n.id := by
  intro h
  obtain ⟨k, hk, hid⟩ := hc.parent_issued m hm _ h
  exact fresh k hk hid

theorem Valid.live_ne {i : ι} (hi : c.Live i) : i ≠ n.id := by
  obtain ⟨k, hk, rfl⟩ := hi.kept
  exact fresh k (hc.issued_of_kept hk)

omit fresh in
theorem Valid.parent_issued_cons (hlive : ∀ i, n.parent = some i → c.Live i) :
    ∀ m ∈ n :: c.issued, ∀ i, m.parent = some i → ∃ k ∈ n :: c.issued, k.id = i := by
  intro m hm i hi
  rcases mem_cons.1 hm with rfl | hm
  · obtain ⟨k, hk, hid⟩ := (hlive i hi).kept
    exact ⟨k, mem_cons_of_mem _ (hc.issued_of_kept hk), hid⟩
  · obtain ⟨k, hk, hid⟩ := hc.parent_issued m hm i hi
    exact ⟨k, mem_cons_of_mem _ hk, hid⟩

omit fresh in
theorem Valid.dropped_issued_cons :
    ∀ i ∈ (c.waiting.map Node.id).toList ++ c.dropped, ∃ m ∈ n :: c.issued, m.id = i := by
  intro i hi
  rcases mem_append.1 hi with hi | hi
  · obtain ⟨k, hk, hid⟩ := Live.kept (c := c) (.inr (Option.mem_toList.1 hi))
    exact ⟨k, mem_cons_of_mem _ (hc.issued_of_kept hk), hid⟩
  · obtain ⟨k, hk, hid⟩ := hc.dropped_issued i hi
    exact ⟨k, mem_cons_of_mem _ hk, hid⟩

/-- Dropping what waits leaves the fresh node and the settled ones. -/
theorem Valid.undropped_of_replace : ∀ m ∈ n :: c.settled, m.id ∉ (c.waiting.map Node.id).toList ++ c.dropped := by
  intro m hm h
  rcases mem_append.1 h with h | h
  · obtain ⟨p, hp, hid⟩ := Option.map_eq_some_iff.1 (Option.mem_toList.1 h)
    have hpi : p ∈ c.issued := hc.issued_of_kept (mem_kept.2 (.inl hp))
    rcases mem_cons.1 hm with rfl | hm
    · exact fresh p hpi hid
    · exact hc.waiting_ne_settled hp hm hid.symm
  · rcases mem_cons.1 hm with rfl | hm
    · exact hc.fresh_undropped fresh h
    · exact hc.kept_undropped m (mem_kept.2 (.inr hm)) h

end Issue

theorem Valid.build {p : Node ι} (hc : c.Valid) (hp : c.waiting = some p)
    (hn : c.Next (some p.id) p.seq n) : (c.build p n).Valid := by
  have hnext := hc.waiting_next p hp
  have hkept : c.kept = p :: c.settled := by simp [kept, hp]
  have hplive : c.Live p.id := .inr (by rw [hp]; rfl)
  -- the live ids are now the settled end and the fresh one
  have hlive : ∀ i, (c.build p n).Live i → i = p.id ∨ i = n.id := by
    rintro i (h | h)
    · exact .inl (Option.some.inj h).symm
    · exact .inr (Option.some.inj h).symm
  constructor
  · exact hc.ids_cons hn.fresh
  · rfl
  · show (n :: p :: c.settled).Sublist (n :: c.issued)
    exact (hkept ▸ hc.kept_issued).cons_cons n
  · intro m hm
    rcases mem_cons.1 hm with rfl | hm
    · exact hc.fresh_undropped hn.fresh
    · exact hc.kept_undropped m (hkept ▸ hm)
  · intro i hi
    obtain ⟨k, hk, hid⟩ := hc.dropped_issued i hi
    exact ⟨k, mem_cons_of_mem _ hk, hid⟩
  · exact hc.parent_issued_cons fun i hi => Option.some.inj (hn.parent.symm.trans hi) ▸ hplive
  · intro m hm hmroot i hi
    rcases mem_cons.1 hm with rfl | hm
    · exact ⟨p, mem_cons_self .., Option.some.inj (hn.parent.symm.trans hi)⟩
    · obtain ⟨k, hk, hid⟩ := hc.parent_settled m hm hmroot i hi
      exact ⟨k, mem_cons_of_mem _ hk, hid⟩
  · intro q hq
    obtain rfl := Option.some.inj hq
    exact ⟨hn.root, hn.parent, hn.seq, hn.epoch.trans hnext.2.2.2.symm⟩
  · intro m hm i hi hl
    have hmi : m ∈ c.issued := hc.issued_of_kept (hkept ▸ hm)
    rcases hlive i hl with rfl | rfl
    · rcases mem_cons.1 hm with rfl | hm
      · obtain ⟨k, hk, hid⟩ := Option.map_eq_some_iff.1 (hnext.2.1.symm.trans hi)
        exact hc.waiting_ne_settled hp (mem_of_mem_head? hk) hid
      · exact hc.childless m hm _ hi hplive
    · exact hc.parent_ne hn.fresh hmi hi
  · exact hc.children_cons fun i hi => .inl (hnext.2.1.symm.trans hi)
  · exact ⟨.inl hnext, hc.linked⟩

theorem Valid.replace (hc : c.Valid) (hn : c.Next c.baseId c.baseSeq n) : (c.replace n).Valid := by
  have hsub : c.settled.Sublist c.issued := (sublist_append_right _ _).trans hc.kept_issued
  constructor
  · exact hc.ids_cons hn.fresh
  · rfl
  · exact hsub.cons_cons n
  · exact hc.undropped_of_replace hn.fresh
  · exact hc.dropped_issued_cons
  · exact hc.parent_issued_cons fun i hi => .inl (hn.parent.symm.trans hi)
  · intro m hm hroot i hi
    rcases mem_cons.1 hm with rfl | hm
    · obtain ⟨k, hk, hid⟩ := Option.map_eq_some_iff.1 (hn.parent.symm.trans hi)
      exact ⟨k, mem_of_mem_head? hk, hid⟩
    · exact hc.parent_settled m hm hroot i hi
  · intro q hq
    obtain rfl := Option.some.inj hq
    exact ⟨hn.root, hn.parent, hn.seq, hn.epoch⟩
  · rintro m hm i hi (hl | hl)
    · exact hc.childless m hm i hi (.inl hl)
    · obtain rfl := Option.some.inj hl
      exact hc.parent_ne hn.fresh (hsub.subset hm) hi
  · exact hc.children
  · exact hc.linked

theorem Valid.baseSeq_le_tipSeq (hc : c.Valid) : c.baseSeq ≤ c.tipSeq := by
  unfold tipSeq
  cases hw : c.waiting with
  | none => exact Int.le_refl _
  | some p =>
    have := (hc.waiting_next p hw).2.2.1
    show c.baseSeq ≤ p.seq
    omega

theorem Valid.restart (hc : c.Valid) (hn : c.NextRoot n) : (c.restart n).Valid := by
  have hsub : c.settled.Sublist c.issued := (sublist_append_right _ _).trans hc.kept_issued
  have hlive : ∀ i, n.parent = some i → c.Live i := fun i hi => live_of_tip (hn.parent.symm.trans hi)
  constructor
  · exact hc.ids_cons hn.fresh
  · rfl
  · exact hsub.cons_cons n
  · exact hc.undropped_of_replace hn.fresh
  · exact hc.dropped_issued_cons
  · exact hc.parent_issued_cons hlive
  · intro m hm hroot i hi
    rcases mem_cons.1 hm with rfl | hm
    · rw [hn.root] at hroot; cases hroot
    · obtain ⟨k, hk, hid⟩ := hc.parent_settled m hm hroot i hi
      exact ⟨k, mem_cons_of_mem _ hk, hid⟩
  · intro q hq
    cases hq
  · rintro m hm i hi (hl | hl)
    · obtain rfl := Option.some.inj hl
      rcases mem_cons.1 hm with rfl | hm
      · exact hc.live_ne hn.fresh (hlive _ hi) rfl
      · exact hc.parent_ne hn.fresh (hsub.subset hm) hi
    · cases hl
  · exact hc.children_cons hlive
  · refine ⟨.inr ⟨hn.root, ?_, hn.epoch⟩, hc.linked⟩
    have h := hc.baseSeq_le_tipSeq
    have hseq := hn.seq
    show c.baseSeq < n.seq
    omega

theorem Valid.step (hc : c.Valid) (h : Step c c') : c'.Valid := by
  cases h with
  | build hp hn => exact hc.build hp hn
  | replace hn => exact hc.replace hn
  | restart hn => exact hc.restart hn

/-! ## What only grows -/

/-- `c'` is later than `c`. -/
structure Extends (c c' : Lineage ι) : Prop where
  settled : c.settled <:+ c'.settled
  dropped : c.dropped <:+ c'.dropped
  issued : c.issued <:+ c'.issued
  baseSeq : c.baseSeq ≤ c'.baseSeq
  epoch : c.epoch ≤ c'.epoch

theorem Extends.refl (c : Lineage ι) : Extends c c :=
  ⟨suffix_refl _, suffix_refl _, suffix_refl _, Int.le_refl _, Int.le_refl _⟩

theorem Extends.trans {a b : Lineage ι} (h : Extends a b) (h' : Extends b c) : Extends a c :=
  ⟨h.settled.trans h'.settled, h.dropped.trans h'.dropped, h.issued.trans h'.issued,
    Int.le_trans h.baseSeq h'.baseSeq, Int.le_trans h.epoch h'.epoch⟩

theorem Valid.step_extends (hc : c.Valid) (h : Step c c') : Extends c c' := by
  cases h with
  | @build p n hp hn =>
    have hnext := hc.waiting_next p hp
    refine ⟨suffix_cons _ _, suffix_refl _, suffix_cons _ _, ?_, ?_⟩
    · show c.baseSeq ≤ p.seq
      omega
    · show c.epoch ≤ p.epoch
      omega
  | replace =>
    exact ⟨suffix_refl _, suffix_append _ _, suffix_cons _ _, Int.le_refl _, Int.le_refl _⟩
  | @restart n hn =>
    have h := hc.baseSeq_le_tipSeq
    have hseq := hn.seq
    have hepoch := hn.epoch
    refine ⟨suffix_cons _ _, suffix_append _ _, suffix_cons _ _, ?_, ?_⟩
    · show c.baseSeq ≤ n.seq
      omega
    · show c.epoch ≤ n.epoch
      omega

theorem Step.settled (h : Step c c') : c'.settled = c.settled ∨ ∃ n, c'.settled = n :: c.settled := by
  cases h with
  | @build p _ _ _ => exact .inr ⟨p, rfl⟩
  | replace => exact .inl rfl
  | @restart n _ => exact .inr ⟨n, rfl⟩

/-- A step allows a parent only if it was allowed before, or is the node just issued. -/
theorem Step.allows (h : Step c c') {parent : Option ι}
    (hissued : ∀ i, parent = some i → ∃ n ∈ c.issued, n.id = i) (ha : c'.Allows parent) : c.Allows parent := by
  have hfresh : ∀ n : Node ι, (∀ m ∈ c.issued, m.id ≠ n.id) → parent ≠ some n.id := by
    intro n hn hp
    obtain ⟨m, hm, hid⟩ := hissued _ hp
    exact hn m hm hid
  cases h with
  | @build p n hp hn =>
    rcases ha with ha | ⟨q, hq, ha⟩
    · exact .inr ⟨p, hp, ha⟩
    · cases hq
      exact absurd ha (hfresh n hn.fresh)
  | @replace n hn =>
    rcases ha with ha | ⟨q, hq, ha⟩
    · exact .inl ha
    · cases hq
      exact absurd ha (hfresh n hn.fresh)
  | @restart n hn =>
    rcases ha with ha | ⟨q, hq, -⟩
    · exact absurd ha (hfresh n hn.fresh)
    · cases hq

/-! ## Runs -/

structure Run (f : Nat → Lineage ι) : Prop where
  start : f 0 = empty
  next : ∀ i, f (i + 1) = f i ∨ Step (f i) (f (i + 1))

namespace Run

variable {f : Nat → Lineage ι} (h : Run f)
include h

theorem valid (i : Nat) : (f i).Valid := by
  induction i with
  | zero => rw [h.start]; exact .empty
  | succ i ih =>
    rcases h.next i with he | hs
    · rw [he]; exact ih
    · exact ih.step hs

variable {i j : Nat}

theorem extends_ (hij : i ≤ j) : Extends (f i) (f j) := by
  induction hij with
  | refl => exact .refl _
  | @step j _ ih =>
    rcases h.next j with he | hs
    · rw [he]; exact ih
    · exact ih.trans ((h.valid j).step_extends hs)

/-- A parent that has been issued and is no longer allowed is never allowed again. -/
theorem not_allows (hij : i ≤ j) {parent : Option ι}
    (hissued : ∀ x, parent = some x → ∃ n ∈ (f i).issued, n.id = x) (hn : ¬ (f i).Allows parent) :
    ¬ (f j).Allows parent := by
  induction hij with
  | refl => exact hn
  | @step j hij ih =>
    rcases h.next j with he | hs
    · rw [he]; exact ih
    intro ha
    refine ih (hs.allows (fun x hx => ?_) ha)
    obtain ⟨n, hn, hid⟩ := hissued x hx
    exact ⟨n, (h.extends_ hij).issued.subset hn, hid⟩

/-- Every settled node was the settled end at some time. -/
theorem settled_once (hn : n ∈ (f i).settled) : ∃ j ≤ i, (f j).baseId = some n.id := by
  induction i with
  | zero => rw [h.start] at hn; cases hn
  | succ i ih =>
    have hold : n ∈ (f i).settled → ∃ j ≤ i + 1, (f j).baseId = some n.id := by
      intro hn
      obtain ⟨j, hj, hb⟩ := ih hn
      exact ⟨j, by omega, hb⟩
    rcases h.next i with he | hs
    · exact hold (he ▸ hn)
    rcases hs.settled with he | ⟨m, hm⟩
    · exact hold (he ▸ hn)
    rw [hm] at hn
    rcases mem_cons.1 hn with rfl | hn
    · exact ⟨i + 1, Nat.le_refl _, by rw [baseId, hm, endId_cons]⟩
    · exact hold hn

theorem settled_of_base (hij : i ≤ j) {x : ι} (hx : (f i).baseId = some x) : ∃ n ∈ (f j).settled, n.id = x := by
  obtain ⟨n, hn, hid⟩ := Option.map_eq_some_iff.1 hx
  exact ⟨n, (h.extends_ hij).settled.subset (mem_of_mem_head? hn), hid⟩

/-- Every step issues a node, so a lineage that has issued nothing more is the same. -/
theorem eq_of_issued (hij : i ≤ j) (hissued : (f j).issued = (f i).issued) : f j = f i := by
  induction hij with
  | refl => rfl
  | @step j hij ih =>
    rcases h.next j with he | hs
    · rw [he]
      exact ih (he ▸ hissued)
    obtain ⟨n, hn⟩ := hs.issues
    have hlength := (h.extends_ hij).issued.length_le
    have hmore := congrArg length (hn.symm.trans hissued)
    rw [length_cons] at hmore
    omega

/-- The newest id is never the newest again once something newer was issued. -/
theorem tip_ne (hij : i ≤ j) (hissued : (f j).issued ≠ (f i).issued) : (f j).tipId ≠ (f i).tipId := by
  obtain ⟨newer, hsuffix⟩ := (h.extends_ hij).issued
  rw [← (h.valid j).newest, ← (h.valid i).newest, ← hsuffix]
  cases newer with
  | nil => exact absurd hsuffix.symm hissued
  | cons n newer =>
    intro hsame
    have hids := (h.valid j).ids
    rw [← hsuffix, cons_append, map_cons, nodup_cons] at hids
    -- the end of the older list would be a second node of the newest id
    obtain ⟨m, hm, hid⟩ := Option.map_eq_some_iff.1 (hsame.symm : endId (f i).issued = some n.id)
    exact hids.1 (hid ▸ mem_map_of_mem (mem_append_right newer (mem_of_mem_head? hm)))

end Run

end Lineage

/-! ## One epoch -/

structure EpochChain (epoch : Int) (l : List (Node ι)) : Prop where
  first : ∀ n, l.head? = some n →
    epoch = 1 ∧ n.root = false ∧ n.parent = none ∧ n.seq = 1 ∨ 1 < epoch ∧ n.root = true
  next : l.IsChain fun m n => n.root = false ∧ n.parent = some m.id ∧ n.seq = m.seq + 1

variable {l : List (Node ι)}

theorem Linked.one_le (h : Linked l) : 1 ≤ endEpoch l := by
  induction l with
  | nil => simp
  | cons n l ih =>
    have := ih h.2
    simp only [endEpoch_cons]
    rcases h.1 with ⟨-, -, -, he⟩ | ⟨-, -, he⟩ <;> omega

theorem Linked.epoch_le (h : Linked l) : ∀ n ∈ l, n.epoch ≤ endEpoch l := by
  induction l with
  | nil => simp
  | cons n l ih =>
    intro m hm
    rcases mem_cons.1 hm with rfl | hm
    · exact Int.le_refl _
    · have := ih h.2 m hm
      simp only [endEpoch_cons]
      rcases h.1 with ⟨-, -, -, he⟩ | ⟨-, -, he⟩ <;> omega

/-- The nodes of each epoch of a chain. -/
theorem Linked.epochChain (h : Linked l) (epoch : Int) :
    EpochChain epoch (l.filter fun n => n.epoch = epoch).reverse := by
  induction l with
  | nil => exact ⟨by simp, by simp⟩
  | cons n l ih =>
    by_cases hn : n.epoch = epoch
    · rw [filter_cons_of_pos (by simpa using hn), reverse_cons]
      rcases h.1 with ⟨hroot, hparent, hseq, he⟩ | ⟨hroot, -, he⟩
      · rcases l with _ | ⟨m, _⟩
        · have h1 : epoch = 1 := hn.symm.trans he
          exact ⟨fun m hm => by cases hm; exact .inl ⟨h1, hroot, hparent, hseq⟩, by simp⟩
        have hm : m.epoch = epoch := he.symm.trans hn
        obtain ⟨hfirst, hnext⟩ := ih h.2
        rw [filter_cons_of_pos (by simpa using hm), reverse_cons] at hfirst hnext ⊢
        refine ⟨fun k hk => hfirst k ?_, ?_⟩
        · rw [head?_append_of_ne_nil _ (by simp)] at hk
          exact hk
        · refine isChain_append.2 ⟨hnext, by simp, fun x hx y hy => ?_⟩
          simp only [getLast?_append, getLast?_singleton, Option.some_or, Option.mem_def,
            Option.some.injEq] at hx
          cases hx
          cases hy
          exact ⟨hroot, hparent, hseq⟩
      · -- the root is the only one: what came before it is of earlier epochs
        have hnone : l.filter (fun m => m.epoch = epoch) = [] := by
          refine filter_eq_nil_iff.2 fun m hm => ?_
          have := h.2.epoch_le m hm
          simp only [decide_eq_true_eq]
          omega
        have hpos := h.2.one_le
        rw [hnone]
        exact ⟨fun m hm => by cases hm; exact .inr ⟨by omega, hroot⟩, by simp⟩
    · rw [filter_cons_of_neg (by simpa using hn)]
      exact ih h.2

end Portmark.Lib
