/-
Pages of heads: `head_pages` of witness_binding.py splits the heads of a host into pages that each
fit one request. It adds up the encoded sizes of the single heads; the sum is at least the size of
the page (`dumps_size_le`), so a page that passes the estimate fits.
-/
import Mathlib.Algebra.Order.BigOperators.Group.List
import Portmark.Witness.Rules

namespace Portmark.Witness

open Lib Lib.Json Security

/-- `HEAD_PAGE_BYTES`. -/
def headPageBytes : Nat := maxRequestBytes / 2

/-- The loop of `head_pages`: the finished pages, the open one and its estimated size. -/
structure Paging where
  pages : List Dict
  page : Dict
  size : Nat

variable (floatText : ℚ → Text)

def Paging.room (s : Paging) (entry : Nat) : Paging :=
  if !s.page.isEmpty && (decide (headPageBytes < s.size + entry) || decide (maxHeads ≤ s.page.length)) then
    ⟨s.pages ++ [s.page], [], 2⟩
  else s

def Paging.add (s : Paging) (head : String × Value) : Except PyError Paging := do
  let entry := utf8Size (← canonicalJson floatText (.dict [head]))
  let s := s.room entry
  return { s with page := Assoc.set s.page head.1 head.2, size := s.size + entry }

/-- `head_pages`. -/
def headPages (heads : Dict) : Except PyError (List Dict) := do
  let s ← (inOrder heads).foldlM (Paging.add floatText) ⟨[], [], 2⟩
  return s.pages ++ [s.page]

/-! ## Sizes -/

def entrySize (e : String × Value) : Nat := utf8Size (dumps floatText (.dict [e]))

theorem utf8Size_append (s t : Text) : utf8Size (s ++ t) = utf8Size s + utf8Size t := by
  simp [utf8Size]

theorem utf8Size_cons (c : Char) (t : Text) : utf8Size (c :: t) = c.utf8Size + utf8Size t := by
  simp [utf8Size]

theorem textEntries_size_le (d : List (String × Value)) : utf8Size (textEntries floatText d) ≤
    (d.map fun e => utf8Size (textEntries floatText [e]) + 1).sum := by
  induction d with
  | nil => simp [textEntries, utf8Size]
  | cons e d ih =>
    cases d with
    | nil => simp
    | cons e' d =>
      have htext : textEntries floatText (e :: e' :: d) = textEntries floatText [e] ++ ',' :: textEntries floatText
        (e' :: d) := by
        simp only [textEntries]
      rw [htext, utf8Size_append, utf8Size_cons, List.map_cons, List.sum_cons, show ','.utf8Size = 1 from by decide]
      omega

theorem dumps_dict_size (d : Dict) : utf8Size (dumps floatText (.dict d)) =
    2 + utf8Size (textEntries floatText (inOrder (sortEntries d))) := by
  rw [dumps, sortKeys, text, utf8Size_cons, utf8Size_append, show '{'.utf8Size = 1 from by decide,
    show utf8Size ['}'] = 1 from by decide]
  omega

/-- The estimate is no less than the size: the braces of an entry are a byte more than its comma. -/
theorem dumps_size_le (d : Dict) : utf8Size (dumps floatText (.dict d)) ≤ 2 + (d.map (entrySize floatText)).sum := by
  have hentries := textEntries_size_le floatText (inOrder (sortEntries d))
  have hperm := ((inOrder_perm (sortEntries d)).map fun e => utf8Size (textEntries floatText [e]) + 1).sum_eq
  have hsum : ((sortEntries d).map fun e => utf8Size (textEntries floatText [e]) + 1).sum ≤
      (d.map (entrySize floatText)).sum := by
    rw [sortEntries_eq, List.map_map]
    refine List.sum_le_sum fun e _ => ?_
    have hsize := dumps_dict_size floatText [e]
    rw [sortEntries_eq] at hsize
    rw [entrySize, hsize]
    show utf8Size (textEntries floatText [(e.1, sortKeys e.2)]) + 1 ≤
      2 + utf8Size (textEntries floatText [(e.1, sortKeys e.2)])
    omega
  rw [dumps_dict_size]
  omega

variable {floatText}

theorem anyEntryNonFinite_iff {d : Dict} : anyEntryNonFinite d = false ↔ ∀ e ∈ d, hasNonFinite e.2 = false := by
  induction d with
  | nil => simp [anyEntryNonFinite]
  | cons e d ih => simp [anyEntryNonFinite, ih]

theorem canonicalJson_dict {d : Dict} (h : ∀ e ∈ d, hasNonFinite e.2 = false) :
    canonicalJson floatText (.dict d) = .ok (dumps floatText (.dict d)) := by
  unfold Security.canonicalJson
  rw [hasNonFinite, anyEntryNonFinite_iff.2 h]
  rfl

/-! ## The loop -/

def pageSize (floatText : ℚ → Text) (page : Dict) : Nat := 2 + (page.map (entrySize floatText)).sum

def Fits (floatText : ℚ → Text) (page : Dict) : Prop :=
  page.length ≤ maxHeads ∧ (1 < page.length → pageSize floatText page ≤ headPageBytes)

structure Paging.Holds (floatText : ℚ → Text) (seen : Dict) (s : Paging) : Prop where
  heads : s.pages.flatten ++ s.page = seen
  pages : ∀ page ∈ s.pages, page ≠ [] ∧ Fits floatText page
  page : Fits floatText s.page
  size : s.size = pageSize floatText s.page

theorem Paging.Holds.room {s : Paging} {seen : Dict} (h : s.Holds floatText seen) (entry : Nat) :
    (s.room entry).Holds floatText seen ∧ (s.room entry).page.length < maxHeads ∧
      ((s.room entry).page ≠ [] → (s.room entry).size + entry ≤ headPageBytes) := by
  unfold Paging.room
  split
  · rename_i hfull
    have hpage : s.page ≠ [] := by
      rintro hnil
      simp [hnil] at hfull
    refine ⟨⟨by simpa using h.heads, ?_, ⟨Nat.zero_le _, by simp⟩, rfl⟩, (by decide : 0 < maxHeads), by simp⟩
    intro page hmem
    rcases List.mem_append.1 hmem with hmem | hmem
    · exact h.pages page hmem
    · rw [List.mem_singleton.1 hmem]
      exact ⟨hpage, h.page⟩
  · rename_i hroom
    by_cases hpage : s.page = []
    · rw [hpage]
      exact ⟨h, by decide, fun hne => absurd rfl hne⟩
    · obtain ⟨hbytes, hlength⟩ : s.size + entry ≤ headPageBytes ∧ s.page.length < maxHeads := by
        simpa [hpage] using hroom
      exact ⟨h, hlength, fun _ => hbytes⟩

theorem Paging.Holds.add {s : Paging} {seen : Dict} {head : String × Value} (h : s.Holds floatText seen)
    (hfinite : hasNonFinite head.2 = false) (hnew : head.1 ∉ Assoc.keys seen) :
    ∃ s', s.add floatText head = .ok s' ∧ s'.Holds floatText (seen ++ [head]) ∧ s'.page ≠ [] := by
  have htext : canonicalJson floatText (.dict [head]) = .ok (dumps floatText (.dict [head])) :=
    canonicalJson_dict (by simpa using hfinite)
  obtain ⟨hroom, hlength, hbytes⟩ := h.room (entrySize floatText head)
  generalize hs : s.room (entrySize floatText head) = r at hroom hlength hbytes
  have hset : Assoc.set r.page head.1 head.2 = r.page ++ [head] := by
    have hno : ¬ Assoc.contains r.page head.1 = true := by
      rw [Assoc.contains_iff]
      intro hk
      refine hnew ?_
      rw [← hroom.heads, Assoc.keys, List.map_append]
      exact List.mem_append_right _ hk
    rw [Assoc.set, if_neg hno]
  have hsize : pageSize floatText (r.page ++ [head]) = r.size + entrySize floatText head := by
    rw [hroom.size, pageSize, pageSize, List.map_append, List.sum_append]
    simp only [List.map_cons, List.map_nil, List.sum_cons, List.sum_nil]
    omega
  refine ⟨⟨r.pages, r.page ++ [head], r.size + entrySize floatText head⟩, ?_, ⟨?_, hroom.pages, ⟨?_, ?_⟩, hsize.symm⟩,
    ?_⟩
  · unfold Paging.add
    rw [htext]
    show Except.ok _ = _
    rw [show s.room (utf8Size (dumps floatText (.dict [head]))) = r from hs, hset]
    rfl
  · rw [← hroom.heads, List.append_assoc]
  · rw [List.length_append]
    exact hlength
  · intro hmany
    rw [hsize]
    refine hbytes ?_
    rintro hnil
    simp [hnil] at hmany
  · simp

theorem finite_of_foldlM : ∀ {heads : Dict} {s s' : Paging}, heads.foldlM (Paging.add floatText) s = .ok s' →
    ∀ e ∈ heads, hasNonFinite e.2 = false
  | [], _, _, _, _, he => by cases he
  | head :: heads, _, _, h, e, he => by
    obtain ⟨s, hadd, h⟩ := bind_ok_iff.1 h
    rcases List.mem_cons.1 he with rfl | he
    · obtain ⟨text, htext, -⟩ := bind_ok_iff.1 hadd
      unfold Security.canonicalJson at htext
      split at htext
      · cases htext
      · rename_i hfinite
        simpa [hasNonFinite, anyEntryNonFinite] using hfinite
    · exact finite_of_foldlM h e he

theorem Paging.Holds.foldlM : ∀ {heads seen : Dict} {s : Paging}, s.Holds floatText seen → (seen ≠ [] → s.page ≠ []) →
    (∀ e ∈ heads, hasNonFinite e.2 = false) → (Assoc.keys (seen ++ heads)).Nodup →
    ∃ s', heads.foldlM (Paging.add floatText) s = .ok s' ∧ s'.Holds floatText (seen ++ heads) ∧
      (seen ++ heads ≠ [] → s'.page ≠ [])
  | [], seen, s, h, hopen, _, _ => by
    rw [List.append_nil]
    exact ⟨s, rfl, h, hopen⟩
  | head :: heads, seen, s, h, _, hfinite, hnodup => by
    have hnew : head.1 ∉ Assoc.keys seen := by
      intro hk
      rw [Assoc.keys, List.map_append, List.nodup_append] at hnodup
      exact hnodup.2.2 _ hk _ (by simp) rfl
    obtain ⟨s', hadd, hholds, hpage⟩ := h.add (hfinite head List.mem_cons_self) hnew
    obtain ⟨s'', hrest, hfinal⟩ := hholds.foldlM (fun _ => hpage) (fun e he => hfinite e (List.mem_cons_of_mem _ he))
      (by simpa using hnodup)
    refine ⟨s'', ?_, by simpa using hfinal⟩
    rw [List.foldlM_cons, hadd]
    exact hrest

/-- Paging loses nothing and keeps its bounds, unless a head cannot be encoded: the pages hold the heads of the input,
each on one page and as it was; a page has at most `maxHeads` heads, and one with more than one head encodes to at most
`headPageBytes` bytes; only the page of an empty input is empty. -/
theorem headPages_partition (floatText : ℚ → Text) (heads : Dict) (hnodup : (Assoc.keys heads).Nodup) :
    (hasNonFinite (.dict heads) = true ∧ ∃ error, headPages floatText heads = .error error) ∨
    ∃ pages, headPages floatText heads = .ok pages ∧ pages ≠ [] ∧
      pages.Pairwise (fun page page' => (Assoc.keys page).Disjoint (Assoc.keys page')) ∧
      (∀ taskId head, Assoc.get? heads taskId = some head ↔ ∃ page ∈ pages, Assoc.get? page taskId = some head) ∧
      (∀ page ∈ pages, (Assoc.keys page).Nodup ∧ page.length ≤ maxHeads ∧
        (1 < page.length → ∃ text, canonicalJson floatText (.dict page) = .ok text ∧ utf8Size text ≤ headPageBytes) ∧
        (page = [] → pages = [[]] ∧ heads = [])) := by
  have hperm := inOrder_perm heads
  have hsorted : (Assoc.keys (inOrder heads)).Nodup := (hperm.map Prod.fst).nodup_iff.2 hnodup
  by_cases hfinite : ∀ e ∈ heads, hasNonFinite e.2 = false
  swap
  · left
    rw [hasNonFinite, ← Bool.not_eq_false, anyEntryNonFinite_iff]
    refine ⟨hfinite, ?_⟩
    cases hs : (inOrder heads).foldlM (Paging.add floatText) ⟨[], [], 2⟩ with
    | error error => exact ⟨error, by rw [headPages, hs]; rfl⟩
    | ok s => exact absurd (fun e he => finite_of_foldlM hs e (hperm.mem_iff.2 he)) hfinite
  right
  obtain ⟨s, hs, hholds, hopen⟩ := @Paging.Holds.foldlM floatText (inOrder heads) [] ⟨[], [], 2⟩
    ⟨rfl, by simp, ⟨by decide, by simp⟩, rfl⟩ (by simp) (fun e he => hfinite e (hperm.subset he)) hsorted
  have hflat : (s.pages ++ [s.page]).flatten = inOrder heads := by simpa using hholds.heads
  have hkeys : ((s.pages ++ [s.page]).map Assoc.keys).flatten.Nodup := by
    rw [show Assoc.keys = List.map (Prod.fst (α := String) (β := Value)) from rfl, ← List.map_flatten, hflat]
    exact hsorted
  obtain ⟨hown, hdisjoint⟩ := List.nodup_flatten.1 hkeys
  have hown : ∀ page ∈ s.pages ++ [s.page], (Assoc.keys page).Nodup :=
    fun page hpage => hown _ (List.mem_map_of_mem hpage)
  have hmem : ∀ e, e ∈ heads ↔ ∃ page ∈ s.pages ++ [s.page], e ∈ page := by
    intro e
    rw [← hperm.mem_iff, ← hflat, List.mem_flatten]
  refine ⟨s.pages ++ [s.page], by rw [headPages, hs]; rfl, by simp, List.pairwise_map.1 hdisjoint, ?_, ?_⟩
  · intro taskId head
    rw [← Assoc.mem_iff_get? hnodup, hmem]
    constructor
    · rintro ⟨page, hpage, he⟩
      exact ⟨page, hpage, Assoc.get?_of_mem (hown page hpage) he⟩
    · rintro ⟨page, hpage, he⟩
      exact ⟨page, hpage, Assoc.mem_of_get? he⟩
  · intro page hpage
    have hfits : Fits floatText page ∧ (page = [] → page = s.page) := by
      rcases List.mem_append.1 hpage with hfinished | hlast
      · exact ⟨(hholds.pages page hfinished).2, fun hnil => absurd hnil (hholds.pages page hfinished).1⟩
      · rw [List.mem_singleton.1 hlast]
        exact ⟨hholds.page, fun _ => rfl⟩
    refine ⟨hown page hpage, hfits.1.1, fun hmany => ⟨_, canonicalJson_dict fun e he => ?_, ?_⟩, ?_⟩
    · exact hfinite e ((hmem e).2 ⟨page, hpage, he⟩)
    · exact (dumps_size_le floatText page).trans (hfits.1.2 hmany)
    · intro hnil
      have hempty : inOrder heads = [] := by
        by_contra hne
        exact hopen hne ((hfits.2 hnil).symm.trans hnil)
      have hheads : heads = [] := by
        rw [hempty] at hperm
        exact hperm.nil_eq.symm
      have hpages : s.pages = [] := by
        rw [hempty, List.flatten_eq_nil_iff] at hflat
        rw [List.eq_nil_iff_forall_not_mem]
        intro page' hpage'
        exact (hholds.pages page' hpage').1 (hflat page' (List.mem_append_left _ hpage'))
      rw [hpages, ← hfits.2 hnil, hnil]
      exact ⟨rfl, hheads⟩

def longText : ℚ → Text := fun _ => List.replicate headPageBytes '0'

def longHeads : Dict := [("b", .float (.finite 2)), ("a", .float (.finite 1))]

theorem le_utf8Size_longText (q : ℚ) : headPageBytes ≤ utf8Size (longText q) := by
  have hzeros : ∀ n, utf8Size (List.replicate n '0') = n := by
    intro n
    induction n with
    | zero => rfl
    | succ n ih =>
      rw [List.replicate_succ, utf8Size_cons, ih]
      exact Nat.add_comm 1 n
  rw [longText, hzeros]

section Long

variable (hlong : ∀ q, headPageBytes ≤ utf8Size (floatText q))

include hlong

theorem entrySize_long (k : String) (q : ℚ) : headPageBytes ≤ entrySize floatText (k, .float (.finite q)) := by
  have htext : textEntries floatText [(k, .float (.finite q))] =
      ('"' :: escape k.toList ++ ['"', ':']) ++ floatText q := by simp [textEntries, text]
  rw [entrySize, dumps_dict_size, sortEntries_eq]
  show headPageBytes ≤ 2 + utf8Size (textEntries floatText [(k, .float (.finite q))])
  rw [htext, utf8Size_append]
  have := hlong q
  omega

theorem headPages_long :
    headPages floatText longHeads = .ok [[("a", .float (.finite 1))], [("b", .float (.finite 2))]] := by
  have ha := entrySize_long hlong "a" 1
  have hb := entrySize_long hlong "b" 2
  have horder : inOrder longHeads = [("a", .float (.finite 1)), ("b", .float (.finite 2))] := rfl
  have hfinite : ∀ k q, canonicalJson floatText (.dict [(k, .float (.finite q))]) =
      .ok (dumps floatText (.dict [(k, .float (.finite q))])) := fun _ _ => rfl
  have hset : ∀ (k : String) (v : Value), Assoc.set [] k v = [(k, v)] := fun _ _ => rfl
  unfold entrySize at ha hb
  have hfull : headPageBytes < 2 + utf8Size (dumps floatText (.dict [("a", .float (.finite 1))])) +
      utf8Size (dumps floatText (.dict [("b", .float (.finite 2))])) := by omega
  simp [headPages, horder, Paging.add, Paging.room, hfinite, hfull, hset, bind, Except.bind, pure, Except.pure]

end Long

/-- Two heads that do not fit one page: each is on a page of its own. -/
theorem headPages_partition_split : ∃ pages, headPages longText longHeads = .ok pages ∧ pages.length = 2 ∧
    pages.Pairwise (fun page page' => (Assoc.keys page).Disjoint (Assoc.keys page')) ∧
    ∃ page ∈ pages, Assoc.get? page "a" = some (.float (.finite 1)) := by
  obtain ⟨h, -⟩ | ⟨pages, h, -, hdisjoint, hheads, -⟩ := headPages_partition longText longHeads (by decide)
  · simp [longHeads, hasNonFinite, anyEntryNonFinite] at h
  · refine ⟨pages, h, ?_, hdisjoint, (hheads "a" _).1 rfl⟩
    rw [headPages_long le_utf8Size_longText] at h
    rw [← Except.ok.inj h]
    rfl

end Portmark.Witness
