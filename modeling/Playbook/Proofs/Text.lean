import Mathlib.Data.List.Basic
import Playbook.Text.Basic

/-! # Cutting and trimming texts

What a text is cut into when it was put together from pieces, and which texts lose nothing when they are trimmed.

Main statements: `segments_flatMap` says that segments behind separators are read back, `cutAt_append` that a phrase
does not begin before its first character occurs, and `trim_eq` what stays when a text is trimmed.
-/

namespace Playbook.Text

/-! ## Segments -/

variable {sep : Char} {first : List Char} {others : List (List Char)}

/-- A text is its first segment and the other ones, each behind a separator. -/
theorem exists_segments (sep : Char) (s : List Char) :
    ∃ first others, segments sep s = first :: others ∧ s = first ++ others.flatMap (sep :: ·) := by
  induction s with
  | nil => exact ⟨[], [], rfl, rfl⟩
  | cons c s ih =>
    obtain ⟨first, others, hsegments, htext⟩ := ih
    by_cases hc : c = sep
    · refine ⟨[], first :: others, ?_, ?_⟩
      · rw [segments, if_pos hc, hsegments]
      · rw [htext, hc]
        simp
    · refine ⟨c :: first, others, ?_, ?_⟩
      · rw [segments, if_neg hc, hsegments]
      · rw [htext, List.cons_append]

/-- The first segment is the text up to the first separator. -/
theorem exists_segments_eq (sep : Char) (s : List Char) :
    ∃ rest, segments sep s = s.takeWhile (· != sep) :: rest := by
  induction s with
  | nil => exact ⟨[], rfl⟩
  | cons c s ih =>
    obtain ⟨rest, hrest⟩ := ih
    by_cases hc : c = sep
    · exact ⟨segments sep s, by simp [segments, hc]⟩
    · exact ⟨rest, by simp [segments, hc, hrest]⟩

/-- What comes before the first separator belongs to the first segment. -/
theorem segments_append {s t : List Char} (hs : sep ∉ s) (ht : segments sep t = first :: others) :
    segments sep (s ++ t) = (s ++ first) :: others := by
  induction s with
  | nil => exact ht
  | cons c s ih =>
    have hc : c ≠ sep := fun heq => hs (heq ▸ List.mem_cons_self)
    rw [List.cons_append, segments, if_neg hc, ih fun hin => hs (List.mem_cons_of_mem c hin)]
    rfl

/-- A text without separator is its only segment. -/
theorem segments_eq_singleton {s : List Char} (h : sep ∉ s) : segments sep s = [s] := by
  have hread := segments_append h (show segments sep [] = [] :: [] from rfl)
  rwa [List.append_nil] at hread

/-- Segments that are written one behind the other are read back. -/
theorem segments_flatMap (hfirst : sep ∉ first) (hothers : ∀ s ∈ others, sep ∉ s) :
    segments sep (first ++ others.flatMap (sep :: ·)) = first :: others := by
  induction others generalizing first with
  | nil =>
    rw [List.flatMap_nil, List.append_nil, segments_eq_singleton hfirst]
  | cons second others ih =>
    have hrest := ih (hothers second List.mem_cons_self) fun s hs => hothers s (List.mem_cons_of_mem _ hs)
    -- the separator ends an empty segment, which `first` then fills
    have hread : segments sep (sep :: (second ++ others.flatMap (sep :: ·))) = [] :: second :: others := by
      rw [segments, if_pos rfl, hrest]
    have hall := segments_append hfirst hread
    rwa [List.append_nil] at hall

/-! ## Phrases -/

/-- A phrase does not begin before its first character occurs. -/
theorem cutAt_append {c : Char} {phrase k : List Char} (hk : c ∉ k) (s : List Char) :
    cutAt (c :: phrase) (k ++ s) = (cutAt (c :: phrase) s).map fun p => (k ++ p.1, p.2) := by
  induction k with
  | nil => simp
  | cons d k ih =>
    have hne : c ≠ d := fun h => hk (h ▸ List.mem_cons_self)
    rw [List.cons_append, cutAt, ih fun h => hk (List.mem_cons_of_mem d h), Option.map_map]
    rw [if_neg (by simp [hne])]
    rfl

/-- A text is cut at the first place where a character occurs. -/
theorem cutAt_singleton {c : Char} {k : List Char} (hk : c ∉ k) (rest : List Char) :
    cutAt [c] (k ++ c :: rest) = some (k, rest) := by
  rw [cutAt_append hk, cutAt, if_pos (by simp)]
  simp

/-! ## Blanks -/

theorem dropWhile_isBlank {s : List Char} (h : ∀ c ∈ s.head?, isBlank c = false) : s.dropWhile isBlank = s := by
  cases s with
  | nil => rfl
  | cons c rest => rw [List.dropWhile_cons, h c rfl, if_neg Bool.false_ne_true]

/-- A text whose first and last characters are no blanks stays as it is. -/
theorem trim_eq {s : List Char} (hfirst : ∀ c ∈ s.head?, isBlank c = false)
    (hlast : ∀ c ∈ s.getLast?, isBlank c = false) : trim s = s := by
  rw [trim, dropWhile_isBlank hfirst, dropWhile_isBlank, List.reverse_reverse]
  rw [List.head?_reverse]
  exact hlast

theorem trim_eq_of_forall {s : List Char} (h : ∀ c ∈ s, isBlank c = false) : trim s = s :=
  trim_eq (fun c hc => h c (List.mem_of_mem_head? hc)) fun c hc => h c (List.mem_of_mem_getLast? hc)

theorem trim_cons {c : Char} (hc : isBlank c = true) (s : List Char) : trim (c :: s) = trim s := by
  rw [trim, List.dropWhile_cons, if_pos hc, trim]

theorem trim_concat {c : Char} (hc : isBlank c = true) {s : List Char} (hs : ∀ d ∈ s, isBlank d = false) :
    trim (s ++ [c]) = s := by
  cases s with
  | nil => exact trim_cons hc []
  | cons d s =>
    have hfirst : ∀ d' ∈ (d :: s ++ [c]).head?, isBlank d' = false := by
      rintro _ ⟨⟩
      exact hs d List.mem_cons_self
    have hlast : ∀ d' ∈ (d :: s).reverse.head?, isBlank d' = false := fun d' h =>
      hs d' (List.mem_reverse.1 (List.mem_of_mem_head? h))
    rw [trim, dropWhile_isBlank hfirst, List.reverse_append, List.reverse_singleton, List.singleton_append,
      List.dropWhile_cons, if_pos hc, dropWhile_isBlank hlast, List.reverse_reverse]

end Playbook.Text
