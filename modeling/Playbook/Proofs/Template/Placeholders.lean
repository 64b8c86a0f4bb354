import Mathlib.Data.List.Basic
import Playbook.Proofs.Checked
import Playbook.Proofs.Text
import Playbook.Template

/-! # Placeholders and what takes their place

A placeholder is a path between braces. The placeholders of a text do not overlap, because no brace stands in a
path, so that a scan from left to right meets each of them; rendering puts the value at its path in the place of
each and leaves the characters between them as they are.

Main statements: `isPath_iff` says how paths are spelled and `scanned_scanFrom` what a scan makes of a text;
`mem_occurrences` and `occurrences_pairwise` say that the scan finds the placeholders, in their order, and
`render_replaces` that rendering replaces them.
-/

namespace Playbook

namespace Template

/-! ## Paths -/

/-- A letter or an underscore, followed by letters, digits and underscores. -/
def IsName (s : List Char) : Prop :=
  ∃ c rest, s = c :: rest ∧ (c.isAlpha = true ∨ c = '_') ∧ ∀ d ∈ rest, isWordChar d = true

/-- Letters, digits and underscores, at least one. -/
def IsSegment (s : List Char) : Prop := s ≠ [] ∧ ∀ c ∈ s, isWordChar c = true

/-- A name and any number of segments, each behind a point. -/
def IsSpelled (path : List Char) : Prop :=
  ∃ (name : List Char) (others : List (List Char)),
    IsName name ∧ (∀ s ∈ others, IsSegment s) ∧ path = name ++ others.flatMap ('.' :: ·)

theorem isWordChar_iff {c : Char} : isWordChar c = true ↔ (c.isAlpha = true ∨ c = '_') ∨ c.isDigit = true := by
  simp only [isWordChar, Char.isAlphanum, Bool.or_eq_true, decide_eq_true_eq]
  tauto

theorem isDigit_of_isAlpha {c : Char} (h : c.isAlpha = true) : c.isDigit = false := by
  have hcase : 'A'.val ≤ c.val ∧ c.val ≤ 'Z'.val ∨ 'a'.val ≤ c.val ∧ c.val ≤ 'z'.val := by
    change (decide (c.val ≥ 'A'.val ∧ c.val ≤ 'Z'.val) ||
      (decide (c.val ≥ 'a'.val) && decide (c.val ≤ 'z'.val))) = true at h
    simpa using h
  have habove : ¬ c.val ≤ '9'.val := by
    rw [UInt32.not_le]
    rcases hcase with ⟨hA, -⟩ | ⟨ha, -⟩
    · exact UInt32.lt_of_lt_of_le (by decide) hA
    · exact UInt32.lt_of_lt_of_le (by decide) ha
  rw [Char.isDigit, decide_eq_false habove, Bool.and_false]

/-- A name is a segment that does not start with a digit. -/
theorem isName_iff {s : List Char} : IsName s ↔ IsSegment s ∧ ∀ c ∈ s.head?, c.isDigit = false := by
  constructor
  · rintro ⟨c, rest, rfl, hc, hrest⟩
    refine ⟨⟨List.cons_ne_nil c rest, ?_⟩, ?_⟩
    · intro d hd
      rcases List.mem_cons.1 hd with rfl | hd
      · exact isWordChar_iff.2 (.inl hc)
      · exact hrest d hd
    · rintro _ ⟨⟩
      rcases hc with hletter | rfl
      · exact isDigit_of_isAlpha hletter
      · decide
  · rintro ⟨⟨hne, hword⟩, hhead⟩
    cases s with
    | nil => exact absurd rfl hne
    | cons c rest =>
      refine ⟨c, rest, rfl, ?_, fun d hd => hword d (List.mem_cons_of_mem c hd)⟩
      rcases isWordChar_iff.1 (hword c List.mem_cons_self) with hc | hdigit
      · exact hc
      · rw [hhead c rfl] at hdigit
        cases hdigit

/-- There is no point in a segment. -/
theorem IsSegment.no_point {s : List Char} (h : IsSegment s) : '.' ∉ s := by
  intro hin
  exact absurd (h.2 '.' hin) (by decide)

theorem isSegment_iff {s : List Char} : IsSegment s ↔ (!s.isEmpty && s.all isWordChar) = true := by
  simp [IsSegment]

/-- The paths are the texts of this form. -/
theorem isPath_iff {path : List Char} : isPath path = true ↔ IsSpelled path := by
  constructor
  · intro h
    obtain ⟨name, others, hsegments, htext⟩ := Text.exists_segments '.' path
    rw [isPath, hsegments, List.all_cons, Bool.and_eq_true, Bool.and_eq_true, List.all_eq_true] at h
    obtain ⟨⟨hname, hothers⟩, hhead⟩ := h
    have hsegment : IsSegment name := isSegment_iff.2 hname
    refine ⟨name, others, isName_iff.2 ⟨hsegment, ?_⟩, fun s hs => isSegment_iff.2 (hothers s hs), htext⟩
    intro c hc
    rw [htext, List.head?_append_of_ne_nil _ hsegment.1, Option.mem_def.1 hc] at hhead
    simpa using hhead
  · rintro ⟨name, others, hname, hothers, rfl⟩
    obtain ⟨hsegment, hhead⟩ := isName_iff.1 hname
    have hsegments := Text.segments_flatMap hsegment.no_point fun s hs => (hothers s hs).no_point
    rw [isPath, hsegments, List.all_cons, Bool.and_eq_true, Bool.and_eq_true, List.all_eq_true]
    refine ⟨⟨isSegment_iff.1 hsegment, fun s hs => isSegment_iff.1 (hothers s hs)⟩, ?_⟩
    rw [List.head?_append_of_ne_nil _ hsegment.1]
    cases hc : name.head? with
    | none => rfl
    | some c => simpa using hhead c hc

/-- A path has characters, and none of them but those of words and points. -/
theorem chars_of_isPath {k : List Char} (h : isPath k = true) :
    k ≠ [] ∧ ∀ c ∈ k, isWordChar c = true ∨ c = '.' := by
  obtain ⟨name, others, hname, hothers, rfl⟩ := isPath_iff.1 h
  obtain ⟨⟨hne, hword⟩, _⟩ := isName_iff.1 hname
  refine ⟨List.append_ne_nil_of_left_ne_nil hne _, ?_⟩
  intro c hc
  rcases List.mem_append.1 hc with hc | hc
  · exact .inl (hword c hc)
  · obtain ⟨s, hs, hin⟩ := List.mem_flatMap.1 hc
    rcases List.mem_cons.1 hin with rfl | hin
    · exact .inr rfl
    · exact .inl ((hothers s hs).2 c hin)

/-! ## Scanning -/

/-- A path between braces. -/
def braced (path : List Char) : List Char := '\x7b' :: (path ++ ['\x7d'])

@[simp] theorem length_braced (path : List Char) : (braced path).length = path.length + 2 := by
  simp [braced]

/-- No brace opens within a placeholder. -/
theorem brace_not_mem {path : List Char} (h : IsSpelled path) : '\x7b' ∉ path ++ ['\x7d'] := by
  intro hin
  rcases List.mem_append.1 hin with hin | hin
  · rcases (chars_of_isPath (isPath_iff.2 h)).2 _ hin with hword | hpoint
    · exact absurd hword (by decide)
    · exact absurd hpoint (by decide)
  · exact absurd hin (by decide)

/-- A placeholder is found where its brace stands. -/
theorem holeAt?_path {k : List Char} (hk : isPath k = true) (rest : List Char) :
    holeAt? ('\x7b' :: (k ++ '\x7d' :: rest)) = some k := by
  -- no character of a path is the brace that ends it
  have hrun : (k ++ '\x7d' :: rest).takeWhile (fun c => isWordChar c || c = '.') = k := by
    rw [List.takeWhile_append_of_pos, List.takeWhile_cons_of_neg (by decide), List.append_nil]
    intro c hc
    rcases (chars_of_isPath hk).2 c hc with hword | rfl
    · rw [hword, Bool.true_or]
    · rfl
  simp only [holeAt?, hrun, List.drop_left, hk]
  rfl

/-- A placeholder is found exactly where one stands. -/
theorem holeAt?_eq_some {s path : List Char} : holeAt? s = some path ↔ IsSpelled path ∧ braced path <+: s := by
  constructor
  · intro h
    unfold holeAt? at h
    split at h
    · rename_i rest
      dsimp only at h
      split at h
      · rename_i hclosed
        cases h
        rw [Bool.and_eq_true, decide_eq_true_eq] at hclosed
        refine ⟨isPath_iff.1 hclosed.2, ?_⟩
        -- the run is a beginning of what follows the brace, and the closing brace comes next
        obtain ⟨after, hafter⟩ := List.takeWhile_prefix (fun c => isWordChar c || c = '.') (l := rest)
        have hdrop := congrArg (List.drop (rest.takeWhile (fun c => isWordChar c || c = '.')).length) hafter
        rw [List.drop_left] at hdrop
        rw [← hdrop] at hclosed
        cases after with
        | nil => cases hclosed.1
        | cons d after =>
          cases hclosed.1
          refine ⟨after, ?_⟩
          rw [braced, List.cons_append, List.append_assoc, List.singleton_append, hafter]
      · cases h
    · cases h
  · rintro ⟨hpath, rest, rfl⟩
    have hfound := holeAt?_path (isPath_iff.2 hpath) rest
    simpa [braced] using hfound

/-- What a scan makes of a text: it takes the placeholder that starts where it stands, and a character only where
none starts. -/
inductive Scanned : List Char → List Piece → Prop where
  | nil : Scanned [] []
  | hole {path rest : List Char} {pieces : List Piece} :
      IsSpelled path → Scanned rest pieces → Scanned (braced path ++ rest) (.hole path :: pieces)
  | char {c : Char} {rest : List Char} {pieces : List Piece} :
      (∀ path, IsSpelled path → ¬ braced path <+: c :: rest) → Scanned rest pieces →
        Scanned (c :: rest) (.char c :: pieces)

/-- A scan passes over the characters that are covered. -/
theorem scanned_scanFrom (covered : Nat) (s : List Char) : Scanned (s.drop covered) (scanFrom covered s) := by
  fun_induction scanFrom covered s with
  | case1 covered =>
    rw [List.drop_nil]
    exact .nil
  | case2 covered c rest ih => exact ih
  | case3 c rest path hfound ih =>
    obtain ⟨hpath, after, hafter⟩ := holeAt?_eq_some.1 hfound
    have hrest : rest.drop (path.length + 1) = after := by
      have hdrop := congrArg (List.drop (braced path).length) hafter
      rw [List.drop_left, length_braced] at hdrop
      exact hdrop.symm
    rw [hrest] at ih
    rw [List.drop_zero, ← hafter]
    exact .hole hpath ih
  | case4 c rest hnone ih =>
    refine .char ?_ ih
    intro path hpath hstands
    rw [holeAt?_eq_some.2 ⟨hpath, hstands⟩] at hnone
    cases hnone

/-- The scan finds the pieces of a text. -/
theorem scanned_scan (source : String) : Scanned source.toList (scan source) :=
  scanned_scanFrom 0 source.toList

/-! ## A text that is one placeholder -/

/-- The text that refers to a key. -/
def placeholder (key : String) : String := "\x7b" ++ key ++ "\x7d"

theorem toList_placeholder (key : String) : (placeholder key).toList = braced key.toList := by
  simp [placeholder, braced]

/-- What a placeholder covers is not scanned again. -/
theorem scanFrom_covered (s rest : List Char) : scanFrom s.length (s ++ rest) = scanFrom 0 rest := by
  induction s with
  | nil => rfl
  | cons c s ih => exact ih

/-- A placeholder is one hole. -/
theorem scan_placeholder {key : String} (hk : isPath key.toList = true) :
    scan (placeholder key) = [.hole key.toList] := by
  have hcovered := scanFrom_covered (key.toList ++ ['\x7d']) []
  rw [List.append_nil, List.length_append, List.length_singleton] at hcovered
  rw [scan, toList_placeholder, braced, scanFrom, holeAt?_path hk]
  simp only [hcovered, scanFrom]

theorem solePath?_placeholder {key : String} (hk : isPath key.toList = true) :
    solePath? (placeholder key) = some key.toList := by
  rw [solePath?, scan_placeholder hk]

/-- A text that is one reference is one hole. -/
theorem scan_of_solePath? {source : String} {path : List Char} (h : solePath? source = some path) :
    scan source = [.hole path] := by
  unfold solePath? at h
  split at h
  · rename_i path' hscan
    cases h
    exact hscan
  · cases h

/-- The path of a text that is one placeholder. -/
theorem solePath?_eq_some {source : String} {path : List Char} :
    solePath? source = some path ↔ IsSpelled path ∧ source.toList = braced path := by
  constructor
  · intro h
    have hscanned := scanned_scan source
    rw [scan_of_solePath? h] at hscanned
    generalize source.toList = s at hscanned
    cases hscanned with
    | hole hpath hrest =>
      cases hrest
      exact ⟨hpath, List.append_nil _⟩
  · rintro ⟨hpath, htext⟩
    have hsource : source = placeholder (String.ofList path) := by
      rw [← String.toList_inj, toList_placeholder, String.toList_ofList, htext]
    rw [hsource, solePath?_placeholder (by rwa [String.toList_ofList, isPath_iff]), String.toList_ofList]

/-! ## Occurrences -/

/-- A placeholder in a text: where it starts, and its path. -/
structure Occurrence where
  start : Nat
  path : List Char
  deriving DecidableEq, Repr

namespace Occurrence

/-- The place behind the closing brace. -/
def stop (o : Occurrence) : Nat := o.start + (braced o.path).length

/-- The text holds the placeholder at its place. -/
def StandsIn (o : Occurrence) (s : List Char) : Prop := IsSpelled o.path ∧ braced o.path <+: s.drop o.start

/-- One placeholder starts at a place, at most. -/
theorem StandsIn.eq {o o' : Occurrence} {s : List Char} (h : o.StandsIn s) (h' : o'.StandsIn s)
    (hstart : o.start = o'.start) : o = o' := by
  rcases o with ⟨start, path⟩
  rcases o' with ⟨start', path'⟩
  cases hstart
  have hpath := holeAt?_eq_some.2 h
  rw [holeAt?_eq_some.2 h'] at hpath
  cases hpath
  rfl

/-- No placeholder starts inside of another one. -/
theorem StandsIn.stop_le {o o' : Occurrence} {s : List Char} (h : o.StandsIn s) (h' : o'.StandsIn s)
    (hstart : o.start < o'.start) : o.stop ≤ o'.start := by
  by_contra hinside
  obtain ⟨rest, hrest⟩ := h.2
  obtain ⟨rest', hrest'⟩ := h'.2
  obtain ⟨k, hk⟩ : ∃ k, o'.start = o.start + (k + 1) := ⟨o'.start - o.start - 1, by omega⟩
  rw [stop, length_braced] at hinside
  -- the opening brace of the second one would be a character of the first
  have hdrop : s.drop o'.start = (o.path ++ ['\x7d']).drop k ++ rest := by
    rw [hk, ← List.drop_drop, ← hrest, braced, List.cons_append, List.drop_succ_cons,
      List.drop_append_of_le_length]
    rw [List.length_append, List.length_singleton]
    omega
  have hne : (o.path ++ ['\x7d']).drop k ≠ [] := by
    rw [Ne, List.drop_eq_nil_iff, List.length_append, List.length_singleton]
    omega
  have hhead : ((o.path ++ ['\x7d']).drop k).head? = some '\x7b' := by
    rw [← List.head?_append_of_ne_nil _ hne, ← hdrop, ← hrest']
    rfl
  exact brace_not_mem h.1 (List.mem_of_mem_drop (List.mem_of_mem_head? hhead))

end Occurrence

/-- The placeholders among the parts of a text, the first of which starts at this place. -/
def located : Nat → List Piece → List Occurrence
  | _, [] => []
  | i, .char _ :: pieces => located (i + 1) pieces
  | i, .hole path :: pieces => ⟨i, path⟩ :: located (i + (braced path).length) pieces

/-- The placeholders of a text, from left to right. -/
def occurrences (source : String) : List Occurrence := located 0 (scan source)

/-- Among the parts of what follows a place are the placeholders that stand there or later. -/
theorem mem_located {s rest : List Char} {pieces : List Piece} (h : Scanned rest pieces) {i : Nat}
    (hrest : s.drop i = rest) (o : Occurrence) : o ∈ located i pieces ↔ i ≤ o.start ∧ o.StandsIn s := by
  -- along the pieces, where `i` is the place at which the rest of them begins
  induction h generalizing i with
  | nil =>
    refine ⟨fun hin => absurd hin List.not_mem_nil, ?_⟩
    rintro ⟨hi, _, after, hafter⟩
    have hnil : s.drop o.start = [] := by
      rw [List.drop_eq_nil_iff] at hrest ⊢
      omega
    rw [hnil, braced] at hafter
    cases hafter
  | @hole path rest pieces hpath _ ih =>
    have hfirst : Occurrence.StandsIn ⟨i, path⟩ s := by
      refine ⟨hpath, ?_⟩
      rw [hrest]
      exact List.prefix_append _ _
    have hlater : s.drop (i + (braced path).length) = rest := by
      rw [← List.drop_drop, hrest, List.drop_left]
    rw [located, List.mem_cons, ih hlater]
    constructor
    · rintro (rfl | ⟨hle, hstands⟩)
      · exact ⟨Nat.le_refl i, hfirst⟩
      · exact ⟨by omega, hstands⟩
    · rintro ⟨hle, hstands⟩
      rcases Nat.eq_or_lt_of_le hle with heq | hlt
      · exact .inl (hstands.eq hfirst heq.symm)
      · exact .inr ⟨hfirst.stop_le hstands hlt, hstands⟩
  | @char c rest pieces hnone _ ih =>
    have hlater : s.drop (i + 1) = rest := by
      rw [← List.drop_drop, hrest, List.drop_succ_cons, List.drop_zero]
    rw [located, ih hlater]
    constructor
    · rintro ⟨hle, hstands⟩
      exact ⟨by omega, hstands⟩
    · rintro ⟨hle, hstands⟩
      refine ⟨?_, hstands⟩
      -- where no placeholder is read none stands
      by_contra hlt
      have heq : o.start = i := by omega
      have hhere := hstands.2
      rw [heq, hrest] at hhere
      exact hnone o.path hstands.1 hhere

/-- The scan finds each placeholder of the text, and nothing else. -/
theorem mem_occurrences {source : String} {o : Occurrence} : o ∈ occurrences source ↔ o.StandsIn source.toList := by
  rw [occurrences, mem_located (scanned_scan source) List.drop_zero]
  exact and_iff_right (Nat.zero_le _)

/-- The placeholders among the parts follow one another, none before the first place. -/
theorem located_pairwise (i : Nat) (pieces : List Piece) :
    (∀ o ∈ located i pieces, i ≤ o.start) ∧
      (located i pieces).Pairwise (fun o o' => o.stop ≤ o'.start) := by
  fun_induction located i pieces with
  | case1 => exact ⟨fun o h => absurd h List.not_mem_nil, .nil⟩
  | case2 i c pieces ih => exact ⟨fun o h => (by have := ih.1 o h; omega), ih.2⟩
  | case3 i path pieces ih =>
    refine ⟨?_, List.pairwise_cons.2 ⟨ih.1, ih.2⟩⟩
    intro o h
    rcases List.mem_cons.1 h with rfl | h
    · exact Nat.le_refl i
    · exact Nat.le_trans (Nat.le_add_right _ _) (ih.1 o h)

/-- References do not overlap, and are found from left to right. -/
theorem occurrences_pairwise (source : String) :
    (occurrences source).Pairwise (fun o o' => o.stop ≤ o'.start) :=
  (located_pairwise 0 (scan source)).2

theorem located_paths (i : Nat) (pieces : List Piece) :
    (located i pieces).map (·.path) = pieces.filterMap Piece.path? := by
  fun_induction located i pieces with
  | case1 => rfl
  | case2 i c pieces ih => exact ih
  | case3 i path pieces ih => exact congrArg (path :: ·) ih

/-- The references of a text are the first segments of its placeholders. -/
theorem references_eq (source : String) :
    references source = (occurrences source).map (fun o => rootOf o.path) := by
  rw [references, ← located_paths 0, List.map_map]
  rfl

/-! ## Replacing -/

/-- The text from a place on, with another text in the place of each of these placeholders. -/
def replacedFrom (fill : List Char → List Char) (s : List Char) : Nat → List Occurrence → List Char
  | i, [] => s.drop i
  | i, o :: os => (s.take o.start).drop i ++ fill o.path ++ replacedFrom fill s o.stop os

/-- The text with another one in the place of each of its placeholders. -/
def replaced (fill : List Char → List Char) (source : String) : String :=
  String.ofList (replacedFrom fill source.toList 0 (occurrences source))

/-- What comes to stand for a part of a text. -/
def pieceText (fill : List Char → List Char) : Piece → List Char
  | .char c => [c]
  | .hole path => fill path

/-- The parts make the text from the place where the first of them starts. -/
theorem replacedFrom_located (fill : List Char → List Char) {s rest : List Char} {pieces : List Piece}
    (h : Scanned rest pieces) {i j : Nat} (hrest : s.drop i = rest) (hle : j ≤ i) (hi : i ≤ s.length) :
    replacedFrom fill s j (located i pieces) = (s.take i).drop j ++ pieces.flatMap (pieceText fill) := by
  -- what lies between `j` and `i` is plain text that has been read and is still to be copied
  induction h generalizing i j with
  | nil =>
    have hall : s.take i = s := List.take_of_length_le (List.drop_eq_nil_iff.1 hrest)
    rw [located, replacedFrom, hall, List.flatMap_nil, List.append_nil]
  | @hole path rest pieces hpath _ ih =>
    have hlater : s.drop (i + (braced path).length) = rest := by
      rw [← List.drop_drop, hrest, List.drop_left]
    have hend : i + (braced path).length ≤ s.length := by
      have hlength := congrArg List.length hrest
      rw [List.length_drop, List.length_append] at hlength
      omega
    have hnext := ih (j := i + (braced path).length) hlater (Nat.le_refl _) hend
    have hnone : (s.take (i + (braced path).length)).drop (i + (braced path).length) = [] := by
      rw [List.drop_eq_nil_iff, List.length_take]
      omega
    rw [hnone, List.nil_append] at hnext
    rw [located, replacedFrom, Occurrence.stop, hnext, List.flatMap_cons, List.append_assoc]
    rfl
  | @char c rest pieces _ _ ih =>
    have hlater : s.drop (i + 1) = rest := by
      rw [← List.drop_drop, hrest, List.drop_succ_cons, List.drop_zero]
    have hlt : i < s.length := by
      have hlength := congrArg List.length hrest
      rw [List.length_drop, List.length_cons] at hlength
      omega
    have hc : s[i] = c := by
      have hdrop := List.drop_eq_getElem_cons hlt
      rw [hrest] at hdrop
      exact (List.cons.inj hdrop).1.symm
    have htake : (s.take (i + 1)).drop j = (s.take i).drop j ++ [c] := by
      rw [← List.take_append_getElem hlt, hc, List.drop_append_of_le_length]
      rw [List.length_take]
      omega
    rw [located, ih hlater (by omega) hlt, htake, List.append_assoc, List.flatMap_cons]
    rfl

theorem replaced_eq (fill : List Char → List Char) (source : String) :
    replaced fill source = String.ofList ((scan source).flatMap (pieceText fill)) := by
  rw [replaced, occurrences,
    replacedFrom_located fill (scanned_scan source) List.drop_zero (Nat.le_refl 0) (Nat.zero_le _)]
  rfl

/-! ## Rendering -/

/-- The text of the value at a path, and no text where there is no value. -/
def shown (r : Region) (path : List Char) : List Char :=
  match r.lookup? path with
  | some v => v.display.toList
  | none => []

/-- The placeholder is the leftmost one whose path leads to no value. -/
structure FirstMissing (r : Region) (source : String) (o : Occurrence) : Prop where
  stands : o.StandsIn source.toList
  missing : r.lookup? o.path = none
  first : ∀ o' : Occurrence, o'.StandsIn source.toList → o'.start < o.start → (r.lookup? o'.path).isSome = true

/-- A piece is filled in if what it refers to is there. -/
theorem renderPiece_eq_ok (r : Region) (p : Piece) (part : List Char) :
    renderPiece r p = .ok part ↔
      (∀ path ∈ p.path?, (r.lookup? path).isSome = true) ∧ part = pieceText (shown r) p := by
  cases p with
  | char c =>
    constructor
    · intro h
      cases h
      exact ⟨fun path hpath => (by cases hpath), rfl⟩
    · rintro ⟨_, rfl⟩
      rfl
  | hole path =>
    cases hfound : r.lookup? path with
    | none => simp [renderPiece, Piece.path?, hfound]
    | some v =>
      simp only [renderPiece, Piece.path?, pieceText, shown, hfound, Except.ok.injEq]
      constructor
      · rintro rfl
        refine ⟨?_, rfl⟩
        rintro _ ⟨⟩
        rw [hfound]
        rfl
      · rintro ⟨_, rfl⟩
        rfl

/-- It is not if what it refers to is missing, which the failure names. -/
theorem renderPiece_eq_error {r : Region} {p : Piece} {cause : Error} :
    renderPiece r p = .error cause ↔
      ∃ path, p = .hole path ∧ r.lookup? path = none ∧ cause = .missingVariable (String.ofList path) := by
  cases p with
  | char c => simp [renderPiece]
  | hole path =>
    cases hfound : r.lookup? path with
    | some v => simp [renderPiece, hfound]
    | none =>
      simp only [renderPiece, hfound, Except.error.injEq]
      constructor
      · rintro rfl
        exact ⟨path, rfl, hfound, rfl⟩
      · rintro ⟨_, ⟨⟩, _, rfl⟩
        rfl

/-- A text that is one placeholder shows the value at its path. -/
theorem render_of_solePath? {source : String} {path : List Char} (h : solePath? source = some path) (r : Region) :
    render r source = (renderPiece r (.hole path)).map String.ofList := by
  rw [render, scan_of_solePath? h, List.mapM_cons, List.mapM_nil]
  cases renderPiece r (.hole path) with
  | error cause => rfl
  | ok part => exact congrArg (fun t => Except.ok (String.ofList t)) (List.append_nil part)

/-- A text is rendered where all of its placeholders have values, which come to stand in their places. -/
theorem render_eq_ok {r : Region} {source t : String} :
    render r source = .ok t ↔
      (∀ o ∈ occurrences source, (r.lookup? o.path).isSome = true) ∧ t = replaced (shown r) source := by
  have hdefined : (∀ p ∈ scan source, ∀ path ∈ p.path?, (r.lookup? path).isSome = true) ↔
      ∀ o ∈ occurrences source, (r.lookup? o.path).isSome = true := by
    have hpaths : ∀ path, path ∈ (scan source).filterMap Piece.path? ↔ ∃ o ∈ occurrences source, o.path = path := by
      intro path
      rw [← located_paths 0, List.mem_map]
      rfl
    constructor
    · intro h o ho
      obtain ⟨p, hp, hpath⟩ := List.mem_filterMap.1 ((hpaths o.path).2 ⟨o, ho, rfl⟩)
      exact h p hp o.path hpath
    · intro h p hp path hpath
      obtain ⟨o, ho, rfl⟩ := (hpaths path).1 (List.mem_filterMap.2 ⟨p, hp, hpath⟩)
      exact h o ho
  have hparts : ∀ parts, (scan source).mapM (renderPiece r) = .ok parts ↔
      (∀ p ∈ scan source, ∀ path ∈ p.path?, (r.lookup? path).isSome = true) ∧
        parts = (scan source).map (pieceText (shown r)) :=
    fun parts => Checked.mapM_eq_ok_iff (renderPiece_eq_ok r)
  rw [render, Checked.bind_eq_ok, ← hdefined, replaced_eq, List.flatMap_def]
  constructor
  · rintro ⟨parts, hok, ht⟩
    obtain ⟨hall, rfl⟩ := (hparts parts).1 hok
    cases ht
    exact ⟨hall, rfl⟩
  · rintro ⟨hall, rfl⟩
    exact ⟨_, (hparts _).2 ⟨hall, rfl⟩, rfl⟩

theorem located_append (i : Nat) (pieces pieces' : List Piece) :
    ∃ j, located i (pieces ++ pieces') = located i pieces ++ located j pieces' := by
  fun_induction located i pieces with
  | case1 i => exact ⟨i, rfl⟩
  | case2 i c pieces ih => exact ih
  | case3 i path pieces ih =>
    obtain ⟨j, hj⟩ := ih
    exact ⟨j, congrArg (List.cons (Occurrence.mk i path)) hj⟩

/-- A text that is not rendered lacks the value of a first placeholder, and that is the error. -/
theorem exists_firstMissing {r : Region} {source : String} {cause : Error} (h : render r source = .error cause) :
    ∃ o, FirstMissing r source o ∧ cause = .missingVariable (String.ofList o.path) := by
  rcases Checked.bind_eq_error.1 h with hparts | ⟨_, _, hok⟩
  · obtain ⟨before, p, after, hscan, hbefore, hp⟩ := Checked.mapM_eq_error_iff.1 hparts
    obtain ⟨path, rfl, hmissing, rfl⟩ := renderPiece_eq_error.1 hp
    obtain ⟨i, hi⟩ := located_append 0 before (.hole path :: after)
    have hos : occurrences source = located 0 before ++ ⟨i, path⟩ :: located (i + (braced path).length) after := by
      rw [occurrences, hscan, hi, located]
    refine ⟨⟨i, path⟩, ⟨?_, hmissing, ?_⟩, rfl⟩
    · rw [← mem_occurrences, hos]
      exact List.mem_append_right _ List.mem_cons_self
    · intro o ho hlt
      rw [← mem_occurrences, hos] at ho
      -- what stands to the left was rendered before
      have hleft : o ∈ located 0 before := by
        rcases List.mem_append.1 ho with ho | ho
        · exact ho
        · have hle : i ≤ o.start := (located_pairwise i (.hole path :: after)).1 o ho
          exact absurd hlt (Nat.not_lt.2 hle)
      have hpath : o.path ∈ before.filterMap Piece.path? := by
        rw [← located_paths 0]
        exact List.mem_map_of_mem hleft
      obtain ⟨p, hin, hpiece⟩ := List.mem_filterMap.1 hpath
      obtain ⟨part, hpart⟩ := hbefore p hin
      exact ((renderPiece_eq_ok r p part).1 hpart).1 o.path hpiece
  · cases hok

/-- There is one reference that misses first. -/
theorem FirstMissing.eq {r : Region} {source : String} {o o' : Occurrence} (h : FirstMissing r source o)
    (h' : FirstMissing r source o') : o = o' := by
  rcases Nat.lt_trichotomy o.start o'.start with hlt | heq | hlt
  · have hsome := h'.first o h.stands hlt
    rw [h.missing] at hsome
    cases hsome
  · exact h.stands.eq h'.stands heq
  · have hsome := h.first o' h'.stands hlt
    rw [h'.missing] at hsome
    cases hsome

/-- A text cannot be filled in exactly if a reference misses, and the failure names the first one. -/
theorem render_eq_error {r : Region} {source : String} {cause : Error} :
    render r source = .error cause ↔
      ∃ o, FirstMissing r source o ∧ cause = .missingVariable (String.ofList o.path) := by
  constructor
  · exact exists_firstMissing
  · rintro ⟨o, ho, rfl⟩
    cases hrender : render r source with
    | ok t =>
      have hsome := (render_eq_ok.1 hrender).1 o (mem_occurrences.2 ho.stands)
      rw [ho.missing] at hsome
      cases hsome
    | error cause =>
      obtain ⟨o', ho', rfl⟩ := exists_firstMissing hrender
      rw [ho.eq ho']

/-- The references of a text are the first segments of its placeholders, all of them and in their order. It is
rendered exactly when each placeholder has a value, and then the texts of these values stand in the places of the
placeholders and all else is as it was; the error names the leftmost placeholder without a value. -/
theorem render_replaces (source : String) (r : Region) :
    (∀ o, o ∈ occurrences source ↔ o.StandsIn source.toList) ∧
    (occurrences source).Pairwise (fun o o' => o.stop ≤ o'.start) ∧
    references source = (occurrences source).map (fun o => rootOf o.path) ∧
    (∀ t, render r source = .ok t ↔
      (∀ o ∈ occurrences source, (r.lookup? o.path).isSome = true) ∧ t = replaced (shown r) source) ∧
    (∀ cause, render r source = .error cause ↔
      ∃ o, FirstMissing r source o ∧ cause = .missingVariable (String.ofList o.path)) := by
  refine ⟨?_, occurrences_pairwise source, references_eq source, ?_, ?_⟩
  · intro o
    exact mem_occurrences
  · intro t
    exact render_eq_ok
  · intro cause
    exact render_eq_error

/-- In `{a}{{b.0}}{ c }{0}{d` the braces around a placeholder, and those around what is no path, are text. -/
example : occurrences "\x7ba\x7d\x7b\x7bb.0\x7d\x7d\x7b c \x7d\x7b0\x7d\x7bd" =
    [⟨0, ['a']⟩, ⟨4, ['b', '.', '0']⟩] := by decide

end Template

end Playbook
