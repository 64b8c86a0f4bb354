import Mathlib.Data.List.Chain
import Mathlib.Data.List.TakeWhile
import Playbook.Json.Path
import Playbook.Proofs.Json.Numeral
import Playbook.Proofs.Text

/-! # What a query path finds

A path into a value names keys of objects and positions in arrays. It is written with points between keys and with
each position in brackets behind what comes before. A query looks at one segment between points at a time, and of the
brackets in a segment it reads all that stands between the first and the last one as a single position.

Main statements: `querySegment_segmentText` says what a query makes of one segment, `foldlM_segments` of all of them,
and `query_written` what it answers to a written path.
-/

namespace Playbook.Json

/-! ## Paths -/

/-- A key that can be written in a path. -/
structure Key where
  name : List Char
  ne_nil : name ≠ []
  no_point : '.' ∉ name
  no_bracket : '[' ∉ name
  deriving DecidableEq

/-- A step into a value: to the field with a key, or to the item at a position. -/
inductive Step where
  | key (k : Key)
  | index (i : Nat)
  deriving DecidableEq

namespace Step

def isIndex : Step → Bool
  | key _ => false
  | index _ => true

/-- Where a step leads. -/
def move? (v : Json) : Step → Option Json
  | key k => v.field? (String.ofList k.name)
  | index i => v.item? i

end Step

/-- Where a path leads, if every key and position on the way is there. -/
def walk? (v : Json) (path : List Step) : Option Json := path.foldlM Step.move? v

/-- A position as it is written. -/
def bracketed (i : Nat) : List Char := '[' :: (Nat.toDigits 10 i ++ [']'])

/-- The steps of a path behind what is written already. -/
def continued : List Step → List Char
  | [] => []
  | .key k :: rest => '.' :: (k.name ++ continued rest)
  | .index i :: rest => bracketed i ++ continued rest

/-- A path as it is written: there is no point before the first key. -/
def written (path : List Step) : String :=
  String.ofList
    (match path with
    | .key k :: rest => k.name ++ continued rest
    | path => continued path)

/-! ## The steps that are heeded -/

/-- What a query heeds of the positions in one segment: a position that stands alone, if it has no more than 64
bits. -/
def heededIndex? : List Nat → Option Nat
  | [i] => if i < 2 ^ 64 then some i else none
  | _ => none

/-- What a query heeds of a path, where some positions of the present segment have been read. -/
def heededFrom (is : List Nat) : List Step → List Step
  | [] => (heededIndex? is).toList.map .index
  | .key k :: rest => (heededIndex? is).toList.map .index ++ .key k :: heededFrom [] rest
  | .index i :: rest => heededFrom (is ++ [i]) rest

/-- What a query heeds of a path. -/
def heeded (path : List Step) : List Step := heededFrom [] path

/-- Every position stands alone behind a key or at the beginning, and has no more than 64 bits. -/
structure IsPlain (path : List Step) : Prop where
  alone : path.IsChain fun a b => a.isIndex = false ∨ b.isIndex = false
  fits : ∀ i, Step.index i ∈ path → i < 2 ^ 64

/-- At a key a path falls into two. -/
theorem isPlain_append_key {before after : List Step} {k : Key} :
    IsPlain (before ++ .key k :: after) ↔ IsPlain before ∧ IsPlain after := by
  constructor
  · rintro ⟨halone, hfits⟩
    obtain ⟨hbefore, hafter, -⟩ := List.isChain_append.1 halone
    refine ⟨⟨hbefore, fun i hi => hfits i (by simp [hi])⟩, ⟨hafter.tail, fun i hi => hfits i (by simp [hi])⟩⟩
  · rintro ⟨⟨hbefore, hfits⟩, ⟨hafter, hfits'⟩⟩
    refine ⟨List.isChain_append.2 ⟨hbefore, List.isChain_cons.2 ⟨fun _ _ => .inl rfl, hafter⟩, ?_⟩, ?_⟩
    · rintro _ _ _ ⟨⟩
      exact .inr rfl
    · intro i hi
      simp only [List.mem_append, List.mem_cons, reduceCtorEq, false_or] at hi
      exact hi.elim (hfits i) (hfits' i)

theorem heededIndex?_eq_iff (is : List Nat) :
    (heededIndex? is).toList.map Step.index = is.map .index ↔ IsPlain (is.map .index) := by
  match is with
  | [] => exact ⟨fun _ => ⟨.nil, fun _ hi => nomatch hi⟩, fun _ => rfl⟩
  | [i] =>
    rw [heededIndex?]
    split
    · rename_i hi
      refine ⟨fun _ => ⟨.singleton _, ?_⟩, fun _ => rfl⟩
      simpa using hi
    · rename_i hi
      refine ⟨fun h => (by simp at h), fun h => absurd (h.fits i ?_) hi⟩
      simp
  | i :: j :: is =>
    refine ⟨fun h => (by simp [heededIndex?] at h), fun h => ?_⟩
    have halone := (List.isChain_cons_cons.1 h.alone).1
    simp [Step.isIndex] at halone

/-- Positions before the same key are the same if all is the same. -/
theorem index_append_key_inj {is js : List Nat} {k : Key} {rest rest' : List Step}
    (h : is.map Step.index ++ .key k :: rest = js.map Step.index ++ .key k :: rest') : is = js ∧ rest = rest' := by
  induction is generalizing js with
  | nil =>
    cases js with
    | nil => exact ⟨rfl, (List.cons.inj h).2⟩
    | cons j js => exact absurd (List.cons.inj h).1 Step.noConfusion
  | cons i is ih =>
    cases js with
    | nil => exact absurd (List.cons.inj h).1 Step.noConfusion
    | cons j js =>
      obtain ⟨hhead, htail⟩ := List.cons.inj h
      cases hhead
      obtain ⟨rfl, hrest⟩ := ih htail
      exact ⟨rfl, hrest⟩

/-- The paths of which all steps are heeded are the plain ones. -/
theorem heededFrom_eq_iff (is : List Nat) (path : List Step) :
    heededFrom is path = is.map .index ++ path ↔ IsPlain (is.map .index ++ path) := by
  induction path generalizing is with
  | nil => rw [heededFrom, List.append_nil, heededIndex?_eq_iff]
  | cons s rest ih =>
    cases s with
    | index i => simpa [heededFrom] using ih (is ++ [i])
    | key k =>
      have hrest : heededFrom [] rest = rest ↔ IsPlain rest := ih []
      rw [isPlain_append_key, ← heededIndex?_eq_iff, ← hrest, heededFrom]
      constructor
      · intro h
        obtain ⟨his, htail⟩ := index_append_key_inj h
        exact ⟨congrArg (List.map Step.index) his, htail⟩
      · rintro ⟨his, htail⟩
        rw [his, htail]

/-! ## One segment -/

/-- A position without its sign. -/
def magnitude : List Char → List Char
  | '+' :: rest => rest
  | s => s

/-- The text of an index is a number of 64 bits, which may have a plus sign in front. -/
theorem position?_eq (s : List Char) :
    position? s =
      if (magnitude s).isEmpty || !(magnitude s).all Char.isDigit then none
      else if Parser.decimal (magnitude s) < 2 ^ 64 then some (Parser.decimal (magnitude s)) else none :=
  rfl

theorem mem_magnitude {c : Char} (hc : c ≠ '+') {s : List Char} (h : c ∈ s) : c ∈ magnitude s := by
  unfold magnitude
  split
  · exact (List.mem_cons.1 h).resolve_left hc
  · exact h

/-- Nothing but digits stands behind the sign of a position. -/
theorem position?_eq_none {s : List Char} (h : '[' ∈ s) : position? s = none := by
  have hnot : (magnitude s).all Char.isDigit = false := by
    rw [List.all_eq_false]
    exact ⟨'[', mem_magnitude (by decide) h, by decide⟩
  rw [position?_eq, hnot, Bool.not_false, Bool.or_true, if_pos rfl]

/-- An index is read back from its digits, if it has 64 bits. -/
theorem position?_toDigits (i : Nat) : position? (Nat.toDigits 10 i) = heededIndex? [i] := by
  have hdigits : ∀ c ∈ Nat.toDigits 10 i, c.isDigit = true := fun c hc =>
    Nat.isDigit_of_mem_toDigits (by decide) (by decide) hc
  have hsign : magnitude (Nat.toDigits 10 i) = Nat.toDigits 10 i := by
    rw [magnitude]
    intro rest heq
    have hplus := hdigits '+' (heq ▸ List.mem_cons_self)
    exact absurd hplus (by decide)
  have hall : (Nat.toDigits 10 i).all Char.isDigit = true := List.all_eq_true.2 hdigits
  rw [position?_eq, hsign, hall, Parser.decimal_toDigits, if_neg (by simp [Nat.toDigits_ne_nil])]
  rfl

/-- Only closing brackets are cut off at the end of a position. -/
theorem mem_trimmed {c : Char} (hc : c ≠ ']') {s : List Char} (h : c ∈ s) :
    c ∈ (s.reverse.dropWhile (· == ']')).reverse := by
  have hparts : c ∈ s.reverse.takeWhile (· == ']') ++ s.reverse.dropWhile (· == ']') := by
    rw [List.takeWhile_append_dropWhile]
    exact List.mem_reverse.2 h
  refine List.mem_reverse.2 ((List.mem_append.1 hparts).resolve_left fun htaken => hc ?_)
  simpa using List.mem_takeWhile_imp htaken

theorem trimmed_toDigits (i : Nat) :
    ((Nat.toDigits 10 i ++ [']']).reverse.dropWhile (· == ']')).reverse = Nat.toDigits 10 i := by
  have hlast : (Nat.toDigits 10 i).reverse.dropWhile (· == ']') = (Nat.toDigits 10 i).reverse := by
    rw [List.dropWhile_eq_self_iff]
    intro hpos heq
    have hmem : ']' ∈ Nat.toDigits 10 i := by
      rw [← List.mem_reverse, ← eq_of_beq heq]
      exact List.getElem_mem hpos
    exact absurd (Nat.isDigit_of_mem_toDigits (by decide) (by decide) hmem) (by decide)
  rw [List.reverse_append, List.reverse_singleton, List.singleton_append, List.dropWhile_cons, if_pos (by decide),
    hlast, List.reverse_reverse]

/-- A segment as it is written: the name of a key, or nothing, and positions. -/
def segmentText (name : List Char) (is : List Nat) : List Char := name ++ is.flatMap bracketed

/-- A query heeds the position in a segment if it stands alone. -/
theorem querySegment_segmentText {name : List Char} (h : '[' ∉ name) (is : List Nat) :
    querySegment (segmentText name is) = (name, heededIndex? is) := by
  cases is with
  | nil =>
    have hcut : Text.cutAt ['['] (name ++ []) = none := Text.cutAt_append h []
    rw [List.append_nil] at hcut
    rw [segmentText, List.flatMap_nil, List.append_nil, querySegment, hcut]
    rfl
  | cons i is =>
    have htext : segmentText name (i :: is) = name ++ '[' :: (Nat.toDigits 10 i ++ ']' :: is.flatMap bracketed) := by
      simp [segmentText, bracketed]
    rw [htext, querySegment, Text.cutAt_singleton h]
    refine congrArg (Prod.mk name) ?_
    cases is with
    | nil => rw [List.flatMap_nil, trimmed_toDigits, position?_toDigits]
    | cons j is => exact position?_eq_none (mem_trimmed (by decide) (by simp [bracketed]))

/-! ## All segments -/

/-- The value under the key of a segment, or the value itself if the segment has no key. -/
def entered? (v : Json) (name : List Char) : Option Json :=
  if name.isEmpty then some v else v.field? (String.ofList name)

theorem walk?_cons (v : Json) (s : Step) (path : List Step) :
    walk? v (s :: path) = (s.move? v).bind fun w => walk? w path := by
  rw [walk?, List.foldlM_cons]
  rfl

/-- A path in two parts is walked one part after the other. -/
theorem walk?_append (v : Json) (before after : List Step) :
    walk? v (before ++ after) = (walk? v before).bind fun w => walk? w after := by
  rw [walk?, List.foldlM_append]
  rfl

/-- A query goes through the key of a segment, and then to the position that it heeds. -/
theorem queryStep?_segmentText {name : List Char} (h : '[' ∉ name) (is : List Nat) (v : Json) :
    queryStep? v (segmentText name is) =
      (entered? v name).bind fun w => walk? w ((heededIndex? is).toList.map .index) := by
  have hentered : (if name.isEmpty then some v else v.field? (String.ofList name)) = entered? v name := rfl
  rw [queryStep?, querySegment_segmentText h]
  split
  · -- nothing is written in the segment
    rename_i hempty
    obtain ⟨rfl, his⟩ := List.append_eq_nil_iff.1 (List.isEmpty_iff.1 hempty)
    cases is with
    | nil => rfl
    | cons i is => simp [bracketed] at his
  · simp only [hentered]
    cases heededIndex? is with
    | none => exact (Option.bind_fun_some _).symm
    | some i =>
      refine congrArg (Option.bind (entered? v name)) (funext fun w => ?_)
      rw [Option.toList_some, List.map_singleton, walk?_cons]
      exact (Option.bind_fun_some _).symm

theorem no_point_bracketed (i : Nat) : '.' ∉ bracketed i := by
  have hdigits : '.' ∉ Nat.toDigits 10 i := fun hin =>
    absurd (Nat.isDigit_of_mem_toDigits (by decide) (by decide) hin) (by decide)
  simp [bracketed, hdigits]

/-- A segment has no point if its name has none. -/
theorem no_point_segmentText {name : List Char} (h : '.' ∉ name) (is : List Nat) : '.' ∉ segmentText name is := by
  simp [segmentText, h, no_point_bracketed]

/-- What a query makes of the segments of a path, the first of which has been read in part. -/
theorem foldlM_segments {name : List Char} (hpoint : '.' ∉ name) (hbracket : '[' ∉ name) (is : List Nat)
    (path : List Step) (v : Json) :
    (Text.segments '.' (segmentText name is ++ continued path)).foldlM queryStep? v =
      (entered? v name).bind fun w => walk? w (heededFrom is path) := by
  induction path generalizing name is v with
  | nil =>
    rw [continued, List.append_nil, Text.segments_eq_singleton (no_point_segmentText hpoint is), List.foldlM_cons,
      queryStep?_segmentText hbracket, heededFrom]
    exact Option.bind_fun_some _
  | cons s rest ih =>
    cases s with
    | index i =>
      have htext : segmentText name is ++ continued (.index i :: rest) =
          segmentText name (is ++ [i]) ++ continued rest := by
        simp [segmentText, continued]
      rw [htext, ih hpoint hbracket, heededFrom]
    | key k =>
      -- the segment is complete, and the next one begins with the key
      have hsegments : Text.segments '.' (segmentText name is ++ continued (.key k :: rest)) =
          segmentText name is :: Text.segments '.' (segmentText k.name [] ++ continued rest) := by
        obtain ⟨first, others, hrest, -⟩ := Text.exists_segments '.' (k.name ++ continued rest)
        have hpoint' : Text.segments '.' (continued (.key k :: rest)) = [] :: first :: others := by
          rw [continued, Text.segments, if_pos rfl, hrest]
        rw [Text.segments_append (no_point_segmentText hpoint is) hpoint', List.append_nil, segmentText,
          segmentText, List.flatMap_nil, List.append_nil, hrest]
      have hentered : ∀ w, (Text.segments '.' (segmentText k.name [] ++ continued rest)).foldlM queryStep? w =
          walk? w (.key k :: heededFrom [] rest) := by
        intro w
        rw [ih k.no_point k.no_bracket, walk?_cons, entered?, if_neg (by simpa using k.ne_nil)]
        rfl
      rw [hsegments, List.foldlM_cons, queryStep?_segmentText hbracket, heededFrom]
      simp only [hentered, walk?_append]
      exact Option.bind_assoc _ _ _

/-- For every value and every path: the query of the written path gives what the steps lead to that it heeds, and
null if one of them leads nowhere. It heeds all steps of a path, and so finds what the path addresses and nothing
else, if every position stands alone and has no more than 64 bits, and of no other path. -/
theorem query_written (v : Json) (path : List Step) :
    query v (written path) = (walk? v (heeded path)).getD .null ∧ (heeded path = path ↔ IsPlain path) := by
  refine ⟨?_, heededFrom_eq_iff [] path⟩
  have hfold : (Text.segments '.' (written path).toList).foldlM queryStep? v = walk? v (heeded path) := by
    unfold written
    rw [String.toList_ofList]
    split
    · rename_i k rest
      have hfirst := foldlM_segments k.no_point k.no_bracket [] rest v
      rw [entered?, if_neg (by simpa using k.ne_nil)] at hfirst
      rw [heeded, heededFrom, ← List.append_nil k.name]
      exact hfirst.trans (walk?_cons v (.key k) _).symm
    · exact foldlM_segments List.not_mem_nil List.not_mem_nil [] path v
  rw [query, hfold]

/-! ## Positions that are passed over -/

namespace Grid

/-- Two rows of numbers. -/
def rows : Json := .arr [.arr [.int 1, .int 2], .arr [.int 3]]

/-- The second number of the first row. -/
def second : List Step := [.index 0, .index 1]

/-- A place in the first row where there is no number. -/
def beyond : List Step := [.index 0, .index 9]

/-- A row that no computer could hold. -/
def remote : List Step := [.index (2 ^ 64)]

end Grid

/-- The number that is there is not found, and where there is nothing all rows are found. -/
theorem Grid.rows_found :
    (written second = "[0][1]" ∧ walk? rows second = some (.int 2) ∧ rows.query (written second) = rows) ∧
      (walk? rows beyond = none ∧ rows.query (written beyond) = rows) ∧
      (walk? rows remote = none ∧ rows.query (written remote) = rows) := by
  decide

end Playbook.Json
