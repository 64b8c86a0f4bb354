/-! # Text as lists of characters

Cutting text at separators, finding the first occurrence of a phrase, and trimming blanks. The operations
work on lists of characters, where they recurse on the data; the versions on `String` wrap them.

Main statement: `append_of_cutAt` (a cut at the first separator loses nothing but the separator).
-/

namespace Playbook.Text

/-! ## Blanks -/

/-- The characters with the property White_Space. -/
def isBlank (c : Char) : Bool :=
  let n := c.toNat
  (0x9 ≤ n && n ≤ 0xD) || n == 0x20 || n == 0x85 || n == 0xA0 || n == 0x1680 ||
    (0x2000 ≤ n && n ≤ 0x200A) || n == 0x2028 || n == 0x2029 || n == 0x202F || n == 0x205F ||
    n == 0x3000

/-- Drops the blanks at both ends. -/
def trim (s : List Char) : List Char :=
  ((s.dropWhile isBlank).reverse.dropWhile isBlank).reverse

/-- Drops the blanks at both ends of a string. -/
def trimmed (s : String) : String := String.ofList (trim s.toList)

/-! ## Separators -/

/-- The pieces between the occurrences of a separator; there is always at least one. -/
def segments (sep : Char) : List Char → List (List Char)
  | [] => [[]]
  | c :: rest =>
    if c = sep then [] :: segments sep rest
    else
      match segments sep rest with
      | [] => [[c]]
      | piece :: pieces => (c :: piece) :: pieces

/-- The segments of a string. -/
def split (sep : Char) (s : String) : List String :=
  (segments sep s.toList).map String.ofList

/-- The text up to the first separator. -/
def firstSegment (sep : Char) (s : String) : String :=
  String.ofList (s.toList.takeWhile (· != sep))

/-- What stands before and after the first occurrence of a phrase. -/
def cutAt (phrase : List Char) : List Char → Option (List Char × List Char)
  | [] => if phrase.isEmpty then some ([], []) else none
  | c :: rest =>
    if phrase.isPrefixOf (c :: rest) then some ([], (c :: rest).drop phrase.length)
    else (cutAt phrase rest).map (fun p => (c :: p.1, p.2))

/-- Whether a phrase occurs in a text. -/
def occursIn (phrase text : String) : Bool := (cutAt phrase.toList text.toList).isSome

/-- The texts one after the other with a separator between neighbours. -/
def join (sep : String) (parts : List String) : String := sep.intercalate parts

/-- A cut at the first occurrence of a phrase loses nothing but the phrase. -/
theorem append_of_cutAt {phrase s a b : List Char} (h : cutAt phrase s = some (a, b)) :
    a ++ phrase ++ b = s := by
  induction s generalizing a b with
  | nil =>
    unfold cutAt at h
    split at h
    · simp_all
    · simp at h
  | cons c rest ih =>
    unfold cutAt at h
    split at h
    · rename_i hp
      obtain ⟨t, ht⟩ := List.isPrefixOf_iff_prefix.1 hp
      cases h
      rw [← ht]
      simp
    · obtain ⟨p, hp, heq⟩ := Option.map_eq_some_iff.1 h
      cases heq
      have := ih (a := p.1) (b := p.2) hp
      simpa using this

/-! ## Lines -/

/-- The lines of a text. A line feed ends a line, and a carriage return before it belongs to the end;
what follows the last line feed is a line if it is not empty. -/
def lines (s : String) : List String :=
  let pieces := segments '\n' s.toList
  let ended := pieces.dropLast.map (fun l => if l.getLast? = some '\r' then l.dropLast else l)
  let rest := pieces.getLast?.toList.filter (fun l => !l.isEmpty)
  (ended ++ rest).map String.ofList

/-! ## Bytes -/

/-- The number of bytes of a text in UTF-8. -/
def size : List Char → Nat
  | [] => 0
  | c :: rest => c.utf8Size + size rest

end Playbook.Text
