import Playbook.Text.Truncation

/-! # What is left of a text that is cut

A text is cut at the last position between two of its characters that is within the limit. So what is left is the
longest text that it begins with, and what the limit leaves unused is less than a character.

Main statements: `exists_truncated_eq_append` says that whole characters that fit are kept,
`le_size_truncated_add` how much room stays empty, and `truncated_longest` puts together what a cut gives.
-/

namespace Playbook.Text

variable {limit : Nat} {s t rest : String}

/-! ## Where a text is cut -/

theorem truncated_of_le (h : s.utf8ByteSize ≤ limit) : truncated limit s = s :=
  Option.some.inj ((truncated?_eq_some limit s).symm.trans (truncated?_of_le h))

/-- What is left ends at the last boundary within the limit, also if this is the end of the text. -/
theorem truncated_eq_copy (limit : Nat) (s : String) : truncated limit s = (s.sliceTo (s.posLE ⟨limit⟩)).copy := by
  by_cases h : s.utf8ByteSize ≤ limit
  · have hend : s.posLE ⟨limit⟩ = s.endPos := String.posLE_eq_iff.2 ⟨h, fun p _ => String.Pos.le_endPos p⟩
    rw [truncated_of_le h, hend, String.sliceTo_endPos, String.copy_toSlice]
  · exact Option.some.inj ((truncated?_eq_some limit s).symm.trans (truncated?_of_lt (Nat.lt_of_not_le h)))

theorem size_truncated (limit : Nat) (s : String) :
    (truncated limit s).utf8ByteSize = (s.posLE ⟨limit⟩).offset.byteIdx := by
  rw [truncated_eq_copy, String.Slice.utf8ByteSize_copy, String.utf8ByteSize_sliceTo]

theorem size_truncated_le (limit : Nat) (s : String) : (truncated limit s).utf8ByteSize ≤ limit := by
  rw [size_truncated]
  exact String.offset_posLE_le

/-! ## What is left -/

theorem exists_eq_truncated_append (limit : Nat) (s : String) : ∃ rest, s = truncated limit s ++ rest := by
  rw [truncated_eq_copy]
  exact ⟨_, String.sliceTo_append_sliceFrom.symm⟩

/-- Whole characters that a text begins with are kept if they fit. -/
theorem exists_truncated_eq_append (h : s = t ++ rest) (ht : t.utf8ByteSize ≤ limit) :
    ∃ more, truncated limit s = t ++ more := by
  have hsplit := String.Pos.splits_ofEqAppend h
  have hwithin : (String.Pos.ofEqAppend h).offset ≤ ⟨limit⟩ := by
    rw [hsplit.offset_eq_rawEndPos]
    exact ht
  have hle : String.Pos.ofEqAppend h ≤ s.posLE ⟨limit⟩ := (String.posLE_eq_iff.1 rfl).2 _ hwithin
  obtain ⟨more, hmore, -⟩ := (hsplit.le_iff_exists_eq_append (s.posLE ⟨limit⟩).splits).1 hle
  exact ⟨more, by rw [truncated_eq_copy, hmore]⟩

/-- The first character that is cut off does not fit, and no character has more than four bytes. -/
theorem le_size_truncated_add (h : limit < s.utf8ByteSize) : limit ≤ (truncated limit s).utf8ByteSize + 3 := by
  -- the cut is before the end, so there is a character behind it
  have hend : s.posLE ⟨limit⟩ ≠ s.endPos := by
    intro heq
    have hle := size_truncated_le limit s
    rw [size_truncated, heq] at hle
    exact absurd (show s.utf8ByteSize ≤ limit from hle) (Nat.not_le_of_lt h)
  have hover : limit < ((s.posLE ⟨limit⟩).next hend).offset.byteIdx := String.posLE_lt_iff.1 String.Pos.lt_next
  have hchar := Char.utf8Size_le_four ((s.posLE ⟨limit⟩).get hend)
  rw [String.Pos.byteIdx_offset_next] at hover
  rw [size_truncated]
  omega

/-- For every text and every limit, a cut does not fail: the search for a boundary does not go below zero, and
ends between two characters. What is left is the longest text within the limit that the text begins with. It is
the text itself if this fits, and otherwise at most three bytes shorter than the limit. -/
theorem truncated_longest (limit : Nat) (s : String) :
    truncated? limit s = some (truncated limit s) ∧
    (∃ rest, s = truncated limit s ++ rest) ∧ (truncated limit s).utf8ByteSize ≤ limit ∧
    (∀ t rest, s = t ++ rest → t.utf8ByteSize ≤ limit → ∃ more, truncated limit s = t ++ more) ∧
    (s.utf8ByteSize ≤ limit → truncated limit s = s) ∧
    (limit < s.utf8ByteSize → limit ≤ (truncated limit s).utf8ByteSize + 3) :=
  ⟨truncated?_eq_some limit s, exists_eq_truncated_append limit s, size_truncated_le limit s,
    fun _ _ => exists_truncated_eq_append, truncated_of_le, le_size_truncated_add⟩

namespace Ticket

/-- A text with characters of one, two, three and four bytes. -/
def text : String := "aé€😀"

end Ticket

/-- In nine bytes the first three characters are kept, and three bytes are left over; ten bytes hold the text. -/
theorem Ticket.truncated_text :
    truncated? 9 text = some (truncated 9 text) ∧ (∃ more, truncated 9 text = "aé€" ++ more) ∧
    9 ≤ (truncated 9 text).utf8ByteSize + 3 ∧ truncated 10 text = text := by
  obtain ⟨hcut, -, -, hlongest, -, hleft⟩ := truncated_longest 9 text
  obtain ⟨-, -, -, -, hfits, -⟩ := truncated_longest 10 text
  exact ⟨hcut, hlongest "aé€" "😀" (by decide) (by decide), hleft (by decide), hfits (by decide)⟩

/-- No character fits before the first boundary. -/
example : truncated 3 "😀" = "" := by decide

end Playbook.Text
