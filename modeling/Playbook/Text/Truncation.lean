/-! # Text in a number of bytes

Where a place holds only so many bytes, a longer text is cut. The cut goes back from the limit, byte by
byte, to the nearest position between two characters. One byte tells such a position, since a byte that
goes on with a character is none that begins one.

Main statements: `isBoundary_iff` says that a text may be cut exactly between its characters,
`boundaryBefore?_eq` that the search for a position does not go below zero, and where it ends, and
`isSome_truncated?` that no cut fails.
-/

namespace Playbook.Text

/-! ## Bytes -/

/-- Whether a byte goes on with a character that an earlier one has begun. -/
def isContinuation (b : UInt8) : Bool := 0x80 ≤ b && b < 0xC0

theorem isContinuation_ofNat {n : Nat} (h : n < 256) :
    isContinuation (UInt8.ofNat n) = true ↔ 128 ≤ n ∧ n < 192 := by
  simp [isContinuation, UInt8.le_iff_toNat_le, UInt8.lt_iff_toNat_lt, Nat.mod_eq_of_lt h]

/-- The first byte of a character begins it, and the others go on with it. -/
theorem utf8EncodeChar_eq_cons (c : Char) :
    ∃ first others, String.utf8EncodeChar c = first :: others ∧ isContinuation first = false ∧
      others.all isContinuation = true := by
  have hfirst {n : Nat} (h : n < 128 ∨ 192 ≤ n ∧ n < 256) : isContinuation (UInt8.ofNat n) = false := by
    rw [Bool.eq_false_iff, ne_eq, isContinuation_ofNat] <;> omega
  have hother (v : Nat) : isContinuation (UInt8.ofNat (v % 64 + 128)) = true := by
    rw [isContinuation_ofNat] <;> omega
  simp only [String.utf8EncodeChar]
  -- characters of one, two, three and four bytes
  split
  · exact ⟨_, _, rfl, hfirst (by omega), rfl⟩
  split
  · exact ⟨_, _, rfl, hfirst (by omega), by simp only [List.all_cons, List.all_nil, hother, Bool.and_true]⟩
  split
  · exact ⟨_, _, rfl, hfirst (by omega), by simp only [List.all_cons, List.all_nil, hother, Bool.and_true]⟩
  · exact ⟨_, _, rfl, hfirst (by omega), by simp only [List.all_cons, List.all_nil, hother, Bool.and_true]⟩

theorem isContinuation_eq_false_iff {c : Char} {b : UInt8} (h : b ∈ String.utf8EncodeChar c) :
    isContinuation b = false ↔ b.IsUTF8FirstByte := by
  obtain ⟨first, others, heq, hfirst, hothers⟩ := utf8EncodeChar_eq_cons c
  obtain ⟨i, hi, rfl⟩ := List.getElem_of_mem h
  rw [UInt8.isUTF8FirstByte_getElem_utf8EncodeChar]
  cases i with
  | zero => simp [heq, hfirst]
  | succ i => simp [heq, List.all_eq_true.1 hothers]

/-- A byte of a text is a byte of one of its characters. -/
theorem getUTF8Byte_mem (s : String) (pos : String.Pos.Raw) (h : pos < s.rawEndPos) :
    ∃ c ∈ s.toList, s.getUTF8Byte pos h ∈ String.utf8EncodeChar c := by
  apply List.mem_flatMap.1
  simp only [String.getUTF8Byte_eq_getElem, ← String.utf8Encode_toList, List.utf8Encode,
    List.getElem_toByteArray]
  exact List.getElem_mem _

/-! ## Boundaries -/

/-- Whether a text may be cut at a position: at its ends, and before a byte that begins a character. -/
def isBoundary (s : String) (pos : Nat) : Bool :=
  if pos = 0 then true
  else if h : pos < s.utf8ByteSize then !isContinuation (s.getUTF8Byte ⟨pos⟩ h)
  else pos == s.utf8ByteSize

/-- A text may be cut exactly between its characters. -/
theorem isBoundary_iff {s : String} {pos : Nat} :
    isBoundary s pos = true ↔ String.Pos.Raw.IsValid s ⟨pos⟩ := by
  unfold isBoundary
  split
  · rename_i hzero
    subst hzero
    exact iff_of_true rfl String.Pos.Raw.isValid_zero
  rw [String.Pos.Raw.isValid_iff_isUTF8FirstByte, String.Pos.Raw.ext_iff]
  split
  · rename_i hinside
    have hne : pos ≠ s.utf8ByteSize := Nat.ne_of_lt hinside
    obtain ⟨c, -, hbyte⟩ := getUTF8Byte_mem s ⟨pos⟩ hinside
    rw [Bool.not_eq_true', isContinuation_eq_false_iff hbyte]
    exact ⟨fun hfirst => .inr ⟨hinside, hfirst⟩,
      fun h => h.elim (fun hend => absurd hend hne) fun ⟨_, hfirst⟩ => hfirst⟩
  · rename_i hbeyond
    rw [beq_iff_eq]
    exact ⟨.inl, fun h => h.elim id fun ⟨hinside, _⟩ => absurd hinside hbeyond⟩

/-- The nearest boundary at or before a position; none if the search goes below zero. -/
def boundaryBefore? (s : String) : Nat → Option Nat
  | 0 => if isBoundary s 0 then some 0 else none
  | pos + 1 => if isBoundary s (pos + 1) then some (pos + 1) else boundaryBefore? s pos

/-- Inside a character, the last boundary is that of the position before. -/
theorem posLE_succ {s : String} {pos : Nat} (h : isBoundary s (pos + 1) = false) :
    s.posLE ⟨pos + 1⟩ = s.posLE ⟨pos⟩ := by
  obtain ⟨hle, hlast⟩ := String.posLE_eq_iff.1 (rfl : s.posLE ⟨pos + 1⟩ = _)
  have hlt : (s.posLE ⟨pos + 1⟩).offset.byteIdx < pos + 1 := by
    refine Nat.lt_of_le_of_ne hle fun heq => ?_
    have hvalid := String.offset_posLE_eq_self_iff.1 (String.Pos.Raw.ext heq)
    rw [isBoundary_iff.2 hvalid] at h
    cases h
  exact (String.posLE_eq_iff.2 ⟨Nat.le_of_lt_succ hlt, fun p hp => hlast p (Nat.le_succ_of_le hp)⟩).symm

/-- The search does not go below zero, and ends at the last boundary that is no greater than its start. -/
theorem boundaryBefore?_eq (s : String) (pos : Nat) :
    boundaryBefore? s pos = some (s.posLE ⟨pos⟩).offset.byteIdx := by
  induction pos with
  | zero =>
    have hle : (s.posLE ⟨0⟩).offset ≤ ⟨0⟩ := String.offset_posLE_le
    rw [boundaryBefore?, if_pos (by rfl), Nat.le_zero.1 hle]
  | succ pos ih =>
    rw [boundaryBefore?]
    cases h : isBoundary s (pos + 1) with
    | true => rw [if_pos rfl, String.offset_posLE_eq_self_iff.2 (isBoundary_iff.1 h)]
    | false => rw [if_neg Bool.false_ne_true, ih, posLE_succ h]

/-! ## Cutting -/

/-- The text before a position; none if the position is not between two characters. -/
def upTo? (s : String) (pos : Nat) : Option String :=
  if h : String.Pos.Raw.IsValid s ⟨pos⟩ then some (s.sliceTo (s.pos ⟨pos⟩ h)).copy else none

theorem upTo?_offset (s : String) (p : s.Pos) : upTo? s p.offset.byteIdx = some (s.sliceTo p).copy := by
  rw [upTo?, dif_pos p.isValid]
  rfl

/-- A text that fits, or else what stands before the last boundary within the limit; none if the search
for it or the cut fails. -/
def truncated? (limit : Nat) (s : String) : Option String :=
  if s.utf8ByteSize ≤ limit then some s else (boundaryBefore? s limit).bind (upTo? s)

theorem truncated?_of_le {limit : Nat} {s : String} (h : s.utf8ByteSize ≤ limit) : truncated? limit s = some s :=
  if_pos h

theorem truncated?_of_lt {limit : Nat} {s : String} (h : limit < s.utf8ByteSize) :
    truncated? limit s = some (s.sliceTo (s.posLE ⟨limit⟩)).copy := by
  rw [truncated?, if_neg (Nat.not_le_of_lt h), boundaryBefore?_eq, Option.bind_some, upTo?_offset]

theorem isSome_truncated? (limit : Nat) (s : String) : (truncated? limit s).isSome = true := by
  by_cases h : s.utf8ByteSize ≤ limit
  · rw [truncated?_of_le h]
    rfl
  · rw [truncated?_of_lt (Nat.lt_of_not_le h)]
    rfl

/-- The beginning of a text that fits into a number of bytes. -/
def truncated (limit : Nat) (s : String) : String := (truncated? limit s).get (isSome_truncated? limit s)

theorem truncated?_eq_some (limit : Nat) (s : String) : truncated? limit s = some (truncated limit s) :=
  (Option.some_get _).symm

end Playbook.Text
