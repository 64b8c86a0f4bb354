import Mathlib.Tactic.IntervalCases
import Playbook.Proofs.Dict
import Playbook.Proofs.Json.Numeral

/-! # Values read back from their text

What stands in the text of a value is read as that value, whatever may follow it. The proof goes by the
construction of the value; that the readers have steps enough is measured by the length of the text.

Main statements: `Json.Parser.string_append` for strings, `Json.Readable.reads` for values in front of something
else, and `Json.Readable.parse?_compact` for whole texts.
-/

namespace Playbook.Json.Parser

/-! ## Strings -/

/-- A hexadecimal digit is read back. -/
theorem hexValue?_hexDigit {n : Nat} (h : n < 16) : hexValue? (hexDigit n) = some n := by
  interval_cases n <;> rfl

/-- An escape of one letter. -/
theorem stringBody_short {e c : Char} (he : e ≠ 'u') (hc : shortEscape? e = some c) (bound : Nat)
    (s : List Char) :
    stringBody (bound + 1) ('\\' :: e :: s) = (stringBody bound s).map fun p => (c :: p.1, p.2) := by
  simp only [stringBody, show ¬ '\\' = '"' by decide, he, hc, if_false, if_true, Option.bind_eq_bind,
    Option.bind_some, Option.map_eq_bind]
  rfl

/-- The escape of a control character, behind its first two characters. -/
theorem unicodeEscape_control {n : Nat} (h : n < 0x20) (s : List Char) :
    unicodeEscape ('0' :: '0' :: hexDigit (n / 16) :: hexDigit (n % 16) :: s) = some (Char.ofNat n, s) := by
  have hzero : hexValue? '0' = some 0 := rfl
  have hfirst : hexValue? (hexDigit (n / 16)) = some (n / 16) := hexValue?_hexDigit (by omega)
  have hsecond : hexValue? (hexDigit (n % 16)) = some (n % 16) := hexValue?_hexDigit (by omega)
  have hsum : 0 * 4096 + 0 * 256 + n / 16 * 16 + n % 16 = n := by omega
  have hfour : hex4 ('0' :: '0' :: hexDigit (n / 16) :: hexDigit (n % 16) :: s) = some (n, s) := by
    simp only [hex4, hzero, hfirst, hsecond, Option.bind_eq_bind, Option.bind_some, hsum]
  have hlow : (decide (0xDC00 ≤ n) && decide (n ≤ 0xDFFF)) = false := by
    simp only [Bool.and_eq_false_iff, decide_eq_false_iff_not]
    omega
  have hhigh : (decide (0xD800 ≤ n) && decide (n ≤ 0xDBFF)) = false := by
    simp only [Bool.and_eq_false_iff, decide_eq_false_iff_not]
    omega
  simp only [unicodeEscape, hfour, Option.bind_eq_bind, Option.bind_some, hlow, hhigh, Bool.false_eq_true,
    if_false]

/-- One step of the reader takes what stands for one character. -/
theorem stringBody_escapeChar (c : Char) (bound : Nat) (s : List Char) :
    stringBody (bound + 1) (escapeChar c ++ s) = (stringBody bound s).map fun p => (c :: p.1, p.2) := by
  unfold escapeChar
  -- the characters with an escape of one letter, in the order in which the writer looks for them
  iterate 7
    split
    · subst c
      exact stringBody_short (by decide) rfl bound s
  split
  · rename_i hcontrol
    have hescape := unicodeEscape_control hcontrol s
    rw [Char.ofNat_toNat] at hescape
    simp only [List.cons_append, List.nil_append, stringBody, show ¬ '\\' = '"' by decide, if_false, if_true,
      hescape, Option.bind_eq_bind, Option.bind_some, Option.map_eq_bind]
    rfl
  · rename_i hquote hback _ _ _ _ _ hcontrol
    simp only [List.cons_append, List.nil_append, stringBody, hquote, hback, hcontrol, if_false,
      Option.bind_eq_bind, Option.map_eq_bind]
    rfl

/-- A string is read up to the quote that closes it. -/
theorem stringBody_append (cs : List Char) (rest : List Char) {bound : Nat} (h : cs.length < bound) :
    stringBody bound (cs.flatMap escapeChar ++ '"' :: rest) = some (cs, rest) := by
  induction cs generalizing bound with
  | nil =>
    cases bound with
    | zero => cases h
    | succ bound => rfl
  | cons c cs ih =>
    cases bound with
    | zero => cases h
    | succ bound =>
      rw [List.flatMap_cons, List.append_assoc, stringBody_escapeChar, ih (Nat.lt_of_succ_lt_succ h)]
      rfl

/-- Escapes make no text shorter. -/
theorem length_le_flatMap_escapeChar (cs : List Char) : cs.length ≤ (cs.flatMap escapeChar).length := by
  have hone : ∀ c, 1 ≤ (escapeChar c).length := by
    intro c
    unfold escapeChar
    repeat' split
    all_goals exact Nat.succ_le_succ (Nat.zero_le _)
  induction cs with
  | nil => exact Nat.le_refl 0
  | cons c cs ih =>
    have hc := hone c
    rw [List.flatMap_cons, List.length_append, List.length_cons]
    omega

/-- A string is read back, whatever follows its quotes. -/
theorem string_append (s : String) (rest : List Char) :
    string (quoteChars s.toList ++ rest) = some (s, rest) := by
  have htext : quoteChars s.toList ++ rest = '"' :: (s.toList.flatMap escapeChar ++ '"' :: rest) := by
    simp [quoteChars]
  have hbound : s.toList.length < (s.toList.flatMap escapeChar ++ '"' :: rest).length + 1 := by
    have hle := length_le_flatMap_escapeChar s.toList
    rw [List.length_append, List.length_cons]
    omega
  rw [htext, string, stringBody_append _ _ hbound, Option.map_some, String.ofList_toList]

end Playbook.Json.Parser

namespace Playbook

/-! ## Texts -/

namespace Json

/-- The characters of a value. -/
def chars (v : Json) : List Char := v.compact.toList

/-- The characters of the items that follow the first. -/
def itemChars (vs : List Json) : List Char := (compactItems vs).toList

/-- The characters of the fields that follow the first. -/
def fieldChars (fs : List (String × Json)) : List Char := (compactFields fs).toList

theorem itemChars_cons (v : Json) (vs : List Json) :
    itemChars (v :: vs) = ',' :: (v.chars ++ itemChars vs) := by
  simp [itemChars, chars, compactItems]

theorem fieldChars_cons (k : String) (v : Json) (fs : List (String × Json)) :
    fieldChars ((k, v) :: fs) = ',' :: (quoteChars k.toList ++ ':' :: (v.chars ++ fieldChars fs)) := by
  simp [fieldChars, chars, compactFields, quote]

theorem chars_str (s : String) : (str s).chars = quoteChars s.toList := by
  simp [chars, compact, quote]

theorem chars_arr (v : Json) (vs : List Json) :
    (arr (v :: vs)).chars = '[' :: (v.chars ++ (itemChars vs ++ [']'])) := by
  simp [itemChars, chars, compact]

theorem chars_obj (k : String) (v : Json) (fs : List (String × Json)) :
    (obj ((k, v) :: fs)).chars =
      '\x7b' :: (quoteChars k.toList ++ ':' :: (v.chars ++ (fieldChars fs ++ ['\x7d']))) := by
  simp [fieldChars, chars, compact, quote]

end Json

/-- The text of a number is read as this number. -/
def Double.IsLegible (d : Double) : Prop := Json.Parser.number (Json.double d).chars = some (.double d, [])

instance (d : Double) : Decidable d.IsLegible :=
  inferInstanceAs (Decidable (Json.Parser.number (Json.double d).chars = some (.double d, [])))

/-- Values that can be read back: their numbers are within bounds, the fields of their objects are in order, and
they do not nest more deeply than the reader goes. -/
inductive Json.Readable : Nat → Json → Prop where
  | null (depth : Nat) : Readable depth .null
  | bool (depth : Nat) (b : Bool) : Readable depth (.bool b)
  | int (depth : Nat) {n : Int} (h : isWordInt n = true) : Readable depth (.int n)
  | double (depth : Nat) {d : Double} (h : d.IsLegible) : Readable depth (.double d)
  | str (depth : Nat) (s : String) : Readable depth (.str s)
  | arr {depth : Nat} {items : List Json} (h : ∀ v ∈ items, Readable depth v) :
    Readable (depth + 1) (.arr items)
  | obj {depth : Nat} {fields : List (String × Json)} (hs : Fields.Sorted fields)
      (h : ∀ f ∈ fields, Readable depth f.2) : Readable (depth + 1) (.obj fields)

namespace Json.Readable

variable {depth : Nat}

/-- An object is readable one level deeper than its fields. -/
theorem ofFields {fields : List (String × Json)} (h : ∀ f ∈ fields, Readable depth f.2) :
    Readable (depth + 1) (Json.ofFields fields) :=
  .obj (Dict.ofList fields).sorted fun f hf => h f (Dict.mem_of_mem_ofList hf)

theorem ofOption {α : Type} {write : α → Json} {o : Option α} (h : ∀ a ∈ o, Readable depth (write a)) :
    Readable depth (Json.ofOption write o) := by
  cases o with
  | none => exact .null depth
  | some a => exact h a rfl

theorem mapValues {α : Type} {write : α → Json} {d : Dict α}
    (h : ∀ key a, d.get? key = some a → Readable depth (write a)) :
    Readable (depth + 1) (.ofDict (d.mapValues write)) := by
  refine .obj (d.mapValues write).sorted fun f hf => ?_
  rcases List.mem_map.1 hf with ⟨⟨key, a⟩, ha, rfl⟩
  exact h key a (Dict.mem_entries_iff.1 ha)

theorem ofDict {d : Dict Json} (h : ∀ v ∈ d.values, Readable depth v) : Readable (depth + 1) (.ofDict d) :=
  .obj d.sorted fun f hf => h f.2 (List.mem_map_of_mem hf)

/-- A list is readable one level deeper than its items. -/
theorem map {α : Type} {write : α → Json} {l : List α} (h : ∀ a ∈ l, Readable depth (write a)) :
    Readable (depth + 1) (.arr (l.map write)) :=
  .arr (List.forall_mem_map.2 h)

/-- More depth does no harm. -/
theorem succ {v : Json} (h : Readable depth v) : Readable (depth + 1) v := by
  induction h with
  | null => exact .null _
  | bool => exact .bool _ _
  | int _ h => exact .int _ h
  | double _ h => exact .double _ h
  | str => exact .str _ _
  | arr _ ih => exact .arr ih
  | obj hs _ ih => exact .obj hs ih

/-- A count that fits into a word. -/
theorem count {n : Nat} (h : n < 2 ^ 64) : Readable depth (.int n) := by
  refine .int depth ?_
  simp only [isWordInt, Bool.and_eq_true, decide_eq_true_eq]
  omega

end Json.Readable

namespace Json.Parser

/-- No blanks are skipped where there are none. -/
theorem skipSpace_cons {c : Char} (hc : isSpace c = false) (s : List Char) :
    skipSpace (c :: s) = c :: s := by
  rw [skipSpace, List.dropWhile_cons_of_neg]
  rw [hc]
  decide

/-- What a number begins with is no other character. -/
theorem numeralHead_ne {c d : Char} (hc : c = '-' ∨ c.isDigit = true) (hminus : d ≠ '-')
    (hdigit : d.isDigit = false) : c ≠ d := by
  rintro rfl
  rcases hc with hc | hc
  · exact hminus hc
  · rw [hdigit] at hc
    cases hc

/-- A number does not begin with a blank. -/
theorem isSpace_numeralHead {c : Char} (hc : c = '-' ∨ c.isDigit = true) : isSpace c = false := by
  simp [isSpace, numeralHead_ne hc (d := ' ') (by decide) (by decide),
    numeralHead_ne hc (d := '\n') (by decide) (by decide),
    numeralHead_ne hc (d := '\t') (by decide) (by decide),
    numeralHead_ne hc (d := '\r') (by decide) (by decide)]

/-! ## Plain values -/

/-- A value is read from its text, in front of whatever may stand behind a value. -/
def Reads (depth : Nat) (v : Json) : Prop :=
  ∀ rest, Ends rest → ∀ steps, 2 * v.chars.length ≤ steps →
    value steps depth (v.chars ++ rest) = some (v, rest)

/-- There is a step for the first character. -/
theorem Reads.of_cons {depth : Nat} {v : Json} {c : Char} {tail : List Char} (hchars : v.chars = c :: tail)
    (h : ∀ steps rest, Ends rest → 2 * tail.length ≤ steps →
      value (steps + 1) depth (c :: (tail ++ rest)) = some (v, rest)) : Reads depth v := by
  intro rest hrest steps hsteps
  rw [hchars, List.length_cons] at hsteps
  rw [hchars, List.cons_append]
  cases steps with
  | zero => omega
  | succ steps => exact h steps rest hrest (by omega)

theorem reads_null (depth : Nat) : Reads depth .null := by
  have hchars : null.chars = ['n', 'u', 'l', 'l'] := rfl
  refine .of_cons hchars ?_
  intro steps rest _ _
  simp [value, skipSpace, isSpace, word]

theorem reads_bool (depth : Nat) (b : Bool) : Reads depth (.bool b) := by
  cases b with
  | true =>
    have hchars : (bool true).chars = ['t', 'r', 'u', 'e'] := rfl
    refine .of_cons hchars ?_
    intro steps rest _ _
    simp [value, skipSpace, isSpace, word]
  | false =>
    have hchars : (bool false).chars = ['f', 'a', 'l', 's', 'e'] := rfl
    refine .of_cons hchars ?_
    intro steps rest _ _
    simp [value, skipSpace, isSpace, word]

theorem reads_str (depth : Nat) (s : String) : Reads depth (.str s) := by
  have hchars : (str s).chars = '"' :: (s.toList.flatMap escapeChar ++ ['"']) := chars_str s
  refine .of_cons hchars ?_
  intro steps rest _ _
  have hstring : string ('"' :: (s.toList.flatMap escapeChar ++ ['"'] ++ rest)) = some (s, rest) :=
    string_append s rest
  simp only [value, skipSpace_cons (show isSpace '"' = false by decide), hstring, Option.map_some]

/-- Where a sign or a digit stands there is a number. -/
theorem value_of_numeralHead {c : Char} (hc : c = '-' ∨ c.isDigit = true) (steps depth : Nat)
    (s : List Char) : value (steps + 1) depth (c :: s) = number (c :: s) := by
  have hne : ∀ {d : Char} {s' : List Char}, d ≠ '-' → d.isDigit = false → c :: s = d :: s' → False :=
    fun hminus hdigit heq => numeralHead_ne hc hminus hdigit (List.cons.inj heq).1
  simp only [value, skipSpace_cons (isSpace_numeralHead hc)]
  split
  · rename_i heq
    cases heq
  iterate 6
    rename_i heq
    exact (hne (by decide) (by decide) heq).elim
  rfl

/-- A numeral that is read by itself is read in front of what may stand behind a value. -/
theorem reads_number (depth : Nat) {v : Json} (h : number v.chars = some (v, [])) : Reads depth v := by
  obtain ⟨c, tail, hchars, hc⟩ := head_of_number h
  refine .of_cons hchars ?_
  intro steps rest hrest _
  have hnumber := number_append hrest h
  rw [hchars] at hnumber
  exact (value_of_numeralHead hc steps depth (tail ++ rest)).trans hnumber

/-! ## Arrays and objects -/

/-- The items of an array are read one by one, up to the bracket that closes it. -/
theorem items_append {depth : Nat} {v : Json} {vs : List Json} (h : ∀ u ∈ v :: vs, Reads depth u)
    (rest : List Char) {steps : Nat} (hsteps : 2 * (v.chars.length + (itemChars vs).length) < steps) :
    items steps depth (v.chars ++ (itemChars vs ++ ']' :: rest)) = some (v :: vs, rest) := by
  have hv : Reads depth v := h v List.mem_cons_self
  -- a step for this item and its comma, and enough of them for the text that is left
  induction vs generalizing v steps with
  | nil =>
    obtain ⟨steps, rfl⟩ : ∃ k, steps = k + 1 := ⟨steps - 1, by omega⟩
    have hfirst := hv (']' :: rest) (.cons (.inr (.inl rfl)) rest) steps (by omega)
    have hnone : itemChars [] ++ ']' :: rest = ']' :: rest := rfl
    simp only [items, hnone, hfirst, Option.bind_eq_bind, Option.bind_some,
      skipSpace_cons (show isSpace ']' = false by decide)]
  | cons w vs ih =>
    obtain ⟨steps, rfl⟩ : ∃ k, steps = k + 1 := ⟨steps - 1, by omega⟩
    rw [itemChars_cons, List.length_cons, List.length_append] at hsteps
    have hfirst := hv (',' :: (w.chars ++ (itemChars vs ++ ']' :: rest))) (.cons (.inl rfl) _) steps (by omega)
    have hothers : ∀ u ∈ w :: vs, Reads depth u := fun u hu => h u (List.mem_cons_of_mem _ hu)
    have hrest := ih hothers (show 2 * (w.chars.length + (itemChars vs).length) < steps by omega)
      (hothers w List.mem_cons_self)
    rw [itemChars_cons]
    simp only [items, List.cons_append, List.append_assoc, hfirst, Option.bind_eq_bind, Option.bind_some,
      skipSpace_cons (show isSpace ',' = false by decide), hrest]

theorem skipSpace_quoteChars (cs rest : List Char) :
    skipSpace (quoteChars cs ++ rest) = quoteChars cs ++ rest := by
  rw [quoteChars, List.cons_append, skipSpace_cons (by decide)]

/-- The fields of an object are read one by one, up to the brace that closes it. -/
theorem members_append {depth : Nat} {k : String} {v : Json} {fs : List (String × Json)}
    (h : ∀ f ∈ (k, v) :: fs, Reads depth f.2) (rest : List Char) {steps : Nat}
    (hsteps : 2 * (v.chars.length + (fieldChars fs).length) < steps) :
    members steps depth (quoteChars k.toList ++ ':' :: (v.chars ++ (fieldChars fs ++ '\x7d' :: rest))) =
      some ((k, v) :: fs, rest) := by
  have hv : Reads depth v := h (k, v) List.mem_cons_self
  induction fs generalizing k v steps with
  | nil =>
    obtain ⟨steps, rfl⟩ : ∃ k, steps = k + 1 := ⟨steps - 1, by omega⟩
    have hfirst := hv ('\x7d' :: rest) (.cons (.inr (.inr rfl)) rest) steps (by omega)
    have hnone : fieldChars [] ++ '\x7d' :: rest = '\x7d' :: rest := rfl
    simp only [members, skipSpace_quoteChars, string_append, hnone, hfirst, Option.bind_eq_bind,
      Option.bind_some, skipSpace_cons (show isSpace ':' = false by decide),
      skipSpace_cons (show isSpace '\x7d' = false by decide)]
  | cons f fs ih =>
    rcases f with ⟨l, u⟩
    obtain ⟨steps, rfl⟩ : ∃ k, steps = k + 1 := ⟨steps - 1, by omega⟩
    rw [fieldChars_cons, List.length_cons, List.length_append, List.length_cons, List.length_append] at hsteps
    have hfirst := hv (',' :: (quoteChars l.toList ++ ':' :: (u.chars ++ (fieldChars fs ++ '\x7d' :: rest))))
      (.cons (.inl rfl) _) steps (by omega)
    have hothers : ∀ f ∈ (l, u) :: fs, Reads depth f.2 := fun f hf => h f (List.mem_cons_of_mem _ hf)
    have hrest := ih hothers (show 2 * (u.chars.length + (fieldChars fs).length) < steps by omega)
      (hothers (l, u) List.mem_cons_self)
    rw [fieldChars_cons]
    simp only [members, skipSpace_quoteChars, string_append, List.cons_append, List.append_assoc, hfirst,
      Option.bind_eq_bind, Option.bind_some, skipSpace_cons (show isSpace ':' = false by decide),
      skipSpace_cons (show isSpace ',' = false by decide), hrest]

/-- A value begins with a character that neither is blank nor closes an array. -/
theorem head_chars {depth : Nat} {v : Json} (h : Readable depth v) :
    ∃ c tail, v.chars = c :: tail ∧ isSpace c = false ∧ c ≠ ']' := by
  have hnumber : number v.chars = some (v, []) →
      ∃ c tail, v.chars = c :: tail ∧ isSpace c = false ∧ c ≠ ']' := by
    intro h
    obtain ⟨c, tail, hchars, hc⟩ := head_of_number h
    exact ⟨c, tail, hchars, isSpace_numeralHead hc, numeralHead_ne hc (by decide) (by decide)⟩
  cases h with
  | null => exact ⟨'n', ['u', 'l', 'l'], rfl, by decide, by decide⟩
  | bool depth b => cases b <;> exact ⟨_, _, rfl, by decide, by decide⟩
  | int depth h => exact hnumber (number_int h)
  | double depth h => exact hnumber h
  | str depth s => exact ⟨'"', _, chars_str s, by decide, by decide⟩
  | @arr depth items h =>
    cases items with
    | nil => exact ⟨'[', [']'], rfl, by decide, by decide⟩
    | cons v vs => exact ⟨'[', _, chars_arr v vs, by decide, by decide⟩
  | @obj depth fields hs h =>
    cases fields with
    | nil => exact ⟨'\x7b', ['\x7d'], rfl, by decide, by decide⟩
    | cons f fs => exact ⟨'\x7b', _, chars_obj f.1 f.2 fs, by decide, by decide⟩

/-- An array is read if its items are. -/
theorem reads_arr {depth : Nat} {vs : List Json} (h : ∀ v ∈ vs, Readable depth v)
    (hreads : ∀ v ∈ vs, Reads depth v) : Reads (depth + 1) (.arr vs) := by
  cases vs with
  | nil =>
    have hchars : (arr []).chars = ['[', ']'] := rfl
    refine .of_cons hchars ?_
    intro steps rest _ _
    simp only [List.cons_append, List.nil_append, value, skipSpace_cons (show isSpace '[' = false by decide),
      skipSpace_cons (show isSpace ']' = false by decide)]
  | cons v vs =>
    refine .of_cons (chars_arr v vs) ?_
    intro steps rest _ hsteps
    simp only [List.length_append, List.length_singleton] at hsteps
    have hitems := items_append hreads rest
      (show 2 * (v.chars.length + (itemChars vs).length) < steps by omega)
    obtain ⟨c, tail, hc, hspace, hclose⟩ := head_chars (h v List.mem_cons_self)
    rw [hc] at hitems ⊢
    simp only [List.cons_append, List.append_assoc, List.nil_append] at hitems ⊢
    simp only [value, skipSpace_cons (show isSpace '[' = false by decide), skipSpace_cons hspace]
    -- the bracket does not close at once
    split
    · rename_i heq
      exact absurd (List.cons.inj heq).1 hclose
    · rw [hitems, Option.map_some]

/-- An object is read if its fields are, whose keys are in order. -/
theorem reads_obj {depth : Nat} {fs : List (String × Json)} (hs : Fields.Sorted fs)
    (hreads : ∀ f ∈ fs, Reads depth f.2) : Reads (depth + 1) (.obj fs) := by
  cases fs with
  | nil =>
    have hchars : (obj []).chars = ['\x7b', '\x7d'] := rfl
    refine .of_cons hchars ?_
    intro steps rest _ _
    simp only [List.cons_append, List.nil_append, value, skipSpace_cons (show isSpace '\x7b' = false by decide),
      skipSpace_cons (show isSpace '\x7d' = false by decide)]
  | cons f fs =>
    rcases f with ⟨k, v⟩
    refine .of_cons (chars_obj k v fs) ?_
    intro steps rest _ hsteps
    simp only [List.length_append, List.length_cons, List.length_nil] at hsteps
    have hmembers := members_append hreads rest
      (show 2 * (v.chars.length + (fieldChars fs).length) < steps by omega)
    have hobj : ofFields ((k, v) :: fs) = obj ((k, v) :: fs) := by
      rw [ofFields, Dict.entries_ofList_of_sorted hs]
    rw [quoteChars] at hmembers ⊢
    simp only [List.cons_append, List.append_assoc, List.nil_append] at hmembers ⊢
    simp only [value, skipSpace_cons (show isSpace '\x7b' = false by decide),
      skipSpace_cons (show isSpace '"' = false by decide)]
    split
    · rename_i heq
      exact absurd (List.cons.inj heq).1 (by decide)
    · rw [hmembers, Option.map_some, hobj]

end Json.Parser

namespace Json.Readable

/-- A value is read from its text, whatever stands behind it. -/
theorem reads {depth : Nat} {v : Json} (h : Readable depth v) : Parser.Reads depth v := by
  -- the items of an array and the fields of an object are readable one level less deep
  induction h with
  | null depth => exact Parser.reads_null depth
  | bool depth b => exact Parser.reads_bool depth b
  | int depth h => exact Parser.reads_number depth (Parser.number_int h)
  | double depth h => exact Parser.reads_number depth h
  | str depth s => exact Parser.reads_str depth s
  | arr h ih => exact Parser.reads_arr h ih
  | obj hs _ ih => exact Parser.reads_obj hs ih

/-- A value is read back from its text. -/
theorem parse?_compact {v : Json} (h : Readable nestingLimit v) : parse? v.compact = some v := by
  have hchars : v.compact.toList = v.chars := rfl
  have hvalue := h.reads [] .nil (2 * v.chars.length + 2) (Nat.le_add_right _ _)
  rw [List.append_nil] at hvalue
  simp only [parse?, parseNested?, hchars, hvalue]
  rfl

/-- What is displayed of a value is its text, or can be read back. -/
theorem eq_str_display_or_parse? {v : Json} (h : Readable nestingLimit v) :
    v = .str v.display ∨ parse? v.display = some v := by
  cases v with
  | str s => exact .inl rfl
  | _ => exact .inr h.parse?_compact

end Json.Readable

end Playbook
