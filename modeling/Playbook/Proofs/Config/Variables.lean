import Mathlib.Data.List.Basic
import Mathlib.Data.List.Infix
import Playbook.Config.Document
import Playbook.Proofs.Text

/-! # References to variables in the text of a configuration

A reference runs from a dollar sign and an opening brace to the next closing brace. Before a configuration is read,
the values of variables take the places of the references to them. A reference that is still open where the text
ends is read as if the text went on with the closing brace.

Main statements: `Divided.unique` says that a text is divided into references and other characters in one way,
`exists_divided` that the scan finds this division of the closed text, and `expand_replaces` what it makes of it.
-/

namespace Playbook.Variables

/-! ## Parts of a text -/

/-- A part of a text: a closed reference with its name, or a character that belongs to none. -/
inductive Part where
  | reference (name : List Char)
  | char (c : Char)
  deriving DecidableEq, Repr

/-- A reference as it is written. -/
def written (name : List Char) : List Char := '$' :: '\x7b' :: (name ++ ['\x7d'])

namespace Part

/-- A part as it stands in the text. -/
def text : Part → List Char
  | reference name => written name
  | char c => [c]

/-- What takes the place of a part: the value of a variable that is set, and otherwise the part itself. -/
def value (env : Environment) : Part → List Char
  | reference name => (environmentValue? env name).getD (written name)
  | char c => [c]

end Part

/-- How a text is divided from left to right: a reference ends with the first closing brace after its beginning,
and a character belongs to no reference only where none begins. -/
inductive Divided : List Char → List Part → Prop where
  | nil : Divided [] []
  | reference {name rest : List Char} {parts : List Part} :
      '\x7d' ∉ name → Divided rest parts → Divided (written name ++ rest) (.reference name :: parts)
  | char {c : Char} {rest : List Char} {parts : List Part} :
      (∀ name, '\x7d' ∉ name → ¬ written name <+: c :: rest) → Divided rest parts →
        Divided (c :: rest) (.char c :: parts)

theorem written_append (name rest : List Char) :
    written name ++ rest = '$' :: '\x7b' :: (name ++ '\x7d' :: rest) := by
  simp [written]

/-- No two references begin at the same place. -/
theorem written_append_inj {name name' rest rest' : List Char} (hname : '\x7d' ∉ name) (hname' : '\x7d' ∉ name')
    (h : written name ++ rest = written name' ++ rest') : name = name' ∧ rest = rest' := by
  rw [written_append, written_append] at h
  have hcut := congrArg (Text.cutAt ['\x7d']) (List.cons.inj (List.cons.inj h).2).2
  rw [Text.cutAt_singleton hname, Text.cutAt_singleton hname'] at hcut
  exact Prod.ext_iff.1 (Option.some.inj hcut)

namespace Divided

variable {s : List Char} {parts parts' : List Part}

/-- The parts of a text are the text. -/
theorem flatMap_text (h : Divided s parts) : parts.flatMap Part.text = s := by
  induction h with
  | nil => rfl
  | reference hname _ ih => rw [List.flatMap_cons, ih, Part.text]
  | char hplain _ ih =>
    rw [List.flatMap_cons, ih, Part.text]
    rfl

/-- A text is divided in one way. -/
theorem unique (h : Divided s parts) (h' : Divided s parts') : parts' = parts := by
  induction h generalizing parts' with
  | nil =>
    generalize hs : ([] : List Char) = s at h'
    cases h' with
    | nil => rfl
    | reference _ _ => cases hs
    | char _ _ => cases hs
  | @reference name rest parts hname _ ih =>
    generalize hs : written name ++ rest = s at h'
    cases h' with
    | nil => cases hs
    | reference hname' hrest' =>
      obtain ⟨rfl, rfl⟩ := written_append_inj hname hname' hs
      rw [ih hrest']
    | char hplain _ =>
      -- a reference begins where the other division has a plain character
      exact absurd ⟨rest, hs⟩ (hplain name hname)
  | @char c rest parts hplain _ ih =>
    generalize hs : c :: rest = s at h'
    cases h' with
    | nil => cases hs
    | reference hname' _ => exact absurd ⟨_, hs.symm⟩ (hplain _ hname')
    | char _ hrest' =>
      cases hs
      rw [ih hrest']

/-- Where no variable is set every part keeps its place. -/
theorem flatMap_value_of_unset (h : Divided s parts) {env : Environment}
    (hunset : ∀ name, Part.reference name ∈ parts → environmentValue? env name = none) :
    parts.flatMap (Part.value env) = s := by
  rw [← h.flatMap_text]
  refine List.flatMap_congr fun part hpart => ?_
  cases part with
  | reference name => rw [Part.value, hunset name hpart, Option.getD_none, Part.text]
  | char c => rfl

end Divided

/-! ## Open references -/

/-- A reference begins in the text that is not closed. -/
def IsOpen (s : List Char) : Prop := ∃ t ∈ s.tails, ['$', '\x7b'] <+: t ∧ '\x7d' ∉ t

instance : DecidablePred IsOpen := fun s =>
  inferInstanceAs (Decidable (∃ t ∈ s.tails, ['$', '\x7b'] <+: t ∧ '\x7d' ∉ t))

/-- A text with a closing brace behind it if a reference in it is open. -/
def closed (s : List Char) : List Char := if IsOpen s then s ++ ['\x7d'] else s

section

variable {c : Char} {s name rest : List Char} {parts : List Part}

theorem not_isOpen_nil : ¬ IsOpen [] := by
  simp [IsOpen]

theorem isOpen_cons : IsOpen (c :: s) ↔ (['$', '\x7b'] <+: c :: s ∧ '\x7d' ∉ c :: s) ∨ IsOpen s := by
  simp [IsOpen, List.tails]

/-- What is open begins after the last closing brace. -/
theorem isOpen_append_closing (s rest : List Char) : IsOpen (s ++ '\x7d' :: rest) ↔ IsOpen rest := by
  induction s with
  | nil => simp [isOpen_cons]
  | cons c s ih =>
    rw [List.cons_append, isOpen_cons, ih]
    simp

theorem closed_nil : closed [] = [] := if_neg not_isOpen_nil

/-- Closing adds nothing to a reference that is closed. -/
theorem closed_written_append (name rest : List Char) :
    closed (written name ++ rest) = written name ++ closed rest := by
  have hiff : IsOpen (written name ++ rest) ↔ IsOpen rest := by
    have happend := isOpen_append_closing ('$' :: '\x7b' :: name) rest
    rwa [List.cons_append, List.cons_append, ← written_append] at happend
  by_cases hopen : IsOpen rest
  · rw [closed, closed, if_pos (hiff.2 hopen), if_pos hopen, List.append_assoc]
  · rw [closed, closed, if_neg fun hs => hopen (hiff.1 hs), if_neg hopen]

theorem closed_of_open (h : '\x7d' ∉ name) : closed ('$' :: '\x7b' :: name) = written name := by
  have hopen : IsOpen ('$' :: '\x7b' :: name) := by
    refine isOpen_cons.2 (.inl ⟨⟨name, rfl⟩, ?_⟩)
    simp [h]
  rw [closed, if_pos hopen]
  rfl

theorem closed_cons (h : ¬ ['$', '\x7b'] <+: c :: s) : closed (c :: s) = c :: closed s := by
  have hiff : IsOpen (c :: s) ↔ IsOpen s := by
    rw [isOpen_cons, or_iff_right fun hbegins => h hbegins.1]
  by_cases hopen : IsOpen s
  · rw [closed, closed, if_pos (hiff.2 hopen), if_pos hopen]
    rfl
  · rw [closed, closed, if_neg fun hs => hopen (hiff.1 hs), if_neg hopen]

/-- The brace that closes a text begins no reference. -/
theorem begins_of_closed (h : ['$', '\x7b'] <+: closed s) : ['$', '\x7b'] <+: s := by
  rw [closed] at h
  split at h
  · match s with
    | [] => simp at h
    | [c] => simp at h
    | c :: d :: rest => simpa using h
  · exact h

/-- A character with which no reference begins is a part of its own. -/
theorem Divided.cons_closed (h : ¬ ['$', '\x7b'] <+: c :: s) (hs : Divided (closed s) parts) :
    Divided (closed (c :: s)) (.char c :: parts) := by
  rw [closed_cons h]
  refine .char ?_ hs
  intro name _ hname
  rw [← closed_cons h] at hname
  exact h (begins_of_closed (.trans ⟨name ++ ['\x7d'], rfl⟩ hname))

end

/-! ## The scan -/

/-- What the scan has read of the reference in which it stands. -/
def pending : Option (List Char) → List Char
  | none => []
  | some before => '$' :: '\x7b' :: before.reverse

theorem reference_eq_value (env : Environment) (name : List Char) :
    Playbook.reference env name = (Part.reference name).value env := by
  rw [Playbook.reference, Part.value]
  cases environmentValue? env name with
  | none => rfl
  | some value => rfl

/-- The scan finds the parts of the closed text, wherever it stands, and puts the values in their places. -/
theorem exists_divided (env : Environment) (mode : Option (List Char)) (s : List Char)
    (hmode : ∀ before ∈ mode, '\x7d' ∉ before) :
    ∃ parts, Divided (closed (pending mode ++ s)) parts ∧ expandFrom env mode s = parts.flatMap (Part.value env) := by
  fun_induction expandFrom env mode s with
  | case1 => exact ⟨[], by rw [pending, List.nil_append, closed_nil]; exact .nil, rfl⟩
  | case2 c =>
    refine ⟨[.char c], .cons_closed (by simp) ?_, rfl⟩
    rw [closed_nil]
    exact .nil
  | case3 c d rest hbegins ih =>
    obtain ⟨rfl, rfl⟩ : c = '$' ∧ d = '\x7b' := by simpa using hbegins
    exact ih (by simp)
  | case4 c d rest hbegins ih =>
    obtain ⟨parts, hparts, hvalue⟩ := ih (by simp)
    refine ⟨.char c :: parts, .cons_closed ?_ hparts, ?_⟩
    · rintro ⟨t, ht⟩
      cases ht
      exact hbegins rfl
    · rw [hvalue]
      rfl
  | case5 before =>
    -- the text ends inside the reference, which is then closed
    have hbefore : '\x7d' ∉ before.reverse := by simpa using hmode
    refine ⟨[.reference before.reverse], ?_, ?_⟩
    · rw [pending, List.append_nil, closed_of_open hbefore, ← List.append_nil (written before.reverse)]
      exact .reference hbefore .nil
    · rw [reference_eq_value, List.flatMap_singleton]
  | case6 before rest ih =>
    have hbefore : '\x7d' ∉ before.reverse := by simpa using hmode
    obtain ⟨parts, hparts, hvalue⟩ := ih (by simp)
    refine ⟨.reference before.reverse :: parts, ?_, ?_⟩
    · rw [pending, List.cons_append, List.cons_append, ← written_append, closed_written_append]
      exact .reference hbefore hparts
    · rw [reference_eq_value, hvalue, List.flatMap_cons]
  | case7 before c rest hc ih =>
    have hbefore : '\x7d' ∉ c :: before := by
      simpa [Ne.symm hc] using hmode
    have hread : pending (some (c :: before)) ++ rest = pending (some before) ++ c :: rest := by simp [pending]
    rw [← hread]
    exact ih (by simpa using hbefore)

/-- For every text and all surroundings: the text, with a brace behind it if a reference is open at its end, is
divided in one way into closed references and other characters, and what is read as the configuration has the value
of each variable that is set in the place of the references to it and everything else unchanged. If none of the
variables is set, it is the text with the brace. -/
theorem expand_replaces (env : Environment) (text : String) :
    ∃ parts, Divided (closed text.toList) parts ∧
      (∀ parts', Divided (closed text.toList) parts' → parts' = parts) ∧
      (expandVariables env text).toList = parts.flatMap (Part.value env) ∧
      ((∀ name, Part.reference name ∈ parts → environmentValue? env name = none) →
        (expandVariables env text).toList = closed text.toList) := by
  obtain ⟨parts, hparts, hvalue⟩ := exists_divided env none text.toList (by simp)
  rw [pending, List.nil_append] at hparts
  have hexpanded : (expandVariables env text).toList = parts.flatMap (Part.value env) := by
    rw [expandVariables, String.toList_ofList, hvalue]
  refine ⟨parts, hparts, fun parts' h => hparts.unique h, hexpanded, ?_⟩
  intro hunset
  rw [hexpanded, hparts.flatMap_value_of_unset hunset]

/-! ## An open reference is not kept -/

/-- In a text without closing brace there is nothing but characters. -/
theorem divided_of_not_mem {s : List Char} (h : '\x7d' ∉ s) : Divided s (s.map .char) := by
  induction s with
  | nil => exact .nil
  | cons c s ih =>
    refine .char ?_ (ih fun hs => h (List.mem_cons_of_mem c hs))
    rintro name - ⟨rest, hrest⟩
    rw [← hrest] at h
    simp [written] at h

/-- A setting whose text ends before the reference in it is closed. -/
def cutOff : String := "dir = \"$\x7bx\""

/-- There is no closed reference in the setting, but it gets a brace, or loses what stands behind the dollar sign. -/
theorem cutOff_changed :
    Divided cutOff.toList (cutOff.toList.map .char) ∧
      expandVariables (fun _ => none) cutOff = "dir = \"$\x7bx\"\x7d" ∧
      expandVariables (fun _ => some "y") cutOff = "dir = \"y" :=
  ⟨divided_of_not_mem (by decide), by decide, by decide⟩

end Playbook.Variables
