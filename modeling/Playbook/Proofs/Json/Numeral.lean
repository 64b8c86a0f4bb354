import Mathlib.Algebra.Group.Nat.Defs
import Mathlib.Data.List.Induction
import Playbook.Json.Printer
import Playbook.Json.Parser

/-! # Numerals read back

An integer is read back from its digits. A numeral that has been read to its end is read in the same way when a
comma or a closing bracket stands behind it, so what holds of numbers by themselves holds of numbers within
arrays and objects.

Main statements: `Json.Parser.number_append` and `Json.Parser.number_int`.
-/

namespace Playbook.Json.Parser

/-! ## Decimal digits -/

theorem decimal_eq_ofDigitChars (ds : List Char) : decimal ds = Nat.ofDigitChars 10 ds 0 := by
  have hstep : (fun (n : Nat) (c : Char) => n * 10 + (c.toNat - 48)) =
      fun n c => 10 * n + (c.toNat - 48) := by
    funext n c
    rw [Nat.mul_comm]
  rw [decimal, hstep]
  rfl

/-- A natural number is read back from its digits. -/
theorem decimal_toDigits (n : Nat) : decimal (Nat.toDigits 10 n) = n := by
  rw [decimal_eq_ofDigitChars, Nat.ofDigitChars_ten_toDigits]

/-- The last digit counts once, and those before it ten times as much as without it. -/
theorem decimal_concat (ds : List Char) (c : Char) :
    decimal (ds ++ [c]) = decimal ds * 10 + (c.toNat - 48) := by
  rw [decimal, List.foldl_append]
  rfl

/-- As many digits give a number below that power of ten. -/
theorem decimal_lt {ds : List Char} (h : ∀ c ∈ ds, c.isDigit = true) : decimal ds < 10 ^ ds.length := by
  induction ds using List.reverseRecOn with
  | nil => decide
  | append_singleton ds c ih =>
    have hfront : decimal ds < 10 ^ ds.length := ih fun d hd => h d (List.mem_append_left _ hd)
    have hlast : c.toNat ≤ 57 := by
      have hc := h c (List.mem_append_right _ (List.mem_singleton_self c))
      simp only [Char.isDigit, Bool.and_eq_true, decide_eq_true_eq] at hc
      exact UInt32.le_iff_toNat_le.1 hc.2
    rw [decimal_concat, List.length_append, List.length_singleton, Nat.pow_succ]
    omega

/-- Only zero begins with a zero. -/
theorem toDigits_no_leading_zero (n : Nat) (c : Char) (ds : List Char) :
    Nat.toDigits 10 n ≠ '0' :: c :: ds := by
  intro heq
  have hdigit : ∀ d ∈ c :: ds, d.isDigit = true := by
    intro d hd
    refine Nat.isDigit_of_mem_toDigits (b := 10) (n := n) (by decide) (by decide) ?_
    rw [heq]
    exact List.mem_cons_of_mem _ hd
  -- without the zero the digits give the same number, so they would be too many
  have hvalue : decimal (c :: ds) = n := by
    rw [← decimal_toDigits n, heq]
    rfl
  have hlt : n < 10 ^ (ds.length + 1) := by
    rw [← hvalue]
    exact decimal_lt hdigit
  have hlen : (Nat.toDigits 10 n).length ≤ ds.length + 1 :=
    (Nat.length_toDigits_le_iff (by decide) (Nat.succ_pos _)).2 hlt
  rw [heq, List.length_cons, List.length_cons] at hlen
  omega

/-! ## Numerals with something behind them -/

/-- What may stand behind a value: the end, a comma, or a closing bracket. -/
def Ends (rest : List Char) : Prop := ∀ c ∈ rest.head?, c = ',' ∨ c = ']' ∨ c = '\x7d'

theorem Ends.nil : Ends [] := fun _ hc => nomatch hc

/-- What begins with a comma or a closing bracket may stand behind a value. -/
theorem Ends.cons {c : Char} (h : c = ',' ∨ c = ']' ∨ c = '\x7d') (rest : List Char) : Ends (c :: rest) := by
  intro d hd
  cases hd
  exact h

/-- Nothing of the rest belongs to the value. -/
theorem Ends.head_ne {rest : List Char} (h : Ends rest) :
    rest = [] ∨ ∃ c tail, rest = c :: tail ∧ c.isDigit = false ∧ c ≠ '.' ∧ c ≠ 'e' ∧ c ≠ 'E' ∧ c ≠ '+' ∧
      c ≠ '-' := by
  cases rest with
  | nil => exact .inl rfl
  | cons c tail =>
    refine .inr ⟨c, tail, rfl, ?_⟩
    rcases h c rfl with rfl | rfl | rfl <;> decide

variable {rest : List Char}

/-- The digits of a text do not go on behind it. -/
theorem digits_append (h : Ends rest) (s : List Char) :
    digits (s ++ rest) = ((digits s).1, (digits s).2 ++ rest) := by
  induction s with
  | nil =>
    rcases h.head_ne with rfl | ⟨c, tail, rfl, hc, _⟩
    · rfl
    · simp [digits, hc]
  | cons c s ih =>
    simp only [digits, Prod.mk.injEq] at ih
    cases hc : c.isDigit with
    | false => simp [digits, hc]
    | true => simp [digits, hc, ih]

/-- The whole part of a numeral is its digits. There is one at least, and the first of several is not zero. -/
theorem wholePart_eq_some {s ds s' : List Char} :
    wholePart s = some (ds, s') ↔
      digits s = (ds, s') ∧ ds ≠ [] ∧ ∀ c tail, ds ≠ '0' :: c :: tail := by
  rw [wholePart]
  generalize digits s = p
  rcases p with ⟨l, t⟩
  constructor
  · intro h
    split at h
    · cases h
    · cases h
    · rename_i hnil hzero heq
      cases heq
      cases h
      exact ⟨rfl, hnil, hzero⟩
  · rintro ⟨heq, hnil, hzero⟩
    cases heq
    split
    · rename_i heq
      cases heq
      exact absurd rfl hnil
    · rename_i heq
      cases heq
      exact absurd rfl (hzero _ _)
    · rename_i heq
      cases heq
      rfl

/-- The whole part ends with the numeral. -/
theorem wholePart_append (h : Ends rest) {s ds s' : List Char} (hs : wholePart s = some (ds, s')) :
    wholePart (s ++ rest) = some (ds, s' ++ rest) := by
  rcases wholePart_eq_some.1 hs with ⟨hdigits, hnil, hzero⟩
  refine wholePart_eq_some.2 ⟨?_, hnil, hzero⟩
  rw [digits_append h, hdigits]

/-- So does the fraction, whether there is one or not. -/
theorem fractionPart_append (h : Ends rest) {s s' : List Char} {ds : Option (List Char)}
    (hs : fractionPart s = some (ds, s')) : fractionPart (s ++ rest) = some (ds, s' ++ rest) := by
  by_cases hdot : ∃ tail, s = '.' :: tail
  · rcases hdot with ⟨tail, rfl⟩
    rw [fractionPart] at hs
    rw [List.cons_append, fractionPart, digits_append h]
    generalize digits tail = p at hs
    rcases p with ⟨_ | ⟨c, l⟩, t⟩
    · cases hs
    · cases hs
      rfl
  · -- without a point there is no fraction, and what stands behind the numeral does not begin with one
    have hnone : fractionPart s = some (none, s) := by
      rw [fractionPart]
      exact fun tail heq => hdot ⟨tail, heq⟩
    rw [hnone] at hs
    cases hs
    rw [fractionPart]
    intro tail heq
    cases s with
    | nil =>
      rcases h.head_ne with rfl | ⟨c, tail', rfl, _, hc, _⟩
      · cases heq
      · exact hc (List.cons.inj heq).1
    | cons c s => exact hdot ⟨s, congrArg (· :: s) (List.cons.inj heq).1⟩

/-- The sign of a power of ten, and what stands behind it. -/
def powerSign : List Char → Int × List Char
  | '+' :: rest => (1, rest)
  | '-' :: rest => (-1, rest)
  | rest => (1, rest)

/-- The sign of a power of ten does not depend on what stands behind the numeral. -/
theorem powerSign_append {s : List Char} (hs : s ≠ []) (rest : List Char) :
    powerSign (s ++ rest) = ((powerSign s).1, (powerSign s).2 ++ rest) := by
  cases s with
  | nil => exact absurd rfl hs
  | cons c s =>
    by_cases hplus : c = '+'
    · subst hplus
      rfl
    by_cases hminus : c = '-'
    · subst hminus
      rfl
    have hplain : ∀ t, powerSign (c :: t) = (1, c :: t) := by
      intro t
      rw [powerSign]
      · exact fun tail heq => hplus (List.cons.inj heq).1
      · exact fun tail heq => hminus (List.cons.inj heq).1
    rw [List.cons_append, hplain, hplain]
    rfl

/-- The power of ten after its letter and its sign. -/
def power (sign : Int) (s : List Char) : Option (Option Int × List Char) :=
  match digits s with
  | ([], _) => none
  | (ds, rest) => some (some (sign * (decimal ds : Int)), rest)

/-- The power of ten ends with the numeral. -/
theorem power_append (h : Ends rest) {sign : Int} {s s' : List Char} {e : Option Int}
    (hs : power sign s = some (e, s')) : power sign (s ++ rest) = some (e, s' ++ rest) := by
  rw [power] at hs ⊢
  rw [digits_append h]
  generalize digits s = p at hs
  rcases p with ⟨_ | ⟨c, l⟩, t⟩
  · cases hs
  · cases hs
    rfl

/-- After its letter an exponent is a sign and digits. -/
theorem exponentPart_of_letter {c : Char} (hc : (decide (c = 'e') || decide (c = 'E')) = true)
    (s : List Char) : exponentPart (c :: s) = power (powerSign s).1 (powerSign s).2 := by
  unfold exponentPart
  exact if_pos hc

/-- The exponent ends with the numeral, whether there is one or not. -/
theorem exponentPart_append (h : Ends rest) {s s' : List Char} {e : Option Int}
    (hs : exponentPart s = some (e, s')) : exponentPart (s ++ rest) = some (e, s' ++ rest) := by
  cases s with
  | nil =>
    cases hs
    rcases h.head_ne with rfl | ⟨c, tail, rfl, _, _, he, hE, _⟩
    · rfl
    · simp [exponentPart, he, hE]
  | cons c s =>
    by_cases hc : (decide (c = 'e') || decide (c = 'E')) = true
    · -- behind its letter the exponent has a digit at least
      have hne : s ≠ [] := by
        rintro rfl
        rw [exponentPart_of_letter hc] at hs
        cases hs
      rw [exponentPart_of_letter hc] at hs
      rw [List.cons_append, exponentPart_of_letter hc, powerSign_append hne]
      exact power_append h hs
    · have hnone : ∀ t, exponentPart (c :: t) = some (none, c :: t) := by
        intro t
        unfold exponentPart
        exact if_neg hc
      rw [hnone] at hs
      cases hs
      exact hnone _

/-- What the parts of a numeral stand for. -/
def numeral? (negative : Bool) (whole : List Char) (fraction : Option (List Char))
    (exponent : Option Int) : Option Json :=
  match fraction, exponent with
  | none, none => wholeNumber? negative (decimal whole)
  | _, _ =>
    (Double.ofDecimal? negative (decimal (whole ++ fraction.getD []))
      (exponent.getD 0 - ((fraction.getD []).length : Int))).map .double

/-- A number behind its sign. -/
def unsigned (negative : Bool) (s : List Char) : Option (Json × List Char) :=
  (wholePart s).bind fun w => (fractionPart w.2).bind fun f => (exponentPart f.2).bind fun e =>
    (numeral? negative w.1 f.1 e.1).map fun v => (v, e.2)

/-- Whether a sign stands in front, and what stands behind it. -/
def sign : List Char → Bool × List Char
  | '-' :: rest => (true, rest)
  | s => (false, s)

/-- A number is a sign and a number without one. -/
theorem number_eq (s : List Char) : number s = unsigned (sign s).1 (sign s).2 := by
  unfold number unsigned
  split
  rename_i negative tail heq
  have hsign : sign s = (negative, tail) := heq
  rw [hsign]
  simp only [Option.bind_eq_bind]
  refine Option.bind_congr fun w _ => Option.bind_congr fun f _ => Option.bind_congr fun e _ => ?_
  -- the four forms of a numeral
  rcases f with ⟨_ | f, s₂⟩ <;> rcases e with ⟨_ | e, s₃⟩ <;>
    simp only [numeral?, Option.map_eq_bind, Option.bind_assoc, Option.bind_some, Function.comp_def,
      Option.getD_none, Option.getD_some]

theorem sign_append {s : List Char} (hs : s ≠ []) (rest : List Char) :
    sign (s ++ rest) = ((sign s).1, (sign s).2 ++ rest) := by
  cases s with
  | nil => exact absurd rfl hs
  | cons c s =>
    by_cases hc : c = '-'
    · subst hc
      rfl
    · have hplain : ∀ t, sign (c :: t) = (false, c :: t) := by
        intro t
        rw [sign]
        exact fun tail heq => hc (List.cons.inj heq).1
      rw [List.cons_append, hplain, hplain]
      rfl

/-- A number without sign is read alike in front of whatever may stand behind a value. -/
theorem unsigned_append (h : Ends rest) {negative : Bool} {s s' : List Char} {v : Json}
    (hs : unsigned negative s = some (v, s')) : unsigned negative (s ++ rest) = some (v, s' ++ rest) := by
  rcases Option.bind_eq_some_iff.1 hs with ⟨⟨whole, s₁⟩, hwhole, hs₁⟩
  rcases Option.bind_eq_some_iff.1 hs₁ with ⟨⟨fraction, s₂⟩, hfraction, hs₂⟩
  rcases Option.bind_eq_some_iff.1 hs₂ with ⟨⟨exponent, s₃⟩, hexponent, hs₃⟩
  rcases Option.map_eq_some_iff.1 hs₃ with ⟨v', hv, heq⟩
  cases heq
  refine Option.bind_eq_some_iff.2 ⟨_, wholePart_append h hwhole, ?_⟩
  refine Option.bind_eq_some_iff.2 ⟨_, fractionPart_append h hfraction, ?_⟩
  refine Option.bind_eq_some_iff.2 ⟨_, exponentPart_append h hexponent, ?_⟩
  exact Option.map_eq_some_iff.2 ⟨v, hv, rfl⟩

/-- A number is read alike in front of whatever may stand behind a value. -/
theorem number_append (h : Ends rest) {s s' : List Char} {v : Json}
    (hs : number s = some (v, s')) : number (s ++ rest) = some (v, s' ++ rest) := by
  have hne : s ≠ [] := by
    rintro rfl
    cases hs
  rw [number_eq] at hs ⊢
  rw [sign_append hne]
  exact unsigned_append h hs

/-- A number begins with a sign or a digit. -/
theorem head_of_number {s s' : List Char} {v : Json} (hs : number s = some (v, s')) :
    ∃ c tail, s = c :: tail ∧ (c = '-' ∨ c.isDigit = true) := by
  cases s with
  | nil => cases hs
  | cons c s =>
    refine ⟨c, s, rfl, ?_⟩
    by_cases hc : c = '-'
    · exact .inl hc
    · refine .inr ?_
      have hplain : sign (c :: s) = (false, c :: s) := by
        rw [sign]
        exact fun tail heq => hc (List.cons.inj heq).1
      rw [number_eq, hplain] at hs
      rcases Option.bind_eq_some_iff.1 hs with ⟨⟨whole, s₁⟩, hwhole, -⟩
      rcases wholePart_eq_some.1 hwhole with ⟨hdigits, hnil, -⟩
      by_contra hdigit
      refine hnil ?_
      have hnone : (digits (c :: s)).1 = [] := by
        simp [digits, hdigit]
      rw [← hnone, hdigits]

/-! ## Integers -/

/-- Digits are read to their end. -/
theorem digits_of_forall {ds : List Char} (h : ∀ c ∈ ds, c.isDigit = true) : digits ds = (ds, []) := by
  have htake : (ds ++ []).takeWhile Char.isDigit = ds ++ [] := List.takeWhile_append_of_pos h
  have hdrop : (ds ++ []).dropWhile Char.isDigit = [] := List.dropWhile_append_of_pos h
  rw [List.append_nil] at htake hdrop
  rw [digits, htake, hdrop]

/-- The digits of a natural number are read as a whole number. -/
theorem unsigned_toDigits (negative : Bool) (n : Nat) :
    unsigned negative (Nat.toDigits 10 n) = (wholeNumber? negative n).map fun v => (v, []) := by
  have hall : ∀ c ∈ Nat.toDigits 10 n, c.isDigit = true := fun c hc =>
    Nat.isDigit_of_mem_toDigits (by decide) (by decide) hc
  have hdigits : digits (Nat.toDigits 10 n) = (Nat.toDigits 10 n, []) := digits_of_forall hall
  have hwhole : wholePart (Nat.toDigits 10 n) = some (Nat.toDigits 10 n, []) :=
    wholePart_eq_some.2 ⟨hdigits, Nat.toDigits_ne_nil, fun c tail => toDigits_no_leading_zero n c tail⟩
  rw [unsigned, hwhole, Option.bind_some]
  simp only [fractionPart, exponentPart, Option.bind_some, numeral?, decimal_toDigits]

theorem sign_toDigits (n : Nat) : sign (Nat.toDigits 10 n) = (false, Nat.toDigits 10 n) := by
  rw [sign]
  intro tail heq
  have hmem : '-' ∈ Nat.toDigits 10 n := by
    rw [heq]
    exact List.mem_cons_self
  exact absurd (Nat.isDigit_of_mem_toDigits (by decide) (by decide) hmem) (by decide)

/-- An integer of 64 bits is read back from its text. -/
theorem number_int {n : Int} (h : isWordInt n = true) : number (toString n).toList = some (.int n, []) := by
  cases n with
  | ofNat m =>
    have htext : (toString (Int.ofNat m)).toList = Nat.toDigits 10 m := by
      show (Nat.repr m).toList = _
      rw [Nat.repr_eq_ofList_toDigits, String.toList_ofList]
    rw [htext, number_eq, sign_toDigits, unsigned_toDigits]
    have hword : isWordInt (m : Int) = true := h
    simp only [wholeNumber?, Bool.false_eq_true, if_false, hword, Bool.false_and, Bool.not_false,
      Bool.and_self, if_true, Option.map_some]
    rfl
  | negSucc m =>
    have htext : (toString (Int.negSucc m)).toList = '-' :: Nat.toDigits 10 (m + 1) := by
      show ("-" ++ Nat.repr (m + 1)).toList = _
      simp only [Nat.repr_eq_ofList_toDigits, String.toList_append, String.toList_ofList]
      rfl
    have hsign : sign ('-' :: Nat.toDigits 10 (m + 1)) = (true, Nat.toDigits 10 (m + 1)) := rfl
    rw [htext, number_eq, hsign, unsigned_toDigits]
    have hneg : -((m + 1 : Nat) : Int) = Int.negSucc m := rfl
    simp only [wholeNumber?, if_true, hneg, h]
    rfl

end Playbook.Json.Parser
