import Playbook.Predicate
import Playbook.Proofs.Checked
import Playbook.Proofs.Json.Text
import Playbook.Proofs.Template.Placeholders

/-! # Writing conditions and reading them back

A condition is written with its path first and the value of a comparison between quotes, so that its own sign is
the first one in the text, whatever the value holds.

Main statements: `Predicate.isLegible_of_parse` says that a condition that was read has a path for its key,
`Predicate.parse_text` that every such condition is read back from its text, and `Predicate.parse_text_inverse` also
which texts are a key alone.
-/

namespace Playbook

/-! ## Paths -/

namespace Template

theorem range_of_isWordChar {c : Char} (h : isWordChar c = true) : 0x30 ≤ c.toNat ∧ c.toNat ≤ 0x7A := by
  have hbetween : ∀ {a b : UInt32}, a ≤ c.val ∧ c.val ≤ b → 0x30 ≤ a.toNat → b.toNat ≤ 0x7A →
      0x30 ≤ c.toNat ∧ c.toNat ≤ 0x7A := fun hab ha hb =>
    ⟨le_trans ha (UInt32.le_iff_toNat_le.1 hab.1), le_trans (UInt32.le_iff_toNat_le.1 hab.2) hb⟩
  have hcases : (((c.isUpper || c.isLower) || c.isDigit) || decide (c = '_')) = true := h
  simp only [Bool.or_eq_true, decide_eq_true_eq] at hcases
  rcases hcases with ((hupper | hlower) | hdigit) | rfl
  · exact hbetween (of_decide_eq_true hupper) (by decide) (by decide)
  · have hvalue := (Bool.and_eq_true_iff.1 hlower).imp of_decide_eq_true of_decide_eq_true
    exact hbetween hvalue (by decide) (by decide)
  · have hvalue := (Bool.and_eq_true_iff.1 hdigit).imp of_decide_eq_true of_decide_eq_true
    exact hbetween hvalue (by decide) (by decide)
  · decide

/-- The characters of paths are no blanks, and none of the characters with which a sign begins. -/
theorem of_isPath {k : List Char} (h : isPath k = true) :
    (∀ c ∈ k, Text.isBlank c = false) ∧ ' ' ∉ k ∧ '=' ∉ k ∧ '!' ∉ k := by
  have hchars : ∀ c ∈ k, Text.isBlank c = false ∧ c ≠ '=' ∧ c ≠ '!' := by
    intro c hc
    rcases (chars_of_isPath h).2 c hc with hword | rfl
    · obtain ⟨hlow, hhigh⟩ := range_of_isWordChar hword
      refine ⟨?_, ?_, ?_⟩
      · simp only [Text.isBlank, Bool.or_eq_false_iff, Bool.and_eq_false_iff, decide_eq_false_iff_not,
          beq_eq_false_iff_ne]
        omega
      · rintro rfl
        exact absurd hword (by decide)
      · rintro rfl
        exact absurd hword (by decide)
    · decide
  refine ⟨fun c hc => (hchars c hc).1, fun hc => ?_, fun hc => (hchars _ hc).2.1 rfl,
    fun hc => (hchars _ hc).2.2 rfl⟩
  exact absurd (hchars _ hc).1 (by decide)

end Template

/-! ## Conditions -/

namespace Predicate

open Checked

/-- The key of a condition is a path. -/
def IsLegible (p : Predicate) : Prop := Template.isPath p.key.toList = true

theorem isPath_of_parseKey {s : List Char} {key : String} (h : parseKey s = .ok key) :
    Template.isPath key.toList = true := by
  simp only [parseKey] at h
  split at h
  · rename_i hpath
    cases h
    rw [String.toList_ofList]
    exact hpath
  · cases h

theorem key_build (c : Comparison) (key value : String) : (c.build key value).key = key := by
  cases c <;> rfl

/-- A condition that was read has a path for its key. -/
theorem isLegible_of_parse {expr : String} {p : Predicate} (h : parse expr = .ok p) : p.IsLegible := by
  simp only [parse] at h
  split at h
  · cases h
  · split at h
    · obtain ⟨key, hkey, hrest⟩ := bind_eq_ok.1 h
      obtain ⟨value, _, hbuild⟩ := bind_eq_ok.1 hrest
      cases hbuild
      rw [IsLegible, key_build]
      exact isPath_of_parseKey hkey
    · split at h
      all_goals
        obtain ⟨key, hkey, rfl⟩ := map_eq_ok.1 h
        exact isPath_of_parseKey hkey

/-- The comparison whose sign comes before the others is the first one. -/
theorem firstComparison?_eq {c : Comparison} {s a b : List Char} (hc : Text.cutAt c.sign s = some (a, b))
    (hother : ∀ c', c' ≠ c → ∀ p ∈ Text.cutAt c'.sign s, a.length < p.1.length) :
    firstComparison? s = some (c, a, b) := by
  have hlater : ∀ c', c' ≠ c → Text.cutAt c'.sign s = none ∨
      ∃ p, Text.cutAt c'.sign s = some p ∧ a.length < p.1.length ∧ ¬ p.1.length < a.length := by
    intro c' hne
    cases hcut : Text.cutAt c'.sign s with
    | none => exact .inl rfl
    | some p =>
      have hlt := hother c' hne p hcut
      exact .inr ⟨p, rfl, hlt, Nat.not_lt_of_gt hlt⟩
  -- the signs are tried in a fixed order, so each one is compared with the other two
  unfold firstComparison?
  cases c with
  | equals =>
    rcases hlater .notEquals (by decide) with h | ⟨p, h, hlt, hge⟩ <;>
      rcases hlater .includes (by decide) with h' | ⟨p', h', hlt', hge'⟩ <;> simp [*]
  | notEquals =>
    rcases hlater .equals (by decide) with h | ⟨p, h, hlt, hge⟩ <;>
      rcases hlater .includes (by decide) with h' | ⟨p', h', hlt', hge'⟩ <;> simp [*]
  | includes =>
    rcases hlater .equals (by decide) with h | ⟨p, h, hlt, hge⟩ <;>
      rcases hlater .notEquals (by decide) with h' | ⟨p', h', hlt', hge'⟩ <;> simp [*]
    by_cases hbefore : p'.1.length < p.1.length <;> simp [*]

/-- The blanks before a sign and behind it, as they are written; the sign of inclusion has its own. -/
def Comparison.margin : Comparison → List Char
  | .includes => []
  | _ => [' ']

theorem text_build (c : Comparison) (key value : String) :
    (c.build key value).text.toList =
      key.toList ++ (c.margin ++ c.sign ++ c.margin ++ Json.quoteChars value.toList) := by
  cases c <;> simp [Comparison.build, text, Json.quote, Comparison.margin, Comparison.sign]

/-- No sign begins within a path. -/
theorem cutAt_sign {k : List Char} (hk : Template.isPath k = true) (c : Comparison) (s : List Char) :
    Text.cutAt c.sign (k ++ s) = (Text.cutAt c.sign s).map fun p => (k ++ p.1, p.2) := by
  obtain ⟨_, hspace, hequal, hbang⟩ := Template.of_isPath hk
  cases c with
  | equals => exact Text.cutAt_append hequal s
  | notEquals => exact Text.cutAt_append hbang s
  | includes => exact Text.cutAt_append hspace s

/-- Another sign can only stand behind the one that was written. -/
theorem length_margin_lt {c c' : Comparison} (hne : c' ≠ c) {q : List Char} {p : List Char × List Char}
    (hp : Text.cutAt c'.sign (c.margin ++ c.sign ++ c.margin ++ '"' :: q) = some p) :
    c.margin.length < p.1.length := by
  rcases p with ⟨a, b⟩
  have htext := Text.append_of_cutAt hp
  by_contra hle
  -- otherwise both signs would begin with the same characters
  have hshort : a = [] ∨ ∃ d, a = [d] := by
    rcases a with _ | ⟨d, _ | ⟨d', a⟩⟩
    · exact .inl rfl
    · exact .inr ⟨d, rfl⟩
    · cases c <;> simp [Comparison.margin] at hle
  rcases hshort with rfl | ⟨d, rfl⟩
  all_goals
    cases c <;> cases c' <;> simp [Comparison.margin, Comparison.sign] at htext hne hle

/-- The sign of a comparison that was written is the first one, whatever follows the quote. -/
theorem firstComparison?_text {k : List Char} (hk : Template.isPath k = true) (c : Comparison) (q : List Char) :
    firstComparison? (k ++ (c.margin ++ c.sign ++ c.margin ++ '"' :: q)) =
      some (c, k ++ c.margin, c.margin ++ '"' :: q) := by
  refine firstComparison?_eq ?_ ?_
  · rw [cutAt_sign hk]
    cases c <;> simp [Text.cutAt, Comparison.margin, Comparison.sign]
  · intro c' hne p hp
    rw [cutAt_sign hk] at hp
    obtain ⟨p', hp', rfl⟩ := Option.map_eq_some_iff.1 hp
    have hlater := length_margin_lt hne hp'
    simp only [List.length_append]
    omega

theorem parseKey_text {key : String} (hk : Template.isPath key.toList = true) (c : Comparison) :
    parseKey (key.toList ++ c.margin) = .ok key := by
  have hblank := (Template.of_isPath hk).1
  have htrim : Text.trim (key.toList ++ c.margin) = key.toList := by
    cases c with
    | includes => rw [Comparison.margin, List.append_nil, Text.trim_eq_of_forall hblank]
    | equals => exact Text.trim_concat (by decide) hblank
    | notEquals => exact Text.trim_concat (by decide) hblank
  rw [parseKey, htrim, String.ofList_toList]
  simp only [hk, if_true]

theorem parseKey_path {key : String} (hk : Template.isPath key.toList = true) : parseKey key.toList = .ok key := by
  have hkey := parseKey_text hk .includes
  rwa [Comparison.margin, List.append_nil] at hkey

/-- A text that ends between quotes does not end with a blank. -/
theorem isBlank_getLast?_quoteChars (s cs : List Char) :
    ∀ d ∈ (s ++ Json.quoteChars cs).getLast?, Text.isBlank d = false := by
  intro d hd
  rw [Json.quoteChars, ← List.cons_append, ← List.append_assoc, List.getLast?_concat] at hd
  cases hd
  decide

theorem parseValue_text (c : Comparison) (value : String) :
    parseValue (c.margin ++ Json.quoteChars value.toList) = .ok value := by
  have htrim : Text.trim (c.margin ++ Json.quoteChars value.toList) = Json.quoteChars value.toList := by
    have hplain : Text.trim (Json.quoteChars value.toList) = Json.quoteChars value.toList := by
      refine Text.trim_eq ?_ (isBlank_getLast?_quoteChars [] _)
      rintro _ ⟨⟩
      decide
    cases c with
    | includes => exact hplain
    | equals => exact (Text.trim_cons (by decide) _).trans hplain
    | notEquals => exact (Text.trim_cons (by decide) _).trans hplain
  have hread := Json.Parser.string_append value []
  rw [List.append_nil] at hread
  rw [parseValue, htrim]
  rw [Json.quoteChars] at hread ⊢
  simp only [hread]
  rfl

theorem parse_build {key : String} (hk : Template.isPath key.toList = true) (c : Comparison) (value : String) :
    parse (c.build key value).text = .ok (c.build key value) := by
  have htext := text_build c key value
  have htrim : Text.trim (c.build key value).text.toList = (c.build key value).text.toList := by
    rw [htext]
    refine Text.trim_eq ?_ ?_
    · intro d hd
      rw [List.head?_append_of_ne_nil _ (Template.chars_of_isPath hk).1] at hd
      exact (Template.of_isPath hk).1 d (List.mem_of_mem_head? hd)
    · rw [← List.append_assoc]
      exact isBlank_getLast?_quoteChars _ _
  have hsome : (c.build key value).text.toList.isEmpty = false := by
    rw [htext, List.isEmpty_eq_false_iff]
    exact List.append_ne_nil_of_left_ne_nil (Template.chars_of_isPath hk).1 _
  have hfirst : firstComparison? (c.build key value).text.toList =
      some (c, key.toList ++ c.margin, c.margin ++ Json.quoteChars value.toList) := by
    rw [htext]
    exact firstComparison?_text hk c _
  simp only [parse, htrim, hsome, hfirst, parseKey_text hk, parseValue_text]
  rfl

theorem firstComparison?_eq_none {s : List Char} (h : ∀ c : Comparison, Text.cutAt c.sign s = none) :
    firstComparison? s = none := by
  simp [firstComparison?, h]

/-- A path holds no sign, nor does one that is negated. -/
theorem firstComparison?_path {k : List Char} (hk : Template.isPath k = true) :
    firstComparison? k = none ∧ firstComparison? ('!' :: k) = none := by
  obtain ⟨hblank, hspace, hequal, hbang⟩ := Template.of_isPath hk
  have hnone : ∀ c : Comparison, Text.cutAt c.sign k = none := by
    intro c
    have hcut := cutAt_sign hk c []
    rw [List.append_nil] at hcut
    rw [hcut]
    cases c <;> rfl
  refine ⟨firstComparison?_eq_none hnone, firstComparison?_eq_none fun c => ?_⟩
  -- a negation is no inequality, because no path starts with an equality sign
  have hstart : c.sign.isPrefixOf ('!' :: k) = false := by
    cases c with
    | equals => rfl
    | includes => rfl
    | notEquals =>
      cases k with
      | nil => rfl
      | cons d k =>
        have hne : '=' ≠ d := fun h => hequal (h ▸ List.mem_cons_self)
        simp [Comparison.sign, List.isPrefixOf, hne]
  rw [Text.cutAt, hstart, hnone]
  rfl

/-- A condition that was read is read back from its text. -/
theorem parse_text {p : Predicate} (h : p.IsLegible) : parse p.text = .ok p := by
  cases p with
  | equals k v => exact parse_build h .equals v
  | notEquals k v => exact parse_build h .notEquals v
  | includes k v => exact parse_build h .includes v
  | truthy k =>
    have hk : Template.isPath k.toList = true := h
    obtain ⟨hblank, _, _, hbang⟩ := Template.of_isPath hk
    have htrim : Text.trim k.toList = k.toList := Text.trim_eq_of_forall hblank
    have hkey := parseKey_path hk
    have hsome := (Template.chars_of_isPath hk).1
    -- the reader looks at the first character only, which is there and is no negation
    simp only [parse, text, htrim, (firstComparison?_path hk).1]
    generalize k.toList = s at hsome hbang hkey
    split
    · rename_i hnil
      exact absurd (List.isEmpty_iff.1 hnil) hsome
    · split
      · exact absurd List.mem_cons_self hbang
      · rw [hkey]
        rfl
  | falsy k =>
    have hk : Template.isPath k.toList = true := h
    have hblank := (Template.of_isPath hk).1
    have htext : (text (.falsy k)).toList = '!' :: k.toList := by simp [text]
    have htrim : Text.trim ('!' :: k.toList) = '!' :: k.toList := by
      refine Text.trim_eq (by rintro _ ⟨⟩; decide) fun d hd => ?_
      rcases List.mem_cons.1 (List.mem_of_mem_getLast? hd) with rfl | hd
      · decide
      · exact hblank d hd
    simp only [parse, htext, htrim, (firstComparison?_path hk).2, parseKey_path hk]
    rfl

/-! ## Conditions that are a key alone -/

theorem eq_trim_of_parseKey {s : List Char} {key : String} (h : parseKey s = .ok key) :
    key = String.ofList (Text.trim s) := by
  simp only [parseKey] at h
  split at h
  · cases h
    rfl
  · cases h

/-- A condition that asks for a value alone is its key. -/
theorem eq_of_parse {expr key : String} (htrim : Text.trim expr.toList = expr.toList)
    (h : parse expr = .ok (.truthy key)) : key = expr := by
  simp only [parse, htrim] at h
  split at h
  · cases h
  · split at h
    · rename_i c _ _ _
      obtain ⟨_, _, hrest⟩ := bind_eq_ok.1 h
      obtain ⟨_, _, hbuild⟩ := bind_eq_ok.1 hrest
      cases c <;> cases hbuild
    · split at h
      · obtain ⟨_, _, hfalsy⟩ := map_eq_ok.1 h
        cases hfalsy
      · obtain ⟨_, hkey, hbuild⟩ := map_eq_ok.1 h
        cases hbuild
        rw [eq_trim_of_parseKey hkey, htrim, String.ofList_toList]

/-- Writing and reading are inverse to each other on the conditions that have a path for their key, whatever the
value they compare with, and these are the conditions that can be read at all. A text without blanks around it is the
condition that asks for a value alone exactly when it stands for this value as a placeholder. -/
theorem parse_text_inverse :
    (∀ p : Predicate, p.IsLegible → parse p.text = .ok p) ∧
    (∀ expr p, parse expr = .ok p → p.IsLegible ∧ parse p.text = .ok p) ∧
    (∀ s key, Text.trimmed s = s →
      (parse s = .ok (.truthy key) ↔
        key = s ∧ Template.solePath? (Template.placeholder s) = some s.toList)) := by
  refine ⟨fun p h => parse_text h, ?_, ?_⟩
  · intro expr p h
    have hlegible := isLegible_of_parse h
    exact ⟨hlegible, parse_text hlegible⟩
  · intro s key htrimmed
    have htrim : Text.trim s.toList = s.toList := by
      rw [← String.toList_inj, Text.trimmed, String.toList_ofList] at htrimmed
      exact htrimmed
    constructor
    · intro h
      have hkey : key = s := eq_of_parse htrim h
      have hpath : Template.isPath key.toList = true := isLegible_of_parse h
      rw [hkey] at hpath
      exact ⟨hkey, Template.solePath?_placeholder hpath⟩
    · rintro ⟨rfl, hsole⟩
      have hpath := Template.isPath_iff.2 (Template.solePath?_eq_some.1 hsole).1
      exact parse_text (p := .truthy key) hpath

/-- A comparison with a text that holds signs, quotes, blanks and control characters. -/
def quarrel : Predicate := .includes "talk.0.said" " != \"yes\" == \n\x01 contains "

theorem parse_text_quarrel : quarrel.IsLegible ∧ parse quarrel.text = .ok quarrel ∧
    parse " !done " = .ok (.falsy "done") ∧ parse (text (.falsy "done")) = .ok (.falsy "done") ∧
    Text.trimmed "talk.0" = "talk.0" ∧ parse "talk.0" = .ok (.truthy "talk.0") := by
  obtain ⟨hwritten, hread, halone⟩ := parse_text_inverse
  have hlegible : quarrel.IsLegible := by
    unfold IsLegible
    decide
  have hnegated : parse " !done " = .ok (.falsy "done") := by rfl
  have htrimmed : Text.trimmed "talk.0" = "talk.0" := by rfl
  have hsole : Template.solePath? (Template.placeholder "talk.0") = some "talk.0".toList := by rfl
  exact ⟨hlegible, hwritten quarrel hlegible, hnegated, (hread _ _ hnegated).2, htrimmed,
    (halone "talk.0" "talk.0" htrimmed).2 ⟨rfl, hsole⟩⟩

end Predicate

end Playbook
