import Playbook.Json.Printer
import Playbook.Schema
import Playbook.Text.Basic

/-! # What is said about values and schemas

What a run relies on when it tells an answer that violates its schema from a value that is no schema: messages about
values do not begin like the complaint about a schema. It holds of a small compiler, whose schemas are the truth
values.
-/

namespace Playbook.Schema

/-- No message about a value begins like the complaint about a schema. Messages begin with the value, with the name of
a field, or with a phrase of their own. -/
def Compiler.SpeaksOfValues (S : Compiler) : Prop :=
  ∀ schema check, S.compile schema = .ok check → ∀ v, ∀ m ∈ check.messages v, ¬ complaint.toList <+: m.toList

/-- The smallest schemas: one that every value satisfies, and one that none does. -/
@[reducible]
def truthValues : Compiler where
  compile
    | .bool true => .ok ⟨fun _ => true, fun _ => []⟩
    | .bool false => .ok ⟨fun _ => false, fun v => ["False schema does not allow " ++ v.compact]⟩
    | _ => .error "it is no truth value"

/-- A beginning of a text that lacks a sign is over before the sign. -/
theorem prefix_of_prefix_append_cons {s m t : List Char} {c : Char} (hc : c ∉ s) (h : s <+: m ++ c :: t) : s <+: m := by
  rcases List.prefix_or_prefix_of_prefix h (List.prefix_append m _) with hwithin | ⟨rest, rfl⟩
  · exact hwithin
  · cases rest with
    | nil => exact ⟨[], by rw [List.append_nil, List.append_nil]⟩
    | cons d rest =>
      have hbehind := (List.prefix_append_right_inj m).1 h
      have hsign : d = c := (List.cons_prefix_cons.1 hbehind).1
      exact absurd (List.mem_append_right m (hsign ▸ List.mem_cons_self)) hc

/-- Nor do several messages in a row, which are set apart by a sign that the complaint does not have. -/
theorem Compiler.SpeaksOfValues.join {S : Compiler} (hS : S.SpeaksOfValues) {schema : Json} {check : Validator}
    (hc : S.compile schema = .ok check) (v : Json) :
    ¬ complaint.toList <+: (Text.join "; " (check.messages v)).toList := by
  cases hms : check.messages v with
  | nil => decide
  | cons m ms =>
    have hm : ¬ complaint.toList <+: m.toList := hS schema check hc v m (hms ▸ List.mem_cons_self)
    cases ms with
    | nil => simpa [Text.join] using hm
    | cons m' ms =>
      intro hprefix
      rw [Text.join, String.intercalate_cons_cons, String.toList_append, String.toList_append,
        List.append_assoc] at hprefix
      exact hm (prefix_of_prefix_append_cons (by decide) hprefix)

theorem speaksOfValues_truthValues : truthValues.SpeaksOfValues := by
  intro schema check hc v m hm hprefix
  cases schema with
  | bool b =>
    cases b with
    | true =>
      cases hc
      cases hm
    | false =>
      cases hc
      rcases List.mem_singleton.1 hm with rfl
      rw [String.toList_append] at hprefix
      have hfirst : 'i' = 'F' := (List.cons_prefix_cons.1 hprefix).1
      cases hfirst
  | _ => cases hc

end Playbook.Schema
