import Playbook.Error

/-! # Computations that may fail

How two computations in a row, a mapped result, and a list of computations come to an answer or to a
failure.
-/

namespace Playbook.Checked

variable {ε α β : Type} {x : Except ε α} {c : ε} {b : β}

theorem bind_eq_ok {k : α → Except ε β} : x >>= k = .ok b ↔ ∃ a, x = .ok a ∧ k a = .ok b := by
  cases x with
  | error c => exact ⟨fun h => (by cases h), fun ⟨a, h, _⟩ => (by cases h)⟩
  | ok a =>
    constructor
    · intro h
      exact ⟨a, rfl, h⟩
    · rintro ⟨a', ha, h⟩
      cases ha
      exact h

/-- Two computations in a row fail as one of them does. -/
theorem bind_eq_error {k : α → Except ε β} :
    x >>= k = .error c ↔ x = .error c ∨ ∃ a, x = .ok a ∧ k a = .error c := by
  cases x with
  | error c' =>
    constructor
    · intro h
      cases h
      exact Or.inl rfl
    · rintro (h | ⟨a, h, _⟩)
      · cases h
        rfl
      · cases h
  | ok a =>
    constructor
    · intro h
      exact Or.inr ⟨a, rfl, h⟩
    · rintro (h | ⟨a', ha, h⟩)
      · cases h
      · cases ha
        exact h

/-- Two computations whose results are put together fail as the first one, and as the second if only that one does. -/
theorem both_eq_error {γ δ : Type} {y : Except ε γ} {g : α → γ → δ} :
    (x >>= fun a => y >>= fun b => .ok (g a b)) = .error c ↔ x = .error c ∨ (∃ a, x = .ok a) ∧ y = .error c := by
  rw [bind_eq_error]
  refine or_congr_right ?_
  constructor
  · rintro ⟨a, ha, hrest⟩
    rcases bind_eq_error.1 hrest with hy | ⟨_, _, hok⟩
    · exact ⟨⟨a, ha⟩, hy⟩
    · cases hok
  · rintro ⟨⟨a, ha⟩, hy⟩
    exact ⟨a, ha, bind_eq_error.2 (.inl hy)⟩

theorem map_eq_ok {f : α → β} : x.map f = .ok b ↔ ∃ a, x = .ok a ∧ f a = b := by
  cases x with
  | error c => exact ⟨fun h => (by cases h), fun ⟨a, h, _⟩ => (by cases h)⟩
  | ok a =>
    constructor
    · intro h
      exact ⟨a, rfl, Except.ok.inj h⟩
    · rintro ⟨a', ha, rfl⟩
      cases ha
      rfl

theorem map_eq_error {f : α → β} : x.map f = .error c ↔ x = .error c := by
  cases x with
  | error c' => exact ⟨fun h => (by cases h; rfl), fun h => (by cases h; rfl)⟩
  | ok a => exact ⟨fun h => (by cases h), fun h => (by cases h)⟩

/-- What fails in the same cases also succeeds in the same ones. -/
theorem exists_ok_congr {y : Except ε β} (h : ∀ c, x = .error c ↔ y = .error c) :
    (∃ a, x = .ok a) ↔ ∃ b, y = .ok b := by
  cases x with
  | error c =>
    rw [(h c).1 rfl]
    simp
  | ok a =>
    cases y with
    | error c => cases (h c).2 rfl
    | ok b => exact ⟨fun _ => ⟨b, rfl⟩, fun _ => ⟨a, rfl⟩⟩

/-- A list of computations comes to the same as another one whose members do. -/
theorem mapM_congr {f g : α → Except ε β} {l : List α} (h : ∀ a ∈ l, f a = g a) :
    l.mapM f = l.mapM g := by
  induction l with
  | nil => rfl
  | cons a l ih =>
    rw [List.mapM_cons, List.mapM_cons, h a List.mem_cons_self,
      ih fun b hb => h b (List.mem_cons_of_mem a hb)]

/-- A list of computations comes to an answer if each of them does. -/
theorem mapM_eq_ok_iff {f : α → Except ε β} {P : α → Prop} {g : α → β}
    (h : ∀ a b, f a = .ok b ↔ P a ∧ b = g a) {l : List α} {bs : List β} :
    l.mapM f = .ok bs ↔ (∀ a ∈ l, P a) ∧ bs = l.map g := by
  induction l generalizing bs with
  | nil =>
    constructor
    · intro hok
      cases hok
      exact ⟨fun a ha => absurd ha List.not_mem_nil, rfl⟩
    · rintro ⟨_, rfl⟩
      rfl
  | cons a l ih =>
    rw [List.mapM_cons, bind_eq_ok, List.forall_mem_cons]
    constructor
    · rintro ⟨b, hb, hrest⟩
      obtain ⟨bs', hbs', hok⟩ := bind_eq_ok.1 hrest
      cases hok
      obtain ⟨ha, rfl⟩ := (h a b).1 hb
      obtain ⟨hl, rfl⟩ := ih.1 hbs'
      exact ⟨⟨ha, hl⟩, rfl⟩
    · rintro ⟨⟨ha, hl⟩, rfl⟩
      exact ⟨g a, (h a (g a)).2 ⟨ha, rfl⟩, bind_eq_ok.2 ⟨l.map g, ih.2 ⟨hl, rfl⟩, rfl⟩⟩

/-- A list of computations fails as the first of them that does. -/
theorem mapM_eq_error_iff {f : α → Except ε β} {l : List α} :
    l.mapM f = .error c ↔
      ∃ before a after, l = before ++ a :: after ∧ (∀ x ∈ before, ∃ b, f x = .ok b) ∧ f a = .error c := by
  -- the first element that fails is the one whose error is given
  induction l with
  | nil =>
    constructor
    · intro h
      cases h
    · rintro ⟨before, a, after, heq, _⟩
      exact absurd heq.symm (List.append_ne_nil_of_right_ne_nil before (List.cons_ne_nil a after))
  | cons a l ih =>
    rw [List.mapM_cons, bind_eq_error]
    constructor
    · rintro (hf | ⟨b, hb, hrest⟩)
      · exact ⟨[], a, l, rfl, fun x hx => absurd hx List.not_mem_nil, hf⟩
      · rcases bind_eq_error.1 hrest with hl | ⟨_, _, hpure⟩
        · obtain ⟨before, d, after, rfl, hbefore, hd⟩ := ih.1 hl
          exact ⟨a :: before, d, after, rfl, List.forall_mem_cons.2 ⟨⟨b, hb⟩, hbefore⟩, hd⟩
        · cases hpure
    · rintro ⟨before, d, after, heq, hbefore, hd⟩
      cases before with
      | nil =>
        cases heq
        exact .inl hd
      | cons x before =>
        cases heq
        obtain ⟨⟨b, hb⟩, hrest⟩ := List.forall_mem_cons.1 hbefore
        exact .inr ⟨b, hb, bind_eq_error.2 (.inl (ih.2 ⟨before, d, after, rfl, hrest, hd⟩))⟩

theorem exists_mapM_eq_ok_iff {f : α → Except ε β} {l : List α} :
    (∃ bs, l.mapM f = .ok bs) ↔ ∀ a ∈ l, ∃ b, f a = .ok b := by
  induction l with
  | nil => exact ⟨fun _ a ha => absurd ha List.not_mem_nil, fun _ => ⟨[], rfl⟩⟩
  | cons a l ih =>
    rw [List.mapM_cons, List.forall_mem_cons, ← ih]
    constructor
    · rintro ⟨_, h⟩
      obtain ⟨b, hb, hrest⟩ := bind_eq_ok.1 h
      obtain ⟨bs, hbs, _⟩ := bind_eq_ok.1 hrest
      exact ⟨⟨b, hb⟩, bs, hbs⟩
    · rintro ⟨⟨b, hb⟩, bs, hbs⟩
      exact ⟨b :: bs, bind_eq_ok.2 ⟨b, hb, bind_eq_ok.2 ⟨bs, hbs, rfl⟩⟩⟩

theorem mapM_append_eq_error {f : α → Except ε β} {l l' : List α} :
    (l ++ l').mapM f = .error c ↔ l.mapM f = .error c ∨ (∃ bs, l.mapM f = .ok bs) ∧ l'.mapM f = .error c := by
  rw [List.mapM_append]
  exact both_eq_error

end Playbook.Checked
