import Playbook.Proofs.Run.Exec

/-! # Two actions side by side

Two actions are coupled when from related worlds they lead to related worlds, and either fail of the same cause
or have related answers. Each way to build an action has one rule, as for what holds of a single one.

Main statements: `Coupled.bind`, `Coupled.attempt` and `Coupled.ofExcept`.
-/

namespace Playbook

/-- Two results: the same cause of failure, or related answers. -/
inductive Checked.Matches {ε α β : Type} (R : α → β → Prop) : Except ε α → Except ε β → Prop where
  | error (c : ε) : Matches R (.error c) (.error c)
  | ok {a : α} {b : β} (h : R a b) : Matches R (.ok a) (.ok b)

namespace Checked.Matches

variable {ε α β : Type} {R S : α → β → Prop} {r : Except ε α} {r' : Except ε β}

/-- A result matches itself. -/
theorem refl (r : Except ε α) : Matches Eq r r := by
  cases r with
  | error c => exact .error c
  | ok a => exact .ok rfl

/-- Results that match with equal answers are equal. -/
theorem eq {r r' : Except ε α} (h : Matches Eq r r') : r' = r := by
  cases h with
  | error c => rfl
  | ok h => rw [h]

/-- A failure matches no other result than the same failure. -/
theorem eq_error {c : ε} (h : Matches R (.error c) r') : r' = .error c := by
  cases h
  rfl

/-- An answer matches an answer that is related to it. -/
theorem eq_ok {a : α} (h : Matches R (.ok a) r') : ∃ b, r' = .ok b ∧ R a b := by
  cases h with
  | ok h => exact ⟨_, rfl, h⟩

/-- Answers that are related in one way may be so in another. -/
theorem mono (h : Matches R r r') (hRS : ∀ a b, R a b → S a b) : Matches S r r' := by
  cases h with
  | error c => exact .error c
  | ok h => exact .ok (hRS _ _ h)

theorem map {γ δ : Type} {T : γ → δ → Prop} {f : α → γ} {g : β → δ} (h : Matches R r r')
    (hfg : ∀ a b, R a b → T (f a) (g b)) : Matches T (r.map f) (r'.map g) := by
  cases h with
  | error c => exact .error c
  | ok h => exact .ok (hfg _ _ h)

/-- Two computations in a row. -/
theorem bind {γ δ : Type} {T : γ → δ → Prop} {k : α → Except ε γ} {l : β → Except ε δ} (h : Matches R r r')
    (hk : ∀ a b, R a b → Matches T (k a) (l b)) : Matches T (r >>= k) (r' >>= l) := by
  cases h with
  | error c => exact .error c
  | ok h => exact hk _ _ h

end Checked.Matches

namespace Exec

open Checked (Matches)

variable {σ α β γ δ : Type}

/-- In these worlds two actions lead to related worlds, and match in their results. -/
def CoupledAt (W : World σ → World σ → Prop) (R : α → β → Prop) (x : Exec σ α) (y : Exec σ β)
    (w w' : World σ) : Prop :=
  W (x w).2 (y w').2 ∧ Matches R (x w).1 (y w').1

namespace CoupledAt

variable {W : World σ → World σ → Prop} {R : α → β → Prop} {S : γ → δ → Prop} {x : Exec σ α}
  {y : Exec σ β} {w w' : World σ}

/-- Two actions in a row on both sides. The second ones need only be coupled in the worlds that the first ones lead
to. -/
theorem bind {k : α → Exec σ γ} {l : β → Exec σ δ} (hx : CoupledAt W R x y w w')
    (hk : ∀ a b w₁ w₁', x w = (.ok a, w₁) → y w' = (.ok b, w₁') → R a b → W w₁ w₁' →
      CoupledAt W S (k a) (l b) w₁ w₁') :
    CoupledAt W S (x >>= k) (y >>= l) w w' := by
  obtain ⟨hworld, hresult⟩ := hx
  -- both fail of the same cause and stop there, or both go on
  rw [CoupledAt, bind_run, bind_run]
  rcases hr : x w with ⟨r, w₁⟩
  rcases hr' : y w' with ⟨r', w₁'⟩
  rw [hr, hr'] at hworld hresult
  cases hresult with
  | error c => exact ⟨hworld, .error c⟩
  | ok h => exact hk _ _ _ _ hr hr' h hworld

/-- Caught failures are answers that match. -/
theorem attempt (hx : CoupledAt W R x y w w') :
    CoupledAt W (Matches R) (Exec.attempt x) (Exec.attempt y) w w' :=
  ⟨hx.1, .ok hx.2⟩

end CoupledAt

/-- Two actions that lead from related worlds to related worlds, and match in their results. -/
def Coupled (W : World σ → World σ → Prop) (R : α → β → Prop) (x : Exec σ α) (y : Exec σ β) : Prop :=
  ∀ w w', W w w' → W (x w).2 (y w').2 ∧ Matches R (x w).1 (y w').1

namespace Coupled

variable {W : World σ → World σ → Prop} {R : α → β → Prop} {S : γ → δ → Prop} {x : Exec σ α}
  {y : Exec σ β}

/-- An action side by side with itself, in the same world. -/
theorem refl (x : Exec σ α) : Coupled Eq Eq x x := by
  rintro w _ rfl
  exact ⟨rfl, .refl _⟩

/-- Related answers. -/
theorem pure {a : α} {b : β} (h : R a b) : Coupled W R (Pure.pure a) (Pure.pure b) :=
  fun _ _ hw => ⟨hw, .ok h⟩

/-- The same failure. -/
theorem throw (c : Error) : Coupled W R (throw c) (throw c) := fun _ _ hw => ⟨hw, .error c⟩

/-- Results that match. -/
theorem ofExcept {r : Except Error α} {r' : Except Error β} (h : Matches R r r') :
    Coupled W R (Exec.ofExcept r) (Exec.ofExcept r') := by
  cases h with
  | error c => exact .throw c
  | ok h => exact .pure h

/-- Two actions in a row on both sides. -/
theorem bind {k : α → Exec σ γ} {l : β → Exec σ δ} (hx : Coupled W R x y)
    (hk : ∀ a b, R a b → Coupled W S (k a) (l b)) : Coupled W S (x >>= k) (y >>= l) :=
  fun w w' hw => CoupledAt.bind (hx w w' hw) fun a b _ _ _ _ hab hw₁ => hk a b hab _ _ hw₁

/-- The same action on both sides, and then what is made of its answer. -/
theorem after {k : α → Exec σ γ} {l : α → Exec σ δ} (x : Exec σ α)
    (hk : ∀ a, Coupled Eq S (k a) (l a)) : Coupled Eq S (x >>= k) (x >>= l) := by
  refine (refl x).bind ?_
  rintro a _ rfl
  exact hk a

theorem attempt (hx : Coupled W R x y) : Coupled W (Matches R) (Exec.attempt x) (Exec.attempt y) :=
  fun w w' hw => CoupledAt.attempt (hx w w' hw)

end Coupled

end Exec

end Playbook
