import Playbook.Run.World

/-! # Reasoning about actions

What holds when an action has ended, with its answer or with its failure. `Ends` is a triple whose
precondition is a world: each way to build an action has one rule, and `Ends.mono` weakens what is known.

Main statements: `ends_bind`, `ends_attempt` and the rules for the primitive actions; `Yields` says what holds of
the answer alone, wherever the action starts.
-/

namespace Playbook.Exec

variable {σ α β : Type}

/-- After the action in this world `post` holds of the answer, or `fail` of the cause of its failure. -/
def Ends (x : Exec σ α) (w : World σ) (post : α → World σ → Prop) (fail : Error → World σ → Prop) :
    Prop :=
  match x w with
  | (.ok a, w') => post a w'
  | (.error c, w') => fail c w'

variable {x : Exec σ α} {w : World σ} {post post' : α → World σ → Prop}
  {fail fail' : Error → World σ → Prop}

/-- Of an action that succeeds, what is said of its answer holds. -/
theorem ends_of_ok {a : α} {w' : World σ} (hx : x w = (.ok a, w')) :
    Ends x w post fail ↔ post a w' := by
  rw [Ends, hx]

/-- Of an action that fails, what is said of its failure holds. -/
theorem ends_of_error {c : Error} {w' : World σ} (hx : x w = (.error c, w')) :
    Ends x w post fail ↔ fail c w' := by
  rw [Ends, hx]

/-- An action ends in one of two ways. -/
theorem cases_run (x : Exec σ α) (w : World σ) :
    (∃ a, x w = (.ok a, (x w).2)) ∨ ∃ c, x w = (.error c, (x w).2) := by
  rcases hx : x w with ⟨r, w'⟩
  cases r with
  | ok a => exact Or.inl ⟨a, rfl⟩
  | error c => exact Or.inr ⟨c, rfl⟩

/-- What is known of an action may be weakened. -/
theorem Ends.mono (h : Ends x w post fail) (hpost : ∀ a w', post a w' → post' a w')
    (hfail : ∀ c w', fail c w' → fail' c w') : Ends x w post' fail' := by
  rcases cases_run x w with ⟨a, hx⟩ | ⟨c, hx⟩
  · exact (ends_of_ok hx).2 (hpost _ _ ((ends_of_ok hx).1 h))
  · exact (ends_of_error hx).2 (hfail _ _ ((ends_of_error hx).1 h))

/-- What is known of an action in two ways holds together. -/
theorem Ends.and (h : Ends x w post fail) (h' : Ends x w post' fail') :
    Ends x w (fun a w' => post a w' ∧ post' a w') (fun c w' => fail c w' ∧ fail' c w') := by
  rcases cases_run x w with ⟨a, hx⟩ | ⟨c, hx⟩
  · exact (ends_of_ok hx).2 ⟨(ends_of_ok hx).1 h, (ends_of_ok hx).1 h'⟩
  · exact (ends_of_error hx).2 ⟨(ends_of_error hx).1 h, (ends_of_error hx).1 h'⟩

/-- What holds of the world afterwards in any case. -/
theorem ends_of_world {P : World σ → Prop} (h : P (x w).2) :
    Ends x w (fun _ => P) (fun _ => P) := by
  rcases cases_run x w with ⟨a, hx⟩ | ⟨c, hx⟩
  · exact (ends_of_ok hx).2 h
  · exact (ends_of_error hx).2 h

/-! ## Putting actions together -/

/-- Two actions in a row: the second one goes on with the answer of the first, unless that one fails. -/
theorem bind_run (x : Exec σ α) (k : α → Exec σ β) (w : World σ) :
    (x >>= k) w =
      match x w with
      | (.ok a, w') => k a w'
      | (.error c, w') => (.error c, w') := by
  rcases hx : x w with ⟨r, w'⟩
  -- the two layers of the monad are opened here, and nowhere else
  have hb : (x >>= k) w = (ExceptT.bindCont k (x w).1 : StateM (World σ) _) (x w).2 := rfl
  rw [hb, hx]
  cases r <;> rfl

/-- What is made of an answer does not change the world. -/
theorem bind_pure_world (x : Exec σ α) (k : α → β) (w : World σ) :
    ((x >>= fun a => pure (k a)) w).2 = (x w).2 := by
  rw [bind_run]
  rcases x w with ⟨c | a, w'⟩ <;> rfl

/-- Two actions in a row succeed when both do. -/
theorem bind_eq_ok {k : α → Exec σ β} {b : β} {w' : World σ} :
    (x >>= k) w = (.ok b, w') ↔ ∃ a w₁, x w = (.ok a, w₁) ∧ k a w₁ = (.ok b, w') := by
  rw [bind_run]
  rcases x w with ⟨c | a, w₁⟩
  · constructor
    · intro h
      cases h
    · rintro ⟨a, w₂, h, _⟩
      cases h
  · constructor
    · intro h
      exact ⟨a, w₁, rfl, h⟩
    · rintro ⟨a', w₂, h, hk⟩
      cases h
      exact hk

theorem ofExcept_world (r : Except Error α) (w : World σ) : ((ofExcept r : Exec σ α) w).2 = w := by
  cases r <;> rfl

/-- A result succeeds as it is, and changes nothing. -/
theorem ofExcept_eq_ok {r : Except Error α} {a : α} {w' : World σ} :
    (ofExcept r : Exec σ α) w = (.ok a, w') ↔ r = .ok a ∧ w' = w := by
  cases r with
  | ok b =>
    constructor
    · intro h
      cases h
      exact ⟨rfl, rfl⟩
    · rintro ⟨h, rfl⟩
      cases h
      rfl
  | error c =>
    constructor
    · intro h
      cases h
    · rintro ⟨h, _⟩
      cases h

/-- What holds after two actions in a row holds of the second one after the first. -/
theorem ends_bind {k : α → Exec σ β} {post : β → World σ → Prop} :
    Ends (x >>= k) w post fail ↔ Ends x w (fun a w' => Ends (k a) w' post fail) fail := by
  rcases cases_run x w with ⟨a, hx⟩ | ⟨c, hx⟩
  · rw [ends_of_ok hx, Ends, Ends, bind_run, hx]
  · rw [ends_of_error hx, Ends, bind_run, hx]

/-- The rule for two actions in a row. -/
theorem Ends.bind {k : α → Exec σ β} {post : β → World σ → Prop} {mid : α → World σ → Prop}
    (h : Ends x w mid fail) (hk : ∀ a w', mid a w' → Ends (k a) w' post fail) :
    Ends (x >>= k) w post fail :=
  ends_bind.2 (h.mono hk fun _ _ hc => hc)

theorem ends_ofExcept {r : Except Error α} :
    Ends (ofExcept r : Exec σ α) w post fail ↔
      match r with
      | .ok a => post a w
      | .error c => fail c w := by
  cases r <;> exact Iff.rfl

theorem ends_look {f : World σ → α} : Ends (look f) w post fail ↔ post (f w) w := Iff.rfl

/-- What holds after an action whose failure is caught holds after the action. -/
theorem ends_attempt {post : Except Error α → World σ → Prop} :
    Ends (attempt x) w post fail ↔
      Ends x w (fun a w' => post (.ok a) w') (fun c w' => post (.error c) w') := by
  rcases cases_run x w with ⟨a, hx⟩ | ⟨c, hx⟩
  · rw [ends_of_ok hx, Ends, attempt, hx]
  · rw [ends_of_error hx, Ends, attempt, hx]

/-! ## Answers -/

/-- Whenever the action succeeds, this holds of its answer. -/
def Yields (Q : α → Prop) (x : Exec σ α) : Prop := ∀ w, Ends x w (fun a _ => Q a) fun _ _ => True

namespace Yields

variable {Q : α → Prop} {R : β → Prop} {k : α → Exec σ β}

/-- What holds of the answers holds of the one that is given. -/
theorem of_eq_ok (h : Yields Q x) {a : α} {w' : World σ} (hx : x w = (.ok a, w')) : Q a :=
  (ends_of_ok hx).1 (h w)

/-- What is known of the answers may be weakened. -/
theorem mono {Q' : α → Prop} (h : Yields Q x) (hQ : ∀ a, Q a → Q' a) : Yields Q' x :=
  fun w => (h w).mono (fun a _ => hQ a) fun _ _ hc => hc

theorem pure {a : α} (h : Q a) : Yields Q (pure a : Exec σ α) := fun _ => h

theorem throw (c : Error) : Yields Q (throw c : Exec σ α) := fun _ => trivial

/-- A result yields what holds of it if it is an answer. -/
theorem ofExcept {r : Except Error α} (h : ∀ a, r = .ok a → Q a) : Yields Q (ofExcept r : Exec σ α) := by
  cases r with
  | ok a => exact .pure (h a rfl)
  | error c => exact .throw c

/-- Two actions in a row. -/
theorem bind (hx : Yields Q x) (hk : ∀ a, Q a → Yields R (k a)) : Yields R (x >>= k) :=
  fun w => (hx w).bind fun a w' ha => hk a ha w'

/-- Nothing need be known of the answer on the way. -/
theorem behind (hk : ∀ a, Yields R (k a)) : Yields R (x >>= k) :=
  bind (Q := fun _ => True) (fun _ => ends_of_world trivial) fun a _ => hk a

end Yields

/-! ## The hierarchy -/

theorem ends_onHierarchy {f : Hierarchy → Except Error Hierarchy} {post : Unit → World σ → Prop} :
    Ends (onHierarchy f) w post fail ↔
      match f w.hierarchy with
      | .ok h => post () { w with hierarchy := h }
      | .error c => fail c w := by
  rw [Ends, onHierarchy]
  cases f w.hierarchy <;> exact Iff.rfl

theorem ends_aborting {agent : String} {f : Hierarchy → Except Error (Hierarchy × List ThreadId)}
    {post : Unit → World σ → Prop} :
    Ends (aborting agent f) w post fail ↔
      match f w.hierarchy with
      | .ok (h, ids) =>
        post () { w with
          hierarchy := h
          events := w.events ++ ids.map (fun id => ⟨agent, .threadAborted id⟩) }
      | .error c => fail c w := by
  rw [Ends, aborting]
  cases f w.hierarchy <;> exact Iff.rfl

end Playbook.Exec
