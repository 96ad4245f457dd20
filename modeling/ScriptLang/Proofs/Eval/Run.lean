import ScriptLang.Eval.Expr

/-!
Running the steps of an evaluation one after another. A step that has a result hands
it, and the store, to the step after it; a step that stops ends the row.
-/

namespace ScriptLang.Eval

variable {α β : Type} {r : Eval α} {f : α → Eval β} {st st' : Store}

theorem bind_run (r : Eval α) (f : α → Eval β) (st : Store) :
    (r >>= f) st =
      match r st with
      | .ok a st' => f a st'
      | .error stop st' => .error stop st' := by
  show EStateM.bind r f st = _
  unfold EStateM.bind
  cases r st <;> rfl

theorem bind_ok {a : α} (h : r st = .ok a st') : (r >>= f) st = f a st' := by
  rw [bind_run, h]

theorem bind_error {stop : Stop} (h : r st = .error stop st') :
    (r >>= f) st = .error stop st' := by
  rw [bind_run, h]

theorem bind_eq_ok_iff {b : β} {st₂ : Store} :
    (r >>= f) st = .ok b st₂ ↔ ∃ a st₁, r st = .ok a st₁ ∧ f a st₁ = .ok b st₂ := by
  rw [bind_run]
  cases hr : r st with
  | ok a st₁ =>
      constructor
      · exact fun h => ⟨a, st₁, rfl, h⟩
      · rintro ⟨a', st₁', ⟨⟩, h⟩
        exact h
  | error stop st₁ =>
      constructor
      · intro h
        cases h
      · rintro ⟨_, _, ⟨⟩, _⟩

theorem bind_eq_error_iff {stop : Stop} {st₂ : Store} :
    (r >>= f) st = .error stop st₂ ↔
      r st = .error stop st₂ ∨ ∃ a st₁, r st = .ok a st₁ ∧ f a st₁ = .error stop st₂ := by
  rw [bind_run]
  cases hr : r st with
  | ok a st₁ =>
      constructor
      · exact fun h => .inr ⟨a, st₁, rfl, h⟩
      · rintro (h | ⟨a', st₁', ⟨⟩, h⟩)
        · cases h
        · exact h
  | error stop' st₁ =>
      constructor
      · exact fun h => .inl (by cases h; rfl)
      · rintro (h | ⟨_, _, ⟨⟩, _⟩)
        cases h
        rfl

/-- The store after a step, however the step ends. -/
def after (r : Eval α) (st : Store) : Store :=
  match r st with
  | .ok _ st' => st'
  | .error _ st' => st'

theorem ofExcept_eq_ok_iff {x : Except RuntimeError α} {a : α} :
    ofExcept x st = .ok a st' ↔ x = .ok a ∧ st = st' := by
  cases x with
  | ok b =>
      constructor
      · rintro ⟨⟩
        exact ⟨rfl, rfl⟩
      · rintro ⟨⟨⟩, rfl⟩
        rfl
  | error e =>
      constructor
      · intro h
        cases h
      · rintro ⟨⟨⟩, _⟩

end ScriptLang.Eval
