import Mathlib
import ScriptLang.Proofs.Eval.Invariant

/-!
The order in which the texts of hashes list their entries is seen in texts only: in what
is printed, and in errors that hold the texts of values. A run never reads such a text
again. So two runs that list entries in different orders do the same step by step, with
the same values and the same stores. If they fail, they fail at the same step, and the
errors differ at most in the texts of the values that they show (`RuntimeError.Alike`).
-/

namespace ScriptLang

/-- Errors of the same kind that show the same values, each of them in its own order. The
values are those whose texts the errors hold; all else in the errors is the same. -/
inductive RuntimeError.Alike (o₁ o₂ : HashOrder) :
    List Value → RuntimeError → RuntimeError → Prop
  | same (e : RuntimeError) : Alike o₁ o₂ [] e e
  | typeMismatch (l : Value) (op : BinaryOp) (r : Value) :
      Alike o₁ o₂ [l, r]
        (.typeMismatch (l.display (o₁.inside .left)) op (r.display (o₁.inside .right))
          l.type r.type)
        (.typeMismatch (l.display (o₂.inside .left)) op (r.display (o₂.inside .right))
          l.type r.type)
  | unknownUnaryOperator (op : UnaryOp) (v : Value) :
      Alike o₁ o₂ [v] (.unknownUnaryOperator op (v.display o₁) v.type)
        (.unknownUnaryOperator op (v.display o₂) v.type)
  | unknownBinaryOperator (l : Value) (op : BinaryOp) (r : Value) :
      Alike o₁ o₂ [l, r]
        (.unknownBinaryOperator (l.display (o₁.inside .left)) op (r.display (o₁.inside .right))
          l.type)
        (.unknownBinaryOperator (l.display (o₂.inside .left)) op (r.display (o₂.inside .right))
          l.type)
  | nonBooleanCondition (v : Value) :
      Alike o₁ o₂ [v] (.nonBooleanCondition (v.display o₁) v.type)
        (.nonBooleanCondition (v.display o₂) v.type)
  | notCallable (v : Value) :
      Alike o₁ o₂ [v] (.notCallable (v.display o₁) v.type)
        (.notCallable (v.display o₂) v.type)
  | missingKey (v : Value) :
      Alike o₁ o₂ [v] (.missingKey (v.display o₁)) (.missingKey (v.display o₂))

/-- Outcomes that are the same, or errors that differ in the texts of these values only. -/
inductive Outcome.Alike (o₁ o₂ : HashOrder) : List Value → Outcome → Outcome → Prop
  | same (outcome : Outcome) : Alike o₁ o₂ [] outcome outcome
  | error {shown : List Value} {e e' : RuntimeError} :
      e.Alike o₁ o₂ shown e' → Alike o₁ o₂ shown (.error e) (.error e')

variable {o₁ o₂ : HashOrder}

/-- Where no value is shown that has a hash with two or more entries, errors do not differ. -/
theorem RuntimeError.Alike.eq {shown : List Value} {e e' : RuntimeError}
    (h : e.Alike o₁ o₂ shown e') (hfree : ∀ v ∈ shown, v.isOrderFree = true) : e = e' := by
  have hdisplay (v : Value) (hv : v ∈ shown) (o o' : HashOrder) : v.display o = v.display o' :=
    v.display_eq_of_isOrderFree o o' (hfree v hv)
  cases h with
  | same e => rfl
  | typeMismatch l op r | unknownBinaryOperator l op r =>
      rw [hdisplay l (by simp) _ (o₂.inside .left), hdisplay r (by simp) _ (o₂.inside .right)]
  | unknownUnaryOperator op v | nonBooleanCondition v | notCallable v | missingKey v =>
      rw [hdisplay v (by simp) o₁ o₂]

theorem Outcome.Alike.eq {shown : List Value} {outcome outcome' : Outcome}
    (h : outcome.Alike o₁ o₂ shown outcome') (hfree : ∀ v ∈ shown, v.isOrderFree = true) :
    outcome = outcome' := by
  cases h with
  | same outcome => rfl
  | error he => rw [he.eq hfree]

theorem printedText_eq_of_isOrderFree {vs : List Value}
    (hfree : ∀ v ∈ vs, v.isOrderFree = true) : printedText o₁ vs = printedText o₂ vs := by
  unfold printedText
  congr 1
  refine List.mapIdx_eq_mapIdx_iff.mpr fun i hi => ?_
  rw [Value.display_eq_of_isOrderFree _ (o₂.inside (.printed i)) _ (hfree _ (vs.getElem_mem hi))]

/-! ### Runs with different orders -/

def Invariant.unconditional : Invariant :=
  .ofStores (fun _ => True) (fun _ => True) (fun _ _ _ => trivial) (fun _ _ => ⟨trivial, trivial⟩)
    (fun _ _ _ _ => trivial) fun _ _ => trivial

def Simulation.reordered (o₁ o₂ : HashOrder) : Simulation :=
  Invariant.unconditional.simulation o₁ o₂

theorem alike_of_errors {n : Nat} {e e' : RuntimeError}
    (h : (Simulation.reordered o₁ o₂).Errors n e e') :
    ∃ shown, e.Alike o₁ o₂ shown e' := by
  cases h with
  | same _ | unknownIdentifier x | alreadyDefined x => exact ⟨_, .same _⟩
  | typeMismatch op hl hr =>
      obtain ⟨-, rfl⟩ := hl
      obtain ⟨-, rfl⟩ := hr
      exact ⟨_, .typeMismatch _ op _⟩
  | unknownBinaryOperator op hl hr =>
      obtain ⟨-, rfl⟩ := hl
      obtain ⟨-, rfl⟩ := hr
      exact ⟨_, .unknownBinaryOperator _ op _⟩
  | unknownUnaryOperator op hv =>
      obtain ⟨-, rfl⟩ := hv
      exact ⟨_, .unknownUnaryOperator op _⟩
  | nonBooleanCondition hv =>
      obtain ⟨-, rfl⟩ := hv
      exact ⟨_, .nonBooleanCondition _⟩
  | notCallable hv =>
      obtain ⟨-, rfl⟩ := hv
      exact ⟨_, .notCallable _⟩
  | missingKey hv _ =>
      obtain ⟨-, rfl⟩ := hv
      exact ⟨_, .missingKey _⟩

theorem Program.run_alike (o₁ o₂ : HashOrder) (depth : Nat) (s : ScopeId) (p : Program)
    (st : Store) :
    (Program.run ⟨o₁, depth⟩ s p st).2 = (Program.run ⟨o₂, depth⟩ s p st).2 ∧
      ∃ shown, (Program.run ⟨o₁, depth⟩ s p st).1.Alike o₁ o₂ shown
        (Program.run ⟨o₂, depth⟩ s p st).1 := by
  have hst : (Simulation.reordered o₁ o₂).store st st := ⟨trivial, rfl⟩
  have hs : (Simulation.reordered o₁ o₂).scope st.scopes.size s := trivial
  obtain ⟨⟨-, hstore⟩, -, hends⟩ :=
    (Simulation.reordered o₁ o₂).run_of_refl rfl depth hst hs p
  refine ⟨hstore, ?_⟩
  change Correspondence.Outcomes _ _ (Program.run ⟨o₁, depth⟩ s p st).1
    (Program.run ⟨o₂, depth⟩ s p st).1 at hends
  generalize (Program.run ⟨o₁, depth⟩ s p st).1 = outcome at hends ⊢
  generalize (Program.run ⟨o₂, depth⟩ s p st).1 = outcome' at hends ⊢
  cases hends with
  | value hv =>
      obtain ⟨-, rfl⟩ := hv
      exact ⟨[], .same _⟩
  | error he =>
      obtain ⟨shown, halike⟩ := alike_of_errors he
      exact ⟨shown, .error halike⟩
  | tooManyCalls => exact ⟨[], .same _⟩

/-- A run does not depend on the order in which the texts of hashes list their entries.

Whatever the two orders, a program leaves the same store behind in both runs: the same
bindings, and the same values printed one after another. It ends in the same way, or else
with errors of the same kind that differ at most in the texts of the values that they show.
And if none of the values that were printed, or that the errors show, has a hash with two
or more entries in it, the outcomes are the same and so is the text that was printed. -/
theorem order_irrelevant (o₁ o₂ : HashOrder) (depth : Nat) (s : ScopeId) (p : Program)
    (st : Store) :
    (Program.run ⟨o₁, depth⟩ s p st).2 = (Program.run ⟨o₂, depth⟩ s p st).2 ∧
    (∃ shown, (Program.run ⟨o₁, depth⟩ s p st).1.Alike o₁ o₂ shown
      (Program.run ⟨o₂, depth⟩ s p st).1) ∧
    ((∀ v ∈ st.printedSince (Program.run ⟨o₁, depth⟩ s p st).2, v.isOrderFree = true) →
      printedText o₁ (st.printedSince (Program.run ⟨o₁, depth⟩ s p st).2) =
        printedText o₂ (st.printedSince (Program.run ⟨o₂, depth⟩ s p st).2)) ∧
    (∀ shown, (Program.run ⟨o₁, depth⟩ s p st).1.Alike o₁ o₂ shown
        (Program.run ⟨o₂, depth⟩ s p st).1 →
      (∀ v ∈ shown, v.isOrderFree = true) →
      (Program.run ⟨o₁, depth⟩ s p st).1 = (Program.run ⟨o₂, depth⟩ s p st).1) := by
  obtain ⟨hstore, halike⟩ := Program.run_alike o₁ o₂ depth s p st
  refine ⟨hstore, halike, fun hfree => ?_, fun shown h => h.eq⟩
  rw [← hstore]
  exact printedText_eq_of_isOrderFree hfree

/-- The entries as they are found, back to front. -/
def HashOrder.backward : HashOrder where
  arrange _ := List.reverse
  perm _ := List.reverse_perm

/-- `puts({1: [2]}); {3: 4} + true` prints a hash with one entry and fails with an error
that shows another one. -/
def showsHashes : Program :=
  [.expr (.call (.name "puts") [.hash [(.int 1, .array [.int 2])]]),
    .expr (.binary .plus (.hash [(.int 3, .int 4)]) (.bool true))]

/-- In any order of the entries the output and the error are the same. -/
theorem order_irrelevant_singletons :
    (Program.run ⟨HashOrder.byKey, 0⟩ 0 showsHashes Interpreter.start.store).1 =
        (Program.run ⟨HashOrder.backward, 0⟩ 0 showsHashes Interpreter.start.store).1 ∧
      printedText HashOrder.byKey (Interpreter.start.store.printedSince
          (Program.run ⟨HashOrder.byKey, 0⟩ 0 showsHashes Interpreter.start.store).2) =
        printedText HashOrder.backward (Interpreter.start.store.printedSince
          (Program.run ⟨HashOrder.backward, 0⟩ 0 showsHashes Interpreter.start.store).2) := by
  obtain ⟨-, -, htext, houtcome⟩ := order_irrelevant HashOrder.byKey HashOrder.backward 0 0
    showsHashes Interpreter.start.store
  constructor
  · refine houtcome [.hash [(.int 3, .int 4)], .bool true] ?_ (by decide)
    have h₁ : (Program.run ⟨HashOrder.byKey, 0⟩ 0 showsHashes Interpreter.start.store).1 =
        .error (.typeMismatch
          ((Value.hash [(.int 3, .int 4)]).display (HashOrder.byKey.inside .left)) .plus
          ((Value.bool true).display (HashOrder.byKey.inside .right)) .hash .boolean) := by
      cbv
    have h₂ : (Program.run ⟨HashOrder.backward, 0⟩ 0 showsHashes Interpreter.start.store).1 =
        .error (.typeMismatch
          ((Value.hash [(.int 3, .int 4)]).display (HashOrder.backward.inside .left)) .plus
          ((Value.bool true).display (HashOrder.backward.inside .right)) .hash .boolean) := by
      cbv
    rw [h₁, h₂]
    exact .error (.typeMismatch _ _ _)
  · refine htext ?_
    have hprinted : Interpreter.start.store.printedSince
        (Program.run ⟨HashOrder.byKey, 0⟩ 0 showsHashes Interpreter.start.store).2 =
          [.hash [(.int 1, .array [.int 2])]] := by
      cbv
    rw [hprinted]
    decide

end ScriptLang
