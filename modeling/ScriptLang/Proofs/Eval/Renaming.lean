import Mathlib
import ScriptLang.Proofs.Eval.Simulation
import ScriptLang.Proofs.Store.Renaming

/-!
Names matter only up to renaming. A renamed program does in a renamed store step by step
what the program does in the store: the values and the stores of the one run are those of
the other run renamed, all along. Binding a name and looking it up go the same way because
the renaming keeps different names apart; that it keeps the names of the builtins is needed
where a name is bound nowhere.
-/

namespace ScriptLang

inductive Outcome.Renamed (r : Renaming) (order : HashOrder) : Outcome → Outcome → Prop
  | value (v : Value) : Outcome.Renamed r order (.value v) (.value (v.rename r))
  | error {e e' : RuntimeError} :
      e.Renamed r order e' → Outcome.Renamed r order (.error e) (.error e')
  | tooManyCalls : Outcome.Renamed r order .tooManyCalls .tooManyCalls

/-- Runs of which the second one has the renamed values and stores of the first one. -/
def Renaming.simulation (r : Renaming) (order : HashOrder) : Simulation where
  order := order
  order' := order
  rename := r
  value _ v w := v.rename r = w
  scope _ _ := True
  store st st' := st.rename r = st'
  mono h _ := h
  layer := by
    rintro n v _ rfl
    cases v with
    | int i => exact .int i
    | str s => exact .str s
    | bool b => exact .bool b
    | null => exact .null
    | func f => exact .func f (f.rename r)
    | builtin b => exact .builtin b
    | array vs =>
        rw [Value.rename, Value.renameItems_eq_map]
        exact .array (List.forall₂_map_right_iff.mpr (List.forall₂_same.mpr fun _ _ => rfl))
    | hash t =>
        rw [Value.rename, Value.renameEntries_eq_map]
        exact .hash (List.forall₂_map_right_iff.mpr
          (List.forall₂_same.mpr fun _ _ => ⟨rfl, rfl⟩))
  atom {_ v} h := by
    cases v with
    | func | array | hash => cases h
    | _ => rfl
  array {_ vs ws} h := by
    have hmap : vs.map (Value.rename r) = ws := by
      rwa [← List.forall₂_map_left_iff, List.forall₂_eq_eq_eq] at h
    rw [Value.rename, Value.renameItems_eq_map, hmap]
  hash_nil _ := rfl
  insert := by
    rintro n t t' v _ k ht rfl
    rw [Value.rename] at ht ⊢
    cases ht
    rw [Value.renameEntries_insert]
  params_eq := by
    rintro n f _ ⟨⟩
    rfl
  body_eq := by
    rintro n f _ ⟨⟩
    rfl
  scope_eq := by
    rintro n f _ ⟨⟩
    rfl
  scope_mono h _ := h
  size_eq := by
    rintro st _ rfl
    exact Array.size_map
  get? := by
    rintro st _ s rfl _ x
    rw [Store.get?_rename]
    cases st.get? s x with
    | none => exact .none
    | some v => exact .some rfl
  define := by
    rintro st _ s v _ rfl _ x rfl
    cases hdefine : st.define s x v with
    | ok st' =>
        rw [Store.define_rename_of_ok r hdefine]
        exact .ok rfl
    | error e =>
        obtain rfl := Store.define_error_eq hdefine
        rw [Store.define_rename_of_error r hdefine]
        exact .error (.alreadyDefined x)
  enclose := by
    rintro st _ f _ rfl _
    refine ⟨trivial, ?_⟩
    rw [Store.newScope_rename]
  newClosure := by
    rintro st _ s rfl _ params body
    exact ⟨rfl, rfl⟩
  print := by
    rintro st _ v _ rfl rfl
    exact (st.print_rename r v).symm

theorem renamed_of_errors {r : Renaming} {order : HashOrder} {n : Nat} {e e' : RuntimeError}
    (h : (r.simulation order).Errors n e e') : e.Renamed r order e' := by
  cases h with
  | same he => exact .same he
  | unknownIdentifier x => exact .unknownIdentifier x
  | alreadyDefined x => exact .alreadyDefined x
  | typeMismatch op hl hr =>
      cases hl
      cases hr
      exact .typeMismatch _ op _
  | unknownUnaryOperator op hv =>
      cases hv
      exact .unknownUnaryOperator op _
  | unknownBinaryOperator op hl hr =>
      cases hl
      cases hr
      exact .unknownBinaryOperator _ op _
  | nonBooleanCondition hv =>
      cases hv
      exact .nonBooleanCondition _
  | notCallable hv =>
      cases hv
      exact .notCallable _
  | missingKey hv hk =>
      -- There are no names in a key, so the texts are the same.
      cases hv
      rw [Value.rename_of_asKey hk]
      exact .same rfl

/-- Names matter only up to renaming.

A renaming keeps different names apart and keeps the names of the builtins. Whatever the
program, the scope and the store are, and whatever closures are bound there: the renamed
program ends in the renamed store as the program does in the store. If the one ends with a
value, the other one ends with the renamed value, and if it fails, the other one fails with
an error of the same kind, about the renamed name. The store that is left behind is the
renamed one. -/
theorem Program.run_rename (r : Renaming) (settings : Settings) (s : ScopeId) (p : Program)
    (st : Store) :
    (Program.run settings s p st).1.Renamed r settings.order
        (Program.run settings s (Stmt.renameAll r p) (st.rename r)).1 ∧
      (Program.run settings s (Stmt.renameAll r p) (st.rename r)).2 =
        (Program.run settings s p st).2.rename r := by
  have hst : (r.simulation settings.order).store st (st.rename r) := rfl
  have hs : (r.simulation settings.order).scope st.scopes.size s := trivial
  obtain ⟨hstore, -, hends⟩ := (r.simulation settings.order).run settings.callDepth hst hs p
  refine ⟨?_, hstore.symm⟩
  change Correspondence.Outcomes _ _ (Program.run settings s p st).1
    (Program.run settings s (Stmt.renameAll r p) (st.rename r)).1 at hends
  generalize (Program.run settings s p st).1 = outcome at hends ⊢
  generalize (Program.run settings s (Stmt.renameAll r p) (st.rename r)).1 = outcome' at hends ⊢
  cases hends with
  | value hv =>
      cases hv
      exact .value _
  | error he => exact .error (renamed_of_errors he)
  | tooManyCalls => exact .tooManyCalls

/-- `var f = func(a) { a + b; }; f(1);` uses a name that is bound nowhere, in a function that
has a parameter. -/
def usesUnboundName : Program :=
  [.var "f" (.func ["a"] [.expr (.binary .plus (.name "a") (.name "b"))]),
    .expr (.call (.name "f") [.int 1])]

/-- With the two names exchanged, the name that is bound nowhere is the other one. -/
theorem Program.run_rename_exchange :
    (Program.run Settings.standard 0 usesUnboundName Interpreter.start.store).1 =
        .error (.unknownIdentifier "b") ∧
      (Program.run Settings.standard 0
          (Stmt.renameAll (Renaming.exchange "a" "b" rfl rfl) usesUnboundName)
          (Interpreter.start.store.rename (Renaming.exchange "a" "b" rfl rfl))).1 =
        .error (.unknownIdentifier "a") := by
  have hrun : (Program.run Settings.standard 0 usesUnboundName Interpreter.start.store).1 =
      .error (.unknownIdentifier "b") := by
    cbv
  refine ⟨hrun, ?_⟩
  obtain ⟨houtcome, -⟩ := Program.run_rename (Renaming.exchange "a" "b" rfl rfl)
    Settings.standard 0 usesUnboundName Interpreter.start.store
  rw [hrun] at houtcome
  generalize (Program.run Settings.standard 0 _ (Interpreter.start.store.rename _)).1 = outcome
    at houtcome ⊢
  cases houtcome with
  | error he =>
      cases he with
      | same hnameless => cases hnameless
      | unknownIdentifier => rfl

end ScriptLang
