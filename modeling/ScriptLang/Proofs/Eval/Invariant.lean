import ScriptLang.Proofs.Eval.Simulation

/-!
What a run keeps. An `Invariant` is a condition on the store of a run, on its values and on
the scopes that it may work in. It has to be kept by the few things that a run does to a
store, and to hold of the values that are made. Then it holds all along: a run goes the
same way as itself, in the simulation of runs whose stores and values are the same and meet
the condition. There the two runs may also list the entries of hashes in different orders.

Many conditions are about stores only (`Invariant.ofStores`).
-/

namespace ScriptLang

/-- A condition on stores, and on values and scopes where there are so many scopes, that
evaluation keeps. -/
structure Invariant where
  value : Nat → Value → Prop
  scope : Nat → ScopeId → Prop
  store : Store → Prop
  mono : ∀ {n m : Nat} {v : Value}, value n v → n ≤ m → value m v
  atom : ∀ {n : Nat} {v : Value}, v.isAtom = true → value n v
  array_iff : ∀ {n : Nat} {vs : List Value}, value n (.array vs) ↔ ∀ v ∈ vs, value n v
  of_entry : ∀ {n : Nat} {t : Table Value}, value n (.hash t) → ∀ e ∈ t, value n e.2
  hash_nil : ∀ n, value n (.hash [])
  insert : ∀ {n : Nat} {t : Table Value} {v : Value} (k : Key),
    value n (.hash t) → value n v → value n (.hash (t.insert k v))
  scope_mono : ∀ {n m : Nat} {s : ScopeId}, scope n s → n ≤ m → scope m s
  get? : ∀ {st : Store} {s : ScopeId} {x : String} {v : Value}, store st →
    st.get? s x = some v → value st.scopes.size v
  define : ∀ {st st' : Store} {s : ScopeId} {x : String} {v : Value}, store st →
    scope st.scopes.size s → value st.scopes.size v → st.define s x v = .ok st' → store st'
  enclose : ∀ {st : Store} {f : Closure}, store st → value st.scopes.size (.func f) →
    scope (st.scopes.size + 1) st.scopes.size ∧ store (st.newScope (some f.scope)).2
  newClosure : ∀ {st : Store} {s : ScopeId}, store st → scope st.scopes.size s →
    ∀ params body, value st.scopes.size (.func (st.newClosure params body s).1) ∧
      store (st.newClosure params body s).2
  print : ∀ {st : Store} (v : Value), store st → store (st.print v)

namespace Invariant

/-- Two runs with the same values and stores, which meet the condition. -/
def simulation (I : Invariant) (order order' : HashOrder) : Simulation where
  order := order
  order' := order'
  rename := .refl
  value n v w := I.value n v ∧ v = w
  scope := I.scope
  store st st' := I.store st ∧ st = st'
  mono h hle := ⟨I.mono h.1 hle, h.2⟩
  layer := by
    rintro n v _ ⟨hv, rfl⟩
    cases v with
    | int i => exact .int i
    | str s => exact .str s
    | bool b => exact .bool b
    | null => exact .null
    | func f => exact .func f f
    | builtin b => exact .builtin b
    | array vs => exact .array (List.forall₂_same.mpr fun v h => ⟨I.array_iff.mp hv v h, rfl⟩)
    | hash t => exact .hash (List.forall₂_same.mpr fun e h => ⟨rfl, I.of_entry hv e h, rfl⟩)
  atom h := ⟨I.atom h, rfl⟩
  array h := by
    obtain ⟨hvs, hsame⟩ := (List.forall₂_and_left _ _).mp h
    rw [List.forall₂_eq_eq_eq] at hsame
    exact ⟨I.array_iff.mpr hvs, congrArg Value.array hsame⟩
  hash_nil n := ⟨I.hash_nil n, rfl⟩
  insert := by
    rintro n t _ v _ k ⟨ht, ⟨⟩⟩ ⟨hv, rfl⟩
    exact ⟨I.insert k ht hv, rfl⟩
  params_eq := by
    rintro n f _ ⟨-, ⟨⟩⟩
    exact (Renaming.map_refl f.params).symm
  body_eq := by
    rintro n f _ ⟨-, ⟨⟩⟩
    exact (Stmt.renameAll_refl f.body).symm
  scope_eq := by
    rintro n f _ ⟨-, ⟨⟩⟩
    rfl
  scope_mono := I.scope_mono
  size_eq := by
    rintro st _ ⟨-, rfl⟩
    rfl
  get? := by
    rintro st _ s ⟨hst, rfl⟩ _ x
    show Option.Rel _ (st.get? s x) (st.get? s x)
    cases hv : st.get? s x with
    | none => exact .none
    | some v => exact .some ⟨I.get? hst hv, rfl⟩
  define := by
    rintro st _ s v _ ⟨hst, rfl⟩ hs x ⟨hv, rfl⟩
    show Correspondence.Results _ _ _ (st.define s x v) (st.define s x v)
    cases hdefine : st.define s x v with
    | ok st' => exact .ok ⟨I.define hst hs hv hdefine, rfl⟩
    | error e =>
        obtain rfl := Store.define_error_eq hdefine
        exact .error (.alreadyDefined x)
  enclose := by
    rintro st _ f _ ⟨hst, rfl⟩ ⟨hf, -⟩
    obtain ⟨hscope, hnew⟩ := I.enclose hst hf
    exact ⟨hscope, hnew, rfl⟩
  newClosure := by
    rintro st _ s ⟨hst, rfl⟩ hs params body
    rw [Renaming.map_refl, Stmt.renameAll_refl]
    obtain ⟨hvalue, hnew⟩ := I.newClosure hst hs params body
    exact ⟨⟨hvalue, rfl⟩, hnew, rfl⟩
  print := by
    rintro st _ v _ ⟨hst, rfl⟩ ⟨-, rfl⟩
    exact ⟨I.print v hst, rfl⟩

/-- A condition on stores, which may be kept only if names are bound in some of the scopes. -/
def ofStores (store : Store → Prop) (scope : ScopeId → Prop)
    (define : ∀ {st st' : Store} {s : ScopeId} {x : String} {v : Value}, store st → scope s →
      st.define s x v = .ok st' → store st')
    (enclose : ∀ {st : Store} (s : ScopeId), store st →
      scope st.scopes.size ∧ store (st.newScope (some s)).2)
    (newClosure : ∀ {st : Store} (params : List String) (body : Block) (s : ScopeId),
      store st → store (st.newClosure params body s).2)
    (print : ∀ {st : Store} (v : Value), store st → store (st.print v)) : Invariant where
  value _ _ := True
  scope _ := scope
  store := store
  mono _ _ := trivial
  atom _ := trivial
  array_iff := ⟨fun _ _ _ => trivial, fun _ => trivial⟩
  of_entry _ _ _ := trivial
  hash_nil _ := trivial
  insert _ _ _ := trivial
  scope_mono h _ := h
  get? _ _ := trivial
  define hst hs _ hdefine := define hst hs hdefine
  enclose {_ f} hst _ := enclose f.scope hst
  newClosure hst _ params body := ⟨trivial, newClosure params body _ hst⟩
  print := print

/-! ### What holds after evaluations -/

variable (I : Invariant) {st st' : Store} {s : ScopeId}

theorem eval (order : HashOrder) (depth : Nat) (hst : I.store st)
    (hs : I.scope st.scopes.size s) (node : Fragment) :
    (I.simulation order order).Ends st.scopes.size (I.simulation order order).value
      (node.eval (Eval.caller order depth) s st) (node.eval (Eval.caller order depth) s st) :=
  (I.simulation order order).eval_of_refl rfl depth hs node st st ⟨hst, rfl⟩ (Nat.le_refl _)

theorem store_after (order : HashOrder) (depth : Nat) (hst : I.store st)
    (hs : I.scope st.scopes.size s) (node : Fragment) :
    I.store ((node.eval (Eval.caller order depth) s).after st) := by
  have hends := I.eval order depth hst hs node
  unfold Eval.after
  generalize node.eval (Eval.caller order depth) s st = e at hends ⊢
  cases hends with
  | ok hst' _ _ => exact hst'.1
  | error hst' _ _ => exact hst'.1

theorem of_eval_eq_ok {order : HashOrder} {depth : Nat} {node : Fragment} {v : Value}
    (hst : I.store st) (hs : I.scope st.scopes.size s)
    (h : node.eval (Eval.caller order depth) s st = .ok v st') :
    I.store st' ∧ st.scopes.size ≤ st'.scopes.size ∧ I.value st'.scopes.size v := by
  have hends := I.eval order depth hst hs node
  rw [h] at hends
  cases hends with
  | ok hst' hle hv => exact ⟨hst'.1, hle, hv.1⟩

theorem run (settings : Settings) (hst : I.store st) (hs : I.scope st.scopes.size s)
    (p : Program) :
    let final := Program.run settings s p st
    I.store final.2 ∧ st.scopes.size ≤ final.2.scopes.size ∧
      ∀ v, final.1 = .value v → I.value final.2.scopes.size v := by
  obtain ⟨hst', hle, hends⟩ := (I.simulation settings.order settings.order).run_of_refl rfl
    settings.callDepth ⟨hst, rfl⟩ hs p
  refine ⟨hst'.1, hle, fun v hv => ?_⟩
  change Correspondence.Outcomes _ _ (Program.run settings s p st).1
    (Program.run settings s p st).1 at hends
  rw [hv] at hends
  cases hends with
  | value hvalue => exact hvalue.1

end Invariant

end ScriptLang
