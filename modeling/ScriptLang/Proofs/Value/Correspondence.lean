import Mathlib.Data.List.Forall2
import ScriptLang.Proofs.Value.Renaming

/-!
Values of two runs that correspond. Operators, indexing and builtins look at the outermost
layer of the values that they are given, and only hand on what is inside. So they do the
same with values that have the same outermost layer and corresponding parts: the results
correspond, or they fail with errors that are the same up to the texts of such values.

Which values correspond is the matter of a `Correspondence`. It has to relate values with
the same outermost layer, and the values that are made of corresponding ones. The second
run may have other names for things and another order in which hashes list their entries.
-/

namespace ScriptLang

namespace Value

/-- Whether a value has no parts. -/
def isAtom : Value → Bool
  | .func _ | .array _ | .hash _ => false
  | _ => true

/-- Two values have the same outermost layer, and the parts of arrays and hashes are
related. -/
inductive Layer (R : Value → Value → Prop) : Value → Value → Prop
  | int (n : Int64) : Layer R (.int n) (.int n)
  | str (s : String) : Layer R (.str s) (.str s)
  | bool (b : Bool) : Layer R (.bool b) (.bool b)
  | null : Layer R .null .null
  | func (f g : Closure) : Layer R (.func f) (.func g)
  | builtin (b : Builtin) : Layer R (.builtin b) (.builtin b)
  | array {vs ws : List Value} : List.Forall₂ R vs ws → Layer R (.array vs) (.array ws)
  | hash {t t' : Table Value} :
      List.Forall₂ (fun e e' => e.1 = e'.1 ∧ R e.2 e'.2) t t' → Layer R (.hash t) (.hash t')

end Value

/-- Values of two runs that are taken for the same. They may be taken for the same only
where there are so many scopes. -/
structure Correspondence where
  order : HashOrder
  order' : HashOrder
  /-- What the names of the first run are in the second one. -/
  rename : Renaming
  value : Nat → Value → Value → Prop
  mono : ∀ {n m : Nat} {v w : Value}, value n v w → n ≤ m → value m v w
  layer : ∀ {n : Nat} {v w : Value}, value n v w → v.Layer (value n) w
  atom : ∀ {n : Nat} {v : Value}, v.isAtom = true → value n v v
  array : ∀ {n : Nat} {vs ws : List Value},
    List.Forall₂ (value n) vs ws → value n (.array vs) (.array ws)
  hash_nil : ∀ n, value n (.hash []) (.hash [])
  insert : ∀ {n : Nat} {t t' : Table Value} {v w : Value} (k : Key),
    value n (.hash t) (.hash t') → value n v w →
      value n (.hash (t.insert k v)) (.hash (t'.insert k w))
  params_eq : ∀ {n : Nat} {f g : Closure},
    value n (.func f) (.func g) → g.params = f.params.map rename
  body_eq : ∀ {n : Nat} {f g : Closure},
    value n (.func f) (.func g) → g.body = Stmt.renameAll rename f.body
  scope_eq : ∀ {n : Nat} {f g : Closure}, value n (.func f) (.func g) → g.scope = f.scope

namespace Correspondence

/-- Errors of the same kind. The name that an error is about has become the renamed one,
and in the place of values that the one shows, the other one shows corresponding values;
all else is the same. -/
inductive Errors (C : Correspondence) (n : Nat) : RuntimeError → RuntimeError → Prop
  | same {e : RuntimeError} : e.isNameless = true → Errors C n e e
  | unknownIdentifier (x : String) :
      Errors C n (.unknownIdentifier x) (.unknownIdentifier (C.rename x))
  | alreadyDefined (x : String) : Errors C n (.alreadyDefined x) (.alreadyDefined (C.rename x))
  | typeMismatch {v w v' w' : Value} (op : BinaryOp) : C.value n v w → C.value n v' w' →
      Errors C n
        (.typeMismatch (v.display (C.order.inside .left)) op
          (v'.display (C.order.inside .right)) v.type v'.type)
        (.typeMismatch (w.display (C.order'.inside .left)) op
          (w'.display (C.order'.inside .right)) v.type v'.type)
  | unknownUnaryOperator {v w : Value} (op : UnaryOp) : C.value n v w →
      Errors C n (.unknownUnaryOperator op (v.display C.order) v.type)
        (.unknownUnaryOperator op (w.display C.order') v.type)
  | unknownBinaryOperator {v w v' w' : Value} (op : BinaryOp) :
      C.value n v w → C.value n v' w' →
      Errors C n
        (.unknownBinaryOperator (v.display (C.order.inside .left)) op
          (v'.display (C.order.inside .right)) v.type)
        (.unknownBinaryOperator (w.display (C.order'.inside .left)) op
          (w'.display (C.order'.inside .right)) v.type)
  | nonBooleanCondition {v w : Value} : C.value n v w →
      Errors C n (.nonBooleanCondition (v.display C.order) v.type)
        (.nonBooleanCondition (w.display C.order') v.type)
  | notCallable {v w : Value} : C.value n v w →
      Errors C n (.notCallable (v.display C.order) v.type)
        (.notCallable (w.display C.order') v.type)
  | missingKey {v w : Value} {k : Key} : C.value n v w → v.asKey = .ok k →
      Errors C n (.missingKey (v.display C.order)) (.missingKey (w.display C.order'))

inductive Results {α : Type} (C : Correspondence) (n : Nat) (R : α → α → Prop) :
    Except RuntimeError α → Except RuntimeError α → Prop
  | ok {a b : α} : R a b → Results C n R (.ok a) (.ok b)
  | error {e e' : RuntimeError} : C.Errors n e e' → Results C n R (.error e) (.error e')

section

variable {α β : Type} {C : Correspondence} {n m : Nat} {R : α → α → Prop} {S : β → β → Prop}

theorem Errors.mono {e e' : RuntimeError} (h : C.Errors n e e') (hle : n ≤ m) :
    C.Errors m e e' := by
  cases h with
  | same he => exact .same he
  | unknownIdentifier x => exact .unknownIdentifier x
  | alreadyDefined x => exact .alreadyDefined x
  | typeMismatch op h h' => exact .typeMismatch op (C.mono h hle) (C.mono h' hle)
  | unknownUnaryOperator op h => exact .unknownUnaryOperator op (C.mono h hle)
  | unknownBinaryOperator op h h' => exact .unknownBinaryOperator op (C.mono h hle) (C.mono h' hle)
  | nonBooleanCondition h => exact .nonBooleanCondition (C.mono h hle)
  | notCallable h => exact .notCallable (C.mono h hle)
  | missingKey h hk => exact .missingKey (C.mono h hle) hk

theorem Results.bind {x x' : Except RuntimeError α} {f f' : α → Except RuntimeError β}
    (h : C.Results n R x x') (hf : ∀ a b, R a b → C.Results n S (f a) (f' b)) :
    C.Results n S (x >>= f) (x' >>= f') := by
  cases h with
  | ok hab => exact hf _ _ hab
  | error he => exact .error he

/-- An error that neither is about a name nor shows a value with parts stays as it is. -/
theorem Results.nameless {e : RuntimeError} (he : e.isNameless = true) :
    C.Results n R (.error e) (.error e) :=
  .error (.same he)

end

/-! ### Parts of values -/

section

variable {α : Type} {R : α → α → Prop}

theorem getElem?_of_forall₂ {as bs : List α} (h : List.Forall₂ R as bs) (i : Nat) :
    Option.Rel R as[i]? bs[i]? := by
  induction h generalizing i with
  | nil => exact .none
  | cons hab _ ih =>
      cases i with
      | zero => exact .some hab
      | succ i => exact ih i

theorem getLast?_of_forall₂ {as bs : List α} (h : List.Forall₂ R as bs) :
    Option.Rel R as.getLast? bs.getLast? := by
  rw [List.getLast?_eq_getElem?, List.getLast?_eq_getElem?, h.length_eq]
  exact getElem?_of_forall₂ h _

theorem find?_of_forall₂ {t t' : Table α}
    (h : List.Forall₂ (fun e e' => e.1 = e'.1 ∧ R e.2 e'.2) t t') (k : HashKey) :
    Option.Rel (fun e e' => e.1 = e'.1 ∧ R e.2 e'.2) (t.find? k) (t'.find? k) := by
  induction h with
  | nil => exact .none
  | @cons e e' t t' he ht ih =>
      unfold Table.find? at *
      rw [List.find?_cons, List.find?_cons, ← he.1]
      cases decide (e.1.hashKey = k) with
      | true => exact .some he
      | false => exact ih

end

variable {C : Correspondence} {n : Nat} {v w v' w' : Value} {vs ws : List Value}

theorem type_eq (h : C.value n v w) : w.type = v.type := by
  cases C.layer h <;> rfl

theorem asKey_eq (h : C.value n v w) : w.asKey = v.asKey := by
  cases C.layer h <;> rfl

theorem results_asKey (h : C.value n v w) : C.Results n Eq v.asKey w.asKey := by
  rw [asKey_eq h]
  unfold Value.asKey
  cases v.key? with
  | some k => exact .ok rfl
  | none => exact .nameless rfl

/-! ### Operators and indexing -/

theorem results_exactly (text : String) (i : Int) :
    C.Results n (C.value n) (exactly text i) (exactly text i) := by
  unfold exactly
  split
  · exact .ok (C.atom rfl)
  · exact .nameless rfl

theorem results_applyUnary (op : UnaryOp) (h : C.value n v w) :
    C.Results n (C.value n) (op.apply C.order v) (op.apply C.order' w) := by
  have hundefined : C.Errors n (.unknownUnaryOperator op (v.display C.order) v.type)
      (.unknownUnaryOperator op (w.display C.order') w.type) := by
    rw [type_eq h]
    exact .unknownUnaryOperator op h
  cases C.layer h with
  | int i =>
      cases op with
      | not => exact .error hundefined
      | minus => exact results_exactly _ _
      | plus => exact .ok h
  | bool b =>
      cases op with
      | not => exact .ok (C.atom rfl)
      | minus | plus => exact .error hundefined
  | null =>
      cases op with
      | not => exact .ok (C.atom rfl)
      | minus | plus => exact .error hundefined
  | str | func | builtin | array | hash => cases op <;> exact .error hundefined

theorem errors_undefinedOn (op : BinaryOp) (h : C.value n v w) (h' : C.value n v' w') :
    C.Errors n (op.undefinedOn C.order v v') (op.undefinedOn C.order' w w') := by
  unfold BinaryOp.undefinedOn
  simp only [type_eq h, type_eq h']
  split
  · exact .unknownBinaryOperator op h h'
  · exact .typeMismatch op h h'

theorem results_onIntegers (op : BinaryOp) (i j : Int64) :
    C.Results n (C.value n) (op.apply C.order (.int i) (.int j))
      (op.apply C.order' (.int i) (.int j)) := by
  cases op with
  | plus | minus | times => exact results_exactly _ _
  | divide =>
      simp only [BinaryOp.apply, BinaryOp.onIntegers?]
      by_cases hj : j = 0
      · rw [if_pos hj]
        exact .nameless rfl
      · rw [if_neg hj]
        exact results_exactly _ _
  | less | greater | lessEqual | greaterEqual | equal | notEqual => exact .ok (C.atom rfl)
  | and | or => exact .error (errors_undefinedOn _ (C.atom rfl) (C.atom rfl))

theorem results_applyBinary (op : BinaryOp) (h : C.value n v w) (h' : C.value n v' w') :
    C.Results n (C.value n) (op.apply C.order v v') (op.apply C.order' w w') := by
  have hundefined := errors_undefinedOn op h h'
  cases C.layer h <;> cases C.layer h'
  case int.int i j => exact results_onIntegers op i j
  case bool.bool a b =>
    cases op with
    | and | or | equal | notEqual => exact .ok (C.atom rfl)
    | _ => exact .error hundefined
  case str.str a b =>
    simp only [BinaryOp.apply]
    split
    · exact .ok (C.atom rfl)
    · exact .error hundefined
  -- No operator is defined on any other two values.
  all_goals exact .error hundefined

theorem results_itemAt (h : List.Forall₂ (C.value n) vs ws) (i : Int64) :
    C.Results n (C.value n) (Value.itemAt vs i) (Value.itemAt ws i) := by
  unfold Value.itemAt
  rw [h.length_eq]
  split
  · exact .nameless rfl
  · have hitem := getElem?_of_forall₂ h i.toInt.toNat
    generalize vs[i.toInt.toNat]? = a at hitem
    generalize ws[i.toInt.toNat]? = b at hitem
    cases hitem with
    | some hab => exact .ok hab
    | none => exact .nameless rfl

theorem results_entryAt {t t' : Table Value}
    (h : List.Forall₂ (fun e e' => e.1 = e'.1 ∧ C.value n e.2 e'.2) t t')
    (h' : C.value n v w) :
    C.Results n (C.value n) (Value.entryAt C.order t v) (Value.entryAt C.order' t' w) := by
  unfold Value.entryAt
  have hkey := results_asKey h'
  rw [asKey_eq h'] at hkey ⊢
  cases hk : v.asKey with
  | error e =>
      rw [hk] at hkey
      cases hkey with
      | error he => exact .error he
  | ok k =>
      have hfound := find?_of_forall₂ h k.hashKey
      simp only [bind, Except.bind]
      generalize t.find? k.hashKey = e at hfound
      generalize t'.find? k.hashKey = e' at hfound
      cases hfound with
      | some hab => exact .ok hab.2
      | none => exact .error (.missingKey h' hk)

theorem results_atIndex (h : C.value n v w) (h' : C.value n v' w') :
    C.Results n (C.value n) (Value.atIndex C.order v v') (Value.atIndex C.order' w w') := by
  have htype := type_eq h'
  cases C.layer h with
  | array hs =>
      cases C.layer h' with
      | int i => exact results_itemAt hs i
      | _ =>
          simp only [Value.atIndex, htype]
          exact .nameless rfl
  | hash hs => exact results_entryAt hs h'
  | _ =>
      simp only [Value.atIndex, htype]
      exact .nameless rfl

/-! ### Builtins -/

theorem results_one (b : Builtin) (h : List.Forall₂ (C.value n) vs ws) :
    C.Results n (C.value n) (b.one vs) (b.one ws) := by
  have hlength := h.length_eq
  cases h with
  | nil => exact .nameless rfl
  | cons hv hs =>
      cases hs with
      | nil => exact .ok hv
      | cons _ _ =>
          simp only [Builtin.one, hlength]
          exact .nameless rfl

theorem results_two (b : Builtin) (h : List.Forall₂ (C.value n) vs ws) :
    C.Results n (fun p q => C.value n p.1 q.1 ∧ C.value n p.2 q.2) (b.two vs) (b.two ws) := by
  have hlength := h.length_eq
  cases h with
  | nil => exact .nameless rfl
  | cons hv hs =>
      cases hs with
      | nil => exact .nameless rfl
      | cons hw hs =>
          cases hs with
          | nil => exact .ok ⟨hv, hw⟩
          | cons _ _ =>
              simp only [Builtin.two, hlength]
              exact .nameless rfl

theorem results_itemsOf (b : Builtin) (h : C.value n v w) :
    C.Results n (List.Forall₂ (C.value n)) (b.itemsOf v) (b.itemsOf w) := by
  cases C.layer h with
  | array hs => exact .ok hs
  | _ => exact .nameless rfl

theorem results_length (h : List.Forall₂ (C.value n) vs ws) :
    C.Results n (C.value n) (Builtin.length vs) (Builtin.length ws) := by
  refine (results_one .len h).bind fun v w hv => ?_
  cases C.layer hv with
  | str s => exact .ok (C.atom rfl)
  | array hs | hash hs =>
      simp only [hs.length_eq]
      exact .ok (C.atom rfl)
  | _ => exact .nameless rfl

theorem results_firstItem (h : List.Forall₂ (C.value n) vs ws) :
    C.Results n (C.value n) (Builtin.firstItem vs) (Builtin.firstItem ws) := by
  refine (results_one .first h).bind fun v w hv => (results_itemsOf .first hv).bind ?_
  intro as bs hitems
  cases hitems with
  | nil => exact .ok (C.atom rfl)
  | cons hv _ => exact .ok hv

theorem results_lastItem (h : List.Forall₂ (C.value n) vs ws) :
    C.Results n (C.value n) (Builtin.lastItem vs) (Builtin.lastItem ws) := by
  refine (results_one .last h).bind fun v w hv => (results_itemsOf .last hv).bind ?_
  intro as bs hitems
  have hlast := getLast?_of_forall₂ hitems
  show C.Results n _ (.ok (as.getLast?.getD .null)) (.ok (bs.getLast?.getD .null))
  generalize as.getLast? = a at hlast ⊢
  generalize bs.getLast? = b at hlast ⊢
  cases hlast with
  | some hab => exact .ok hab
  | none => exact .ok (C.atom rfl)

theorem results_otherItems (h : List.Forall₂ (C.value n) vs ws) :
    C.Results n (C.value n) (Builtin.otherItems vs) (Builtin.otherItems ws) := by
  refine (results_one .rest h).bind fun v w hv => (results_itemsOf .rest hv).bind ?_
  intro as bs hitems
  cases hitems with
  | nil => exact .ok (C.atom rfl)
  | cons _ hs => exact .ok (C.array hs)

theorem results_withItem (h : List.Forall₂ (C.value n) vs ws) :
    C.Results n (C.value n) (Builtin.withItem vs) (Builtin.withItem ws) := by
  refine (results_two .push h).bind fun p q hpq => (results_itemsOf .push hpq.1).bind ?_
  intro as bs hitems
  exact .ok (C.array (List.rel_append hitems (.cons hpq.2 .nil)))

end Correspondence

end ScriptLang
