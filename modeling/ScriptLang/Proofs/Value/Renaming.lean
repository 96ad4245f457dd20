import Mathlib.Logic.Equiv.Basic
import ScriptLang.Eval.Builtin
import ScriptLang.Eval.Operator

/-!
Renaming. The names in a program are renamed wherever they stand: where they are used,
where they are declared and where they are parameters. In a value they stand in the
functions, which keep their parameters and their bodies.

Errors may have names in them, too: the name that an error is about, and those in the
texts of the functions that it shows. `RuntimeError.Renamed` relates errors that are the
same up to this.
-/

namespace ScriptLang

/-- A way to rename that keeps different names apart and keeps the names of the
builtins. -/
structure Renaming where
  apply : String → String
  injective : Function.Injective apply
  builtin : ∀ b : Builtin, apply b.name = b.name

instance : CoeFun Renaming fun _ => String → String := ⟨Renaming.apply⟩

def Renaming.refl : Renaming where
  apply := id
  injective := Function.injective_id
  builtin _ := rfl

/-- Exchanges two names that are no names of builtins. -/
def Renaming.exchange (x y : String) (hx : Builtin.named? x = none)
    (hy : Builtin.named? y = none) : Renaming where
  apply := Equiv.swap x y
  injective := (Equiv.swap x y).injective
  builtin b := by
    have hne {z : String} (hz : Builtin.named? z = none) : b.name ≠ z := by
      rintro rfl
      cases b <;> cases hz
    exact Equiv.swap_apply_of_ne_of_ne (hne hx) (hne hy)

/-! ### Programs and values -/

mutual

def Expr.rename (r : Renaming) : Expr → Expr
  | .name x => .name (r x)
  | .int n => .int n
  | .str t => .str t
  | .bool b => .bool b
  | .unary op e => .unary op (e.rename r)
  | .binary op l e => .binary op (l.rename r) (e.rename r)
  | .cond e t none => .cond (e.rename r) (Stmt.renameAll r t) none
  | .cond e t (some b) => .cond (e.rename r) (Stmt.renameAll r t) (some (Stmt.renameAll r b))
  | .func xs b => .func (xs.map r) (Stmt.renameAll r b)
  | .call e es => .call (e.rename r) (Expr.renameEach r es)
  | .array es => .array (Expr.renameEach r es)
  | .index e i => .index (e.rename r) (i.rename r)
  | .hash ps => .hash (Expr.renamePairs r ps)

def Expr.renameEach (r : Renaming) : List Expr → List Expr
  | [] => []
  | e :: es => e.rename r :: Expr.renameEach r es

def Expr.renamePairs (r : Renaming) : List (Expr × Expr) → List (Expr × Expr)
  | [] => []
  | (k, e) :: ps => (k.rename r, e.rename r) :: Expr.renamePairs r ps

def Stmt.rename (r : Renaming) : Stmt → Stmt
  | .var x e => .var (r x) (e.rename r)
  | .ret e => .ret (e.rename r)
  | .expr e => .expr (e.rename r)

def Stmt.renameAll (r : Renaming) : List Stmt → List Stmt
  | [] => []
  | a :: b => a.rename r :: Stmt.renameAll r b

end

/-- A closure with its parameters and the names in its body renamed. It is still the same
one. -/
def Closure.rename (r : Renaming) (f : Closure) : Closure :=
  { f with params := f.params.map r, body := Stmt.renameAll r f.body }

mutual

/-- A value with the names in its functions renamed. -/
def Value.rename (r : Renaming) : Value → Value
  | .int n => .int n
  | .str s => .str s
  | .bool b => .bool b
  | .null => .null
  | .func f => .func (f.rename r)
  | .builtin b => .builtin b
  | .array vs => .array (Value.renameItems r vs)
  | .hash es => .hash (Value.renameEntries r es)

def Value.renameItems (r : Renaming) : List Value → List Value
  | [] => []
  | v :: vs => v.rename r :: Value.renameItems r vs

def Value.renameEntries (r : Renaming) : List (Key × Value) → List (Key × Value)
  | [] => []
  | (k, v) :: es => (k, v.rename r) :: Value.renameEntries r es

end

/-! ### Errors -/

/-- Whether an error holds neither a name nor the text of a value that may have names in
it. -/
def RuntimeError.isNameless : RuntimeError → Bool
  | .unknownIdentifier _ | .alreadyDefined _ => false
  | .typeMismatch .. | .unknownUnaryOperator .. | .unknownBinaryOperator .. => false
  | .nonBooleanCondition .. | .notCallable .. => false
  | _ => true

/-- Errors that differ by a renaming. The name that an error is about is renamed, and
where it shows values, the other error shows the renamed values; all else is the same. -/
inductive RuntimeError.Renamed (r : Renaming) (order : HashOrder) :
    RuntimeError → RuntimeError → Prop
  | same {e : RuntimeError} : e.isNameless = true → Renamed r order e e
  | unknownIdentifier (x : String) :
      Renamed r order (.unknownIdentifier x) (.unknownIdentifier (r x))
  | alreadyDefined (x : String) :
      Renamed r order (.alreadyDefined x) (.alreadyDefined (r x))
  | typeMismatch (v : Value) (op : BinaryOp) (w : Value) :
      Renamed r order
        (.typeMismatch (v.display (order.inside .left)) op (w.display (order.inside .right))
          v.type w.type)
        (.typeMismatch ((v.rename r).display (order.inside .left)) op
          ((w.rename r).display (order.inside .right)) v.type w.type)
  | unknownUnaryOperator (op : UnaryOp) (v : Value) :
      Renamed r order (.unknownUnaryOperator op (v.display order) v.type)
        (.unknownUnaryOperator op ((v.rename r).display order) v.type)
  | unknownBinaryOperator (v : Value) (op : BinaryOp) (w : Value) :
      Renamed r order
        (.unknownBinaryOperator (v.display (order.inside .left)) op
          (w.display (order.inside .right)) v.type)
        (.unknownBinaryOperator ((v.rename r).display (order.inside .left)) op
          ((w.rename r).display (order.inside .right)) v.type)
  | nonBooleanCondition (v : Value) :
      Renamed r order (.nonBooleanCondition (v.display order) v.type)
        (.nonBooleanCondition ((v.rename r).display order) v.type)
  | notCallable (v : Value) :
      Renamed r order (.notCallable (v.display order) v.type)
        (.notCallable ((v.rename r).display order) v.type)

/-! ### Keeping all names -/

theorem Renaming.map_refl (xs : List String) : xs.map Renaming.refl = xs := List.map_id xs

mutual

theorem Expr.rename_refl : ∀ e : Expr, e.rename .refl = e
  | .name _ | .int _ | .str _ | .bool _ => rfl
  | .unary _ e => by rw [Expr.rename, e.rename_refl]
  | .binary _ l e => by rw [Expr.rename, l.rename_refl, e.rename_refl]
  | .cond e t none => by rw [Expr.rename, e.rename_refl, Stmt.renameAll_refl t]
  | .cond e t (some b) => by
    rw [Expr.rename, e.rename_refl, Stmt.renameAll_refl t, Stmt.renameAll_refl b]
  | .func xs b => by rw [Expr.rename, Renaming.map_refl, Stmt.renameAll_refl b]
  | .call e es => by rw [Expr.rename, e.rename_refl, Expr.renameEach_refl es]
  | .array es => by rw [Expr.rename, Expr.renameEach_refl es]
  | .index e i => by rw [Expr.rename, e.rename_refl, i.rename_refl]
  | .hash ps => by rw [Expr.rename, Expr.renamePairs_refl ps]

theorem Expr.renameEach_refl : ∀ es : List Expr, Expr.renameEach .refl es = es
  | [] => rfl
  | e :: es => by rw [Expr.renameEach, e.rename_refl, Expr.renameEach_refl es]

theorem Expr.renamePairs_refl : ∀ ps : List (Expr × Expr), Expr.renamePairs .refl ps = ps
  | [] => rfl
  | (k, e) :: ps => by
    rw [Expr.renamePairs, k.rename_refl, e.rename_refl, Expr.renamePairs_refl ps]

theorem Stmt.rename_refl : ∀ a : Stmt, a.rename .refl = a
  | .var _ e => by
    rw [Stmt.rename, e.rename_refl]
    rfl
  | .ret e => by rw [Stmt.rename, e.rename_refl]
  | .expr e => by rw [Stmt.rename, e.rename_refl]

theorem Stmt.renameAll_refl : ∀ b : Block, Stmt.renameAll .refl b = b
  | [] => rfl
  | a :: b => by rw [Stmt.renameAll, a.rename_refl, Stmt.renameAll_refl b]

end

/-! ### Parts of values -/

theorem Expr.renameEach_eq_map (r : Renaming) (es : List Expr) :
    Expr.renameEach r es = es.map (Expr.rename r) := by
  induction es with
  | nil => rfl
  | cons e es ih => rw [Expr.renameEach, ih, List.map_cons]

namespace Value

theorem renameItems_eq_map (r : Renaming) (vs : List Value) :
    renameItems r vs = vs.map (Value.rename r) := by
  induction vs with
  | nil => rfl
  | cons v vs ih => rw [renameItems, ih, List.map_cons]

theorem renameEntries_eq_map (r : Renaming) (es : List (Key × Value)) :
    renameEntries r es = es.map (Prod.map id (Value.rename r)) := by
  induction es with
  | nil => rfl
  | cons e es ih => rw [renameEntries, ih, List.map_cons]; rfl

/-- There are no names in a value that can be a key. -/
theorem rename_of_asKey {v : Value} {k : Key} (h : v.asKey = .ok k) : v.rename r = v := by
  cases v <;> first | rfl | cases h

theorem renameEntries_insert (r : Renaming) (k : Key) (v : Value) (t : Table Value) :
    renameEntries r (t.insert k v) = Table.insert k (v.rename r) (renameEntries r t) := by
  simp only [renameEntries_eq_map, Table.insert, Table.erase, List.map_append, List.filter_map]
  rfl

end Value

/-- The names of the builtins are kept, and no other name becomes one of them. -/
theorem Builtin.named?_rename (r : Renaming) (x : String) :
    Builtin.named? (r x) = Builtin.named? x := by
  unfold Builtin.named?
  congr 1
  funext b
  refine decide_eq_decide.mpr ⟨fun h => ?_, fun h => ?_⟩
  · exact r.injective ((r.builtin b).trans h)
  · rw [← h, r.builtin]

end ScriptLang
