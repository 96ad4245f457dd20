/-!
Programs. A program is a list of statements; a block, the body of a branch or of
a function, is one too. Expressions and statements contain each other, because a
function is an expression.

Two trees are compared piece by piece (`Expr.same` and its companions), and
`Expr.same_iff` says that this decides equality.
-/

namespace ScriptLang

inductive UnaryOp
  | not
  | minus
  | plus
  deriving DecidableEq

inductive BinaryOp
  | plus
  | minus
  | times
  | divide
  | less
  | greater
  | lessEqual
  | greaterEqual
  | equal
  | notEqual
  | and
  | or
  deriving DecidableEq

def UnaryOp.text : UnaryOp → String
  | .not => "!"
  | .minus => "-"
  | .plus => "+"

def BinaryOp.text : BinaryOp → String
  | .plus => "+"
  | .minus => "-"
  | .times => "*"
  | .divide => "/"
  | .less => "<"
  | .greater => ">"
  | .lessEqual => "<="
  | .greaterEqual => ">="
  | .equal => "=="
  | .notEqual => "!="
  | .and => "&&"
  | .or => "||"

mutual

inductive Expr
  | name (x : String)
  | int (n : Int64)
  | str (s : String)
  | bool (b : Bool)
  | unary (op : UnaryOp) (operand : Expr)
  | binary (op : BinaryOp) (left right : Expr)
  /-- A conditional; the block after `else` may be missing. -/
  | cond (condition : Expr) (consequence : List Stmt) (alternative : Option (List Stmt))
  | func (params : List String) (body : List Stmt)
  | call (callee : Expr) (arguments : List Expr)
  | array (items : List Expr)
  | index (collection index : Expr)
  /-- Keys and values in the order in which they are written. -/
  | hash (pairs : List (Expr × Expr))

inductive Stmt
  /-- Gives a name its value, once and for all in its scope. -/
  | var (x : String) (value : Expr)
  /-- Ends the function call, or the program, with a value. -/
  | ret (value : Expr)
  | expr (e : Expr)

end

instance : Inhabited Expr := ⟨.bool false⟩

instance : Inhabited Stmt := ⟨.expr default⟩

abbrev Block := List Stmt

abbrev Program := List Stmt

/-! ### Equality of trees -/

mutual

/-- Whether two expressions are the same tree. -/
def Expr.same : Expr → Expr → Bool
  | .name x, .name y => x = y
  | .int m, .int n => m = n
  | .str s, .str t => s = t
  | .bool a, .bool b => a = b
  | .unary o e, .unary o' e' => o = o' && e.same e'
  | .binary o l r, .binary o' l' r' => o = o' && (l.same l' && r.same r')
  | .cond c t none, .cond c' t' none => c.same c' && Stmt.sameAll t t'
  | .cond c t (some e), .cond c' t' (some e') =>
    c.same c' && (Stmt.sameAll t t' && Stmt.sameAll e e')
  | .func ps b, .func ps' b' => ps = ps' && Stmt.sameAll b b'
  | .call f es, .call f' es' => f.same f' && Expr.sameAll es es'
  | .array es, .array es' => Expr.sameAll es es'
  | .index c i, .index c' i' => c.same c' && i.same i'
  | .hash ps, .hash ps' => Expr.samePairs ps ps'
  | _, _ => false

def Expr.sameAll : List Expr → List Expr → Bool
  | [], [] => true
  | e :: es, e' :: es' => e.same e' && Expr.sameAll es es'
  | _, _ => false

def Expr.samePairs : List (Expr × Expr) → List (Expr × Expr) → Bool
  | [], [] => true
  | (k, v) :: ps, (k', v') :: ps' => k.same k' && (v.same v' && Expr.samePairs ps ps')
  | _, _ => false

def Stmt.same : Stmt → Stmt → Bool
  | .var x e, .var x' e' => x = x' && e.same e'
  | .ret e, .ret e' => e.same e'
  | .expr e, .expr e' => e.same e'
  | _, _ => false

def Stmt.sameAll : List Stmt → List Stmt → Bool
  | [], [] => true
  | s :: ss, s' :: ss' => s.same s' && Stmt.sameAll ss ss'
  | _, _ => false

end

mutual

/-- Comparing piece by piece decides equality. -/
theorem Expr.same_iff : ∀ a b : Expr, a.same b = true ↔ a = b
  | .name _, b => by cases b <;> simp [Expr.same]
  | .int _, b => by cases b <;> simp [Expr.same]
  | .str _, b => by cases b <;> simp [Expr.same]
  | .bool _, b => by cases b <;> simp [Expr.same]
  | .unary _ e, b => by cases b <;> simp [Expr.same, Expr.same_iff e]
  | .binary _ l r, b => by cases b <;> simp [Expr.same, Expr.same_iff l, Expr.same_iff r]
  | .cond c t none, b => by
    cases b with
    | cond _ _ e' => cases e' <;> simp [Expr.same, Expr.same_iff c, Stmt.sameAll_iff t]
    | _ => simp [Expr.same]
  | .cond c t (some e), b => by
    cases b with
    | cond _ _ e' =>
      cases e' <;>
        simp [Expr.same, Expr.same_iff c, Stmt.sameAll_iff t, Stmt.sameAll_iff e]
    | _ => simp [Expr.same]
  | .func _ b, b' => by cases b' <;> simp [Expr.same, Stmt.sameAll_iff b]
  | .call f es, b => by cases b <;> simp [Expr.same, Expr.same_iff f, Expr.sameAll_iff es]
  | .array es, b => by cases b <;> simp [Expr.same, Expr.sameAll_iff es]
  | .index c i, b => by cases b <;> simp [Expr.same, Expr.same_iff c, Expr.same_iff i]
  | .hash ps, b => by cases b <;> simp [Expr.same, Expr.samePairs_iff ps]

theorem Expr.sameAll_iff : ∀ as bs : List Expr, Expr.sameAll as bs = true ↔ as = bs
  | [], bs => by cases bs <;> simp [Expr.sameAll]
  | e :: es, bs => by
    cases bs <;> simp [Expr.sameAll, Expr.same_iff e, Expr.sameAll_iff es]

theorem Expr.samePairs_iff :
    ∀ ps qs : List (Expr × Expr), Expr.samePairs ps qs = true ↔ ps = qs
  | [], qs => by cases qs <;> simp [Expr.samePairs]
  | (k, v) :: ps, [] => by simp [Expr.samePairs]
  | (k, v) :: ps, (k', v') :: qs => by
    simp [Expr.samePairs, Expr.same_iff k, Expr.same_iff v, Expr.samePairs_iff ps, and_assoc]

theorem Stmt.same_iff : ∀ a b : Stmt, a.same b = true ↔ a = b
  | .var _ e, b => by cases b <;> simp [Stmt.same, Expr.same_iff e]
  | .ret e, b => by cases b <;> simp [Stmt.same, Expr.same_iff e]
  | .expr e, b => by cases b <;> simp [Stmt.same, Expr.same_iff e]

theorem Stmt.sameAll_iff : ∀ as bs : List Stmt, Stmt.sameAll as bs = true ↔ as = bs
  | [], bs => by cases bs <;> simp [Stmt.sameAll]
  | s :: ss, bs => by
    cases bs <;> simp [Stmt.sameAll, Stmt.same_iff s, Stmt.sameAll_iff ss]

end

instance : DecidableEq Expr := fun a b =>
  decidable_of_iff (a.same b = true) (Expr.same_iff a b)

instance : DecidableEq Stmt := fun a b =>
  decidable_of_iff (a.same b = true) (Stmt.same_iff a b)

end ScriptLang
