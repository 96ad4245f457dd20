import ScriptLang.Expr.Basic
import ScriptLang.Text.Basic

/-!
The canonical text of a program. Unary and binary operations and indexing stand
in parentheses, so the text shows how they are grouped; every statement ends in a
semicolon, and each statement of a program has its own line.
-/

namespace ScriptLang

def braced (statements : String) : String :=
  "\x7b " ++ statements ++ "\x7d"

def truthText (b : Bool) : String :=
  if b then "true" else "false"

mutual

/-- The canonical text of an expression. -/
def Expr.print : Expr → String
  | .name x => x
  | .int n => Text.decimal n.toInt
  | .str s => Text.stringLiteral s
  | .bool b => truthText b
  | .unary op e => "(" ++ op.text ++ e.print ++ ")"
  | .binary op l r => "(" ++ l.print ++ " " ++ op.text ++ " " ++ r.print ++ ")"
  | .cond c t none => "if " ++ c.print ++ " " ++ braced (Stmt.printAll t)
  | .cond c t (some e) =>
    "if " ++ c.print ++ " " ++ braced (Stmt.printAll t) ++ " else "
      ++ braced (Stmt.printAll e)
  | .func ps b => "func(" ++ Text.separated ", " ps ++ ") " ++ braced (Stmt.printAll b)
  | .call f es => f.print ++ "(" ++ Text.separated ", " (Expr.printEach es) ++ ")"
  | .array es => "[" ++ Text.separated ", " (Expr.printEach es) ++ "]"
  | .index c i => "(" ++ c.print ++ "[" ++ i.print ++ "])"
  | .hash ps => "\x7b" ++ Text.separated ", " (Expr.printPairs ps) ++ "\x7d"

def Expr.printEach : List Expr → List String
  | [] => []
  | e :: es => e.print :: Expr.printEach es

def Expr.printPairs : List (Expr × Expr) → List String
  | [] => []
  | (k, v) :: ps => (k.print ++ ": " ++ v.print) :: Expr.printPairs ps

def Stmt.print : Stmt → String
  | .var x e => "var " ++ x ++ " = " ++ e.print ++ ";"
  | .ret e => "return " ++ e.print ++ ";"
  | .expr e => e.print ++ ";"

/-- The statements of a block, each followed by a space. -/
def Stmt.printAll : List Stmt → String
  | [] => ""
  | s :: ss => s.print ++ " " ++ Stmt.printAll ss

end

def Block.print (b : Block) : String :=
  braced (Stmt.printAll b)

def Program.print (p : Program) : String :=
  Text.separated "\n" (p.map Stmt.print)

theorem Expr.printEach_eq_map (es : List Expr) : Expr.printEach es = es.map Expr.print := by
  induction es with
  | nil => rfl
  | cons e es ih => rw [Expr.printEach, ih, List.map_cons]

theorem Expr.printPairs_eq_map (ps : List (Expr × Expr)) :
    Expr.printPairs ps = ps.map fun (k, v) => k.print ++ ": " ++ v.print := by
  induction ps with
  | nil => rfl
  | cons p ps ih => rw [Expr.printPairs, ih, List.map_cons]

end ScriptLang
