import ScriptLang.Proofs.Eval.Run

/-!
Integer expressions. A tree of integers, signs and operations has a value over unbounded
numbers, unless it divides by zero (`Arith.number?`). The program computes with 64 bits. It
gets the exact value if every node of the tree has one in range, and otherwise the error of
the first node in post-order that has none (`Arith.eval_cases`, by induction on the tree: an
operation is evaluated after all nodes of its left operand, and those before all nodes of its
right one). Neither depends on the scope, and the store stays as it is.
-/

namespace ScriptLang

/-! ### Trees and their exact values -/

inductive Sign
  | minus
  | plus

inductive ArithOp
  | plus
  | minus
  | times
  | divide

def Sign.op : Sign → UnaryOp
  | .minus => .minus
  | .plus => .plus

def ArithOp.op : ArithOp → BinaryOp
  | .plus => .plus
  | .minus => .minus
  | .times => .times
  | .divide => .divide

inductive Arith
  | int (n : Int64)
  | sign (g : Sign) (a : Arith)
  | operation (op : ArithOp) (l r : Arith)

def Sign.result : Sign → Int → Int
  | .minus, n => -n
  | .plus, n => n

/-- The result of an operation on two numbers. Division rounds toward zero and has none if
the divisor is zero. -/
def ArithOp.result? : ArithOp → Int → Int → Option Int
  | .plus, m, n => some (m + n)
  | .minus, m, n => some (m - n)
  | .times, m, n => some (m * n)
  | .divide, m, n => if n = 0 then none else some (m.tdiv n)

namespace Arith

def expr : Arith → Expr
  | .int n => .int n
  | .sign g a => .unary g.op a.expr
  | .operation op l r => .binary op.op l.expr r.expr

/-- The value of a tree over unbounded numbers, if nothing in it is divided by zero. -/
def number? : Arith → Option Int
  | .int n => some n.toInt
  | .sign g a => a.number?.map g.result
  | .operation op l r => l.number?.bind fun m => r.number?.bind fun n => op.result? m n

/-- The nodes of a tree, each after those below it and those to the left of it. -/
def nodes : Arith → List Arith
  | .int n => [.int n]
  | .sign g a => a.nodes ++ [.sign g a]
  | .operation op l r => l.nodes ++ (r.nodes ++ [.operation op l r])

/-- The exact value of a node is an integer of 64 bits. -/
def Sound (a : Arith) : Prop :=
  ∃ i : Int64, a.number? = some i.toInt

/-- What is wrong at a node whose operands have exact values in range. -/
inductive Fails : Arith → RuntimeError → Prop
  | divisionByZero {l r : Arith} {i : Int64} :
      l.number? = some i.toInt → r.number? = some 0 →
      Fails (.operation .divide l r) (.divisionByZero i)
  | operation {op : ArithOp} {l r : Arith} {i j : Int64} {n : Int} :
      l.number? = some i.toInt → r.number? = some j.toInt →
      op.result? i.toInt j.toInt = some n → (∀ k : Int64, k.toInt ≠ n) →
      Fails (.operation op l r) (.integerOverflow (operationText op.op i j))
  | sign {g : Sign} {a : Arith} {i : Int64} :
      a.number? = some i.toInt → (∀ k : Int64, k.toInt ≠ g.result i.toInt) →
      Fails (.sign g a) (.integerOverflow (g.op.text ++ Text.decimal i.toInt))

/-- All nodes before some node are sound, and this one fails. -/
def FirstFails (a : Arith) (e : RuntimeError) : Prop :=
  ∃ front b back, a.nodes = front ++ b :: back ∧ (∀ x ∈ front, x.Sound) ∧ b.Fails e

end Arith

inductive BinaryOp.Compares : BinaryOp → (Int → Int → Prop) → Prop
  | less : Compares .less (· < ·)
  | greater : Compares .greater (· > ·)
  | lessEqual : Compares .lessEqual (· ≤ ·)
  | greaterEqual : Compares .greaterEqual (· ≥ ·)
  | equal : Compares .equal (· = ·)
  | notEqual : Compares .notEqual (· ≠ ·)

/-! ### Single operators -/

theorem exactly_toInt (text : String) (i : Int64) : exactly text i.toInt = .ok (.int i) := by
  rw [exactly, integer?_eq_some_iff.mpr rfl]

theorem exactly_of_none {n : Int} (h : ∀ i : Int64, i.toInt ≠ n) (text : String) :
    exactly text n = .error (.integerOverflow text) := by
  rw [exactly, integer?_eq_none_iff.mpr h]

theorem Sign.apply_int (g : Sign) (order : HashOrder) (i : Int64) :
    g.op.apply order (.int i) =
      exactly (g.op.text ++ Text.decimal i.toInt) (g.result i.toInt) := by
  cases g with
  | minus => rfl
  | plus => exact (exactly_toInt _ i).symm

theorem ArithOp.result?_eq_none_iff {op : ArithOp} {m n : Int} :
    op.result? m n = none ↔ op = .divide ∧ n = 0 := by
  cases op <;> simp [ArithOp.result?]

theorem ArithOp.apply_int {op : ArithOp} {i j : Int64} {n : Int}
    (h : op.result? i.toInt j.toInt = some n) (order : HashOrder) :
    op.op.apply order (.int i) (.int j) = exactly (operationText op.op i j) n := by
  cases op with
  | plus | minus | times =>
      cases h
      rfl
  | divide =>
      have hj : ¬ j.toInt = 0 := fun h0 => by simp [ArithOp.result?, h0] at h
      have hj' : ¬ j = 0 := fun h0 => hj (h0 ▸ Int64.toInt_zero)
      rw [ArithOp.result?, if_neg hj] at h
      cases h
      simp only [ArithOp.op, BinaryOp.apply, BinaryOp.onIntegers?, if_neg hj']

theorem apply_divide_zero (order : HashOrder) (i : Int64) :
    BinaryOp.divide.apply order (.int i) (.int 0) = .error (.divisionByZero i) :=
  rfl

theorem BinaryOp.Compares.apply_int {op : BinaryOp} {R : Int → Int → Prop}
    (h : op.Compares R) (order : HashOrder) (m n : Int64) :
    ∃ t, op.apply order (.int m) (.int n) = .ok (.bool t) ∧ (t = true ↔ R m.toInt n.toInt) := by
  cases h with
  | less => exact ⟨_, rfl, decide_eq_true_iff.trans Int64.lt_iff_toInt_lt⟩
  | greater => exact ⟨_, rfl, decide_eq_true_iff.trans Int64.lt_iff_toInt_lt⟩
  | lessEqual => exact ⟨_, rfl, decide_eq_true_iff.trans Int64.le_iff_toInt_le⟩
  | greaterEqual => exact ⟨_, rfl, decide_eq_true_iff.trans Int64.le_iff_toInt_le⟩
  | equal => exact ⟨_, rfl, decide_eq_true_iff.trans Int64.toInt_inj.symm⟩
  | notEqual => exact ⟨_, rfl, decide_eq_true_iff.trans (not_congr Int64.toInt_inj.symm)⟩

namespace Arith

/-! ### The first node that fails -/

variable {a b l r : Arith} {e e' : RuntimeError}

theorem Fails.not_sound (h : b.Fails e) : ¬ b.Sound := by
  rintro ⟨k, hk⟩
  cases h with
  | divisionByZero hl hr => simp [number?, hl, hr, ArithOp.result?] at hk
  | operation hl hr hn hrange =>
      simp only [number?, hl, hr, Option.bind_some, hn, Option.some.injEq] at hk
      exact hrange k hk.symm
  | sign ha hrange =>
      simp only [number?, ha, Option.map_some, Option.some.injEq] at hk
      exact hrange k hk.symm

theorem Fails.unique (h : b.Fails e) (h' : b.Fails e') : e = e' := by
  cases h with
  | divisionByZero hl hr =>
      cases h' with
      | divisionByZero hl' hr' =>
          rw [hl, Option.some.injEq, Int64.toInt_inj] at hl'
          rw [hl']
      | operation hl' hr' hn' hrange' =>
          rw [hr, Option.some.injEq] at hr'
          simp [ArithOp.result?, ← hr'] at hn'
  | operation hl hr hn hrange =>
      cases h' with
      | divisionByZero hl' hr' =>
          rw [hr, Option.some.injEq] at hr'
          simp [ArithOp.result?, hr'] at hn
      | operation hl' hr' hn' hrange' =>
          rw [hl, Option.some.injEq, Int64.toInt_inj] at hl'
          rw [hr, Option.some.injEq, Int64.toInt_inj] at hr'
          rw [hl', hr']
  | sign ha hrange =>
      cases h' with
      | sign ha' hrange' =>
          rw [ha, Option.some.injEq, Int64.toInt_inj] at ha'
          rw [ha']

theorem FirstFails.not_all_sound (h : a.FirstFails e) : ¬ ∀ b ∈ a.nodes, b.Sound := by
  obtain ⟨front, b, back, hnodes, -, hb⟩ := h
  intro hall
  exact hb.not_sound (hall b (by simp [hnodes]))

theorem FirstFails.unique (h : a.FirstFails e) (h' : a.FirstFails e') : e = e' := by
  classical
  -- Both failing nodes are the first one in the row that is not sound.
  have hfind {e : RuntimeError} (h : a.FirstFails e) :
      ∃ b, a.nodes.find? (fun b => ¬ b.Sound) = some b ∧ b.Fails e := by
    obtain ⟨front, b, back, hnodes, hfront, hb⟩ := h
    refine ⟨b, List.find?_eq_some_iff_append.mpr ⟨?_, front, back, hnodes, ?_⟩, hb⟩
    · exact decide_eq_true hb.not_sound
    · intro x hx
      simpa using hfront x hx
  obtain ⟨b, hb, hfails⟩ := hfind h
  obtain ⟨b', hb', hfails'⟩ := hfind h'
  obtain rfl : b = b' := Option.some.inj (hb.symm.trans hb')
  exact hfails.unique hfails'

theorem FirstFails.of_append {row : List Arith} (h : a.FirstFails e)
    (hnodes : b.nodes = a.nodes ++ row) : b.FirstFails e := by
  obtain ⟨front, x, back, ha, hfront, hx⟩ := h
  exact ⟨front, x, back ++ row, by rw [hnodes, ha]; simp, hfront, hx⟩

/-! ### Evaluation -/

/-- A sign before an integer gives the exact value, or fails if that is no integer. -/
theorem sign_cases (g : Sign) {i : Int64} (ha : a.number? = some i.toInt) (order : HashOrder) :
    (∃ n : Int64, (Arith.sign g a).number? = some n.toInt ∧
      g.op.apply order (.int i) = .ok (.int n)) ∨
    ∃ e, (Arith.sign g a).Fails e ∧ g.op.apply order (.int i) = .error e := by
  rw [g.apply_int]
  by_cases hrange : ∃ n : Int64, n.toInt = g.result i.toInt
  · obtain ⟨n, hn⟩ := hrange
    exact .inl ⟨n, by rw [number?, ha, hn]; rfl, by rw [← hn, exactly_toInt]⟩
  · have hnone : ∀ k : Int64, k.toInt ≠ g.result i.toInt := not_exists.mp hrange
    exact .inr ⟨_, .sign ha hnone, exactly_of_none hnone _⟩

/-- An operation on two integers gives the exact value, or fails if there is none or if it is
no integer. -/
theorem operation_cases (op : ArithOp) {i j : Int64} (hl : l.number? = some i.toInt)
    (hr : r.number? = some j.toInt) (order : HashOrder) :
    (∃ n : Int64, (Arith.operation op l r).number? = some n.toInt ∧
      op.op.apply order (.int i) (.int j) = .ok (.int n)) ∨
    ∃ e, (Arith.operation op l r).Fails e ∧ op.op.apply order (.int i) (.int j) = .error e := by
  have hnumber : (Arith.operation op l r).number? = op.result? i.toInt j.toInt := by
    simp only [number?, hl, hr, Option.bind_some]
  cases hvalue : op.result? i.toInt j.toInt with
  | none =>
      obtain ⟨rfl, hj⟩ := ArithOp.result?_eq_none_iff.mp hvalue
      obtain rfl : j = 0 := Int64.toInt_inj.mp (hj.trans Int64.toInt_zero.symm)
      exact .inr ⟨_, .divisionByZero hl (hj ▸ hr), apply_divide_zero order i⟩
  | some m =>
      rw [ArithOp.apply_int hvalue, hnumber, hvalue]
      by_cases hrange : ∃ n : Int64, n.toInt = m
      · obtain ⟨n, rfl⟩ := hrange
        exact .inl ⟨n, rfl, exactly_toInt _ n⟩
      · have hnone : ∀ k : Int64, k.toInt ≠ m := not_exists.mp hrange
        exact .inr ⟨_, .operation hl hr hvalue hnone, exactly_of_none hnone _⟩

/-- All nodes have exact values in range and the tree has its own, or one of them fails
before any other and the tree stops with its error. -/
theorem eval_cases (c : Caller) (s : ScopeId) (st : Store) (a : Arith) :
    (∃ n : Int64, a.number? = some n.toInt ∧ (∀ b ∈ a.nodes, b.Sound) ∧
      a.expr.eval c s st = .ok (.int n) st) ∨
    ∃ e, a.FirstFails e ∧ a.expr.eval c s st = .error (.failed e) st := by
  induction a with
  | int n => exact .inl ⟨n, rfl, by simpa [nodes] using ⟨n, rfl⟩, rfl⟩
  | sign g a ih =>
      rw [expr, Expr.eval]
      rcases ih with ⟨i, ha, hsound, hrun⟩ | ⟨e, hfirst, hrun⟩
      · rw [Eval.bind_ok hrun]
        rcases sign_cases g ha c.order with ⟨n, hn, happly⟩ | ⟨e, hfails, happly⟩
        · rw [happly]
          refine .inl ⟨n, hn, fun b hb => ?_, rfl⟩
          rcases List.mem_append.mp hb with hb | hb
          · exact hsound b hb
          · exact List.mem_singleton.mp hb ▸ ⟨n, hn⟩
        · rw [happly]
          exact .inr ⟨e, ⟨a.nodes, _, [], rfl, hsound, hfails⟩, rfl⟩
      · exact .inr ⟨e, hfirst.of_append rfl, Eval.bind_error hrun⟩
  | operation op l r ihl ihr =>
      rw [expr, Expr.eval]
      rcases ihl with ⟨i, hl, hsoundl, hrunl⟩ | ⟨e, hfirst, hrunl⟩
      · rw [Eval.bind_ok hrunl]
        rcases ihr with ⟨j, hr, hsoundr, hrunr⟩ | ⟨e, ⟨front, b, back, hnodes, hfront, hb⟩, hrunr⟩
        · rw [Eval.bind_ok hrunr]
          have hsound : ∀ b ∈ l.nodes ++ r.nodes, b.Sound := fun b hb =>
            (List.mem_append.mp hb).elim (hsoundl b) (hsoundr b)
          rcases operation_cases op hl hr c.order with
            ⟨n, hn, happly⟩ | ⟨e, hfails, happly⟩
          · rw [happly]
            refine .inl ⟨n, hn, fun b hb => ?_, rfl⟩
            rw [nodes, ← List.append_assoc] at hb
            rcases List.mem_append.mp hb with hb | hb
            · exact hsound b hb
            · exact List.mem_singleton.mp hb ▸ ⟨n, hn⟩
          · rw [happly]
            exact .inr ⟨e, ⟨l.nodes ++ r.nodes, _, [], by simp [nodes], hsound, hfails⟩, rfl⟩
        · -- All nodes of the left operand come before the one of the right operand that fails.
          refine .inr ⟨e, ⟨l.nodes ++ front, b, back ++ [.operation op l r], ?_, ?_, hb⟩,
            Eval.bind_error hrunr⟩
          · simp [nodes, hnodes]
          · exact fun x hx => (List.mem_append.mp hx).elim (hsoundl x) (hfront x)
      · exact .inr ⟨e, hfirst.of_append rfl, Eval.bind_error hrunl⟩

theorem eval_eq_ok_iff {c : Caller} {s : ScopeId} {st st' : Store} {v : Value} :
    a.expr.eval c s st = .ok v st' ↔ st' = st ∧ ∃ n : Int64, v = .int n ∧
      a.number? = some n.toInt ∧ ∀ b ∈ a.nodes, b.Sound := by
  rcases a.eval_cases c s st with ⟨i, hi, hsound, hrun⟩ | ⟨e, hfirst, hrun⟩
  · rw [hrun]
    constructor
    · rintro ⟨⟩
      exact ⟨rfl, i, rfl, hi, hsound⟩
    · rintro ⟨rfl, n, rfl, hn, -⟩
      rw [hi, Option.some.injEq, Int64.toInt_inj] at hn
      rw [hn]
  · rw [hrun]
    constructor
    · intro h
      cases h
    · rintro ⟨-, n, -, -, hsound⟩
      exact absurd hsound hfirst.not_all_sound

theorem eval_eq_error_iff {c : Caller} {s : ScopeId} {st st' : Store} {stop : Stop} :
    a.expr.eval c s st = .error stop st' ↔
      st' = st ∧ ∃ e, stop = .failed e ∧ a.FirstFails e := by
  rcases a.eval_cases c s st with ⟨i, hi, hsound, hrun⟩ | ⟨e, hfirst, hrun⟩
  · rw [hrun]
    constructor
    · intro h
      cases h
    · rintro ⟨-, e, -, hfirst⟩
      exact absurd hsound hfirst.not_all_sound
  · rw [hrun]
    constructor
    · rintro ⟨⟩
      exact ⟨rfl, e, rfl, hfirst⟩
    · rintro ⟨rfl, e', rfl, hfirst'⟩
      rw [hfirst.unique hfirst']

end Arith

/-- Integer expressions are exact or fail at the first node that is not.

A tree has the integer as its value that it has over unbounded numbers, if all its nodes have
values in range, and no value otherwise. If it has none, its error is that of the first node,
in post-order, without an exact value in range: a division by zero, with the left value, or
an overflow. Such a tree is evaluated alike in every scope and changes nothing.

A comparison of two of them that have values is that of their exact values. -/
theorem arithmetic_exact (c : Caller) (s : ScopeId) (a : Arith) (st : Store) :
    (∀ v st', a.expr.eval c s st = .ok v st' ↔ st' = st ∧ ∃ n : Int64, v = .int n ∧
      a.number? = some n.toInt ∧ ∀ b ∈ a.nodes, b.Sound) ∧
    (∀ stop st', a.expr.eval c s st = .error stop st' ↔
      st' = st ∧ ∃ e, stop = .failed e ∧ a.FirstFails e) ∧
    ∀ (b : Arith) (m n : Int64), a.expr.eval c s st = .ok (.int m) st →
      b.expr.eval c s st = .ok (.int n) st → ∀ op R, BinaryOp.Compares op R →
        ∃ t, (Expr.binary op a.expr b.expr).eval c s st = .ok (.bool t) st ∧
          (t = true ↔ R m.toInt n.toInt) := by
  refine ⟨fun v st' => Arith.eval_eq_ok_iff, fun stop st' => Arith.eval_eq_error_iff,
    fun b m n ha hb op R hR => ?_⟩
  obtain ⟨t, happly, ht⟩ := hR.apply_int c.order m n
  refine ⟨t, ?_, ht⟩
  rw [Expr.eval, Eval.bind_ok ha, Eval.bind_ok hb, happly]
  rfl

/-- The least integer divided by minus one, plus one divided by zero. -/
def overflowThenZero : Arith :=
  .operation .plus (.operation .divide (.int Int64.minValue) (.sign .minus (.int 1)))
    (.operation .divide (.int 1) (.int 0))

/-- The quotient overflows before anything is divided by zero, and the least integer is less
than the greatest one. -/
theorem arithmetic_exact_extremes :
    overflowThenZero.expr.eval (Eval.caller HashOrder.byKey 0) 0 Store.empty =
        .error (.failed (.integerOverflow "-9223372036854775808 / -1")) Store.empty ∧
      (Expr.binary .less (.int Int64.minValue) (.int Int64.maxValue)).eval
        (Eval.caller HashOrder.byKey 0) 0 Store.empty = .ok (.bool true) Store.empty := by
  have hexact := arithmetic_exact (Eval.caller HashOrder.byKey 0) 0
  constructor
  · have hfails : Arith.Fails
        (.operation .divide (.int Int64.minValue) (.sign .minus (.int 1)))
        (.integerOverflow "-9223372036854775808 / -1") :=
      .operation (i := Int64.minValue) (j := -1) (n := 9223372036854775808) rfl rfl rfl
        fun k hk => absurd (Int64.toInt_le k) (by rw [hk]; decide)
    have hsound : ∀ x ∈ [.int Int64.minValue, .int 1, .sign .minus (.int 1)], Arith.Sound x := by
      rintro x (_ | ⟨_, _ | ⟨_, _ | ⟨_, ⟨⟩⟩⟩⟩)
      · exact ⟨Int64.minValue, rfl⟩
      · exact ⟨1, rfl⟩
      · exact ⟨-1, rfl⟩
    have hfirst : overflowThenZero.FirstFails (.integerOverflow "-9223372036854775808 / -1") :=
      ⟨[.int Int64.minValue, .int 1, .sign .minus (.int 1)], _, _, rfl, hsound, hfails⟩
    exact ((hexact overflowThenZero Store.empty).2.1 _ _).mpr ⟨rfl, _, rfl, hfirst⟩
  · obtain ⟨t, ht, hless⟩ := (hexact (.int Int64.minValue) Store.empty).2.2
      (.int Int64.maxValue) _ _ rfl rfl _ _ .less
    rw [hless.mpr (by decide)] at ht
    exact ht

end ScriptLang
