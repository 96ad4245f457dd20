import ScriptLang.Proofs.Eval.Run

/-!
What can be evaluated in a scope: an expression, a statement or a block. Evaluation
follows the tree, and so do the proofs about it. `Fragment.induction` is the induction
for all three at once; the parts of a row, such as the items of an array or the
statements of a block, are given as the members of the row.

A row is evaluated from left to right. It stops exactly if one of its parts stops when
all parts before it have been evaluated, and then it stops for the same reason and with
the same store.
-/

namespace ScriptLang

/-- What can be evaluated in a scope. -/
inductive Fragment
  | expr (e : Expr)
  | stmt (a : Stmt)
  | block (b : Block)

def Fragment.eval (c : Caller) (s : ScopeId) : Fragment → Eval Value
  | .expr e => e.eval c s
  | .stmt a => a.eval c s
  | .block b => Stmt.evalBlock c s b

/-! ### Induction over trees -/

section

variable {motive : Fragment → Prop}
  (name : ∀ x, motive (.expr (.name x)))
  (int : ∀ n, motive (.expr (.int n)))
  (str : ∀ t, motive (.expr (.str t)))
  (bool : ∀ b, motive (.expr (.bool b)))
  (unary : ∀ op e, motive (.expr e) → motive (.expr (.unary op e)))
  (binary : ∀ op l r, motive (.expr l) → motive (.expr r) → motive (.expr (.binary op l r)))
  (cond : ∀ e t a, motive (.expr e) → motive (.block t) → (∀ b, a = some b → motive (.block b)) →
    motive (.expr (.cond e t a)))
  (func : ∀ xs b, motive (.block b) → motive (.expr (.func xs b)))
  (call : ∀ e es, motive (.expr e) → (∀ a ∈ es, motive (.expr a)) → motive (.expr (.call e es)))
  (array : ∀ es, (∀ e ∈ es, motive (.expr e)) → motive (.expr (.array es)))
  (index : ∀ e i, motive (.expr e) → motive (.expr i) → motive (.expr (.index e i)))
  (hash : ∀ ps, (∀ p ∈ ps, motive (.expr p.1) ∧ motive (.expr p.2)) → motive (.expr (.hash ps)))
  (var : ∀ x e, motive (.expr e) → motive (.stmt (.var x e)))
  (ret : ∀ e, motive (.expr e) → motive (.stmt (.ret e)))
  (expr : ∀ e, motive (.expr e) → motive (.stmt (.expr e)))
  (block : ∀ b, (∀ a ∈ b, motive (.stmt a)) → motive (.block b))

include name int str bool unary binary cond func call array index hash var ret expr block

/-- What holds of every fragment whose parts it holds of holds of all fragments. -/
@[elab_as_elim]
theorem Fragment.induction (n : Fragment) : motive n := by
  have hexpr : ∀ e : Expr, motive (.expr e) := by
    intro e
    refine @Expr.rec (fun e => motive (.expr e)) (fun a => motive (.stmt a))
      (fun b => ∀ a ∈ b, motive (.stmt a)) (fun a => ∀ b, a = some b → ∀ s ∈ b, motive (.stmt s))
      (fun es => ∀ e ∈ es, motive (.expr e))
      (fun ps => ∀ p ∈ ps, motive (.expr p.1) ∧ motive (.expr p.2))
      (fun p => motive (.expr p.1) ∧ motive (.expr p.2))
      name int str bool unary binary ?cond ?func call array index hash var ret expr
      nofun (fun _ _ hs hb => List.forall_mem_cons.mpr ⟨hs, hb⟩) nofun ?some
      nofun (fun _ _ he hes => List.forall_mem_cons.mpr ⟨he, hes⟩)
      nofun (fun _ _ hp hps => List.forall_mem_cons.mpr ⟨hp, hps⟩) (fun _ _ hk he => ⟨hk, he⟩) e
    case cond =>
      exact fun e t a he ht ha => cond e t a he (block t ht) fun b hb => block b (ha b hb)
    case func => exact fun xs b hb => func xs b (block b hb)
    case some =>
      rintro b hb _ ⟨⟩
      exact hb
  have hstmt : ∀ a : Stmt, motive (.stmt a) := by
    intro a
    cases a with
    | var x e => exact var x e (hexpr e)
    | ret e => exact ret e (hexpr e)
    | expr e => exact expr e (hexpr e)
  cases n with
  | expr e => exact hexpr e
  | stmt a => exact hstmt a
  | block b => exact block b fun a _ => hstmt a

end

theorem Expr.eval_cond (c : Caller) (s : ScopeId) (e : Expr) (t : Block) (a : Option Block) :
    (Expr.cond e t a).eval c s = e.eval c s >>= fun
      | .bool true => Stmt.evalBlock c s t
      | .bool false => (a.map (Stmt.evalBlock c s)).getD (pure .null)
      | v => Eval.fail (.nonBooleanCondition (v.display c.order) v.type) := by
  cases a <;> rfl

/-! ### Where rows stop -/

section

variable {c : Caller} {s : ScopeId} {stop : Stop}

/-- A row of expressions stops where the first of them stops that does. -/
theorem evalEach_eq_error_iff {es : List Expr} {st st' : Store} :
    Expr.evalEach c s es st = .error stop st' ↔
      ∃ front e back vs st₁, es = front ++ e :: back ∧
        Expr.evalEach c s front st = .ok vs st₁ ∧ e.eval c s st₁ = .error stop st' := by
  constructor
  · intro h
    induction es generalizing st with
    | nil => cases h
    | cons e es ih =>
        rcases Eval.bind_eq_error_iff.mp h with he | ⟨v, st₁, hv, h⟩
        · exact ⟨[], e, es, [], st, rfl, rfl, he⟩
        · rcases Eval.bind_eq_error_iff.mp h with hes | ⟨_, _, _, ⟨⟩⟩
          obtain ⟨front, a, back, vs, st₂, rfl, hfront, ha⟩ := ih hes
          refine ⟨e :: front, a, back, v :: vs, st₂, rfl, ?_, ha⟩
          exact (Eval.bind_ok hv).trans (Eval.bind_ok hfront)
  · rintro ⟨front, e, back, vs, st₁, rfl, hfront, he⟩
    induction front generalizing st vs with
    | nil =>
        cases hfront
        exact Eval.bind_error he
    | cons a front ih =>
        obtain ⟨v, st₂, hv, hrest⟩ := Eval.bind_eq_ok_iff.mp hfront
        obtain ⟨ws, st₃, hws, hlast⟩ := Eval.bind_eq_ok_iff.mp hrest
        cases hlast
        exact (Eval.bind_ok hv).trans (Eval.bind_error (ih ws hws))

def Expr.evalPair (c : Caller) (s : ScopeId) (p : Expr × Expr) : Eval (Key × Value) := do
  let v ← p.1.eval c s
  let key ← Eval.ofExcept v.asKey
  let value ← p.2.eval c s
  pure (key, value)

theorem evalPairs_cons (p : Expr × Expr) (ps : List (Expr × Expr)) (t : Table Value) :
    Expr.evalPairs c s (p :: ps) t =
      Expr.evalPair c s p >>= fun q => Expr.evalPairs c s ps (t.insert q.1 q.2) := by
  simp only [Expr.evalPairs, Expr.evalPair, bind_assoc, pure_bind]

theorem evalPairs_eq_error_iff {ps : List (Expr × Expr)} {t : Table Value} {st st' : Store} :
    Expr.evalPairs c s ps t st = .error stop st' ↔
      ∃ front p back t' st₁, ps = front ++ p :: back ∧
        Expr.evalPairs c s front t st = .ok t' st₁ ∧
        Expr.evalPair c s p st₁ = .error stop st' := by
  constructor
  · intro h
    induction ps generalizing t st with
    | nil => cases h
    | cons p ps ih =>
        rw [evalPairs_cons] at h
        rcases Eval.bind_eq_error_iff.mp h with hp | ⟨q, st₁, hq, h⟩
        · exact ⟨[], p, ps, t, st, rfl, rfl, hp⟩
        · obtain ⟨front, p', back, t', st₂, rfl, hfront, hp'⟩ := ih h
          refine ⟨p :: front, p', back, t', st₂, rfl, ?_, hp'⟩
          rw [evalPairs_cons]
          exact (Eval.bind_ok hq).trans hfront
  · rintro ⟨front, p, back, t', st₁, rfl, hfront, hp⟩
    induction front generalizing t st with
    | nil =>
        cases hfront
        rw [List.nil_append, evalPairs_cons]
        exact Eval.bind_error hp
    | cons a front ih =>
        rw [evalPairs_cons] at hfront
        obtain ⟨q, st₂, hq, hrest⟩ := Eval.bind_eq_ok_iff.mp hfront
        rw [List.cons_append, evalPairs_cons]
        exact (Eval.bind_ok hq).trans (ih hrest)

theorem evalBlock_cons_run {a : Stmt} {b : Block} (hb : b ≠ []) (st : Store) :
    Stmt.evalBlock c s (a :: b) st = (a.eval c s >>= fun _ => Stmt.evalBlock c s b) st := by
  obtain ⟨next, b, rfl⟩ := List.exists_cons_of_ne_nil hb
  rfl

theorem exists_evalBlock_cons_iff {a : Stmt} {b : Block} {st st₂ : Store} :
    (∃ v, Stmt.evalBlock c s (a :: b) st = .ok v st₂) ↔
      ∃ w st₁, a.eval c s st = .ok w st₁ ∧ ∃ v, Stmt.evalBlock c s b st₁ = .ok v st₂ := by
  cases b with
  | nil =>
      constructor
      · rintro ⟨v, hv⟩
        exact ⟨v, st₂, hv, .null, rfl⟩
      · rintro ⟨w, st₁, hw, _, ⟨⟩⟩
        exact ⟨w, hw⟩
  | cons next b =>
      simp only [evalBlock_cons_run (List.cons_ne_nil next b), Eval.bind_eq_ok_iff]
      constructor
      · rintro ⟨v, w, st₁, hw, hv⟩
        exact ⟨w, st₁, hw, v, hv⟩
      · rintro ⟨w, st₁, hw, v, hv⟩
        exact ⟨v, w, st₁, hw, hv⟩

theorem evalBlock_eq_error_iff {b : Block} {st st' : Store} :
    Stmt.evalBlock c s b st = .error stop st' ↔
      ∃ front a back v st₁, b = front ++ a :: back ∧
        Stmt.evalBlock c s front st = .ok v st₁ ∧ a.eval c s st₁ = .error stop st' := by
  constructor
  · intro h
    induction b generalizing st with
    | nil => cases h
    | cons a b ih =>
        by_cases hb : b = []
        · subst hb
          exact ⟨[], a, [], .null, st, rfl, rfl, h⟩
        · rw [evalBlock_cons_run hb] at h
          rcases Eval.bind_eq_error_iff.mp h with ha | ⟨w, st₁, hw, h⟩
          · exact ⟨[], a, b, .null, st, rfl, rfl, ha⟩
          · obtain ⟨front, a', back, v, st₂, rfl, hfront, ha'⟩ := ih h
            obtain ⟨v', hv'⟩ := exists_evalBlock_cons_iff.mpr ⟨w, st₁, hw, v, hfront⟩
            exact ⟨a :: front, a', back, v', st₂, rfl, hv', ha'⟩
  · rintro ⟨front, a, back, v, st₁, rfl, hfront, ha⟩
    induction front generalizing st v with
    | nil =>
        cases hfront
        cases back with
        | nil => exact ha
        | cons next back => exact Eval.bind_error ha
    | cons a' front ih =>
        obtain ⟨w, st₂, hw, v', hv'⟩ := exists_evalBlock_cons_iff.mp ⟨v, hfront⟩
        rw [List.cons_append, evalBlock_cons_run (by simp)]
        exact (Eval.bind_ok hw).trans (ih v' hv')

end

end ScriptLang
