import Mathlib
import ScriptLang.Interpreter
import ScriptLang.Proofs.Eval.Fragment

/-!
A `return` ends the call that it stands in: no less, for whatever is still to be done in
the call is left undone, and no more, for the caller only sees the value of the call.

An evaluation in a scope goes from a fragment to the parts of it, one after another
(`Fragment.Enters`), but never into the body of a function, which is run by a call and in
another scope. The fragments that it comes to on the way are pending until the last of
them is done. If one of them stops, all of them stop at once, for the same reason and with
the same store (`ComesTo.stops`). And the only fragments that begin to return are the
`return` statements: an evaluation ends in a pending `return` exactly if it comes to such
a statement (`eval_eq_returned_iff`), and so only if it has one of its own.
-/

namespace ScriptLang

/-! ### Returns outside the functions of a fragment -/

mutual

/-- Whether there is a `return` in an expression that is not inside a function. -/
def Expr.hasReturn : Expr → Bool
  | .name _ | .int _ | .str _ | .bool _ | .func _ _ => false
  | .unary _ e => e.hasReturn
  | .binary _ l r => l.hasReturn || r.hasReturn
  | .cond e t none => e.hasReturn || Stmt.anyReturn t
  | .cond e t (some b) => e.hasReturn || (Stmt.anyReturn t || Stmt.anyReturn b)
  | .call e es => e.hasReturn || Expr.anyReturn es
  | .array es => Expr.anyReturn es
  | .index e i => e.hasReturn || i.hasReturn
  | .hash ps => Expr.anyReturnPairs ps

def Expr.anyReturn : List Expr → Bool
  | [] => false
  | e :: es => e.hasReturn || Expr.anyReturn es

def Expr.anyReturnPairs : List (Expr × Expr) → Bool
  | [] => false
  | (k, e) :: ps => (k.hasReturn || e.hasReturn) || Expr.anyReturnPairs ps

def Stmt.hasReturn : Stmt → Bool
  | .var _ e => e.hasReturn
  | .ret _ => true
  | .expr e => e.hasReturn

def Stmt.anyReturn : List Stmt → Bool
  | [] => false
  | a :: b => a.hasReturn || Stmt.anyReturn b

end

def Fragment.hasReturn : Fragment → Bool
  | .expr e => e.hasReturn
  | .stmt a => a.hasReturn
  | .block b => Stmt.anyReturn b

theorem Expr.anyReturn_append (front back : List Expr) :
    Expr.anyReturn (front ++ back) = (Expr.anyReturn front || Expr.anyReturn back) := by
  induction front with
  | nil => rfl
  | cons e front ih => simp only [List.cons_append, Expr.anyReturn, ih, Bool.or_assoc]

theorem Expr.anyReturnPairs_append (front back : List (Expr × Expr)) :
    Expr.anyReturnPairs (front ++ back) =
      (Expr.anyReturnPairs front || Expr.anyReturnPairs back) := by
  induction front with
  | nil => rfl
  | cons p front ih => simp only [List.cons_append, Expr.anyReturnPairs, ih, Bool.or_assoc]

theorem Stmt.anyReturn_append (front back : Block) :
    Stmt.anyReturn (front ++ back) = (Stmt.anyReturn front || Stmt.anyReturn back) := by
  induction front with
  | nil => rfl
  | cons a front ih => simp only [List.cons_append, Stmt.anyReturn, ih, Bool.or_assoc]

/-! ### The way of an evaluation -/

/-- Whether a value is called on so many arguments once they have been evaluated. -/
def Value.takes (n : Nat) : Value → Bool
  | .builtin _ => true
  | .func f => f.params.length = n
  | _ => false

namespace Fragment

variable {c : Caller} {s : ScopeId} {n m k : Fragment} {st st₁ st₂ : Store}

/-- The evaluation of a fragment from a store goes on to evaluate a part of it from a
store: what comes before the part has been evaluated, and what comes behind it has not. -/
inductive Enters (c : Caller) (s : ScopeId) : Fragment → Store → Fragment → Store → Prop
  | operand {op : UnaryOp} {e : Expr} {st : Store} :
      Enters c s (.expr (.unary op e)) st (.expr e) st
  | left {op : BinaryOp} {l r : Expr} {st : Store} :
      Enters c s (.expr (.binary op l r)) st (.expr l) st
  | right {op : BinaryOp} {l r : Expr} {v : Value} {st st₁ : Store} :
      l.eval c s st = .ok v st₁ → Enters c s (.expr (.binary op l r)) st (.expr r) st₁
  | condition {e : Expr} {t : Block} {a : Option Block} {st : Store} :
      Enters c s (.expr (.cond e t a)) st (.expr e) st
  | consequence {e : Expr} {t : Block} {a : Option Block} {st st₁ : Store} :
      e.eval c s st = .ok (.bool true) st₁ →
      Enters c s (.expr (.cond e t a)) st (.block t) st₁
  | alternative {e : Expr} {t b : Block} {st st₁ : Store} :
      e.eval c s st = .ok (.bool false) st₁ →
      Enters c s (.expr (.cond e t (some b))) st (.block b) st₁
  | callee {e : Expr} {es : List Expr} {st : Store} :
      Enters c s (.expr (.call e es)) st (.expr e) st
  | argument {e a : Expr} {front back : List Expr} {v : Value} {vs : List Value}
      {st st₁ st₂ : Store} :
      e.eval c s st = .ok v st₁ → v.takes (front ++ a :: back).length = true →
      Expr.evalEach c s front st₁ = .ok vs st₂ →
      Enters c s (.expr (.call e (front ++ a :: back))) st (.expr a) st₂
  | item {e : Expr} {front back : List Expr} {vs : List Value} {st st₁ : Store} :
      Expr.evalEach c s front st = .ok vs st₁ →
      Enters c s (.expr (.array (front ++ e :: back))) st (.expr e) st₁
  | collection {e i : Expr} {st : Store} :
      Enters c s (.expr (.index e i)) st (.expr e) st
  | index {e i : Expr} {v : Value} {st st₁ : Store} :
      e.eval c s st = .ok v st₁ → Enters c s (.expr (.index e i)) st (.expr i) st₁
  | key {p : Expr × Expr} {front back : List (Expr × Expr)} {t : Table Value}
      {st st₁ : Store} :
      Expr.evalPairs c s front [] st = .ok t st₁ →
      Enters c s (.expr (.hash (front ++ p :: back))) st (.expr p.1) st₁
  | value {p : Expr × Expr} {front back : List (Expr × Expr)} {t : Table Value} {v : Value}
      {key : Key} {st st₁ st₂ : Store} :
      Expr.evalPairs c s front [] st = .ok t st₁ → p.1.eval c s st₁ = .ok v st₂ →
      v.asKey = .ok key →
      Enters c s (.expr (.hash (front ++ p :: back))) st (.expr p.2) st₂
  | initialiser {x : String} {e : Expr} {st : Store} :
      Enters c s (.stmt (.var x e)) st (.expr e) st
  | returned {e : Expr} {st : Store} : Enters c s (.stmt (.ret e)) st (.expr e) st
  | expression {e : Expr} {st : Store} : Enters c s (.stmt (.expr e)) st (.expr e) st
  | statement {a : Stmt} {front back : Block} {v : Value} {st st₁ : Store} :
      Stmt.evalBlock c s front st = .ok v st₁ →
      Enters c s (.block (front ++ a :: back)) st (.stmt a) st₁

/-- On its way, the evaluation of a fragment from a store comes to evaluate another one,
or itself, from a store. -/
inductive ComesTo (c : Caller) (s : ScopeId) : Fragment → Store → Fragment → Store → Prop
  | here {n : Fragment} {st : Store} : ComesTo c s n st n st
  | step {n m k : Fragment} {st st₁ st₂ : Store} :
      Enters c s n st m st₁ → ComesTo c s m st₁ k st₂ → ComesTo c s n st k st₂

theorem Enters.hasReturn (h : Enters c s n st m st₁) (hm : m.hasReturn = true) :
    n.hasReturn = true := by
  cases h with
  | alternative _ => simp_all [Fragment.hasReturn, Expr.hasReturn]
  | @consequence _ _ a _ _ _ =>
      cases a <;> simp_all [Fragment.hasReturn, Expr.hasReturn]
  | @condition _ _ a _ =>
      cases a <;> simp_all [Fragment.hasReturn, Expr.hasReturn]
  | _ =>
      simp_all [Fragment.hasReturn, Expr.hasReturn, Stmt.hasReturn, Expr.anyReturn_append,
        Expr.anyReturn, Expr.anyReturnPairs_append, Expr.anyReturnPairs, Stmt.anyReturn_append,
        Stmt.anyReturn]

theorem ComesTo.hasReturn (h : ComesTo c s n st m st₁) (hm : m.hasReturn = true) :
    n.hasReturn = true := by
  induction h with
  | here => exact hm
  | step hstep _ ih => exact hstep.hasReturn (ih hm)

/-- A fragment stops if a part of it does that its evaluation has gone on to, for the same
reason and with the same store. -/
theorem Enters.stops {stop : Stop} {st' : Store} (h : Enters c s n st m st₁)
    (hm : m.eval c s st₁ = .error stop st') : n.eval c s st = .error stop st' := by
  cases h with
  | operand | left | callee | collection | initialiser | returned => exact Eval.bind_error hm
  | expression => exact hm
  | right hl => exact (Eval.bind_ok hl).trans (Eval.bind_error hm)
  | index he => exact (Eval.bind_ok he).trans (Eval.bind_error hm)
  | @condition _ _ a _ => cases a <;> exact Eval.bind_error hm
  | @consequence _ _ a _ _ he => cases a <;> exact (Eval.bind_ok he).trans hm
  | alternative he => exact (Eval.bind_ok he).trans hm
  | @argument _ a front back v _ _ _ _ he htakes hfront =>
      have hrow : Expr.evalEach c s (front ++ a :: back) _ = _ :=
        evalEach_eq_error_iff.mpr ⟨_, _, _, _, _, rfl, hfront, hm⟩
      rw [Fragment.eval, Expr.eval, Eval.bind_ok he]
      cases v with
      | builtin b => exact Eval.bind_error hrow
      | func f =>
          have hlength : f.params.length = (front ++ a :: back).length := of_decide_eq_true htakes
          simp only [if_pos hlength]
          exact Eval.bind_error hrow
      | _ => cases htakes
  | item hfront =>
      exact Eval.bind_error (evalEach_eq_error_iff.mpr ⟨_, _, _, _, _, rfl, hfront, hm⟩)
  | key hfront =>
      exact Eval.bind_error (evalPairs_eq_error_iff.mpr
        ⟨_, _, _, _, _, rfl, hfront, Eval.bind_error hm⟩)
  | value hfront hk hkey =>
      refine Eval.bind_error (evalPairs_eq_error_iff.mpr ⟨_, _, _, _, _, rfl, hfront, ?_⟩)
      rw [Expr.evalPair, Eval.bind_ok hk, Eval.bind_ok (Eval.ofExcept_eq_ok_iff.mpr ⟨hkey, rfl⟩)]
      exact Eval.bind_error hm
  | statement hfront => exact evalBlock_eq_error_iff.mpr ⟨_, _, _, _, _, rfl, hfront, hm⟩

theorem ComesTo.stops {stop : Stop} {st' : Store} (h : ComesTo c s n st m st₁)
    (hm : m.eval c s st₁ = .error stop st') : n.eval c s st = .error stop st' := by
  induction h with
  | here => exact hm
  | step hstep _ ih => exact hstep.stops (ih hm)

/-- The evaluation of a fragment comes to a `return`, and evaluates the value of it. -/
def MeetsReturn (c : Caller) (s : ScopeId) (n : Fragment) (st : Store) (v : Value)
    (st' : Store) : Prop :=
  ∃ e st₁, ComesTo c s n st (.stmt (.ret e)) st₁ ∧ e.eval c s st₁ = .ok v st'

theorem Enters.meetsReturn {v : Value} {st' : Store} (h : Enters c s n st m st₁)
    (hm : m.MeetsReturn c s st₁ v st') : n.MeetsReturn c s st v st' := by
  obtain ⟨e, st₂, hway, he⟩ := hm
  exact ⟨e, st₂, .step h hway, he⟩

end Fragment

/-! ### Steps that never end in a pending return -/

namespace Eval

variable {α β : Type}

def NeverReturns (r : Eval α) : Prop :=
  ∀ st v st', r st ≠ .error (.returned v) st'

theorem neverReturns_pure (a : α) : NeverReturns (pure a : Eval α) := nofun

theorem neverReturns_fail (e : RuntimeError) : NeverReturns (fail e : Eval α) := nofun

theorem neverReturns_ofExcept (result : Except RuntimeError α) :
    NeverReturns (ofExcept result) := by
  cases result with
  | ok a => exact neverReturns_pure a
  | error e => exact neverReturns_fail e

theorem neverReturns_bind {r : Eval α} {f : α → Eval β} (h : NeverReturns r)
    (hf : ∀ a, NeverReturns (f a)) : NeverReturns (r >>= f) := by
  intro st v st' hrun
  rcases bind_eq_error_iff.mp hrun with hr | ⟨a, st₁, _, ha⟩
  · exact h st v st' hr
  · exact hf a st₁ v st' ha

/-- A row of two steps that ends in a pending `return` does so in the first step, if the
second one never does. -/
theorem returned_of_bind {r : Eval α} {f : α → Eval β} {st st' : Store} {v : Value}
    (hf : ∀ a, NeverReturns (f a)) (h : (r >>= f) st = .error (.returned v) st') :
    r st = .error (.returned v) st' := by
  rcases bind_eq_error_iff.mp h with hr | ⟨a, st₁, _, ha⟩
  · exact hr
  · exact absurd ha (hf a st₁ v st')

theorem neverReturns_lookUp (s : ScopeId) (x : String) : NeverReturns (lookUp s x) := by
  refine neverReturns_bind nofun fun st => ?_
  cases st.get? s x with
  | some v => exact neverReturns_pure v
  | none =>
      cases Builtin.named? x with
      | some b => exact neverReturns_pure _
      | none => exact neverReturns_fail _

theorem neverReturns_define (s : ScopeId) (x : String) (v : Value) :
    NeverReturns (define s x v) := by
  intro st w st' hrun
  unfold define at hrun
  split at hrun <;> cases hrun

theorem neverReturns_bindParams (s : ScopeId) (xs : List String) (vs : List Value) :
    NeverReturns (bindParams s xs vs) := by
  induction xs, vs using bindParams.induct with
  | case1 x xs v vs ih => exact neverReturns_bind (neverReturns_define s x v) fun _ => ih
  | case2 xs vs h =>
      rw [bindParams.eq_2 s xs vs h]
      exact neverReturns_pure ()

theorem neverReturns_callBuiltin (b : Builtin) (vs : List Value) :
    NeverReturns (b.call vs) := by
  have hprint : NeverReturns (Builtin.printAll vs) := by
    induction vs with
    | nil => exact neverReturns_pure ()
    | cons v vs ih => exact neverReturns_bind nofun fun _ => ih
  cases b with
  | puts => exact neverReturns_bind hprint fun _ => neverReturns_pure _
  | _ => exact neverReturns_ofExcept _

theorem neverReturns_untilReturn (r : Eval α) : NeverReturns (untilReturn r) := by
  intro st v st' hrun
  unfold untilReturn at hrun
  split at hrun
  · cases hrun
  · cases hrun
  · rename_i hstop _
    cases hrun
    exact hstop _ rfl

/-- A call is where a `return` ends. -/
theorem neverReturns_call (order : HashOrder) (depth : Nat) (f : Closure) (vs : List Value) :
    NeverReturns (call order depth f vs) := by
  cases depth with
  | zero => nofun
  | succ depth =>
      exact neverReturns_bind nofun fun s =>
        neverReturns_bind (neverReturns_bindParams s f.params vs) fun _ =>
          neverReturns_untilReturn _

end Eval

/-! ### Where a return begins -/

section

open Fragment Eval

variable {c : Caller} {s : ScopeId}

/-- Only a `return` statement begins to return. -/
theorem Fragment.meetsReturn_of_eval (hc : ∀ f vs, NeverReturns (c.call f vs)) (n : Fragment) :
    ∀ {st v st'}, n.eval c s st = .error (.returned v) st' → n.MeetsReturn c s st v st' := by
  induction n using Fragment.induction with
  | name x => exact fun h => absurd h (neverReturns_lookUp s x _ _ _)
  | int | str | bool | func => exact nofun
  | unary op e he =>
      intro st v st' h
      exact Enters.operand.meetsReturn
        (he (returned_of_bind (fun _ => neverReturns_ofExcept _) h))
  | binary op l r hl hr =>
      intro st v st' h
      rcases bind_eq_error_iff.mp h with h | ⟨_, _, hleft, h⟩
      · exact Enters.left.meetsReturn (hl h)
      · exact (Enters.right hleft).meetsReturn
          (hr (returned_of_bind (fun _ => neverReturns_ofExcept _) h))
  | cond e t a he ht ha =>
      intro st v st' h
      rw [Fragment.eval, Expr.eval_cond] at h
      rcases bind_eq_error_iff.mp h with h | ⟨w, st₁, hw, h⟩
      · exact Enters.condition.meetsReturn (he h)
      · split at h
        · exact (Enters.consequence hw).meetsReturn (ht h)
        · cases a with
          | none => cases h
          | some b => exact (Enters.alternative hw).meetsReturn (ha b rfl h)
        · cases h
  | call e es he hes =>
      intro st v st' h
      rcases bind_eq_error_iff.mp h with h | ⟨f, st₁, hf, h⟩
      · exact Enters.callee.meetsReturn (he h)
      · -- Only a callee that takes the arguments goes on to evaluate them.
        have hargument (htakes : f.takes es.length = true)
            (h : Expr.evalEach c s es st₁ = .error (.returned v) st') :
            (Fragment.expr (.call e es)).MeetsReturn c s st v st' := by
          obtain ⟨front, a, back, vs, st₂, rfl, hfront, h⟩ := evalEach_eq_error_iff.mp h
          exact (Enters.argument hf htakes hfront).meetsReturn (hes a (by simp) h)
        split at h
        · exact hargument rfl (returned_of_bind (neverReturns_callBuiltin _) h)
        · split at h
          · rename_i hlength
            exact hargument (decide_eq_true hlength) (returned_of_bind (hc _) h)
          · cases h
        · cases h
  | array es hes =>
      intro st v st' h
      have hrow := returned_of_bind (fun _ => neverReturns_pure _) h
      obtain ⟨front, e, back, vs, st₁, rfl, hfront, h⟩ := evalEach_eq_error_iff.mp hrow
      exact (Enters.item hfront).meetsReturn (hes e (by simp) h)
  | index e i he hi =>
      intro st v st' h
      rcases bind_eq_error_iff.mp h with h | ⟨_, _, hcollection, h⟩
      · exact Enters.collection.meetsReturn (he h)
      · exact (Enters.index hcollection).meetsReturn
          (hi (returned_of_bind (fun _ => neverReturns_ofExcept _) h))
  | hash ps hps =>
      intro st v st' h
      have hrow := returned_of_bind (fun _ => neverReturns_pure _) h
      obtain ⟨front, p, back, t, st₁, rfl, hfront, h⟩ := evalPairs_eq_error_iff.mp hrow
      obtain ⟨hk, he⟩ := hps p (by simp)
      rcases bind_eq_error_iff.mp h with h | ⟨w, st₂, hw, h⟩
      · exact (Enters.key hfront).meetsReturn (hk h)
      · rcases bind_eq_error_iff.mp h with h | ⟨key, st₃, hkey, h⟩
        · exact absurd h (neverReturns_ofExcept _ _ _ _)
        · obtain ⟨hasKey, rfl⟩ := ofExcept_eq_ok_iff.mp hkey
          exact (Enters.value hfront hw hasKey).meetsReturn
            (he (returned_of_bind (fun _ => neverReturns_pure _) h))
  | var x e he =>
      intro st v st' h
      have hbind (w : Value) : NeverReturns (define s x w >>= fun _ => pure Value.null) :=
        neverReturns_bind (neverReturns_define s x w) fun _ => neverReturns_pure _
      exact Enters.initialiser.meetsReturn (he (returned_of_bind hbind h))
  | ret e he =>
      intro st v st' h
      rcases bind_eq_error_iff.mp h with h | ⟨w, st₁, hw, h⟩
      · exact Enters.returned.meetsReturn (he h)
      · cases h
        exact ⟨e, st, .here, hw⟩
  | expr e he => exact fun h => Enters.expression.meetsReturn (he h)
  | block b hb =>
      intro st v st' h
      obtain ⟨front, a, back, w, st₁, rfl, hfront, h⟩ := evalBlock_eq_error_iff.mp h
      exact (Enters.statement hfront).meetsReturn (hb a (by simp) h)

/-- An evaluation ends in a pending `return` exactly if it comes to a `return` statement. -/
theorem Fragment.eval_eq_returned_iff (hc : ∀ f vs, NeverReturns (c.call f vs)) {n : Fragment}
    {st st' : Store} {v : Value} :
    n.eval c s st = .error (.returned v) st' ↔ n.MeetsReturn c s st v st' := by
  constructor
  · exact n.meetsReturn_of_eval hc
  · rintro ⟨e, st₁, hway, he⟩
    exact hway.stops (Eval.bind_ok he)

theorem Fragment.MeetsReturn.hasReturn {n : Fragment} {st st' : Store} {v : Value}
    (h : n.MeetsReturn c s st v st') : n.hasReturn = true := by
  obtain ⟨e, st₁, hway, -⟩ := h
  exact hway.hasReturn rfl

end

/-! ### Calls -/

namespace Eval

def enter (f : Closure) (vs : List Value) : Eval ScopeId := do
  let s ← enclose f.scope
  bindParams s f.params vs
  pure s

theorem call_succ (order : HashOrder) (depth : Nat) (f : Closure) (vs : List Value) :
    call order (depth + 1) f vs = enter f vs >>= fun s =>
      untilReturn (Stmt.evalBlock (caller order depth) s f.body) := by
  simp only [call, enter, bind_assoc, pure_bind]
  rfl

theorem call_eq_ok {order : HashOrder} {depth : Nat} {f : Closure} {vs : List Value}
    {st st' : Store} {v : Value} (h : call order depth f vs st = .ok v st') :
    v = .null ∨ Stmt.anyReturn f.body = true := by
  cases depth with
  | zero => cases h
  | succ depth =>
      rw [call_succ] at h
      obtain ⟨s, st₁, -, hbody⟩ := bind_eq_ok_iff.mp h
      unfold untilReturn at hbody
      split at hbody
      · cases hbody
        exact .inl rfl
      · rename_i hreturned
        have hmeets := (Fragment.block f.body).meetsReturn_of_eval
          (neverReturns_call order depth) hreturned
        exact .inr hmeets.hasReturn
      · cases hbody

end Eval

/-- A `return` stays in its call.

Whatever is evaluated ends in a pending `return` exactly if it comes to a `return`
statement on its way, and only if there is one in it outside its functions. So a call of a
closure that has none in its body has the value null, if it does not fail and the calls
are not nested too deeply to go on.

A call of a closure is never itself a pending `return`, so what the body returns does not
end the caller. But if anything that the evaluation of the body comes to is a pending
`return`, the call has the returned value, and the store is left as it was when the value
was returned: nothing of what was still to be done has been done. -/
theorem return_stays_in_call (order : HashOrder) (depth : Nat) :
    (∀ (n : Fragment) (s : ScopeId) (v : Value) (st st' : Store),
      (n.eval (Eval.caller order depth) s st = .error (.returned v) st' ↔
        n.MeetsReturn (Eval.caller order depth) s st v st') ∧
      (n.eval (Eval.caller order depth) s st = .error (.returned v) st' →
        n.hasReturn = true)) ∧
    (∀ (f : Closure) (vs : List Value) (st : Store), Stmt.anyReturn f.body = false →
      ∃ st', Eval.call order depth f vs st = .ok .null st' ∨
        (∃ e, Eval.call order depth f vs st = .error (.failed e) st') ∨
        Eval.call order depth f vs st = .error .tooManyCalls st') ∧
    (∀ (e : Expr) (es : List Expr) (s : ScopeId) (f : Closure) (vs : List Value)
      (st st₁ st₂ : Store),
      e.eval (Eval.caller order depth) s st = .ok (.func f) st₁ →
      f.params.length = es.length →
      Expr.evalEach (Eval.caller order depth) s es st₁ = .ok vs st₂ →
      (Expr.call e es).eval (Eval.caller order depth) s st =
          Eval.call order depth f vs st₂ ∧
        ∀ v st', Eval.call order depth f vs st₂ ≠ .error (.returned v) st') ∧
    (∀ (f : Closure) (vs : List Value) (s : ScopeId) (n : Fragment) (v : Value)
      (st st₁ st₂ st₃ : Store),
      Eval.enter f vs st = .ok s st₁ →
      Fragment.ComesTo (Eval.caller order depth) s (.block f.body) st₁ n st₂ →
      n.eval (Eval.caller order depth) s st₂ = .error (.returned v) st₃ →
      Eval.call order (depth + 1) f vs st = .ok v st₃) := by
  have hc := Eval.neverReturns_call order depth
  refine ⟨fun n s v st st' => ⟨Fragment.eval_eq_returned_iff hc, fun h => ?_⟩,
    fun f vs st hbody => ?_, fun e es s f vs st st₁ st₂ he hlength hvs => ⟨?_, ?_⟩,
    fun f vs s n v st st₁ st₂ st₃ henter hway hn => ?_⟩
  · exact (n.meetsReturn_of_eval hc h).hasReturn
  · cases hcall : Eval.call order depth f vs st with
    | ok v st' =>
        rcases Eval.call_eq_ok hcall with rfl | hreturn
        · exact ⟨st', .inl rfl⟩
        · rw [hbody] at hreturn
          cases hreturn
    | error stop st' =>
        cases stop with
        | returned v => exact absurd hcall (hc f vs st v st')
        | failed e => exact ⟨st', .inr (.inl ⟨e, rfl⟩)⟩
        | tooManyCalls => exact ⟨st', .inr (.inr rfl)⟩
  · rw [Expr.eval, Eval.bind_ok he]
    simp only [if_pos hlength]
    exact Eval.bind_ok hvs
  · exact fun v st' => hc f vs st₂ v st'
  · rw [Eval.call_succ, Eval.bind_ok henter]
    unfold Eval.untilReturn
    have hbody : Stmt.evalBlock (Eval.caller order depth) s f.body st₁ =
        .error (.returned v) st₃ := hway.stops hn
    rw [hbody]

/-- `func(n) { var x = [n, if (true) { return n; }]; }`, made in the outermost scope. -/
def returnsEarly : Closure :=
  ⟨0, ["n"], [.var "x" (.array [.name "n", .cond (.bool true) [.ret (.name "n")] none])], 0⟩

/-- `func() { f(7); puts(8); }`, made in the outermost scope. -/
def callsOn : Closure :=
  ⟨1, [], [.expr (.call (.name "f") [.int 7]), .expr (.call (.name "puts") [.int 8])], 0⟩

/-- An outermost scope that binds `f` to `returnsEarly`, and the scopes of so many calls of
it with 7. -/
def returningStore (calls : Nat) (printed : Array Value) : Store where
  scopes := #[⟨none, [("f", .func returnsEarly)]⟩] ++
    Array.replicate calls ⟨some 0, [("n", .int 7)]⟩
  closures := 2
  printed := printed

/-- The call `returnsEarly(7)` comes to a `return` when it is to bind `x`. It has the value 7,
and `x` is not bound. The function `callsOn`, which calls it and has no `return` of its own,
goes on behind that call and has the value null. -/
theorem return_stays_in_call_early :
    Eval.call HashOrder.byKey 1 returnsEarly [.int 7] (returningStore 0 #[]) =
        .ok (.int 7) (returningStore 1 #[]) ∧
    Stmt.anyReturn callsOn.body = false ∧
    ∃ st', Eval.call HashOrder.byKey 2 callsOn [] (returningStore 0 #[]) = .ok .null st' ∧
      st'.printed = #[.int 8] := by
  have hn : (Expr.name "n").eval (Eval.caller HashOrder.byKey 0) 1 (returningStore 1 #[]) =
      .ok (.int 7) (returningStore 1 #[]) := by
    cbv
  have henter : Eval.enter returnsEarly [.int 7] (returningStore 0 #[]) =
      .ok 1 (returningStore 1 #[]) := by
    cbv
  have hway : Fragment.ComesTo (Eval.caller HashOrder.byKey 0) 1 (.block returnsEarly.body)
      (returningStore 1 #[]) (.block [.ret (.name "n")]) (returningStore 1 #[]) :=
    .step (@Fragment.Enters.statement _ _ _ [] [] .null _ _ rfl) <| .step .initialiser <|
      .step (@Fragment.Enters.item _ _ _ [.name "n"] [] _ _ _ (Eval.bind_ok hn)) <|
        .step (.consequence rfl) .here
  have hreturn : (Fragment.block [.ret (.name "n")]).eval (Eval.caller HashOrder.byKey 0) 1
      (returningStore 1 #[]) = .error (.returned (.int 7)) (returningStore 1 #[]) :=
    Eval.bind_ok hn
  refine ⟨(return_stays_in_call HashOrder.byKey 0).2.2.2 returnsEarly [.int 7] 1 _ _ _ _ _ _
    henter hway hreturn, rfl, ?_⟩
  have hrun : Eval.call HashOrder.byKey 2 callsOn [] (returningStore 0 #[]) =
      .ok .null ⟨#[⟨none, [("f", .func returnsEarly)]⟩, ⟨some 0, []⟩, ⟨some 0, [("n", .int 7)]⟩],
        2, #[.int 8]⟩ := by
    cbv
  obtain ⟨st', h⟩ := (return_stays_in_call HashOrder.byKey 2).2.1 callsOn []
    (returningStore 0 #[]) rfl
  rw [hrun] at h
  rcases h with h | ⟨_, h⟩ | h <;> cases h
  exact ⟨_, hrun, rfl⟩

end ScriptLang
