import ScriptLang.Proofs.Eval.Integrity
import ScriptLang.Proofs.Eval.Returning

/-!
Calls of closures. The callee is evaluated first. Then the arguments are counted, before any
of them is evaluated, and evaluated from left to right where the call stands. The body runs in
a new scope inside the one that the closure was made in. That scope binds each parameter to
the argument at the same place and nothing else (`Store.withScope`), or the call fails at the
first parameter that an earlier one has the name of.
-/

namespace ScriptLang

variable {c : Caller} {s : ScopeId}

/-! ### Arguments -/

/-- Expressions are evaluated from left to right, each from the store that the one before it
has left. -/
inductive EvaluatesEach (c : Caller) (s : ScopeId) :
    List Expr → Store → List Value → Store → Prop
  | nil {st : Store} : EvaluatesEach c s [] st [] st
  | cons {e : Expr} {es : List Expr} {v : Value} {vs : List Value} {st st₁ st₂ : Store} :
      e.eval c s st = .ok v st₁ → EvaluatesEach c s es st₁ vs st₂ →
      EvaluatesEach c s (e :: es) st (v :: vs) st₂

/-- An expression stops, and all before it have been evaluated. -/
inductive EachStops (c : Caller) (s : ScopeId) : List Expr → Store → Stop → Store → Prop
  | at {front back : List Expr} {e : Expr} {vs : List Value} {stop : Stop}
      {st st₁ st₂ : Store} :
      EvaluatesEach c s front st vs st₁ → e.eval c s st₁ = .error stop st₂ →
      EachStops c s (front ++ e :: back) st stop st₂

theorem evalEach_eq_ok_iff {es : List Expr} {vs : List Value} {st st' : Store} :
    Expr.evalEach c s es st = .ok vs st' ↔ EvaluatesEach c s es st vs st' := by
  constructor
  · intro h
    induction es generalizing st vs with
    | nil =>
        cases h
        exact .nil
    | cons e es ih =>
        obtain ⟨v, st₁, hv, hrest⟩ := Eval.bind_eq_ok_iff.mp h
        obtain ⟨ws, st₂, hws, hlast⟩ := Eval.bind_eq_ok_iff.mp hrest
        cases hlast
        exact .cons hv (ih hws)
  · intro h
    induction h with
    | nil => rfl
    | cons hv _ ih => exact (Eval.bind_ok hv).trans (Eval.bind_ok ih)

theorem evalEach_eq_error_iff_eachStops {es : List Expr} {stop : Stop} {st st' : Store} :
    Expr.evalEach c s es st = .error stop st' ↔ EachStops c s es st stop st' := by
  rw [evalEach_eq_error_iff]
  constructor
  · rintro ⟨front, e, back, vs, st₁, rfl, hfront, he⟩
    exact .at (evalEach_eq_ok_iff.mp hfront) he
  · rintro ⟨hfront, he⟩
    exact ⟨_, _, _, _, _, rfl, evalEach_eq_ok_iff.mpr hfront, he⟩

theorem EvaluatesEach.length_eq {es : List Expr} {vs : List Value} {st st' : Store}
    (h : EvaluatesEach c s es st vs st') : vs.length = es.length := by
  induction h with
  | nil => rfl
  | cons _ _ ih => exact congrArg (· + 1) ih

theorem evaluatesEach_or_stops (c : Caller) (s : ScopeId) (es : List Expr) (st : Store) :
    (∃ vs st', EvaluatesEach c s es st vs st') ∨ ∃ stop st', EachStops c s es st stop st' := by
  cases h : Expr.evalEach c s es st with
  | ok vs st' => exact .inl ⟨vs, st', evalEach_eq_ok_iff.mp h⟩
  | error stop st' => exact .inr ⟨stop, st', evalEach_eq_error_iff_eachStops.mp h⟩

/-! ### The scope of a call -/

namespace Store

variable {st : Store} {o : ScopeId} {x y : String} {v : Value} {bs : List (String × Value)}

def withScope (st : Store) (o : ScopeId) (bs : List (String × Value)) : Store :=
  { st with scopes := st.scopes.push ⟨some o, bs⟩ }

theorem local?_withScope : (st.withScope o bs).local? st.scopes.size x = bs.lookup x := by
  unfold local? withScope
  rw [Array.getElem?_push_size]
  rfl

theorem define_withScope (h : bs.lookup x = none) :
    (st.withScope o bs).define st.scopes.size x v = .ok (st.withScope o ((x, v) :: bs)) := by
  rw [define_eq_ok (local?_withScope.trans h)]
  unfold withScope
  congr 1
  rw [Store.mk.injEq]
  refine ⟨Array.ext_getElem? fun i => ?_, rfl, rfl⟩
  rw [Array.getElem?_modify, Array.getElem?_push, Array.getElem?_push]
  grind

/-- In the new scope a name has the value that the scope binds it to, and else the one that
it has in the scope around it. -/
theorem get?_withScope (ho : o < st.scopes.size) :
    (st.withScope o bs).get? st.scopes.size x = (bs.lookup x).or (st.get? o x) := by
  have houter : (st.withScope o bs).outer? st.scopes.size = some o := by
    unfold outer? withScope
    rw [Array.getElem?_push_size]
    rfl
  have hkept : (st.withScope o bs).get? o x = st.get? o x := by
    refine get?_congr (fun i hi => ?_) x
    have hlt : i < st.scopes.size := Nat.lt_of_le_of_lt hi ho
    exact (Array.getElem?_push_lt hlt).trans (Array.getElem?_eq_getElem hlt).symm
  rw [get?_eq, local?_withScope, houter, Option.bind_some, if_pos ho, hkept]

/-- The store in which the body of a closure begins to run: a new scope binds each parameter
to the argument at the same place. -/
def entered (st : Store) (f : Closure) (vs : List Value) : Store :=
  st.withScope f.scope (f.params.zip vs).reverse

end Store

theorem lookup_of_mem_of_nodup {bs : List (String × Value)} {x : String} {v : Value}
    (hnodup : (bs.map Prod.fst).Nodup) (h : (x, v) ∈ bs) : bs.lookup x = some v := by
  obtain ⟨front, back, rfl⟩ := List.append_of_mem h
  refine List.lookup_eq_some_iff.mpr ⟨front, back, rfl, fun p hp => ?_⟩
  rw [List.map_append, List.map_cons] at hnodup
  have hne : p.1 ≠ x := (List.nodup_append.mp hnodup).2.2 p.1 (List.mem_map_of_mem hp) x
    List.mem_cons_self
  exact bne_iff_ne.mpr hne.symm

theorem lookup_params {xs : List String} {vs : List Value} (hlength : vs.length = xs.length)
    (hnodup : xs.Nodup) {i : Nat} {x : String} (hx : xs[i]? = some x) :
    ∃ v, vs[i]? = some v ∧ (xs.zip vs).reverse.lookup x = some v := by
  obtain ⟨hi, -⟩ := List.getElem?_eq_some_iff.mp hx
  have hi : i < vs.length := hlength ▸ hi
  have hv : vs[i]? = some vs[i] := List.getElem?_eq_getElem hi
  refine ⟨_, hv, lookup_of_mem_of_nodup ?_ ?_⟩
  · rw [List.map_reverse, List.map_fst_zip (Nat.le_of_eq hlength.symm)]
    exact List.nodup_reverse.mpr hnodup
  · exact List.mem_reverse.mpr (List.mem_of_getElem? (List.getElem?_zip_eq_some.mpr ⟨hx, hv⟩))

theorem lookup_params_eq_none {xs : List String} (vs : List Value) {y : String} (hy : y ∉ xs) :
    (xs.zip vs).reverse.lookup y = none := by
  refine List.lookup_eq_none_iff.mpr fun p hp => ?_
  have hmem : p.1 ∈ xs := (List.of_mem_zip (List.mem_reverse.mp hp)).1
  have hne : y ≠ p.1 := fun h => hy (h ▸ hmem)
  simpa using hne

theorem exists_first_repeated {xs : List String} (h : ¬ xs.Nodup) :
    ∃ front x back, xs = front ++ x :: back ∧ front.Nodup ∧ x ∈ front := by
  induction xs using List.reverseRecOn with
  | nil => exact absurd List.nodup_nil h
  | append_singleton xs x ih =>
      by_cases hxs : xs.Nodup
      · -- Nothing is repeated before the last name, so that one is.
        refine ⟨xs, x, [], rfl, hxs, ?_⟩
        by_contra hx
        exact h (List.nodup_append_comm.mp (List.nodup_cons.mpr ⟨hx, hxs⟩))
      · obtain ⟨front, y, back, rfl, hfront, hy⟩ := ih hxs
        exact ⟨front, y, back ++ [x], by simp, hfront, hy⟩

/-! ### Binding the parameters -/

namespace Eval

variable {st : Store} {o : ScopeId} {bs : List (String × Value)}

/-- Parameters are bound one after another; the one bound last is in front. -/
theorem bindParams_append (s : ScopeId) {xs : List String} {vs : List Value}
    (hlength : vs.length = xs.length) (ys : List String) (ws : List Value) :
    bindParams s (xs ++ ys) (vs ++ ws) = bindParams s xs vs >>= fun _ => bindParams s ys ws := by
  induction xs generalizing vs with
  | nil =>
      obtain rfl := List.eq_nil_of_length_eq_zero hlength
      rfl
  | cons x xs ih =>
      cases vs with
      | nil => cases hlength
      | cons v vs =>
          simp only [List.cons_append, bindParams, bind_assoc, ih (Nat.succ.inj hlength)]

theorem bindParams_nodup {xs : List String} {vs : List Value} (hlength : vs.length = xs.length)
    (hnodup : xs.Nodup) (hfree : ∀ x ∈ xs, bs.lookup x = none) :
    bindParams st.scopes.size xs vs (st.withScope o bs) =
      .ok () (st.withScope o ((xs.zip vs).reverse ++ bs)) := by
  induction xs generalizing vs bs with
  | nil =>
      obtain rfl := List.eq_nil_of_length_eq_zero hlength
      rfl
  | cons x xs ih =>
      cases vs with
      | nil => cases hlength
      | cons v vs =>
          obtain ⟨hx, hnodup⟩ := List.nodup_cons.mp hnodup
          have hdefine : define st.scopes.size x v (st.withScope o bs) =
              .ok () (st.withScope o ((x, v) :: bs)) := by
            unfold define
            rw [Store.define_withScope (hfree x List.mem_cons_self)]
          have hfree' : ∀ y ∈ xs, ((x, v) :: bs).lookup y = none := by
            intro y hy
            have hne : (y == x) = false := beq_false_of_ne fun h => hx (h ▸ hy)
            rw [List.lookup_cons, hne]
            exact hfree y (List.mem_cons_of_mem _ hy)
          rw [bindParams, bind_ok hdefine, ih (Nat.succ.inj hlength) hnodup hfree']
          simp

theorem bindParams_repeated {front : List String} {x : String} (back : List String)
    {vs : List Value} (hlength : vs.length = (front ++ x :: back).length)
    (hnodup : front.Nodup) (hx : x ∈ front) :
    bindParams st.scopes.size (front ++ x :: back) vs (st.withScope o []) =
      .error (.failed (.alreadyDefined x)) (st.withScope o (front.zip vs).reverse) := by
  obtain ⟨vs, ws, rfl, hvs⟩ : ∃ us ws, vs = us ++ ws ∧ us.length = front.length :=
    ⟨vs.take front.length, vs.drop front.length, (List.take_append_drop _ _).symm, by
      simp [hlength]⟩
  have hzip : front.zip (vs ++ ws) = front.zip vs := by
    have happend : (front ++ []).zip (vs ++ ws) = front.zip vs ++ [].zip ws :=
      List.zip_append hvs.symm
    simpa using happend
  cases ws with
  | nil => simp [hvs] at hlength
  | cons w ws =>
      have hfront : bindParams st.scopes.size front vs (st.withScope o []) =
          .ok () (st.withScope o ((front.zip vs).reverse ++ [])) :=
        bindParams_nodup hvs hnodup fun _ _ => rfl
      obtain ⟨i, hi⟩ := List.getElem?_of_mem hx
      obtain ⟨v, -, hbound⟩ := lookup_params hvs hnodup hi
      have hx : define st.scopes.size x w (st.withScope o (front.zip vs).reverse) =
          .error (.failed (.alreadyDefined x)) (st.withScope o (front.zip vs).reverse) := by
        unfold define
        rw [Store.define_eq_error (Store.local?_withScope.trans hbound)]
      rw [bindParams_append _ hvs, bind_ok hfront, List.append_nil, hzip, bindParams]
      exact bind_error hx

theorem enter_nodup {f : Closure} {vs : List Value} (hlength : vs.length = f.params.length)
    (hnodup : f.params.Nodup) (st : Store) :
    enter f vs st = .ok st.scopes.size (st.entered f vs) := by
  have henclose : enclose f.scope st = .ok st.scopes.size (st.withScope f.scope []) := rfl
  rw [enter, bind_ok henclose, bind_ok (bindParams_nodup hlength hnodup fun _ _ => rfl),
    List.append_nil]
  rfl

theorem enter_repeated {f : Closure} {vs : List Value} {front back : List String} {x : String}
    (hlength : vs.length = f.params.length) (hparams : f.params = front ++ x :: back)
    (hnodup : front.Nodup) (hx : x ∈ front) (st : Store) :
    enter f vs st =
      .error (.failed (.alreadyDefined x)) (st.withScope f.scope (front.zip vs).reverse) := by
  have henclose : enclose f.scope st = .ok st.scopes.size (st.withScope f.scope []) := rfl
  rw [enter, bind_ok henclose, hparams]
  exact bind_error (bindParams_repeated back (hparams ▸ hlength) hnodup hx)

end Eval

/-! ### Calls -/

/-- The scope of a closure that the callee evaluates to is there when the arguments have been
evaluated. -/
theorem scope_lt_of_evaluatesEach {order : HashOrder} {depth : Nat} {e : Expr}
    {es : List Expr} {f : Closure} {vs : List Value} {st st₁ st₂ : Store} (hst : st.Intact)
    (hs : s < st.scopes.size) (he : e.eval (Eval.caller order depth) s st = .ok (.func f) st₁)
    (heach : EvaluatesEach (Eval.caller order depth) s es st₁ vs st₂) :
    f.scope < st₂.scopes.size := by
  obtain ⟨hst₁, hle, hf⟩ := intact_of_eval_eq_ok hst hs he
  have harray : (Expr.array es).eval (Eval.caller order depth) s st₁ = .ok (.array vs) st₂ :=
    Eval.bind_ok (evalEach_eq_ok_iff.mpr heach)
  obtain ⟨-, hsize, -⟩ := intact_of_eval_eq_ok hst₁ (Nat.lt_of_lt_of_le hs hle) harray
  exact Nat.lt_of_lt_of_le (Value.intact_func_iff.mp hf) hsize

/-- What a call of a closure does.

If there are not as many arguments as parameters, the call fails with both numbers, and
nothing has been done but to evaluate the callee. Otherwise the arguments are evaluated in the
scope of the call, and if one of them stops, so does the call, at once and for the same
reason.

If they have values, there are as many of them as parameters. If a parameter repeats an
earlier one, the call fails with the name of the first one that does: a scope has been made,
and nothing else. If the parameters are different, the body runs in a new scope inside the one
that the closure was made in. There, each parameter has the value at its place, and every
other name has the value that it has in the scope of the closure.

Where no further call may be nested, the call is cut off instead. -/
theorem call_protocol (order : HashOrder) (depth : Nat) (s : ScopeId) (e : Expr)
    (es : List Expr) (f : Closure) (st st₁ : Store)
    (he : e.eval (Eval.caller order depth) s st = .ok (.func f) st₁) :
    (f.params.length ≠ es.length →
      (Expr.call e es).eval (Eval.caller order depth) s st =
        .error (.failed (.arityMismatch f.params.length es.length)) st₁) ∧
    (f.params.length = es.length →
      (∀ stop st₂, EachStops (Eval.caller order depth) s es st₁ stop st₂ →
        (Expr.call e es).eval (Eval.caller order depth) s st = .error stop st₂) ∧
      ((∃ vs st₂, EvaluatesEach (Eval.caller order depth) s es st₁ vs st₂) ∨
        ∃ stop st₂, EachStops (Eval.caller order depth) s es st₁ stop st₂) ∧
      ∀ (vs : List Value) (st₂ : Store),
        EvaluatesEach (Eval.caller order depth) s es st₁ vs st₂ → vs.length = f.params.length ∧
        (depth = 0 →
          (Expr.call e es).eval (Eval.caller order depth) s st = .error .tooManyCalls st₂) ∧
        ∀ d, depth = d + 1 →
          (¬ f.params.Nodup → ∃ front x back, f.params = front ++ x :: back ∧ front.Nodup ∧
            x ∈ front ∧ (Expr.call e es).eval (Eval.caller order depth) s st =
              .error (.failed (.alreadyDefined x))
                (st₂.withScope f.scope (front.zip vs).reverse)) ∧
          (f.params.Nodup →
            (Expr.call e es).eval (Eval.caller order depth) s st =
              Eval.untilReturn (Stmt.evalBlock (Eval.caller order d) st₂.scopes.size f.body)
                (st₂.entered f vs) ∧
            (∀ (i : Nat) x, f.params[i]? = some x → ∃ v, vs[i]? = some v ∧
              (st₂.entered f vs).get? st₂.scopes.size x = some v) ∧
            (st.Intact → s < st.scopes.size → ∀ y, y ∉ f.params →
              (st₂.entered f vs).get? st₂.scopes.size y = st₂.get? f.scope y))) := by
  have hcall : (Expr.call e es).eval (Eval.caller order depth) s st =
      if f.params.length = es.length then
        (Expr.evalEach (Eval.caller order depth) s es >>= fun vs =>
          Eval.call order depth f vs) st₁
      else .error (.failed (.arityMismatch f.params.length es.length)) st₁ := by
    rw [Expr.eval, Eval.bind_ok he]
    show (if _ then _ else _ : Eval Value) st₁ = _
    split <;> rfl
  refine ⟨fun hne => hcall.trans (if_neg hne), fun hlength => ?_⟩
  -- With as many arguments as parameters, the arguments come first and then the closure.
  rw [if_pos hlength] at hcall
  rw [hcall]
  refine ⟨fun stop st₂ hstops => Eval.bind_error (evalEach_eq_error_iff_eachStops.mpr hstops),
    evaluatesEach_or_stops _ s es st₁, fun vs st₂ heach => ?_⟩
  have hvs : vs.length = f.params.length := heach.length_eq.trans hlength.symm
  rw [Eval.bind_ok (evalEach_eq_ok_iff.mpr heach)]
  refine ⟨hvs, ?_, ?_⟩
  · rintro rfl
    rfl
  · rintro d rfl
    rw [Eval.call_succ]
    refine ⟨fun hrepeated => ?_, fun hnodup => ⟨?_, fun i x hx => ?_, fun hst hs y hy => ?_⟩⟩
    · obtain ⟨front, x, back, hparams, hfront, hx⟩ := exists_first_repeated hrepeated
      exact ⟨front, x, back, hparams, hfront, hx,
        Eval.bind_error (Eval.enter_repeated hvs hparams hfront hx st₂)⟩
    · exact Eval.bind_ok (Eval.enter_nodup hvs hnodup st₂)
    · obtain ⟨v, hv, hbound⟩ := lookup_params hvs hnodup hx
      exact ⟨v, hv, Store.get?_of_local (Store.local?_withScope.trans hbound)⟩
    · have hscope := scope_lt_of_evaluatesEach hst hs he heach
      exact (Store.get?_withScope hscope).trans (by rw [lookup_params_eq_none vs hy]; rfl)

/-- `func(a, b) { return y; }`, made in the outermost scope. -/
def readingY : Closure := ⟨0, ["a", "b"], [.ret (.name "y")], 0⟩

/-- An outermost scope that binds `f` to `readingY`, and these names. -/
def calleeStore (bindings : List (String × Value)) : Store where
  scopes := #[⟨none, bindings ++ [("f", .func readingY)]⟩]
  closures := 1
  printed := #[]

/-- In `f(if (true) { var y = 7; }, 2)` the first argument has the value null and binds `y`
where the call stands, which is also where `f` was made. So the body sees it. -/
theorem call_protocol_binding_argument :
    (Expr.call (.name "f") [.cond (.bool true) [.var "y" (.int 7)] none, .int 2]).eval
        (Eval.caller HashOrder.byKey 1) 0 (calleeStore []) =
      .ok (.int 7) ((calleeStore [("y", .int 7)]).entered readingY [.null, .int 2]) ∧
    ((calleeStore [("y", .int 7)]).entered readingY [.null, .int 2]).get? 1 "b" =
      some (.int 2) ∧
    ((calleeStore [("y", .int 7)]).entered readingY [.null, .int 2]).get? 1 "y" =
      (calleeStore [("y", .int 7)]).get? 0 "y" := by
  have hcallee : (Expr.name "f").eval (Eval.caller HashOrder.byKey 1) 0 (calleeStore []) =
      .ok (.func readingY) (calleeStore []) := by
    cbv
  have heach : EvaluatesEach (Eval.caller HashOrder.byKey 1) 0
      [.cond (.bool true) [.var "y" (.int 7)] none, .int 2] (calleeStore []) [.null, .int 2]
      (calleeStore [("y", .int 7)]) :=
    .cons (by cbv) (.cons rfl .nil)
  have hstore : (calleeStore []).Intact := by
    have houtermost : (Store.empty.newScope none).2.Intact :=
      Store.intact_empty.newScope (by simp)
    have hf : (Value.func readingY).Intact (Store.empty.newScope none).2.scopes.size :=
      Value.intact_func_iff.mpr Nat.zero_lt_one
    exact (houtermost.define hf (@Store.define_eq_ok _ 0 "f" rfl _)).of_scopes_eq rfl
  obtain ⟨-, -, hcall⟩ := (call_protocol _ _ _ _
    [.cond (.bool true) [.var "y" (.int 7)] none, .int 2] _ _ _ hcallee).2 rfl
  obtain ⟨hbody, hparams, hothers⟩ := ((hcall _ _ heach).2.2 0 rfl).2 (by decide)
  refine ⟨hbody.trans (by cbv), ?_, hothers hstore Nat.zero_lt_one "y" (by decide)⟩
  obtain ⟨v, hv, hb⟩ := hparams 1 "b" rfl
  cases hv
  exact hb

end ScriptLang
