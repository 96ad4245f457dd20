import ScriptLang.Interpreter
import ScriptLang.Proofs.Eval.Fragment
import ScriptLang.Proofs.Store.Lookup
import ScriptLang.Proofs.Value.Correspondence

/-!
Two runs that go the same way. A `Simulation` relates the values and the stores of two
runs. What has to be known of it is how it fares with the few things that a run does to a
store: it looks names up and binds them, it makes scopes for calls, it makes closures and
it prints. Then everything that is evaluated from related stores ends alike, in related
stores, and with related values (`Simulation.Related`): the tree of the program is gone
through here, once for all simulations.

The values of a later step may rely on scopes that an earlier step has made. So relations
of values are given the number of scopes that there are, and the conditions on the
second of two steps are stated for every number that the first one may lead to.

The second run may be one of another program, with other names, from another store. Or
both are the same run: then a simulation is what the run keeps (`Invariant`).
-/

namespace ScriptLang

/-! ### Renamed fragments -/

def Fragment.rename (r : Renaming) : Fragment → Fragment
  | .expr e => .expr (e.rename r)
  | .stmt a => .stmt (a.rename r)
  | .block b => .block (Stmt.renameAll r b)

theorem Expr.rename_cond (r : Renaming) (e : Expr) (t : Block) (a : Option Block) :
    (Expr.cond e t a).rename r =
      .cond (e.rename r) (Stmt.renameAll r t) (a.map (Stmt.renameAll r)) := by
  cases a <;> rfl

theorem Fragment.rename_refl (n : Fragment) : n.rename .refl = n := by
  cases n with
  | expr e => exact congrArg Fragment.expr e.rename_refl
  | stmt a => exact congrArg Fragment.stmt a.rename_refl
  | block b => exact congrArg Fragment.block (Stmt.renameAll_refl b)

/-! ### Related steps -/

inductive Correspondence.Stops (C : Correspondence) (n : Nat) : Stop → Stop → Prop
  | returned {v w : Value} : C.value n v w → Stops C n (.returned v) (.returned w)
  | failed {e e' : RuntimeError} : C.Errors n e e' → Stops C n (.failed e) (.failed e')
  | tooManyCalls : Stops C n .tooManyCalls .tooManyCalls

theorem Correspondence.Stops.mono {C : Correspondence} {n m : Nat} {stop stop' : Stop}
    (h : C.Stops n stop stop') (hle : n ≤ m) : C.Stops m stop stop' := by
  cases h with
  | returned hv => exact .returned (C.mono hv hle)
  | failed he => exact .failed (he.mono hle)
  | tooManyCalls => exact .tooManyCalls

/-- A correspondence of values with the stores that belong together, and the scopes in
which both runs may work. -/
structure Simulation extends Correspondence where
  scope : Nat → ScopeId → Prop
  store : Store → Store → Prop
  scope_mono : ∀ {n m : Nat} {s : ScopeId}, scope n s → n ≤ m → scope m s
  size_eq : ∀ {st st' : Store}, store st st' → st'.scopes.size = st.scopes.size
  get? : ∀ {st st' : Store} {s : ScopeId}, store st st' → scope st.scopes.size s →
    ∀ x, Option.Rel (value st.scopes.size) (st.get? s x) (st'.get? s (rename x))
  define : ∀ {st st' : Store} {s : ScopeId} {v w : Value}, store st st' →
    scope st.scopes.size s → ∀ x, value st.scopes.size v w →
      toCorrespondence.Results st.scopes.size store (st.define s x v)
        (st'.define s (rename x) w)
  enclose : ∀ {st st' : Store} {f g : Closure}, store st st' →
    value st.scopes.size (.func f) (.func g) →
      scope (st.scopes.size + 1) st.scopes.size ∧
        store (st.newScope (some f.scope)).2 (st'.newScope (some f.scope)).2
  newClosure : ∀ {st st' : Store} {s : ScopeId}, store st st' → scope st.scopes.size s →
    ∀ params body,
      value st.scopes.size (.func (st.newClosure params body s).1)
          (.func (st'.newClosure (params.map rename) (Stmt.renameAll rename body) s).1) ∧
        store (st.newClosure params body s).2
          (st'.newClosure (params.map rename) (Stmt.renameAll rename body) s).2
  print : ∀ {st st' : Store} {v w : Value}, store st st' → value st.scopes.size v w →
    store (st.print v) (st'.print w)

namespace Simulation

/-- Two steps have ended alike in related stores that have so many scopes or more. Their
results are related, as it is fit for the number of scopes that there are now. -/
inductive Ends {α : Type} (S : Simulation) (n : Nat) (R : Nat → α → α → Prop) :
    EStateM.Result Stop Store α → EStateM.Result Stop Store α → Prop
  | ok {a b : α} {st st' : Store} : S.store st st' → n ≤ st.scopes.size →
      R st.scopes.size a b → Ends S n R (.ok a st) (.ok b st')
  | error {stop stop' : Stop} {st st' : Store} : S.store st st' → n ≤ st.scopes.size →
      S.Stops st.scopes.size stop stop' → Ends S n R (.error stop st) (.error stop' st')

/-- From related stores that have so many scopes or more, the two steps end alike. -/
def Related {α : Type} (S : Simulation) (n : Nat) (R : Nat → α → α → Prop)
    (r r' : Eval α) : Prop :=
  ∀ st st', S.store st st' → n ≤ st.scopes.size → S.Ends n R (r st) (r' st')

theorem Ends.anti {α : Type} {S : Simulation} {n m : Nat} {R : Nat → α → α → Prop}
    {result result' : EStateM.Result Stop Store α} (h : S.Ends m R result result')
    (hle : n ≤ m) : S.Ends n R result result' := by
  cases h with
  | ok hst hm hab => exact .ok hst (Nat.le_trans hle hm) hab
  | error hst hm hstop => exact .error hst (Nat.le_trans hle hm) hstop

theorem forall₂_mono {S : Simulation} {n m : Nat} {vs ws : List Value}
    (h : List.Forall₂ (S.value n) vs ws) (hle : n ≤ m) : List.Forall₂ (S.value m) vs ws :=
  h.imp fun _ _ hv => S.mono hv hle

end Simulation

namespace Eval

open Correspondence Simulation

section

variable {α β : Type} {S : Simulation} {n : Nat} {R : Nat → α → α → Prop}
  {Q : Nat → β → β → Prop} {s : ScopeId} {v w : Value} {vs ws : List Value}

/-! ### Single steps -/

theorem related_pure {a b : α} (h : ∀ m, n ≤ m → R m a b) :
    S.Related n R (pure a) (pure b) :=
  fun _ _ hst hn => .ok hst hn (h _ hn)

theorem related_value (h : S.value n v w) : S.Related n S.value (pure v) (pure w) :=
  related_pure fun _ hm => S.mono h hm

theorem related_throw {stop stop' : Stop} (h : S.Stops n stop stop') :
    S.Related n R (throw stop) (throw stop') :=
  fun _ _ hst hn => .error hst hn (h.mono hn)

theorem related_fail {e e' : RuntimeError} (h : S.Errors n e e') :
    S.Related n R (fail e) (fail e') :=
  related_throw (.failed h)

theorem related_ofExcept {P : α → α → Prop} {x x' : Except RuntimeError α}
    (h : S.Results n P x x') (hR : ∀ m a b, n ≤ m → P a b → R m a b) :
    S.Related n R (ofExcept x) (ofExcept x') := by
  cases h with
  | ok hab => exact related_pure fun m hm => hR m _ _ hm hab
  | error he => exact related_fail he

theorem related_result {x x' : Except RuntimeError Value}
    (h : S.Results n (S.value n) x x') : S.Related n S.value (ofExcept x) (ofExcept x') :=
  related_ofExcept h fun _ _ _ hm hv => S.mono hv hm

/-- The second step may rely on all that the first one has made. -/
theorem related_bind {r r' : Eval α} {f f' : α → Eval β} (h : S.Related n R r r')
    (hf : ∀ m a b, n ≤ m → R m a b → S.Related m Q (f a) (f' b)) :
    S.Related n Q (r >>= f) (r' >>= f') := by
  intro st st' hst hn
  have hends := h st st' hst hn
  rw [bind_run, bind_run]
  generalize r st = e at hends
  generalize r' st' = e' at hends
  cases hends with
  | ok hst hn hab => exact (hf _ _ _ hn hab _ _ hst (Nat.le_refl _)).anti hn
  | error hst hn hstop => exact .error hst hn hstop

theorem related_enclose {f g : Closure} (h : S.value n (.func f) (.func g)) :
    S.Related n (fun m i j => i = j ∧ S.scope m i) (enclose f.scope) (enclose g.scope) := by
  intro st st' hst hn
  obtain ⟨hscope, hnew⟩ := S.enclose hst (S.mono h hn)
  rw [S.scope_eq h]
  refine .ok hnew ?_ ⟨(S.size_eq hst).symm, ?_⟩
  · show n ≤ (st.newScope (some f.scope)).2.scopes.size
    rw [Store.size_newScope]
    exact Nat.le_succ_of_le hn
  · show S.scope (st.newScope (some f.scope)).2.scopes.size st.scopes.size
    rw [Store.size_newScope]
    exact hscope

theorem related_define (hs : S.scope n s) (x : String) (h : S.value n v w) :
    S.Related n (fun _ _ _ => True) (define s x v) (define s (S.rename x) w) := by
  intro st st' hst hn
  have hdefine := S.define hst (S.scope_mono hs hn) x (S.mono h hn)
  unfold define
  cases hleft : st.define s x v with
  | ok st₁ =>
      rw [hleft] at hdefine
      generalize st'.define s (S.rename x) w = e at hdefine
      cases hdefine with
      | ok hst₁ => exact .ok hst₁ (Store.size_define hleft ▸ hn) trivial
  | error e =>
      rw [hleft] at hdefine
      generalize st'.define s (S.rename x) w = e' at hdefine
      cases hdefine with
      | error he => exact .error hst hn (.failed he)

theorem related_newClosure (hs : S.scope n s) (params : List String) (body : Block) :
    S.Related n S.value (newClosure params body s)
      (newClosure (params.map S.rename) (Stmt.renameAll S.rename body) s) := by
  intro st st' hst hn
  obtain ⟨hvalue, hnew⟩ := S.newClosure hst (S.scope_mono hs hn) params body
  exact .ok hnew hn hvalue

theorem related_print (h : S.value n v w) :
    S.Related n (fun _ _ _ => True) (print v) (print w) :=
  fun _ _ hst hn => .ok (S.print hst (S.mono h hn)) hn trivial

theorem related_untilReturn {r r' : Eval α} (h : S.Related n R r r') :
    S.Related n S.value (untilReturn r) (untilReturn r') := by
  intro st st' hst hn
  have hends := h st st' hst hn
  unfold untilReturn
  generalize r st = e at hends
  generalize r' st' = e' at hends
  cases hends with
  | ok hst hn _ => exact .ok hst hn (S.atom rfl)
  | error hst hn hstop =>
      cases hstop with
      | returned hv => exact .ok hst hn hv
      | failed he => exact .error hst hn (.failed he)
      | tooManyCalls => exact .error hst hn .tooManyCalls

theorem related_lookUp (hs : S.scope n s) (x : String) :
    S.Related n S.value (lookUp s x) (lookUp s (S.rename x)) := by
  refine related_bind
    (R := fun m a b => Option.Rel (S.value m) (a.get? s x) (b.get? s (S.rename x)))
    (fun _ _ hst hn => .ok hst hn (S.get? hst (S.scope_mono hs hn) x)) fun m a b _ hab => ?_
  rw [Builtin.named?_rename]
  generalize a.get? s x = found at hab
  generalize b.get? s (S.rename x) = found' at hab
  cases hab with
  | some hv => exact related_value hv
  | none =>
      cases Builtin.named? x with
      | some b => exact related_value (S.atom rfl)
      | none => exact related_fail (.unknownIdentifier x)

theorem related_printAll (h : List.Forall₂ (S.value n) vs ws) :
    S.Related n (fun _ _ _ => True) (Builtin.printAll vs) (Builtin.printAll ws) := by
  induction vs generalizing n ws with
  | nil =>
      cases h
      exact related_pure fun _ _ => trivial
  | cons v vs ih =>
      cases h with
      | cons hv hvs =>
          exact related_bind (related_print hv) fun _ _ _ hm _ => ih (forall₂_mono hvs hm)

theorem related_callBuiltin (b : Builtin) (h : List.Forall₂ (S.value n) vs ws) :
    S.Related n S.value (b.call vs) (b.call ws) := by
  cases b with
  | len => exact related_result (results_length h)
  | first => exact related_result (results_firstItem h)
  | last => exact related_result (results_lastItem h)
  | rest => exact related_result (results_otherItems h)
  | push => exact related_result (results_withItem h)
  | puts =>
      exact related_bind (related_printAll h) fun _ _ _ _ _ => related_value (S.atom rfl)

theorem related_bindParams (hs : S.scope n s) (xs : List String)
    (h : List.Forall₂ (S.value n) vs ws) :
    S.Related n (fun _ _ _ => True) (bindParams s xs vs)
      (bindParams s (xs.map S.rename) ws) := by
  induction xs generalizing n vs ws with
  | nil => exact related_pure fun _ _ => trivial
  | cons x xs ih =>
      cases h with
      | nil => exact related_pure fun _ _ => trivial
      | cons hv hvs =>
          exact related_bind (related_define hs x hv) fun _ _ _ hm _ =>
            ih (S.scope_mono hs hm) (forall₂_mono hvs hm)

theorem related_branch {r r' t t' : Eval α} (htrue : S.Related n R r r')
    (hfalse : S.Related n R t t') :
    S.value n v w → S.Related n R
      (match v with
        | .bool true => r
        | .bool false => t
        | v => Eval.fail (.nonBooleanCondition (v.display S.order) v.type))
      (match w with
        | .bool true => r'
        | .bool false => t'
        | v => Eval.fail (.nonBooleanCondition (v.display S.order') v.type)) := by
  intro h
  have hfail : S.Related n R (Eval.fail (.nonBooleanCondition (v.display S.order) v.type))
      (Eval.fail (.nonBooleanCondition (w.display S.order') w.type)) := by
    rw [type_eq h]
    exact related_fail (.nonBooleanCondition h)
  cases S.layer h with
  | bool b =>
      cases b with
      | true => exact htrue
      | false => exact hfalse
  | _ => exact hfail

end

/-! ### Rows -/

section

variable {S : Simulation} {call call' : Closure → List Value → Eval Value} {n : Nat}
  {s : ScopeId}

theorem related_evalEach {es : List Expr}
    (hes : ∀ e ∈ es, ∀ m, n ≤ m →
      S.Related m S.value (e.eval ⟨S.order, call⟩ s)
        ((e.rename S.rename).eval ⟨S.order', call'⟩ s)) :
    S.Related n (fun m => List.Forall₂ (S.value m)) (Expr.evalEach ⟨S.order, call⟩ s es)
      (Expr.evalEach ⟨S.order', call'⟩ s (Expr.renameEach S.rename es)) := by
  induction es generalizing n with
  | nil => exact related_pure fun _ _ => .nil
  | cons e es ih =>
      obtain ⟨he, hes⟩ := List.forall_mem_cons.mp hes
      refine related_bind (he n (Nat.le_refl n)) fun m v w hm hv => ?_
      refine related_bind (ih fun e he m' hm' => hes e he m' (Nat.le_trans hm hm'))
        fun m' vs ws hm' hvs => ?_
      exact related_pure fun k hk =>
        .cons (S.mono hv (Nat.le_trans hm' hk)) (forall₂_mono hvs hk)

/-- A table that pairs are added to is the table of a hash all the time. -/
theorem related_evalPairs {ps : List (Expr × Expr)} {t t' : Table Value}
    (hps : ∀ p ∈ ps,
      (∀ m, n ≤ m → S.Related m S.value (p.1.eval ⟨S.order, call⟩ s)
        ((p.1.rename S.rename).eval ⟨S.order', call'⟩ s)) ∧
      ∀ m, n ≤ m → S.Related m S.value (p.2.eval ⟨S.order, call⟩ s)
        ((p.2.rename S.rename).eval ⟨S.order', call'⟩ s))
    (ht : S.value n (.hash t) (.hash t')) :
    S.Related n (fun m t t' => S.value m (.hash t) (.hash t'))
      (Expr.evalPairs ⟨S.order, call⟩ s ps t)
      (Expr.evalPairs ⟨S.order', call'⟩ s (Expr.renamePairs S.rename ps) t') := by
  induction ps generalizing n t t' with
  | nil => exact related_pure fun _ hm => S.mono ht hm
  | cons p ps ih =>
      obtain ⟨⟨hkey, hvalue⟩, hps⟩ := List.forall_mem_cons.mp hps
      refine related_bind (hkey n (Nat.le_refl n)) fun m₁ v w h₁ hv => ?_
      refine related_bind (related_ofExcept (R := fun _ => Eq) (results_asKey hv)
        fun _ _ _ _ => id) fun m₂ k _ h₂ hk => ?_
      subst hk
      have hm₂ : n ≤ m₂ := Nat.le_trans h₁ h₂
      refine related_bind (hvalue m₂ hm₂) fun m₃ v' w' h₃ hv' => ?_
      have hm₃ : n ≤ m₃ := Nat.le_trans hm₂ h₃
      refine ih (fun q hq => ?_) (S.insert k (S.mono ht hm₃) hv')
      exact ⟨fun m hm => (hps q hq).1 m (Nat.le_trans hm₃ hm),
        fun m hm => (hps q hq).2 m (Nat.le_trans hm₃ hm)⟩

theorem related_evalBlock {b : Block}
    (hb : ∀ a ∈ b, ∀ m, n ≤ m →
      S.Related m S.value (a.eval ⟨S.order, call⟩ s)
        ((a.rename S.rename).eval ⟨S.order', call'⟩ s)) :
    S.Related n S.value (Stmt.evalBlock ⟨S.order, call⟩ s b)
      (Stmt.evalBlock ⟨S.order', call'⟩ s (Stmt.renameAll S.rename b)) := by
  induction b generalizing n with
  | nil => exact related_value (S.atom rfl)
  | cons a b ih =>
      obtain ⟨ha, hb⟩ := List.forall_mem_cons.mp hb
      cases b with
      | nil => exact ha n (Nat.le_refl n)
      | cons next b =>
          exact related_bind (ha n (Nat.le_refl n)) fun m _ _ hm _ =>
            ih fun a ha m' hm' => hb a ha m' (Nat.le_trans hm hm')

/-! ### Trees -/

/-- A fragment is evaluated alike in a scope in which both runs may work, if closures are
called alike. -/
theorem related_eval
    (hcall : ∀ n f g vs ws, S.value n (.func f) (.func g) → List.Forall₂ (S.value n) vs ws →
      S.Related n S.value (call f vs) (call' g ws))
    (node : Fragment) (hs : S.scope n s) :
    S.Related n S.value (node.eval ⟨S.order, call⟩ s)
      ((node.rename S.rename).eval ⟨S.order', call'⟩ s) := by
  induction node using Fragment.induction generalizing n with
  | name x => exact related_lookUp hs x
  | int | str | bool => exact related_value (S.atom rfl)
  | unary op e he =>
      exact related_bind (he hs) fun _ _ _ _ hv => related_result (results_applyUnary op hv)
  | binary op l r hl hr =>
      refine related_bind (hl hs) fun m v w hm hv => ?_
      refine related_bind (hr (S.scope_mono hs hm)) fun m' v' w' hm' hv' => ?_
      exact related_result (results_applyBinary op (S.mono hv hm') hv')
  | cond e t a he ht ha =>
      simp only [Fragment.eval, Fragment.rename, Expr.rename_cond, Expr.eval_cond]
      refine related_bind (he hs) fun m v w hm hv => ?_
      refine related_branch (ht (S.scope_mono hs hm)) ?_ hv
      cases a with
      | none => exact related_value (S.atom rfl)
      | some b => exact ha b rfl (S.scope_mono hs hm)
  | func xs b _ => exact related_newClosure hs xs b
  | call e es he hes =>
      refine related_bind (he hs) fun m v w hm hv => ?_
      have hrow := related_evalEach fun e he m' (hm' : m ≤ m') =>
        hes e he (S.scope_mono hs (Nat.le_trans hm hm'))
      have hfail : S.Related m S.value (Eval.fail (.notCallable (v.display S.order) v.type))
          (Eval.fail (.notCallable (w.display S.order') w.type)) := by
        rw [type_eq hv]
        exact related_fail (.notCallable hv)
      cases S.layer hv with
      | builtin b => exact related_bind hrow fun _ _ _ _ hvs => related_callBuiltin b hvs
      -- Renaming keeps the number of parameters, so both runs accept the arguments or neither does.
      | func f g =>
          simp only [S.params_eq hv, List.length_map, Expr.renameEach_eq_map]
          split
          · rw [← Expr.renameEach_eq_map]
            exact related_bind hrow fun m' vs ws hm' hvs => hcall m' f g vs ws (S.mono hv hm') hvs
          · exact related_fail (.same rfl)
      | _ => exact hfail
  | array es hes =>
      refine related_bind (related_evalEach fun e he m hm => hes e he (S.scope_mono hs hm)) ?_
      exact fun _ _ _ _ hvs => related_value (S.array hvs)
  | index e i he hi =>
      refine related_bind (he hs) fun m v w hm hv => ?_
      refine related_bind (hi (S.scope_mono hs hm)) fun m' v' w' hm' hv' => ?_
      exact related_result (results_atIndex (S.mono hv hm') hv')
  | hash ps hps =>
      refine related_bind (related_evalPairs (fun p hp => ?_) (S.hash_nil n))
        fun _ _ _ _ ht => related_value ht
      exact ⟨fun m hm => (hps p hp).1 (S.scope_mono hs hm),
        fun m hm => (hps p hp).2 (S.scope_mono hs hm)⟩
  | var x e he =>
      refine related_bind (he hs) fun m v w hm hv => ?_
      exact related_bind (related_define (S.scope_mono hs hm) x hv) fun _ _ _ _ _ =>
        related_value (S.atom rfl)
  | ret e he => exact related_bind (he hs) fun _ _ _ _ hv => related_throw (.returned hv)
  | expr e he => exact he hs
  | block b hb => exact related_evalBlock fun a ha m hm => hb a ha (S.scope_mono hs hm)

end

/-! ### Calls and runs -/

/-- Related closures are called alike, at whatever depth: both calls make a scope, bind the
parameters there and run the body in it. -/
theorem related_call (S : Simulation) (depth : Nat) {n : Nat} {f g : Closure}
    {vs ws : List Value} (h : S.value n (.func f) (.func g))
    (hvs : List.Forall₂ (S.value n) vs ws) :
    S.Related n S.value (call S.order depth f vs) (call S.order' depth g ws) := by
  -- The calls in the body are nested one level less deep, which is all the induction is on.
  induction depth generalizing n f g vs ws with
  | zero => exact related_throw .tooManyCalls
  | succ depth ih =>
      unfold call
      rw [S.params_eq h, S.body_eq h]
      refine related_bind (related_enclose h) ?_
      rintro m s _ hm ⟨rfl, hs⟩
      refine related_bind (related_bindParams hs f.params (forall₂_mono hvs hm))
        fun m' _ _ hm' _ => ?_
      exact related_untilReturn
        (related_eval (fun _ _ _ _ _ => ih) (.block f.body) (S.scope_mono hs hm'))

end Eval

namespace Simulation

variable (S : Simulation) {n : Nat}

theorem eval (depth : Nat) {s : ScopeId} (hs : S.scope n s) (node : Fragment) :
    S.Related n S.value (node.eval (Eval.caller S.order depth) s)
      ((node.rename S.rename).eval (Eval.caller S.order' depth) s) :=
  Eval.related_eval (fun _ _ _ _ _ => Eval.related_call S depth) node hs

/-- If all names are kept, it is the same fragment that is evaluated alike. -/
theorem eval_of_refl (hS : S.rename = .refl) (depth : Nat) {s : ScopeId} (hs : S.scope n s)
    (node : Fragment) :
    S.Related n S.value (node.eval (Eval.caller S.order depth) s)
      (node.eval (Eval.caller S.order' depth) s) := by
  have h := S.eval depth hs node
  rwa [hS, Fragment.rename_refl] at h

end Simulation

/-! ### Runs -/

inductive Correspondence.Outcomes (C : Correspondence) (n : Nat) : Outcome → Outcome → Prop
  | value {v w : Value} : C.value n v w → Outcomes C n (.value v) (.value w)
  | error {e e' : RuntimeError} : C.Errors n e e' → Outcomes C n (.error e) (.error e')
  | tooManyCalls : Outcomes C n .tooManyCalls .tooManyCalls

/-- Runs of a program, and of the renamed program, end alike from related stores. -/
theorem Simulation.run (S : Simulation) (depth : Nat) {st st' : Store} {s : ScopeId}
    (hst : S.store st st') (hs : S.scope st.scopes.size s) (p : Program) :
    let final := Program.run ⟨S.order, depth⟩ s p st
    let final' := Program.run ⟨S.order', depth⟩ s (Stmt.renameAll S.rename p) st'
    S.store final.2 final'.2 ∧ st.scopes.size ≤ final.2.scopes.size ∧
      S.Outcomes final.2.scopes.size final.1 final'.1 := by
  have hends := S.eval depth hs (.block p) st st' hst (Nat.le_refl _)
  simp only [Fragment.eval, Fragment.rename] at hends
  unfold Program.run
  simp only
  generalize Stmt.evalBlock (Eval.caller S.order depth) s p st = e at hends ⊢
  generalize Stmt.evalBlock (Eval.caller S.order' depth) s (Stmt.renameAll S.rename p) st' = e'
    at hends ⊢
  cases hends with
  | ok hst hn hv => exact ⟨hst, hn, .value hv⟩
  | error hst hn hstop =>
      cases hstop with
      | returned hv => exact ⟨hst, hn, .value hv⟩
      | failed he => exact ⟨hst, hn, .error he⟩
      | tooManyCalls => exact ⟨hst, hn, .tooManyCalls⟩

/-- If all names are kept, both runs are runs of the same program. -/
theorem Simulation.run_of_refl (S : Simulation) (hS : S.rename = .refl) (depth : Nat)
    {st st' : Store} {s : ScopeId} (hst : S.store st st') (hs : S.scope st.scopes.size s)
    (p : Program) :
    let final := Program.run ⟨S.order, depth⟩ s p st
    let final' := Program.run ⟨S.order', depth⟩ s p st'
    S.store final.2 final'.2 ∧ st.scopes.size ≤ final.2.scopes.size ∧
      S.Outcomes final.2.scopes.size final.1 final'.1 := by
  have h := S.run depth hst hs p
  rwa [hS, Stmt.renameAll_refl] at h

end ScriptLang
