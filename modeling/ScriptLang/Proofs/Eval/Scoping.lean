import ScriptLang.Proofs.Eval.Simulation
import ScriptLang.Proofs.Store.Agreement

/-!
Scoping is lexical: what a run does depends on nothing but the scopes that can be reached
from its own, outward and through the closures that are bound there. Two stores may differ
in every other scope, in particular in that of a caller, and the runs still end alike.

The two runs work in shared scopes, and their values and stores correspond all along. What
corresponds is fixed at the beginning (`Matching`), since scopes that are made on the way
count as shared from the outset. A call works in a scope inside that of the closure, which
is shared, and nothing of the scope of the caller is seen from there.
-/

namespace ScriptLang

inductive Stop.Like (M : Matching) : Stop → Stop → Prop
  | returned {v w : Value} : v.Like M w → Stop.Like M (.returned v) (.returned w)
  | failed (e : RuntimeError) : Stop.Like M (.failed e) (.failed e)
  | tooManyCalls : Stop.Like M .tooManyCalls .tooManyCalls

def Matching.simulation (M : Matching) (order : HashOrder) (before before' : List Value) :
    Simulation where
  toCorrespondence := M.correspondence order
  scope _ := M.shared
  store := Store.Like M before before'
  scope_mono h _ := h
  size_eq h := h.size_eq.symm
  get? h hs x := h.get? hs x
  define h hs x hv := h.define hs order _ x hv
  enclose h hf := by
    cases hf with
    | func hf => exact ⟨h.shared_new _ (Nat.le_refl _), h.newScope hf.shared⟩
  newClosure {st st' s} h hs params body := by
    show Value.Like M (.func (st.newClosure params body s).1)
        (.func (st'.newClosure (params.map Renaming.refl) (Stmt.renameAll .refl body) s).1) ∧
      Store.Like M before before' (st.newClosure params body s).2
        (st'.newClosure (params.map Renaming.refl) (Stmt.renameAll .refl body) s).2
    rw [Renaming.map_refl, Stmt.renameAll_refl]
    obtain ⟨hclosure, hlike⟩ := h.newClosure hs params body
    exact ⟨.func hclosure, hlike⟩
  print h hv := h.print hv

/-! ### Whole evaluations -/

def Eval.ending (r : Eval Value) (st : Store) : Except Stop Value :=
  match r st with
  | .ok v _ => .ok v
  | .error stop _ => .error stop

def Eval.course (r : Eval Value) (st : Store) : Except Stop Value × Store :=
  (r.ending st, r.after st)

/-- An outcome as the ending of a step. A program that ends with a `return` has a value. -/
def Outcome.ending : Outcome → Except Stop Value
  | .value v => .ok v
  | .error e => .error (.failed e)
  | .tooManyCalls => .error .tooManyCalls

def Program.course (settings : Settings) (s : ScopeId) (p : Program) (st : Store) :
    Except Stop Value × Store :=
  ((Program.run settings s p st).1.ending, (Program.run settings s p st).2)

/-- Two endings are the same: both have corresponding values, or both have stopped for the
same reason. -/
inductive EndingLike (M : Matching) : Except Stop Value → Except Stop Value → Prop
  | value {v w : Value} : v.Like M w → EndingLike M (.ok v) (.ok w)
  | stop {stop stop' : Stop} : stop.Like M stop' → EndingLike M (.error stop) (.error stop')

/-- The value that an evaluation ends with, or hands to the call around it. -/
def endingValue? : Except Stop Value → Option Value
  | .ok v => some v
  | .error (.returned v) => some v
  | .error _ => none

/-- An evaluation takes the same course from two stores: it ends the same way, prints the
same text, and leaves stores that agree on what can be reached from the roots and from the
value that it ends with. -/
structure SameCourse (same : Nat → Nat → Prop) (roots : ScopeId → Prop) (st st' : Store)
    (course course' : Except Stop Value × Store) : Prop where
  ending : EndingLike (.upTo same) course.1 course'.1
  printed : ∀ order, printedText order (st.printedSince course.2) =
    printedText order (st'.printedSince course'.2)
  agree : course.2.Agree same
    (fun i => roots i ∨ ∃ v, endingValue? course.1 = some v ∧ v.Captures i) course'.2

open Eval Correspondence

section

variable {same : Nat → Nat → Prop} {roots : ScopeId → Prop} {st st' fin fin' : Store}

theorem printedText_eq {M : Matching} {vs ws : List Value} (h : Value.LikeItems M vs ws)
    (order : HashOrder) : printedText order vs = printedText order ws := by
  unfold printedText
  congr 1
  refine List.ext_getElem? fun i => ?_
  rw [List.getElem?_mapIdx, List.getElem?_mapIdx]
  have hvalue := getElem?_of_forall₂ (Value.likeItems_iff.mp h) i
  generalize vs[i]? = a at hvalue
  generalize ws[i]? = b at hvalue
  cases hvalue with
  | none => rfl
  | some hv => rw [Option.map_some, Option.map_some, hv.display_eq]

/-- What holds of corresponding stores, seen from the roots and from the value of the
run. -/
theorem Store.Like.sameCourse {e e' : Except Stop Value}
    (h : fin.Like (.reached same st roots) st.printed.toList st'.printed.toList fin')
    (hends : EndingLike (.reached same st roots) e e') :
    SameCourse same roots st st' (e, fin) (e', fin') := by
  refine ⟨?_, fun order => ?_, h.agree fun i hi => ?_⟩
  · cases hends with
    | value hv => exact .value hv.upTo
    | stop hstop =>
        cases hstop with
        | returned hv => exact .stop (.returned hv.upTo)
        | failed e => exact .stop (.failed e)
        | tooManyCalls => exact .stop .tooManyCalls
  · obtain ⟨out, out', hout, hout', hlike⟩ := h.printed
    simp only [Store.printedSince, hout, hout', ← Array.length_toList, List.drop_left]
    exact printedText_eq hlike order
  -- What can be reached in the end starts from the roots, or from the value of the run, which
  -- captures shared scopes only.
  · rcases hi with hroot | ⟨v, hv, hcaptures⟩
    · exact .inl (.root hroot)
    · cases hends with
      | value hlike =>
          cases hv
          exact hlike.shared_of_captures hcaptures
      | stop hstop =>
          cases hstop with
          | returned hlike =>
              cases hv
              exact hlike.shared_of_captures hcaptures
          | failed e => cases hv
          | tooManyCalls => cases hv

/-- What the runs share from two stores that agree on what can be reached from the roots. -/
def Simulation.ofAgreement (order : HashOrder) (same : Nat → Nat → Prop)
    (roots : ScopeId → Prop) (st st' : Store) : Simulation :=
  (Matching.reached same st roots).simulation order st.printed.toList st'.printed.toList

theorem Eval.sameCourse {order : HashOrder} {r r' : Eval Value} (h : st.Agree same roots st')
    (hr : (Simulation.ofAgreement order same roots st st').Related st.scopes.size
      (Simulation.ofAgreement order same roots st st').value r r') :
    SameCourse same roots st st' (r.course st) (r'.course st') := by
  have hends := hr st st' h.like (Nat.le_refl _)
  unfold course ending after
  generalize r st = e at hends
  generalize r' st' = e' at hends
  cases hends with
  | ok hst _ hv => exact hst.sameCourse (.value hv)
  | error hst _ hstop =>
      cases hstop with
      | returned hv => exact hst.sameCourse (.stop (.returned hv))
      | failed he =>
          rw [he.eq]
          exact hst.sameCourse (.stop (.failed _))
      | tooManyCalls => exact hst.sameCourse (.stop .tooManyCalls)

theorem Program.sameCourse {s : ScopeId} (settings : Settings) (h : st.Agree same (· = s) st')
    (p : Program) : SameCourse same (· = s) st st' (Program.course settings s p st)
      (Program.course settings s p st') := by
  have hs : (Simulation.ofAgreement settings.order same (· = s) st st').scope
      st.scopes.size s := .inl (.root rfl)
  obtain ⟨hst, -, hends⟩ := (Simulation.ofAgreement settings.order same (· = s) st
    st').run_of_refl rfl settings.callDepth h.like hs p
  change Correspondence.Outcomes _ _ (Program.run settings s p st).1
    (Program.run settings s p st').1 at hends
  refine hst.sameCourse ?_
  show EndingLike _ (Program.run settings s p st).1.ending (Program.run settings s p st').1.ending
  generalize (Program.run settings s p st).1 = outcome at hends
  generalize (Program.run settings s p st').1 = outcome' at hends
  cases hends with
  | value hv => exact .value hv
  | error he =>
      rw [he.eq]
      exact .stop (.failed _)
  | tooManyCalls => exact .stop .tooManyCalls

theorem Store.agree_of_scopes_eq (hsize : st.scopes.size = st'.scopes.size)
    (hscopes : ∀ i, st.Reaches roots i → st.scopes[i]? = st'.scopes[i]?)
    (hsame : ∀ i, same i i) (hnew : ∀ k, same (st.closures + k) (st'.closures + k)) :
    st.Agree same roots st' := by
  refine ⟨hsize, fun i hi => ?_, hnew⟩
  rw [← hscopes i hi]
  cases st.scopes[i]? with
  | none => exact .none
  | some scope =>
      refine .some ⟨rfl, fun _ _ => trivial, fun x => ?_⟩
      cases scope.value? x with
      | none => exact .none
      | some v => exact .some (v.like_refl hsame fun _ => trivial)

/-- From stores that bind the same in every scope that can be reached and have made
equally many closures, a program has the very same outcome. -/
theorem Program.outcome_eq {s : ScopeId} (settings : Settings)
    (hsize : st.scopes.size = st'.scopes.size) (hclosures : st.closures = st'.closures)
    (hscopes : ∀ i, st.Reaches (· = s) i → st.scopes[i]? = st'.scopes[i]?) (p : Program) :
    (Program.run settings s p st).1 = (Program.run settings s p st').1 := by
  have hagree : st.Agree Eq (· = s) st' :=
    Store.agree_of_scopes_eq hsize hscopes (fun _ => rfl) fun k => by rw [hclosures]
  have hends := (Program.sameCourse settings hagree p).ending
  unfold Program.course at hends
  generalize (Program.run settings s p st).1 = outcome at hends
  generalize (Program.run settings s p st').1 = outcome' at hends
  cases outcome <;> cases outcome' <;> cases hends
  case value.value hv => rw [hv.eq fun _ _ => id]
  case error.error hstop => cases hstop; rfl
  case tooManyCalls.tooManyCalls => rfl
  all_goals
    rename_i hstop
    cases hstop

end

/-- The scopes that a call begins with: the scope of the closure, and those that the
arguments capture. -/
def Closure.callRoots (f : Closure) (vs : List Value) (i : ScopeId) : Prop :=
  i = f.scope ∨ ∃ v ∈ vs, v.Captures i

/-- Scoping is lexical. Whatever is evaluated in a scope takes the same course from every
two stores that agree on what can be reached from the scope, however much they differ in
all other scopes. And a call takes the same course from every two stores that agree on
what can be reached from the scope of the closure and from the arguments: wherever the call
stands, what is bound there makes no difference.

Closures of two runs are compared up to which of them are taken for the same. This may be
any relation under which the stores agree and new closures correspond in the order in
which they are made. If the stores have made equally many, it may be equality, and then
the values are equal; else new closures may differ from those of the other run in their
numbers. -/
theorem lexical_scoping (settings : Settings) (same : Nat → Nat → Prop) (st st' : Store) :
    (∀ s : ScopeId, st.Agree same (· = s) st' →
      (∀ e : Expr, SameCourse same (· = s) st st'
        ((e.eval (Eval.caller settings.order settings.callDepth) s).course st)
        ((e.eval (Eval.caller settings.order settings.callDepth) s).course st')) ∧
      (∀ stmt : Stmt, SameCourse same (· = s) st st'
        ((stmt.eval (Eval.caller settings.order settings.callDepth) s).course st)
        ((stmt.eval (Eval.caller settings.order settings.callDepth) s).course st')) ∧
      (∀ b : Block, SameCourse same (· = s) st st'
        ((Stmt.evalBlock (Eval.caller settings.order settings.callDepth) s b).course st)
        ((Stmt.evalBlock (Eval.caller settings.order settings.callDepth) s b).course st')) ∧
      (∀ p : Program, SameCourse same (· = s) st st' (Program.course settings s p st)
        (Program.course settings s p st'))) ∧
    (∀ (f g : Closure) (vs ws : List Value), f.Like (.upTo same) g →
      Value.LikeItems (.upTo same) vs ws →
      st.Agree same (f.callRoots vs) st' →
      SameCourse same (f.callRoots vs) st st'
        ((Eval.call settings.order settings.callDepth f vs).course st)
        ((Eval.call settings.order settings.callDepth g ws).course st')) := by
  refine ⟨fun s h => ?_, fun f g vs ws hf hvs h => ?_⟩
  · have hs : (Simulation.ofAgreement settings.order same (· = s) st st').scope
        st.scopes.size s := .inl (.root rfl)
    have hnode (node : Fragment) := sameCourse h ((Simulation.ofAgreement settings.order same
      (· = s) st st').eval_of_refl rfl settings.callDepth hs node)
    exact ⟨fun e => hnode (.expr e), fun stmt => hnode (.stmt stmt), fun b => hnode (.block b),
      fun p => Program.sameCourse settings h p⟩
  · have hclosure : f.Like (.reached same st (f.callRoots vs)) g :=
      ⟨hf.same, .inl (.root (.inl rfl)), hf.params_eq, hf.body_eq, hf.scope_eq⟩
    have harguments : Value.LikeItems (.reached same st (f.callRoots vs)) vs ws :=
      hvs.rematch (M := .upTo same) (N := .reached same st (f.callRoots vs))
        (fun _ _ => id) fun v hv i hi => .inl (.root (.inr ⟨v, hv, hi⟩))
    exact sameCourse h (related_call
      (Simulation.ofAgreement settings.order same (f.callRoots vs) st st') settings.callDepth
      (.func hclosure) (Value.likeItems_iff.mp harguments))

/-- A function with the body `x`, made in the outermost scope. -/
def readingX : Closure := ⟨0, [], [.expr (.name "x")], 0⟩

/-- An outermost scope that binds `f` to the function `readingX`, and a scope inside it,
from which the function can be called, that binds `x`. -/
def callerBinding (n : Int64) : Store where
  scopes := #[⟨none, [("f", .func readingX)]⟩, ⟨some 0, [("x", .int n)]⟩]
  closures := 1
  printed := #[]

/-- The function does not see what the scope binds that it is called from. -/
theorem lexical_scoping_callerBinding :
    (callerBinding 1).Agree Eq (readingX.callRoots []) (callerBinding 2) ∧
    SameCourse Eq (readingX.callRoots []) (callerBinding 1) (callerBinding 2)
      ((Eval.call Settings.standard.order Settings.standard.callDepth readingX []).course
        (callerBinding 1))
      ((Eval.call Settings.standard.order Settings.standard.callDepth readingX []).course
        (callerBinding 2)) := by
  have hreach (i : ScopeId) (hi : (callerBinding 1).Reaches (readingX.callRoots []) i) :
      i = 0 := by
    induction hi with
    | root hroot =>
        rcases hroot with hzero | ⟨_, ⟨⟩, _⟩
        exact hzero
    | outer _ hat ho ih =>
        subst ih
        cases hat
        cases ho
    | @captured _ t _ x v _ hat hx ht ih =>
        subst ih
        cases hat
        have hv : v = .func readingX := by
          have hlookup : [("f", Value.func readingX)].lookup x = some v := hx
          rw [List.lookup_cons] at hlookup
          split at hlookup
          · exact (Option.some.inj hlookup).symm
          · cases hlookup
        subst hv
        cases ht
        rfl
  have hagree : (callerBinding 1).Agree Eq (readingX.callRoots []) (callerBinding 2) :=
    Store.agree_of_scopes_eq rfl (fun i hi => by rw [hreach i hi]; rfl) (fun _ => rfl)
      fun _ => rfl
  exact ⟨hagree, (lexical_scoping Settings.standard Eq (callerBinding 1)
    (callerBinding 2)).2 readingX readingX [] [] ⟨rfl, trivial, rfl, rfl, rfl⟩ .nil hagree⟩

end ScriptLang
