import ScriptLang.Proofs.Store.Lookup
import ScriptLang.Proofs.Value.Likeness

/-!
Stores of two runs that agree on what the runs share. `Store.Like M` relates the two
stores at one moment: they have equally many scopes, the shared ones correspond, with
the scopes around them and with the closures that they bind, and what was printed since
the beginning corresponds. Scopes that are still to be made are shared from the outset,
so the same `M` serves for all of a run, and whatever is done in a shared scope in both
stores leads to such stores again.

Which scopes have to be shared for a run to stay within them? Those that can be reached
from its scope (`Store.Reaches`): outward, and through the closures that a scope binds.
-/

namespace ScriptLang

/-! ### Scopes that a scope leads to -/

/-- A scope can be reached from the roots: it is one of them, or a scope that can be
reached lies directly inside it or binds a name to a value that captures it. -/
inductive Store.Reaches (st : Store) (roots : ScopeId → Prop) : ScopeId → Prop
  | root {s : ScopeId} : roots s → Store.Reaches st roots s
  | outer {s o : ScopeId} {scope : Scope} : Store.Reaches st roots s →
      st.scopes[s]? = some scope → scope.outer = some o → Store.Reaches st roots o
  | captured {s t : ScopeId} {scope : Scope} {x : String} {v : Value} :
      Store.Reaches st roots s → st.scopes[s]? = some scope → scope.value? x = some v →
      v.Captures t → Store.Reaches st roots t

/-! ### Corresponding scopes -/

/-- Scopes inside the same shared scope that bind the same names, to corresponding values.
In which order they were bound makes no difference. -/
structure Scope.Like (M : Matching) (a b : Scope) : Prop where
  outer_eq : a.outer = b.outer
  shared_outer : ∀ o, a.outer = some o → M.shared o
  values : ∀ x, Option.Rel (Value.Like M) (a.value? x) (b.value? x)

/-- Stores that agree on the shared scopes, when they have already printed `before` and
`before'` at the beginning. -/
structure Store.Like (M : Matching) (before before' : List Value) (st st' : Store) :
    Prop where
  size_eq : st.scopes.size = st'.scopes.size
  shared_new : ∀ i, st.scopes.size ≤ i → M.shared i
  scopes : ∀ i, M.shared i → Option.Rel (Scope.Like M) st.scopes[i]? st'.scopes[i]?
  /-- Closures that are still to be made are taken for the same in the order in which
  they are made. -/
  same_new : ∀ k, M.same (st.closures + k) (st'.closures + k)
  printed : ∃ out out', st.printed.toList = before ++ out ∧
    st'.printed.toList = before' ++ out' ∧ Value.LikeItems M out out'

/-- Stores that agree on every scope that can be reached from the roots, up to which
closures are taken for the same. Closures that are still to be made are, in the order in
which they are made. -/
structure Store.Agree (same : Nat → Nat → Prop) (roots : ScopeId → Prop) (st st' : Store) :
    Prop where
  size_eq : st.scopes.size = st'.scopes.size
  scopes : ∀ i, st.Reaches roots i →
    Option.Rel (Scope.Like (.upTo same)) st.scopes[i]? st'.scopes[i]?
  same_new : ∀ k, same (st.closures + k) (st'.closures + k)

namespace Scope.Like

variable {M N : Matching} {a b : Scope} {x : String} {v w : Value}

theorem bind (h : a.Like M b) (x : String) (hv : v.Like M w) :
    Scope.Like M { a with bindings := (x, v) :: a.bindings }
      { b with bindings := (x, w) :: b.bindings } := by
  refine ⟨h.outer_eq, h.shared_outer, fun y => ?_⟩
  unfold Scope.value?
  rw [List.lookup_cons, List.lookup_cons]
  cases y == x with
  | true => exact .some hv
  | false => exact h.values y

theorem shared_of_captures (h : a.Like M b) (hx : a.value? x = some v) {i : ScopeId}
    (hi : v.Captures i) : M.shared i := by
  have hvalue := h.values x
  rw [hx] at hvalue
  generalize b.value? x = found at hvalue
  cases hvalue with
  | some hlike => exact hlike.shared_of_captures hi

/-- Scopes correspond in another matching too, if it shares what the first one leads to. -/
theorem rematch (h : a.Like M b) (hsame : ∀ i j, M.same i j → N.same i j)
    (houter : ∀ o, a.outer = some o → N.shared o)
    (hshared : ∀ x v, a.value? x = some v → ∀ i, v.Captures i → N.shared i) :
    a.Like N b := by
  refine ⟨h.outer_eq, houter, fun x => ?_⟩
  have hvalue := h.values x
  have hbound := hshared x
  generalize a.value? x = found at hvalue hbound ⊢
  generalize b.value? x = found' at hvalue ⊢
  cases hvalue with
  | none => exact .none
  | some hlike => exact .some (hlike.rematch hsame (hbound _ rfl))

end Scope.Like

namespace Store.Like

variable {M : Matching} {before before' : List Value} {st st' : Store} {s : ScopeId}
  {x : String} {v w : Value}

/-! ### Looking up -/

theorem local? (h : st.Like M before before' st') (hs : M.shared s) (x : String) :
    Option.Rel (Value.Like M) (st.local? s x) (st'.local? s x) := by
  have hscope := h.scopes s hs
  unfold Store.local?
  generalize st.scopes[s]? = a at hscope
  generalize st'.scopes[s]? = b at hscope
  cases hscope with
  | some hlike => exact hlike.values x
  | none => exact .none

theorem outer?_eq (h : st.Like M before before' st') (hs : M.shared s) :
    st.outer? s = st'.outer? s ∧ ∀ o, st.outer? s = some o → M.shared o := by
  have hscope := h.scopes s hs
  unfold Store.outer?
  generalize st.scopes[s]? = a at hscope
  generalize st'.scopes[s]? = b at hscope
  cases hscope with
  | some hlike => exact ⟨hlike.outer_eq, hlike.shared_outer⟩
  | none => exact ⟨rfl, nofun⟩

/-- A name has corresponding values in the two stores: the way outward is the same, and
does not leave the shared scopes. -/
theorem get? (h : st.Like M before before' st') (hs : M.shared s) (x : String) :
    Option.Rel (Value.Like M) (st.get? s x) (st'.get? s x) := by
  induction s using Nat.strongRecOn with
  | ind s ih =>
      have hlocal := h.local? hs x
      obtain ⟨houter, hshared⟩ := h.outer?_eq hs
      rw [get?_eq st, get?_eq st', ← houter]
      generalize st.local? s x = a at hlocal
      generalize st'.local? s x = b at hlocal
      cases hlocal with
      | some hlike => exact .some hlike
      | none =>
          cases ho : st.outer? s with
          | none => exact .none
          | some o =>
              show Option.Rel _ (if o < s then st.get? o x else none)
                (if o < s then st'.get? o x else none)
              by_cases hlt : o < s
              · rw [if_pos hlt, if_pos hlt]
                exact ih o hlt (hshared o ho)
              · rw [if_neg hlt, if_neg hlt]
                exact .none

/-! ### Changes -/

theorem newScope (h : st.Like M before before' st') (hs : M.shared s) :
    (st.newScope (some s)).2.Like M before before' (st'.newScope (some s)).2 := by
  refine ⟨?_, fun i hi => h.shared_new i ?_, fun i hi => ?_, h.same_new, h.printed⟩
  · rw [size_newScope, size_newScope, h.size_eq]
  · rw [size_newScope] at hi
    exact Nat.le_of_succ_le hi
  · show Option.Rel _ (st.scopes.push ⟨some s, []⟩)[i]? (st'.scopes.push ⟨some s, []⟩)[i]?
    rw [Array.getElem?_push, Array.getElem?_push, h.size_eq]
    split
    · exact .some ⟨rfl, fun o ho => Option.some.inj ho ▸ hs, fun _ => .none⟩
    · exact h.scopes i hi

theorem define (h : st.Like M before before' st') (hs : M.shared s) (order : HashOrder)
    (n : Nat) (x : String) (hv : v.Like M w) :
    (M.correspondence order).Results n (Store.Like M before before') (st.define s x v)
      (st'.define s x w) := by
  have hlocal := h.local? hs x
  unfold Store.define
  generalize st.local? s x = a at hlocal
  generalize st'.local? s x = b at hlocal
  cases hlocal with
  | some hlike => exact .error (.alreadyDefined x)
  | none =>
      refine .ok ⟨?_, fun i hi => h.shared_new i ?_, fun i hi => ?_, h.same_new, h.printed⟩
      · simpa using h.size_eq
      · simpa using hi
      · have hscope := h.scopes i hi
        show Option.Rel _ (st.scopes.modify s _)[i]? (st'.scopes.modify s _)[i]?
        rw [Array.getElem?_modify, Array.getElem?_modify]
        split
        · generalize st.scopes[i]? = a at hscope
          generalize st'.scopes[i]? = b at hscope
          cases hscope with
          | some hlike => exact .some (hlike.bind x hv)
          | none => exact .none
        · exact hscope

theorem newClosure (h : st.Like M before before' st') (hs : M.shared s)
    (params : List String) (body : Block) :
    (st.newClosure params body s).1.Like M (st'.newClosure params body s).1 ∧
      (st.newClosure params body s).2.Like M before before'
        (st'.newClosure params body s).2 := by
  refine ⟨⟨h.same_new 0, hs, rfl, rfl, rfl⟩,
    h.size_eq, h.shared_new, h.scopes, fun k => ?_, h.printed⟩
  have hsame := h.same_new (k + 1)
  rw [← Nat.add_assoc, ← Nat.add_assoc, Nat.add_right_comm, Nat.add_right_comm _ k] at hsame
  exact hsame

theorem print (h : st.Like M before before' st') (hv : v.Like M w) :
    (st.print v).Like M before before' (st'.print w) := by
  obtain ⟨out, out', hout, hout', hlike⟩ := h.printed
  refine ⟨h.size_eq, h.shared_new, h.scopes, h.same_new, out ++ [v], out' ++ [w], ?_, ?_,
    Value.likeItems_iff.mpr
      (List.rel_append (Value.likeItems_iff.mp hlike) (.cons hv .nil))⟩
  · show (st.printed.push v).toList = _
    rw [Array.toList_push, hout, List.append_assoc]
  · show (st'.printed.push w).toList = _
    rw [Array.toList_push, hout', List.append_assoc]

end Store.Like

/-! ### Agreement on what can be reached -/

/-- What the runs share when they begin with stores that agree on what can be reached from
the roots: that, and every scope that they are going to make. -/
def Matching.reached (same : Nat → Nat → Prop) (st : Store) (roots : ScopeId → Prop) :
    Matching :=
  ⟨same, fun i => st.Reaches roots i ∨ st.scopes.size ≤ i⟩

theorem Store.Agree.like {same : Nat → Nat → Prop} {roots : ScopeId → Prop}
    {st st' : Store} (h : st.Agree same roots st') :
    st.Like (.reached same st roots) st.printed.toList st'.printed.toList st' := by
  refine ⟨h.size_eq, fun i hi => .inr hi, fun i hi => ?_, h.same_new, [], [],
    (List.append_nil _).symm, (List.append_nil _).symm, .nil⟩
  rcases hi with hreach | hnew
  · have hscope := h.scopes i hreach
    generalize hleft : st.scopes[i]? = a at hscope ⊢
    generalize st'.scopes[i]? = b at hscope ⊢
    cases hscope with
    | none => exact .none
    | some hlike =>
        exact .some (hlike.rematch (fun _ _ => id) (fun o ho => .inl (hreach.outer hleft ho))
          fun x v hx t ht => .inl (hreach.captured hleft hx ht))
  · rw [Array.getElem?_eq_none hnew, Array.getElem?_eq_none (h.size_eq ▸ hnew)]
    exact .none

theorem Store.Like.shared_of_reaches {M : Matching} {before before' : List Value}
    {st st' : Store} {roots : ScopeId → Prop} (h : st.Like M before before' st')
    (hroots : ∀ i, roots i → M.shared i) {i : ScopeId} (hi : st.Reaches roots i) :
    M.shared i := by
  have hscope {i : ScopeId} {scope : Scope} (hshared : M.shared i)
      (hat : st.scopes[i]? = some scope) : ∃ scope', scope.Like M scope' := by
    have hrel := h.scopes i hshared
    rw [hat] at hrel
    generalize st'.scopes[i]? = found at hrel
    cases hrel with
    | some hlike => exact ⟨_, hlike⟩
  induction hi with
  | root hroot => exact hroots _ hroot
  | outer _ hat ho ih =>
      obtain ⟨_, hlike⟩ := hscope ih hat
      exact hlike.shared_outer _ ho
  | captured _ hat hx ht ih =>
      obtain ⟨_, hlike⟩ := hscope ih hat
      exact hlike.shared_of_captures hx ht

theorem Store.Like.agree {M : Matching} {before before' : List Value} {st st' : Store}
    {roots : ScopeId → Prop} (h : st.Like M before before' st')
    (hroots : ∀ i, roots i → M.shared i) : st.Agree M.same roots st' := by
  refine ⟨h.size_eq, fun i hi => ?_, h.same_new⟩
  have hscope := h.scopes i (h.shared_of_reaches hroots hi)
  generalize st.scopes[i]? = a at hscope ⊢
  generalize st'.scopes[i]? = b at hscope ⊢
  cases hscope with
  | none => exact .none
  | some hlike =>
      exact .some (hlike.rematch (fun _ _ => id) (fun _ _ => trivial)
        fun _ _ _ _ _ => trivial)

end ScriptLang
