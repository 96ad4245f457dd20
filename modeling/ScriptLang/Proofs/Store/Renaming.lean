import ScriptLang.Proofs.Store.Lookup
import ScriptLang.Proofs.Value.Renaming

/-!
Renamed stores. The names that the scopes of a store bind are renamed, and the values with
them; which scope lies inside which stays as it is. Different names stay apart, so a name
is bound in a scope exactly if the renamed name is bound in the renamed scope. Hence making
scopes, looking names up and binding them can be done before renaming or after it.
-/

namespace ScriptLang

def Scope.rename (r : Renaming) (scope : Scope) : Scope :=
  { scope with bindings := scope.bindings.map (Prod.map r (Value.rename r)) }

def Store.rename (r : Renaming) (st : Store) : Store :=
  ⟨st.scopes.map (Scope.rename r), st.closures, st.printed.map (Value.rename r)⟩

theorem Scope.value?_rename (r : Renaming) (scope : Scope) (x : String) :
    (scope.rename r).value? (r x) = (scope.value? x).map (Value.rename r) := by
  obtain ⟨outer, bindings⟩ := scope
  unfold Scope.value? Scope.rename
  induction bindings with
  | nil => rfl
  | cons b bindings ih =>
      obtain ⟨y, v⟩ := b
      rw [List.map_cons, Prod.map, List.lookup_cons, List.lookup_cons]
      by_cases hxy : x = y
      · subst hxy
        simp
      · have hr : r x ≠ r y := fun h => hxy (r.injective h)
        rw [beq_false_of_ne hxy, beq_false_of_ne hr]
        exact ih

namespace Store

variable (r : Renaming) (st : Store) (s : ScopeId) (x : String) (v : Value)

theorem getElem?_scopes_rename :
    (st.rename r).scopes[s]? = st.scopes[s]?.map (Scope.rename r) :=
  Array.getElem?_map

theorem local?_rename :
    (st.rename r).local? s (r x) = (st.local? s x).map (Value.rename r) := by
  unfold local?
  rw [getElem?_scopes_rename]
  cases st.scopes[s]? with
  | none => rfl
  | some scope => exact scope.value?_rename r x

theorem outer?_rename : (st.rename r).outer? s = st.outer? s := by
  unfold outer?
  rw [getElem?_scopes_rename]
  cases st.scopes[s]? <;> rfl

theorem get?_rename : (st.rename r).get? s (r x) = (st.get? s x).map (Value.rename r) := by
  induction s using Nat.strongRecOn with
  | ind s ih =>
      rw [get?_eq, get?_eq st, local?_rename, outer?_rename]
      cases st.local? s x with
      | some v => rfl
      | none =>
          cases st.outer? s with
          | none => rfl
          | some o =>
              by_cases ho : o < s
              · simpa [ho] using ih o ho
              · simp [ho]

theorem newScope_rename (outer : Option ScopeId) :
    (st.rename r).newScope outer =
      ((st.newScope outer).1, (st.newScope outer).2.rename r) := by
  simp [newScope, rename, Scope.rename]

theorem print_rename : (st.rename r).print (v.rename r) = (st.print v).rename r := by
  simp [print, rename]

theorem define_rename_of_ok {st st' : Store} {s : ScopeId} {x : String} {v : Value}
    (h : st.define s x v = .ok st') :
    (st.rename r).define s (r x) (v.rename r) = .ok (st'.rename r) := by
  have hlocal := define_ok_local h
  have hrenamed : (st.rename r).local? s (r x) = none := by
    rw [local?_rename, hlocal]
    rfl
  rw [define_eq_ok hlocal] at h
  cases h
  rw [define_eq_ok hrenamed]
  have hscopes : (st.scopes.modify s fun scope =>
        { scope with bindings := (x, v) :: scope.bindings }).map (Scope.rename r) =
      (st.scopes.map (Scope.rename r)).modify s fun scope =>
        { scope with bindings := (r x, v.rename r) :: scope.bindings } := by
    refine Array.ext_getElem? fun i => ?_
    simp only [Array.getElem?_map, Array.getElem?_modify]
    split <;> cases st.scopes[i]? <;> rfl
  unfold rename
  rw [hscopes]

theorem define_rename_of_error {st : Store} {s : ScopeId} {x : String} {v : Value}
    {e : RuntimeError} (h : st.define s x v = .error e) :
    (st.rename r).define s (r x) (v.rename r) = .error (.alreadyDefined (r x)) := by
  cases hlocal : st.local? s x with
  | none =>
      rw [define_eq_ok hlocal] at h
      cases h
  | some w =>
      have hrenamed : (st.rename r).local? s (r x) = some (w.rename r) := by
        rw [local?_rename, hlocal]
        rfl
      exact define_eq_error hrenamed (v.rename r)

end Store

end ScriptLang
