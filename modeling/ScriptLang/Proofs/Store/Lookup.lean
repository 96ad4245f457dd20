import ScriptLang.Store.Basic

/-!
Making scopes, binding names and looking them up: what each of these does to what single
scopes bind (`Store.local?`) and to the scopes around them (`Store.outer?`). A name is
looked up in the scope itself and else in the scope around it, as long as the numbers
fall.
-/

namespace ScriptLang

namespace Store

variable {st st' : Store} {s i o : Nat} {x y : String} {v : Value}

def outer? (st : Store) (s : ScopeId) : Option ScopeId :=
  st.scopes[s]?.bind Scope.outer

theorem lt_size_of_outer? (h : st.outer? s = some o) : s < st.scopes.size := by
  obtain ⟨scope, hscope, -⟩ := Option.bind_eq_some_iff.mp h
  exact (Array.getElem?_eq_some_iff.mp hscope).1

theorem lt_size_of_local? (h : st.local? s x = some v) : s < st.scopes.size := by
  obtain ⟨scope, hscope, -⟩ := Option.bind_eq_some_iff.mp h
  exact (Array.getElem?_eq_some_iff.mp hscope).1

/-- A name is looked up in the scope and then, as long as the numbers fall, outward. -/
theorem get?_eq (st : Store) (s : Nat) (x : String) :
    st.get? s x = (st.local? s x).or
      ((st.outer? s).bind fun o => if o < s then st.get? o x else none) := by
  rw [get?]
  unfold local? outer?
  cases st.scopes[s]? with
  | none => rfl
  | some scope =>
      cases hv : scope.value? x with
      | some v => simp [hv]
      | none => cases ho : scope.outer <;> simp [hv, ho]

theorem get?_of_local (h : st.local? s x = some v) : st.get? s x = some v := by
  rw [get?_eq, h]
  rfl

theorem get?_of_outer (h : st.local? s x = none) (ho : st.outer? s = some o) (hlt : o < s) :
    st.get? s x = st.get? o x := by
  rw [get?_eq, h, ho]
  exact if_pos hlt

theorem get?_of_outermost (h : st.local? s x = none) (ho : st.outer? s = none) :
    st.get? s x = none := by
  rw [get?_eq, h, ho]
  rfl

/-- Looking a name up reads the scope and scopes with smaller numbers. -/
theorem get?_congr (h : ∀ i ≤ s, st'.scopes[i]? = st.scopes[i]?) (x : String) :
    st'.get? s x = st.get? s x := by
  induction s using Nat.strongRecOn with
  | ind s ih =>
      have hlocal : st'.local? s x = st.local? s x := by
        unfold local?
        rw [h s (Nat.le_refl s)]
      have houter : st'.outer? s = st.outer? s := by
        unfold outer?
        rw [h s (Nat.le_refl s)]
      rw [get?_eq, get?_eq st, hlocal, houter]
      congr 2
      funext o
      split
      · rename_i hlt
        exact ih o hlt fun i hi => h i (Nat.le_of_lt (Nat.lt_of_le_of_lt hi hlt))
      · rfl

theorem local?_newScope (outer : Option ScopeId) :
    (st.newScope outer).2.local? s x = st.local? s x := by
  show (st.scopes.push ⟨outer, []⟩)[s]?.bind (·.value? x) = st.scopes[s]?.bind (·.value? x)
  rw [Array.getElem?_push]
  split
  · rename_i h
    rw [h, Array.getElem?_size]
    rfl
  · rfl

theorem outer?_newScope_iff {outer : Option ScopeId} :
    (st.newScope outer).2.outer? s = some o ↔
      (s = st.scopes.size ∧ outer = some o) ∨ st.outer? s = some o := by
  show (st.scopes.push ⟨outer, []⟩)[s]?.bind Scope.outer = some o ↔ _ ∨ st.scopes[s]?.bind _ = _
  rw [Array.getElem?_push]
  by_cases hs : s = st.scopes.size
  · subst hs
    simp
  · simp [hs]

theorem size_newScope (outer : Option ScopeId) :
    (st.newScope outer).2.scopes.size = st.scopes.size + 1 :=
  Array.size_push _

theorem define_eq_error (h : st.local? s x = some v) (w : Value) :
    st.define s x w = .error (.alreadyDefined x) := by
  rw [define, h]

theorem define_eq_ok (h : st.local? s x = none) (w : Value) :
    st.define s x w = .ok { st with
      scopes := st.scopes.modify s fun scope =>
        { scope with bindings := (x, w) :: scope.bindings } } := by
  rw [define, h]

theorem define_ok_local (h : st.define s x v = .ok st') : st.local? s x = none := by
  unfold define at h
  split at h
  · cases h
  · assumption

theorem define_error_eq {e : RuntimeError} (h : st.define s x v = .error e) :
    e = .alreadyDefined x := by
  unfold define at h
  split at h
  · cases h
    rfl
  · cases h

theorem size_define (h : st.define s x v = .ok st') : st'.scopes.size = st.scopes.size := by
  unfold define at h
  split at h
  · cases h
  · cases h
    exact Array.size_modify

theorem printed_define (h : st.define s x v = .ok st') : st'.printed = st.printed := by
  unfold define at h
  split at h
  · cases h
  · cases h
    rfl

theorem outer?_define (h : st.define s x v = .ok st') : st'.outer? i = st.outer? i := by
  unfold define at h
  split at h
  · cases h
  · cases h
    unfold outer?
    rw [Array.getElem?_modify]
    split
    · cases st.scopes[i]? <;> rfl
    · rfl

theorem local?_define (h : st.define s x v = .ok st') (hs : s < st.scopes.size) :
    st'.local? i y = if i = s ∧ y = x then some v else st.local? i y := by
  unfold define at h
  split at h
  · cases h
  · cases h
    unfold local?
    rw [Array.getElem?_modify]
    by_cases hi : s = i
    · subst hi
      rw [if_pos rfl, Array.getElem?_eq_getElem hs]
      by_cases hy : y = x
      · subst hy
        rw [if_pos ⟨rfl, rfl⟩]
        simp [Scope.value?]
      · rw [if_neg fun hboth => hy hboth.2]
        have hyx : (y == x) = false := beq_false_of_ne hy
        simp [Scope.value?, List.lookup_cons, hyx]
    · rw [if_neg hi, if_neg fun hboth => hi hboth.1.symm]

end Store

end ScriptLang
