import ScriptLang.Store.Basic

/-!
What one scope's work leaves alone. `Store.Frame s st st'` relates the stores before
and after a piece of work in the scope `s`: new scopes may have been made and new
names bound in `s`, and that is all that may have happened to the scopes. A binding
is never taken back or replaced, and no scope is moved inside another one.

The relation is reflexive and transitive, so it holds of a row of steps if it holds
of each of them. A scope that is made on the way is none of the scopes before, and
all the work in it leaves every one of those alone (`Frame.keep`).
-/

namespace ScriptLang

namespace Store

/-- From the first store to the second, scopes have only changed by what was bound in
the scope `s`, and by the making of new scopes. -/
structure Frame (s : ScopeId) (st st' : Store) : Prop where
  size_le : st.scopes.size ≤ st'.scopes.size
  others : ∀ i, i < st.scopes.size → i ≠ s → st'.scopes[i]? = st.scopes[i]?
  /-- The scope itself keeps its outer scope and its bindings, and the names that were
  bound since were free and have been bound once. -/
  own : ∀ scope, st.scopes[s]? = some scope → ∃ fresh : List (String × Value),
    st'.scopes[s]? = some ⟨scope.outer, fresh ++ scope.bindings⟩ ∧
      (∀ b ∈ fresh, scope.value? b.1 = none) ∧ (fresh.map Prod.fst).Nodup

theorem Frame.refl (s : ScopeId) (st : Store) : Frame s st st where
  size_le := Nat.le_refl _
  others _ _ _ := rfl
  own scope hscope := ⟨[], hscope, by simp, by simp⟩

/-- A name that a scope does not bind is neither among the bindings in front nor among
those behind. -/
theorem value?_append_eq_none {outer : Option ScopeId} (outer' : Option ScopeId)
    {fresh bindings : List (String × Value)} {x : String}
    (h : Scope.value? ⟨outer, fresh ++ bindings⟩ x = none) :
    x ∉ fresh.map Prod.fst ∧ Scope.value? ⟨outer', bindings⟩ x = none := by
  unfold Scope.value? at *
  rw [List.lookup_append, Option.or_eq_none_iff] at h
  refine ⟨fun hx => ?_, h.2⟩
  obtain ⟨b, hb, rfl⟩ := List.mem_map.mp hx
  have hne := List.lookup_eq_none_iff.mp h.1 b hb
  simp at hne

theorem Frame.trans {s : ScopeId} {st st₁ st₂ : Store} (h : Frame s st st₁)
    (h' : Frame s st₁ st₂) : Frame s st st₂ where
  size_le := Nat.le_trans h.size_le h'.size_le
  others i hi hne := (h'.others i (Nat.lt_of_lt_of_le hi h.size_le) hne).trans
    (h.others i hi hne)
  own scope hscope := by
    obtain ⟨fresh, hfresh, hfree, hnodup⟩ := h.own scope hscope
    obtain ⟨fresh', hfresh', hfree', hnodup'⟩ := h'.own _ hfresh
    refine ⟨fresh' ++ fresh, by rw [hfresh', List.append_assoc], fun b hb => ?_, ?_⟩
    · rcases List.mem_append.mp hb with hb | hb
      · exact (value?_append_eq_none scope.outer (hfree' b hb)).2
      · exact hfree b hb
    · -- Names bound in the second stretch were still free after the first.
      rw [List.map_append]
      refine List.nodup_append.mpr ⟨hnodup', hnodup, fun x hx y hy hxy => ?_⟩
      obtain ⟨b, hb, rfl⟩ := List.mem_map.mp hx
      exact (value?_append_eq_none scope.outer (hfree' b hb)).1 (hxy ▸ hy)

/-- What is done to scopes that were not there at the beginning makes no difference. -/
theorem Frame.keep {s : ScopeId} {st st₁ st₂ : Store} (h : Frame s st st₁)
    (hsize : st₁.scopes.size ≤ st₂.scopes.size)
    (hkept : ∀ i, i < st.scopes.size → st₂.scopes[i]? = st₁.scopes[i]?) : Frame s st st₂ where
  size_le := Nat.le_trans h.size_le hsize
  others i hi hne := (hkept i hi).trans (h.others i hi hne)
  own scope hscope := by
    have hi : s < st.scopes.size := (Array.getElem?_eq_some_iff.mp hscope).1
    rw [hkept s hi]
    exact h.own scope hscope

theorem Frame.define {s : ScopeId} {st st' : Store} {x : String} {v : Value}
    (h : st.define s x v = .ok st') : Frame s st st' := by
  unfold Store.define at h
  cases hlocal : st.local? s x with
  | some w =>
      rw [hlocal] at h
      cases h
  | none =>
      rw [hlocal] at h
      cases h
      refine ⟨by simp, fun i _ hne => ?_, fun scope hscope => ⟨[(x, v)], ?_, ?_, by simp⟩⟩
      · simp [Array.getElem?_modify, Ne.symm hne]
      · simp [Array.getElem?_modify, hscope]
      · have hfree : scope.value? x = none := by
          unfold local? at hlocal
          rw [hscope] at hlocal
          exact hlocal
        simpa using hfree

/-! ### What follows for names -/

variable {s : ScopeId} {st st' : Store}

/-- What a scope binds it binds for good, and to the same value. -/
theorem Frame.local?_eq {x : String} {v : Value} (h : Frame s st st') {i : ScopeId}
    (hv : st.local? i x = some v) : st'.local? i x = some v := by
  unfold local? at *
  obtain ⟨scope, hscope, hvalue⟩ := Option.bind_eq_some_iff.mp hv
  by_cases hi : i = s
  · subst hi
    obtain ⟨fresh, hfresh, hfree, -⟩ := h.own scope hscope
    have hnone : fresh.lookup x = none := by
      cases hlookup : fresh.lookup x with
      | none => rfl
      | some w =>
          obtain ⟨front, back, hmem, -⟩ := List.lookup_eq_some_iff.mp hlookup
          have hunbound := hfree (x, w) (by simp [hmem])
          rw [hunbound] at hvalue
          cases hvalue
    rw [hfresh]
    show List.lookup x (fresh ++ scope.bindings) = some v
    rw [List.lookup_append, hnone]
    exact hvalue
  · have hlt : i < st.scopes.size := (Array.getElem?_eq_some_iff.mp hscope).1
    rw [h.others i hlt hi]
    exact hv

end Store

end ScriptLang
