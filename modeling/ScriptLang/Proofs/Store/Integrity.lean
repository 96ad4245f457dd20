import ScriptLang.Proofs.Store.Lookup
import ScriptLang.Proofs.Value.Integrity

/-!
A store is intact if every scope lies inside an earlier one, or is an outermost scope, and
every value that is bound in it is intact. Then the way outward from a scope comes to an
end, and nothing that is looked up on it is missed: the numbers always fall.

Making a scope inside one that exists, and binding an intact value, leave an intact store
intact.
-/

namespace ScriptLang.Store

variable {st st' : Store} {s o : Nat} {x : String} {v w : Value}

/-- One of the scopes binds a name to the value. -/
def Binds (st : Store) (v : Value) : Prop :=
  ∃ (s : ScopeId) (scope : Scope) (x : String),
    st.scopes[s]? = some scope ∧ (x, v) ∈ scope.bindings

/-- Everything that scopes and the values in them rely on is there. -/
structure Intact (st : Store) : Prop where
  /-- The scope around a scope was made earlier. -/
  outer_lt : ∀ s o, st.outer? s = some o → o < s
  bound : ∀ v, st.Binds v → v.Intact st.scopes.size

/-! ### Looking up -/

theorem binds_of_local? (h : st.local? s x = some v) : st.Binds v := by
  obtain ⟨scope, hscope, hvalue⟩ := Option.bind_eq_some_iff.mp h
  obtain ⟨front, back, hbindings, -⟩ := List.lookup_eq_some_iff.mp hvalue
  exact ⟨s, scope, x, hscope, by simp [hbindings]⟩

theorem binds_of_get? (h : st.get? s x = some v) : st.Binds v := by
  induction s using Nat.strongRecOn with
  | ind s ih =>
      rw [get?_eq] at h
      rcases Option.or_eq_some_iff.mp h with hlocal | ⟨-, houter⟩
      · exact binds_of_local? hlocal
      · obtain ⟨o, -, ho⟩ := Option.bind_eq_some_iff.mp houter
        split at ho
        · rename_i hlt
          exact ih o hlt ho
        · cases ho

/-- The way outward from a scope is finite. -/
theorem Intact.wellFounded (h : st.Intact) : WellFounded fun o s => st.outer? s = some o :=
  Subrelation.wf (fun {o s} ho => h.outer_lt s o ho) Nat.lt_wfRel.wf

/-- A name that a scope does not bind has the value that it has in the scope around it. -/
theorem Intact.get?_eq (h : st.Intact) (s : Nat) (x : String) :
    st.get? s x = (st.local? s x).or ((st.outer? s).bind fun o => st.get? o x) := by
  rw [Store.get?_eq]
  congr 1
  cases ho : st.outer? s with
  | none => rfl
  | some o => exact if_pos (h.outer_lt s o ho)

/-! ### Changes -/

theorem Intact.of_scopes_eq (h : st.Intact) (hscopes : st'.scopes = st.scopes) :
    st'.Intact := by
  refine ⟨fun s o ho => h.outer_lt s o ?_, fun v hv => ?_⟩
  · unfold outer? at ho ⊢
    rwa [hscopes] at ho
  · unfold Binds at hv
    rw [hscopes] at hv ⊢
    exact h.bound v hv

theorem intact_empty : empty.Intact := by
  refine ⟨fun s o ho => ?_, fun v hv => ?_⟩
  · cases ho
  · obtain ⟨s, scope, x, hscope, -⟩ := hv
    cases hscope

theorem binds_of_newScope {outer : Option ScopeId} (h : (st.newScope outer).2.Binds v) :
    st.Binds v := by
  obtain ⟨s, scope, x, hscope, hx⟩ := h
  have hpush : (st.scopes.push ⟨outer, []⟩)[s]? = some scope := hscope
  rw [Array.getElem?_push] at hpush
  split at hpush
  · cases hpush
    cases hx
  · exact ⟨s, scope, x, hpush, hx⟩

theorem Intact.newScope (h : st.Intact) {outer : Option ScopeId}
    (houter : ∀ o, outer = some o → o < st.scopes.size) : (st.newScope outer).2.Intact := by
  refine ⟨fun s o ho => ?_, fun v hv => ?_⟩
  · rcases outer?_newScope_iff.mp ho with ⟨rfl, hnew⟩ | hold
    · exact houter o hnew
    · exact h.outer_lt s o hold
  · rw [size_newScope]
    exact (h.bound v (binds_of_newScope hv)).mono (Nat.le_succ _)

theorem binds_of_define (h : st.define s x v = .ok st') (hw : st'.Binds w) :
    w = v ∨ st.Binds w := by
  unfold define at h
  split at h
  · cases h
  · cases h
    obtain ⟨i, scope, y, hscope, hy⟩ := hw
    rw [Array.getElem?_modify] at hscope
    split at hscope
    · obtain ⟨old, hold, rfl⟩ := Option.map_eq_some_iff.mp hscope
      rcases List.mem_cons.mp hy with hnew | hy
      · exact .inl (Prod.mk.inj hnew).2
      · exact .inr ⟨i, old, y, hold, hy⟩
    · exact .inr ⟨i, scope, y, hscope, hy⟩

theorem Intact.define (h : st.Intact) (hv : v.Intact st.scopes.size)
    (hdefine : st.define s x v = .ok st') : st'.Intact := by
  refine ⟨fun i o ho => ?_, fun w hw => ?_⟩
  · rw [outer?_define hdefine] at ho
    exact h.outer_lt i o ho
  · rw [size_define hdefine]
    rcases binds_of_define hdefine hw with rfl | hw
    · exact hv
    · exact h.bound w hw

end ScriptLang.Store
