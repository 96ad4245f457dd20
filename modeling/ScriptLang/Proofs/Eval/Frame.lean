import ScriptLang.Proofs.Eval.Invariant
import ScriptLang.Proofs.Store.Frame

/-!
Evaluation stays in its scope. Whatever a step does to a store, and however it ends, it
leaves every scope but its own as it was and only binds free names in its own one.

The condition that a run keeps is that the store is in frame with the one that it began
with. Names are bound in the scope of the run and in scopes that it has made, and no
others. A block shares the scope around it; what a call does is done in a scope that the
call has made, so a call is in frame with every scope there was before, also with the one
that the closure was made in.
-/

namespace ScriptLang

/-- The scopes are in frame with those of a store, and names are bound in the one scope
and in new scopes only. -/
def Store.framed (st : Store) (s : ScopeId) : Invariant :=
  .ofStores (st.Frame s) (fun i => i = s ∨ st.scopes.size ≤ i)
    (by
      intro st₁ st₂ i x v h hi hdefine
      have hstep := Frame.define hdefine
      rcases hi with rfl | hnew
      · exact h.trans hstep
      -- A scope that the run has made is none of those that were there at the beginning.
      · refine h.keep hstep.size_le fun j hj => ?_
        exact hstep.others j (Nat.lt_of_lt_of_le hj h.size_le)
          (Nat.ne_of_lt (Nat.lt_of_lt_of_le hj hnew)))
    (by
      intro st₁ o h
      refine ⟨.inr h.size_le, h.keep ?_ fun j hj => ?_⟩
      · rw [size_newScope]
        exact Nat.le_succ _
      · have hlt : j < st₁.scopes.size := Nat.lt_of_lt_of_le hj h.size_le
        exact (Array.getElem?_push_lt hlt).trans (Array.getElem?_eq_getElem hlt).symm)
    (fun _ _ _ h => h.keep (Nat.le_refl _) fun _ _ => rfl)
    (fun _ h => h.keep (Nat.le_refl _) fun _ _ => rfl)

/-- Whatever is evaluated in a scope of a store, and however that ends: every scope there
was before keeps its bindings and its outer scope, except that free names may have
been bound in the scope itself. All else that is new among the scopes are scopes that
were made on the way. -/
theorem frame_evaluation (settings : Settings) (s : ScopeId) (st : Store) :
    (∀ e : Expr, st.Frame s
      ((e.eval (Eval.caller settings.order settings.callDepth) s).after st)) ∧
    (∀ stmt : Stmt, st.Frame s
      ((stmt.eval (Eval.caller settings.order settings.callDepth) s).after st)) ∧
    (∀ b : Block, st.Frame s
      ((Stmt.evalBlock (Eval.caller settings.order settings.callDepth) s b).after st)) ∧
    (∀ p : Program, st.Frame s (Program.run settings s p st).2) := by
  have hrefl : (st.framed s).store st := Store.Frame.refl s st
  have hs : (st.framed s).scope st.scopes.size s := .inl rfl
  have hafter (node : Fragment) : st.Frame s
      ((node.eval (Eval.caller settings.order settings.callDepth) s).after st) :=
    (st.framed s).store_after settings.order settings.callDepth hrefl hs node
  exact ⟨fun e => hafter (.expr e), fun stmt => hafter (.stmt stmt), fun b => hafter (.block b),
    fun p => ((st.framed s).run settings hrefl hs p).1⟩

end ScriptLang
