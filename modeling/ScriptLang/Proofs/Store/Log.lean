import ScriptLang.Store.Handle

/-!
What a row of operations on handles says about scopes. A `Log` holds the operations
that were performed, each with its answer and the latest in front, and nothing else is
known here: how scopes are kept is left open. A scope goes by the number of the handle
that was made together with it. A log says on which scope a handle is (`On`), inside
which scope another one lies (`Inside`), and what a scope binds: what a definition that
succeeded gave to a name there (`Binds`).

So scopes are a forest that grows at its leaves, with a map from names to values at
each of them. A name is looked up outward from a scope (`Finds`). A definition is
visible from the scopes from which one gets to it without passing the name
(`Sees`), and from no others: `finds_define_of_sees` and `finds_define_of_not_sees`.
-/

namespace ScriptLang.Handles

/-- Operations with their answers, the latest in front. -/
abbrev Log := List (Op × Answer)

namespace Log

/-- A handle is on the scope that was made with the handle `m`. -/
inductive On : Log → Nat → Nat → Prop
  | new {L : Log} {n : Nat} : On ((.new, .handle n) :: L) n n
  | enclosed {L : Log} {h n : Nat} : On ((.enclosed h, .handle n) :: L) n n
  | clone {L : Log} {h n m : Nat} : On L h m → On ((.clone h, .handle n) :: L) n m
  | before {L : Log} {entry : Op × Answer} {h m : Nat} : On L h m → On (entry :: L) h m

/-- A scope was made inside the scope `o`. -/
inductive Inside : Log → Nat → Nat → Prop
  | enclosed {L : Log} {h n o : Nat} : On L h o → Inside ((.enclosed h, .handle n) :: L) n o
  | before {L : Log} {entry : Op × Answer} {m o : Nat} :
      Inside L m o → Inside (entry :: L) m o

/-- A definition of a name in the scope `m`, through some handle on it, has succeeded. -/
inductive Binds : Log → Nat → String → Value → Prop
  | define {L : Log} {h m : Nat} {x : String} {v : Value} :
      On L h m → Binds ((.define h x v, .defined) :: L) m x v
  | before {L : Log} {entry : Op × Answer} {m : Nat} {x : String} {v : Value} :
      Binds L m x v → Binds (entry :: L) m x v

def Free (L : Log) (m : Nat) (x : String) : Prop :=
  ∀ v, ¬ Binds L m x v

/-- Looking a name up from a scope outward: it has the value that the nearest scope binds
to it, and none if no scope up to the outermost one binds it. -/
inductive Finds (L : Log) (x : String) : Nat → Option Value → Prop
  | here {m : Nat} {v : Value} : Binds L m x v → Finds L x m (some v)
  | outward {m o : Nat} {r : Option Value} :
      Free L m x → Inside L m o → Finds L x o r → Finds L x m r
  | nowhere {m : Nat} : Free L m x → (∀ o, ¬ Inside L m o) → Finds L x m none

/-- From a scope one gets outward to the scope `m` without leaving one that binds the
name. -/
inductive Sees (L : Log) (x : String) (m : Nat) : Nat → Prop
  | here : Sees L x m m
  | outward {k o : Nat} : Free L k x → Inside L k o → Sees L x m o → Sees L x m k

variable {L : Log} {entry : Op × Answer} {h m k : Nat} {x y : String} {v : Value}

/-! ### Entries that add nothing -/

/-- Without a new handle, handles are where they were. -/
theorem on_cons_iff (hentry : ∀ n, entry.2 ≠ .handle n) : On (entry :: L) h m ↔ On L h m := by
  constructor
  · intro hon
    cases hon with
    | before hon => exact hon
    | _ => exact absurd rfl (hentry _)
  · exact .before

theorem inside_cons_iff (hentry : ∀ n, entry.2 ≠ .handle n) :
    Inside (entry :: L) m k ↔ Inside L m k := by
  constructor
  · intro hinside
    cases hinside with
    | before hinside => exact hinside
    | enclosed _ => exact absurd rfl (hentry _)
  · exact .before

/-- Only a definition that succeeds binds a name. -/
theorem binds_cons_iff (hentry : entry.2 ≠ .defined) :
    Binds (entry :: L) m x v ↔ Binds L m x v := by
  constructor
  · intro hbinds
    cases hbinds with
    | before hbinds => exact hbinds
    | define _ => exact absurd rfl hentry
  · exact .before

/-! ### One more definition -/

theorem binds_define_iff {w : Value} :
    Binds ((.define h x v, .defined) :: L) k y w ↔
      (On L h k ∧ y = x ∧ w = v) ∨ Binds L k y w := by
  constructor
  · rintro (hon | hbinds)
    · exact .inl ⟨hon, rfl, rfl⟩
    · exact .inr hbinds
  · rintro (⟨hon, rfl, rfl⟩ | hbinds)
    · exact .define hon
    · exact .before hbinds

theorem Free.define (hfree : Free L k y) (hother : ¬ (y = x ∧ On L h k)) :
    Free ((.define h x v, .defined) :: L) k y := by
  intro w hw
  rcases binds_define_iff.mp hw with ⟨hon, hy, -⟩ | hbinds
  · exact hother ⟨hy, hon⟩
  · exact hfree w hbinds

/-- A definition is found from every scope that sees its scope. -/
theorem finds_define_of_sees (hon : On L h m) (hsees : Sees L x m k) :
    Finds ((.define h x v, .defined) :: L) x k (some v) := by
  induction hsees with
  | here => exact .here (.define hon)
  | @outward k o hfree hinside _ ih =>
      by_cases hk : On L h k
      · exact .here (.define hk)
      · exact .outward (hfree.define fun hy => hk hy.2) (.before hinside) ih

/-- From the other scopes, and under other names, everything is found as before. -/
theorem finds_define_of_not_sees (hon : ∀ j, On L h j → j = m) {r : Option Value}
    (hfinds : Finds L y k r) (hother : ¬ (y = x ∧ Sees L x m k)) :
    Finds ((.define h x v, .defined) :: L) y k r := by
  -- The scope of the definition sees itself, so the way outward does not lead over it.
  have hne : ∀ {j : Nat}, ¬ (y = x ∧ Sees L x m j) → ¬ (y = x ∧ On L h j) := by
    rintro j hj ⟨hy, hjon⟩
    obtain rfl := hon j hjon
    exact hj ⟨hy, .here⟩
  induction hfinds with
  | here hbinds => exact .here (.before hbinds)
  | outward hfree hinside _ ih =>
      refine .outward (hfree.define (hne hother)) (.before hinside) (ih ?_)
      rintro ⟨rfl, hsees⟩
      exact hother ⟨rfl, .outward hfree hinside hsees⟩
  | nowhere hfree hout =>
      refine .nowhere (hfree.define (hne hother)) fun o ho => ?_
      exact hout o ((inside_cons_iff (by simp)).mp ho)

end Log

end ScriptLang.Handles
