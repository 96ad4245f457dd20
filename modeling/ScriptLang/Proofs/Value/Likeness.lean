import ScriptLang.Proofs.Value.Correspondence

/-!
Values of two runs that correspond. Closures of one run are never those of another, so
values are compared up to a `Matching`: it says which closures of the two runs are taken
for the same, and which scopes the runs share. Corresponding closures have the same
parameters, body and scope, and the scope is a shared one.

Nothing that can be done with a value tells corresponding values apart. Operators and
displays give the very same result on them, and where a part of a value comes out, the
parts correspond.
-/

namespace ScriptLang

/-- What two runs have in common. -/
structure Matching where
  /-- A closure of the first run is taken for one of the second. -/
  same : Nat → Nat → Prop
  /-- Both runs see what a scope of this number binds. -/
  shared : ScopeId → Prop

def Matching.upTo (same : Nat → Nat → Prop) : Matching := ⟨same, fun _ => True⟩

structure Closure.Like (M : Matching) (f g : Closure) : Prop where
  same : M.same f.id g.id
  shared : M.shared f.scope
  params_eq : f.params = g.params
  body_eq : f.body = g.body
  scope_eq : f.scope = g.scope

mutual

/-- Two values correspond: they are the same but for the closures in them, which
correspond. -/
inductive Value.Like (M : Matching) : Value → Value → Prop
  | int (n : Int64) : Value.Like M (.int n) (.int n)
  | str (s : String) : Value.Like M (.str s) (.str s)
  | bool (b : Bool) : Value.Like M (.bool b) (.bool b)
  | null : Value.Like M .null .null
  | func {f g : Closure} : f.Like M g → Value.Like M (.func f) (.func g)
  | builtin (b : Builtin) : Value.Like M (.builtin b) (.builtin b)
  | array {vs ws : List Value} : Value.LikeItems M vs ws → Value.Like M (.array vs) (.array ws)
  | hash {es fs : List (Key × Value)} :
      Value.LikeEntries M es fs → Value.Like M (.hash es) (.hash fs)

inductive Value.LikeItems (M : Matching) : List Value → List Value → Prop
  | nil : Value.LikeItems M [] []
  | cons {v w : Value} {vs ws : List Value} :
      Value.Like M v w → Value.LikeItems M vs ws → Value.LikeItems M (v :: vs) (w :: ws)

inductive Value.LikeEntries (M : Matching) :
    List (Key × Value) → List (Key × Value) → Prop
  | nil : Value.LikeEntries M [] []
  | cons {k : Key} {v w : Value} {es fs : List (Key × Value)} :
      Value.Like M v w → Value.LikeEntries M es fs →
      Value.LikeEntries M ((k, v) :: es) ((k, w) :: fs)

end

/-- A value holds a closure, at any depth inside arrays and hashes, that was made in the
scope. -/
inductive Value.Captures : Value → ScopeId → Prop
  | func (f : Closure) : Value.Captures (.func f) f.scope
  | array {vs : List Value} {v : Value} {s : ScopeId} :
      v ∈ vs → Value.Captures v s → Value.Captures (.array vs) s
  | hash {es : List (Key × Value)} {e : Key × Value} {s : ScopeId} :
      e ∈ es → Value.Captures e.2 s → Value.Captures (.hash es) s

theorem Closure.Like.eq {M : Matching} {f g : Closure} (h : f.Like M g)
    (hsame : ∀ i j, M.same i j → i = j) : f = g := by
  obtain ⟨hid, _, hparams, hbody, hscope⟩ := h
  cases f
  cases g
  rw [Closure.mk.injEq]
  exact ⟨hsame _ _ hid, hparams, hbody, hscope⟩

namespace Value

variable {M N : Matching} {v w v' w' : Value} {vs ws vs' ws' : List Value}
  {es fs : List (Key × Value)}

/-! ### The scopes that corresponding values capture -/

theorem LikeItems.exists_of_mem (h : LikeItems M vs ws) (hv : v ∈ vs) :
    ∃ w ∈ ws, v.Like M w := by
  induction vs generalizing ws with
  | nil => cases hv
  | cons u us ih =>
      cases h with
      | cons hu hs =>
          rcases List.mem_cons.mp hv with rfl | hv
          · exact ⟨_, List.mem_cons_self, hu⟩
          · obtain ⟨w, hw, hlike⟩ := ih hs hv
            exact ⟨w, List.mem_cons_of_mem _ hw, hlike⟩

theorem LikeEntries.exists_of_mem (h : LikeEntries M es fs) {e : Key × Value} (he : e ∈ es) :
    ∃ f ∈ fs, e.2.Like M f.2 := by
  induction es generalizing fs with
  | nil => cases he
  | cons d ds ih =>
      cases h with
      | cons hd hs =>
          rcases List.mem_cons.mp he with rfl | he
          · exact ⟨_, List.mem_cons_self, hd⟩
          · obtain ⟨f, hf, hlike⟩ := ih hs he
            exact ⟨f, List.mem_cons_of_mem _ hf, hlike⟩

theorem Like.shared_of_captures (h : v.Like M w) {i : ScopeId} (hi : v.Captures i) :
    M.shared i := by
  induction hi generalizing w with
  | func f =>
      cases h with
      | func hf => exact hf.shared
  | array hmem _ ih =>
      cases h with
      | array hs =>
          obtain ⟨_, _, hv⟩ := hs.exists_of_mem hmem
          exact ih hv
  | hash hmem _ ih =>
      cases h with
      | hash hs =>
          obtain ⟨_, _, hv⟩ := hs.exists_of_mem hmem
          exact ih hv

mutual

/-- Values correspond in another matching too, if the scopes that they capture are shared
there. -/
theorem Like.rematch (hsame : ∀ i j, M.same i j → N.same i j) :
    ∀ {v w : Value}, v.Like M w → (∀ i, v.Captures i → N.shared i) → v.Like N w
  | _, _, .int n, _ => .int n
  | _, _, .str s, _ => .str s
  | _, _, .bool b, _ => .bool b
  | _, _, .null, _ => .null
  | _, _, .builtin b, _ => .builtin b
  | _, _, .func h, hshared =>
    .func ⟨hsame _ _ h.same, hshared _ (.func _), h.params_eq, h.body_eq, h.scope_eq⟩
  | _, _, .array hs, hshared =>
    .array (hs.rematch hsame fun _ hv i hi => hshared i (.array hv hi))
  | _, _, .hash hs, hshared =>
    .hash (hs.rematch hsame fun _ he i hi => hshared i (.hash he hi))

theorem LikeItems.rematch (hsame : ∀ i j, M.same i j → N.same i j) :
    ∀ {vs ws : List Value}, LikeItems M vs ws →
      (∀ v ∈ vs, ∀ i, v.Captures i → N.shared i) → LikeItems N vs ws
  | _, _, .nil, _ => .nil
  | _, _, .cons h hs, hshared =>
    .cons (h.rematch hsame (hshared _ List.mem_cons_self))
      (hs.rematch hsame fun _ hv => hshared _ (List.mem_cons_of_mem _ hv))

theorem LikeEntries.rematch (hsame : ∀ i j, M.same i j → N.same i j) :
    ∀ {es fs : List (Key × Value)}, LikeEntries M es fs →
      (∀ e ∈ es, ∀ i, e.2.Captures i → N.shared i) → LikeEntries N es fs
  | _, _, .nil, _ => .nil
  | _, _, .cons h hs, hshared =>
    .cons (h.rematch hsame (hshared _ List.mem_cons_self))
      (hs.rematch hsame fun _ he => hshared _ (List.mem_cons_of_mem _ he))

end

/-- Whatever the runs share, the values themselves correspond. -/
theorem Like.upTo (h : v.Like M w) : v.Like (.upTo M.same) w :=
  h.rematch (M := M) (N := .upTo M.same) (fun _ _ => id) fun _ _ => trivial

/-! ### Values that correspond when every closure is itself -/

mutual

theorem like_refl (hsame : ∀ i, M.same i i) (hshared : ∀ i, M.shared i) :
    ∀ v : Value, v.Like M v
  | .int n => .int n
  | .str s => .str s
  | .bool b => .bool b
  | .null => .null
  | .builtin b => .builtin b
  | .func _ => .func ⟨hsame _, hshared _, rfl, rfl, rfl⟩
  | .array vs => .array (likeItems_refl hsame hshared vs)
  | .hash es => .hash (likeEntries_refl hsame hshared es)

theorem likeItems_refl (hsame : ∀ i, M.same i i) (hshared : ∀ i, M.shared i) :
    ∀ vs : List Value, LikeItems M vs vs
  | [] => .nil
  | v :: vs => .cons (like_refl hsame hshared v) (likeItems_refl hsame hshared vs)

theorem likeEntries_refl (hsame : ∀ i, M.same i i) (hshared : ∀ i, M.shared i) :
    ∀ es : List (Key × Value), LikeEntries M es es
  | [] => .nil
  | (_, v) :: es => .cons (like_refl hsame hshared v) (likeEntries_refl hsame hshared es)

end

mutual

theorem Like.eq (hsame : ∀ i j, M.same i j → i = j) :
    ∀ {v w : Value}, v.Like M w → v = w
  | _, _, .int _ | _, _, .str _ | _, _, .bool _ | _, _, .null | _, _, .builtin _ => rfl
  | _, _, .func h => by rw [h.eq hsame]
  | _, _, .array hs => by rw [hs.eq hsame]
  | _, _, .hash hs => by rw [hs.eq hsame]

theorem LikeItems.eq (hsame : ∀ i j, M.same i j → i = j) :
    ∀ {vs ws : List Value}, LikeItems M vs ws → vs = ws
  | _, _, .nil => rfl
  | _, _, .cons h hs => by rw [h.eq hsame, hs.eq hsame]

theorem LikeEntries.eq (hsame : ∀ i j, M.same i j → i = j) :
    ∀ {es fs : List (Key × Value)}, LikeEntries M es fs → es = fs
  | _, _, .nil => rfl
  | _, _, .cons h hs => by rw [h.eq hsame, hs.eq hsame]

end

/-! ### Corresponding values are shown alike -/

mutual

theorem Like.display_eq (order : HashOrder) :
    ∀ {v w : Value}, v.Like M w → v.display order = w.display order
  | _, _, .int _ | _, _, .str _ | _, _, .bool _ | _, _, .null | _, _, .builtin _ => rfl
  | _, _, .func h => by
    simp only [display, Closure.display, h.params_eq, h.body_eq]
  | _, _, .array h => by
    simp only [display, h.displayItems_eq order 0]
  | _, _, .hash h => by
    simp only [display, h.displayEntries_eq order 0]

theorem LikeItems.displayItems_eq (order : HashOrder) (i : Nat) :
    ∀ {vs ws : List Value}, LikeItems M vs ws → displayItems order i vs = displayItems order i ws
  | _, _, .nil => rfl
  | _, _, .cons h hs => by
    rw [displayItems, displayItems, h.display_eq, hs.displayItems_eq order (i + 1)]

theorem LikeEntries.displayEntries_eq (order : HashOrder) (i : Nat) :
    ∀ {es fs : List (Key × Value)}, LikeEntries M es fs →
      displayEntries order i es = displayEntries order i fs
  | _, _, .nil => rfl
  | _, _, .cons h hs => by
    rw [displayEntries, displayEntries, h.display_eq, hs.displayEntries_eq order (i + 1)]

end

/-! ### Items and entries -/

theorem likeItems_iff : LikeItems M vs ws ↔ List.Forall₂ (Like M) vs ws := by
  constructor
  · intro h
    induction vs generalizing ws with
    | nil => cases h; exact .nil
    | cons v vs ih =>
        cases h with
        | cons hv hs => exact .cons hv (ih hs)
  · intro h
    induction h with
    | nil => exact .nil
    | cons hv _ ih => exact .cons hv ih

theorem likeEntries_iff :
    LikeEntries M es fs ↔ List.Forall₂ (fun e f => e.1 = f.1 ∧ e.2.Like M f.2) es fs := by
  constructor
  · intro h
    induction es generalizing fs with
    | nil => cases h; exact .nil
    | cons e es ih =>
        cases h with
        | cons hv hs => exact .cons ⟨rfl, hv⟩ (ih hs)
  · intro h
    induction h with
    | nil => exact .nil
    | @cons e f es fs he _ ih =>
        obtain ⟨k, v⟩ := e
        obtain ⟨k', w⟩ := f
        obtain ⟨rfl, hv⟩ := he
        exact .cons hv ih

theorem LikeEntries.insert (h : LikeEntries M es fs) (k : Key) (hv : v.Like M w) :
    LikeEntries M (Table.insert k v es) (Table.insert k w fs) := by
  refine likeEntries_iff.mpr (List.rel_append (List.rel_filter ?_ (likeEntries_iff.mp h))
    (.cons ⟨rfl, hv⟩ .nil))
  intro e f he
  simp [he.1]

end Value

def Matching.correspondence (M : Matching) (order : HashOrder) : Correspondence where
  order := order
  order' := order
  rename := .refl
  value _ := Value.Like M
  mono h _ := h
  layer h := by
    cases h with
    | int i => exact .int i
    | str s => exact .str s
    | bool b => exact .bool b
    | null => exact .null
    | func h => exact .func _ _
    | builtin b => exact .builtin b
    | array hs => exact .array (Value.likeItems_iff.mp hs)
    | hash hs => exact .hash (Value.likeEntries_iff.mp hs)
  atom {_ v} h := by
    cases v with
    | int i => exact .int i
    | str s => exact .str s
    | bool b => exact .bool b
    | null => exact .null
    | builtin b => exact .builtin b
    | func | array | hash => cases h
  array hs := .array (Value.likeItems_iff.mpr hs)
  hash_nil _ := .hash .nil
  insert k ht hv := by
    cases ht with
    | hash hs => exact .hash (hs.insert k hv)
  params_eq h := by
    cases h with
    | func h => exact h.params_eq.symm.trans (Renaming.map_refl _).symm
  body_eq h := by
    cases h with
    | func h => exact h.body_eq.symm.trans (Stmt.renameAll_refl _).symm
  scope_eq h := by
    cases h with
    | func h => exact h.scope_eq.symm

/-- Corresponding values are shown alike, so errors that show them are the same. -/
theorem Correspondence.Errors.eq {M : Matching} {order : HashOrder} {n : Nat}
    {e e' : RuntimeError} (h : (M.correspondence order).Errors n e e') : e = e' := by
  have hdisplay {v w : Value} (hv : (M.correspondence order).value n v w) (o : HashOrder) :
      v.display o = w.display o := Value.Like.display_eq o hv
  cases h with
  | same _ | unknownIdentifier x | alreadyDefined x => rfl
  | typeMismatch op hl hr =>
      rw [hdisplay hl, hdisplay hr]
      rfl
  | unknownBinaryOperator op hl hr =>
      rw [hdisplay hl, hdisplay hr]
      rfl
  | unknownUnaryOperator op hv | nonBooleanCondition hv | notCallable hv | missingKey hv _ =>
      rw [hdisplay hv]
      rfl

end ScriptLang
