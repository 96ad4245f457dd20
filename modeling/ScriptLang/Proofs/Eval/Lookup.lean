import ScriptLang.Proofs.Eval.Run
import ScriptLang.Proofs.Value.Filing

/-!
Indexing a hash literal. The literal evaluates its pairs from left to right and files
them under their hash keys, so an index finds the last pair whose hash key is its own.
That is the last pair with the very key, as it is meant to be, exactly if no other
key took its place on the way; a string can take the place of another one.
-/

namespace ScriptLang

/-- The pairs of a hash literal are evaluated from left to right, the key of each
before its value, and all keys can be keys. -/
inductive EvaluatesPairs (c : Caller) (s : ScopeId) :
    List (Expr × Expr) → Store → List (Key × Value) → Store → Prop
  | nil {st : Store} : EvaluatesPairs c s [] st [] st
  | cons {key value : Expr} {pairs : List (Expr × Expr)} {v w : Value} {k : Key}
      {ps : List (Key × Value)} {st st₁ st₂ st₃ : Store} :
      key.eval c s st = .ok v st₁ → v.key? = some k → value.eval c s st₁ = .ok w st₂ →
      EvaluatesPairs c s pairs st₂ ps st₃ →
      EvaluatesPairs c s ((key, value) :: pairs) st ((k, w) :: ps) st₃

theorem Value.asKey_eq_ok_iff {v : Value} {k : Key} : v.asKey = .ok k ↔ v.key? = some k := by
  unfold Value.asKey
  cases v.key? <;> simp

/-- The pairs of a literal are added to a table one after another. -/
theorem evalPairs_eq_ok_iff {c : Caller} {s : ScopeId} {pairs : List (Expr × Expr)}
    {t t' : Table Value} {st st' : Store} :
    Expr.evalPairs c s pairs t st = .ok t' st' ↔
      ∃ ps, EvaluatesPairs c s pairs st ps st' ∧
        t' = ps.foldl (fun t p => t.insert p.1 p.2) t := by
  induction pairs generalizing t st with
  | nil =>
      constructor
      · rintro ⟨⟩
        exact ⟨[], .nil, rfl⟩
      · rintro ⟨_, ⟨⟩, rfl⟩
        rfl
  | cons pair pairs ih =>
      obtain ⟨key, value⟩ := pair
      rw [Expr.evalPairs]
      simp only [Eval.bind_eq_ok_iff, Eval.ofExcept_eq_ok_iff, Value.asKey_eq_ok_iff, ih]
      constructor
      · rintro ⟨v, st₁, hv, k, _, ⟨hk, rfl⟩, w, st₂, hw, ps, hps, rfl⟩
        exact ⟨(k, w) :: ps, .cons hv hk hw hps, rfl⟩
      · rintro ⟨_, hps, rfl⟩
        cases hps with
        | cons hv hk hw hps => exact ⟨_, _, hv, _, _, ⟨hk, rfl⟩, _, _, hw, _, hps, rfl⟩

def foundAt (order : HashOrder) (index : Value) (found : Option (Key × Value)) (st : Store) :
    EStateM.Result Stop Store Value :=
  match found with
  | some p => .ok p.2 st
  | none => .error (.failed (.missingKey (index.display order))) st

theorem Value.atIndex_hash {order : HashOrder} {w : Value} {k : Key} (hk : w.key? = some k)
    (t : Table Value) :
    Value.atIndex order (.hash t) w =
      match t.find? k.hashKey with
      | some e => .ok e.2
      | none => .error (.missingKey (w.display order)) := by
  have hkey : w.asKey = .ok k := Value.asKey_eq_ok_iff.mpr hk
  have hentry : Value.atIndex order (.hash t) w = Value.entryAt order t w := by
    cases w <;> rfl
  simp only [hentry, Value.entryAt, hkey, bind, Except.bind]
  cases t.find? k.hashKey <;> rfl

theorem atIndex_ofPairs {order : HashOrder} {w : Value} {k : Key} (hk : w.key? = some k)
    (ps : List (Key × Value)) (st : Store) :
    Eval.ofExcept (Value.atIndex order (.hash (Table.ofPairs ps)) w) st =
      foundAt order w (lastPair (fun k' => k'.hashKey = k.hashKey) ps) st := by
  rw [Value.atIndex_hash hk, find?_ofPairs]
  cases lastPair (fun k' => k'.hashKey = k.hashKey) ps <;> rfl

/-- A hash literal is indexed with a key by the last pair whose hash key is that of the
index. This is the last pair with an equal key exactly if the pair that is found has
one. Hash keys are the same for equal keys, and otherwise only for two strings whose
bytes have the same hash. -/
theorem eval_index_hash {c : Caller} {s : ScopeId} {pairs : List (Expr × Expr)} {i : Expr}
    {ps : List (Key × Value)} {w : Value} {k : Key} {st st₁ st₂ : Store}
    (hpairs : EvaluatesPairs c s pairs st ps st₁) (hi : i.eval c s st₁ = .ok w st₂)
    (hk : w.key? = some k) :
    (Expr.index (.hash pairs) i).eval c s st =
        foundAt c.order w (lastPair (fun k' => k'.hashKey = k.hashKey) ps) st₂ ∧
      (lastPair (fun k' => k'.hashKey = k.hashKey) ps =
          lastPair (fun k' => k'.value.same w) ps ↔
        ∀ p, lastPair (fun k' => k'.hashKey = k.hashKey) ps = some p →
          p.1.value.same w = true) ∧
      ∀ a b : Key, a.hashKey = b.hashKey ↔ a.value.same b.value = true ∨
        ∃ t u, a = .str t ∧ b = .str u ∧ fnv1a (utf8Bytes t) = fnv1a (utf8Bytes u) := by
  have hsame : (fun k' : Key => k'.value.same w) = fun k' => decide (k' = k) := by
    obtain rfl := Value.key?_eq_some_iff.mp hk
    funext k'
    rw [Bool.eq_iff_iff, decide_eq_true_iff]
    exact Key.same_value_iff k' k
  refine ⟨?_, ?_, fun a b => ?_⟩
  · have htable : Expr.evalPairs c s pairs [] st = .ok (Table.ofPairs ps) st₁ :=
      evalPairs_eq_ok_iff.mpr ⟨ps, hpairs, rfl⟩
    have hhash : (Expr.hash pairs).eval c s st = .ok (.hash (Table.ofPairs ps)) st₁ := by
      rw [Expr.eval]
      exact Eval.bind_ok htable
    rw [Expr.eval, Eval.bind_ok hhash, Eval.bind_ok hi]
    exact atIndex_ofPairs hk ps st₂
  · rw [hsame, lastPair_hashKey_eq_iff]
    have hcond (p : Key × Value) : p.1.value.same w = true ↔ p.1 = k := by
      rw [show p.1.value.same w = decide (p.1 = k) from congrFun hsame p.1,
        decide_eq_true_iff]
    simp only [hcond]
  · rw [Key.same_value_iff]
    exact Key.hashKey_eq_iff a b

/-- A literal with one pair is indexed with a string that it does not have as a key, and
finds the pair all the same. -/
theorem eval_index_hash_collision :
    (Expr.index (.hash [(.str "8yn0iYCKYHlIj4-BwPqk", .int 1)])
      (.str "GReLUrM4wMqfg9yzV3KQ")).eval (Eval.caller HashOrder.byKey 0) 0 Store.empty =
        .ok (.int 1) Store.empty := by
  have hpairs : EvaluatesPairs (Eval.caller HashOrder.byKey 0) 0
      [(.str "8yn0iYCKYHlIj4-BwPqk", .int 1)] Store.empty
      [(.str "8yn0iYCKYHlIj4-BwPqk", .int 1)] Store.empty :=
    .cons rfl rfl rfl .nil
  rw [(eval_index_hash hpairs (i := .str "GReLUrM4wMqfg9yzV3KQ") rfl rfl).1]
  rfl

end ScriptLang
