import Mathlib
import ScriptLang.Proofs.Eval.Integrity
import ScriptLang.Proofs.Eval.Lookup
import ScriptLang.Proofs.Value.LastWins

/-!
Hash literals. The steps of a literal are, for each pair from left to right, to evaluate the
key, to take its hash key, and to evaluate the value. If no step stops, the hash has the last
pair with each hash key as its entries, and whatever is observed of it follows from that. If
one does, the literal stops where the first one does, for the same reason and with the same
store (`PairsStop`).
-/

namespace ScriptLang

variable {c : Caller} {s : ScopeId}

/-- The evaluation of the pairs of a literal stops: all pairs before some pair are evaluated,
and then a step of this pair stops. -/
inductive PairsStop (c : Caller) (s : ScopeId) :
    List (Expr × Expr) → Store → Stop → Store → Prop
  | key {front back : List (Expr × Expr)} {key value : Expr} {ps : List (Key × Value)}
      {stop : Stop} {st st₁ st₂ : Store} :
      EvaluatesPairs c s front st ps st₁ → key.eval c s st₁ = .error stop st₂ →
      PairsStop c s (front ++ (key, value) :: back) st stop st₂
  | unhashable {front back : List (Expr × Expr)} {key value : Expr} {ps : List (Key × Value)}
      {v : Value} {st st₁ st₂ : Store} :
      EvaluatesPairs c s front st ps st₁ → key.eval c s st₁ = .ok v st₂ → v.key? = none →
      PairsStop c s (front ++ (key, value) :: back) st (.failed (.unhashableKey v.type)) st₂
  | value {front back : List (Expr × Expr)} {key value : Expr} {ps : List (Key × Value)}
      {v : Value} {k : Key} {stop : Stop} {st st₁ st₂ st₃ : Store} :
      EvaluatesPairs c s front st ps st₁ → key.eval c s st₁ = .ok v st₂ → v.key? = some k →
      value.eval c s st₂ = .error stop st₃ →
      PairsStop c s (front ++ (key, value) :: back) st stop st₃

/-! ### Literals whose steps all have results -/

theorem EvaluatesPairs.length_eq {pairs : List (Expr × Expr)} {ps : List (Key × Value)}
    {st st' : Store} (h : EvaluatesPairs c s pairs st ps st') : ps.length = pairs.length := by
  induction h with
  | nil => rfl
  | cons _ _ _ _ ih => exact congrArg (· + 1) ih

theorem EvaluatesPairs.eval_hash {pairs : List (Expr × Expr)} {ps : List (Key × Value)}
    {st st' : Store} (h : EvaluatesPairs c s pairs st ps st') :
    (Expr.hash pairs).eval c s st = .ok (.hash (Table.ofPairs ps)) st' := by
  rw [Expr.eval]
  exact Eval.bind_ok (evalPairs_eq_ok_iff.mpr ⟨ps, h, rfl⟩)

theorem Table.LastWins.atIndex_eq {ps : List (Key × Value)} {t : Table Value}
    (ht : t.LastWins ps) (order : HashOrder) {w : Value} {k : Key} (hk : w.key? = some k) :
    (∀ p, IsLast p ps → p.1.hashKey = k.hashKey →
      Value.atIndex order (.hash t) w = .ok p.2) ∧
    ((∀ p ∈ ps, p.1.hashKey ≠ k.hashKey) →
      Value.atIndex order (.hash t) w = .error (.missingKey (w.display order))) := by
  rw [Value.atIndex_hash hk, ht.find?_eq]
  constructor
  · intro p hp hkey
    rw [lastPair_hashKey_eq_some_iff.mpr ⟨hp, hkey⟩]
  · intro hne
    rw [lastPair_eq_none_iff.mpr fun p hp => decide_eq_false (hne p hp)]

def hashKeyCount (ps : List (Key × Value)) : Nat :=
  (ps.map fun p => p.1.hashKey).dedup.length

theorem hashKeyCount_le (ps : List (Key × Value)) : hashKeyCount ps ≤ ps.length :=
  calc hashKeyCount ps
    _ ≤ (ps.map fun p => p.1.hashKey).length := (List.dedup_sublist _).length_le
    _ = ps.length := List.length_map _

theorem Table.LastWins.call_len {ps : List (Key × Value)} {t : Table Value}
    (ht : t.LastWins ps) (st : Store) :
    Builtin.call .len [.hash t] st = .ok (.int (Int64.ofNat (hashKeyCount ps))) st := by
  rw [hashKeyCount, ← ht.length_eq]
  rfl

/-- Keys that share a hash key are of the same type, and the same key unless they are
strings. -/
theorem Key.eq_of_hashKey_eq {a b : Key} (h : a.hashKey = b.hashKey) :
    a.value.type = b.value.type ∧ (a.value.type ≠ .string → a = b) := by
  rcases (Key.hashKey_eq_iff a b).mp h with rfl | ⟨x, y, rfl, rfl, -⟩
  · exact ⟨rfl, fun _ => rfl⟩
  · exact ⟨rfl, fun hne => absurd rfl hne⟩

/-! ### Literals with a step that stops -/

theorem evalPair_eq_error_iff {p : Expr × Expr} {stop : Stop} {st st' : Store} :
    Expr.evalPair c s p st = .error stop st' ↔
      p.1.eval c s st = .error stop st' ∨
      (∃ v, p.1.eval c s st = .ok v st' ∧ v.key? = none ∧
        stop = .failed (.unhashableKey v.type)) ∨
      ∃ v k st₁, p.1.eval c s st = .ok v st₁ ∧ v.key? = some k ∧
        p.2.eval c s st₁ = .error stop st' := by
  rw [Expr.evalPair, Eval.bind_eq_error_iff]
  refine or_congr_right ?_
  -- What is left to do behind a key with this value.
  have hafter (v : Value) (st₁ : Store) :
      (Eval.ofExcept v.asKey >>= fun key => p.2.eval c s >>= fun w => pure (key, w) :
        Eval (Key × Value)) st₁ = .error stop st' ↔
      (st₁ = st' ∧ v.key? = none ∧ stop = .failed (.unhashableKey v.type)) ∨
        ∃ k, v.key? = some k ∧ p.2.eval c s st₁ = .error stop st' := by
    unfold Value.asKey
    cases hk : v.key? with
    | none =>
        show EStateM.Result.error _ st₁ = .error stop st' ↔ _
        simp [and_comm, eq_comm]
    | some k =>
        show (p.2.eval c s >>= fun w => pure (k, w)) st₁ = .error stop st' ↔ _
        rw [Eval.bind_eq_error_iff]
        constructor
        · rintro (h | ⟨w, st₂, -, h⟩)
          · exact .inr ⟨k, rfl, h⟩
          · cases h
        · rintro (⟨-, h, -⟩ | ⟨_, -, h⟩)
          · cases h
          · exact .inl h
  simp only [hafter]
  constructor
  · rintro ⟨v, st₁, hv, ⟨rfl, hk, hstop⟩ | ⟨k, hk, hw⟩⟩
    · exact .inl ⟨v, hv, hk, hstop⟩
    · exact .inr ⟨v, k, st₁, hv, hk, hw⟩
  · rintro (⟨v, hv, hk, hstop⟩ | ⟨v, k, st₁, hv, hk, hw⟩)
    · exact ⟨v, st', hv, .inl ⟨rfl, hk, hstop⟩⟩
    · exact ⟨v, st₁, hv, .inr ⟨k, hk, hw⟩⟩

/-- A literal stops exactly where the first of its steps stops that does. -/
theorem eval_hash_eq_error_iff {pairs : List (Expr × Expr)} {stop : Stop} {st st' : Store} :
    (Expr.hash pairs).eval c s st = .error stop st' ↔ PairsStop c s pairs st stop st' := by
  have hpairs : (Expr.hash pairs).eval c s st = .error stop st' ↔
      Expr.evalPairs c s pairs [] st = .error stop st' := by
    rw [Expr.eval, Eval.bind_eq_error_iff]
    refine or_iff_left ?_
    rintro ⟨t, st₁, -, h⟩
    cases h
  rw [hpairs, evalPairs_eq_error_iff]
  constructor
  · rintro ⟨front, p, back, t, st₁, rfl, hfront, hp⟩
    obtain ⟨ps, hps, -⟩ := evalPairs_eq_ok_iff.mp hfront
    rcases evalPair_eq_error_iff.mp hp with h | ⟨v, hv, hk, rfl⟩ | ⟨v, k, st₂, hv, hk, hw⟩
    · exact .key hps h
    · exact .unhashable hps hv hk
    · exact .value hps hv hk hw
  · intro h
    cases h with
    | key hps h =>
        exact ⟨_, _, _, _, _, rfl, evalPairs_eq_ok_iff.mpr ⟨_, hps, rfl⟩,
          evalPair_eq_error_iff.mpr (.inl h)⟩
    | unhashable hps hv hk =>
        exact ⟨_, _, _, _, _, rfl, evalPairs_eq_ok_iff.mpr ⟨_, hps, rfl⟩,
          evalPair_eq_error_iff.mpr (.inr (.inl ⟨_, hv, hk, rfl⟩))⟩
    | value hps hv hk hw =>
        exact ⟨_, _, _, _, _, rfl, evalPairs_eq_ok_iff.mpr ⟨_, hps, rfl⟩,
          evalPair_eq_error_iff.mpr (.inr (.inr ⟨_, _, _, hv, hk, hw⟩))⟩

/-! ### Hash literals -/

/-- A hash literal files the last of its pairs under each hash key.

If its keys and values have results and the keys can be keys, its entries are the last pairs
with each hash key. Its length is the number of different hash keys, as an integer; that is the
number itself unless there are 2 ^ 63 pairs or more. A key as an index gives
the value of the last pair with its hash key, and is missing if there is none. And in an
intact store the hash is equal to that of every literal that has the same pairs in another
order, if pairs that share a hash key come in the same order.

Keys that share a hash key are of the same type, and the same key unless they are strings.

If a key or a value stops, or a key cannot be a key, the literal stops where the first step
does that stops: the steps of a pair are its key, the hash key of it, and its value. -/
theorem hash_literal_last_wins (order : HashOrder) (depth : Nat) (s : ScopeId)
    (pairs : List (Expr × Expr)) (st : Store) :
    (∀ ps st', EvaluatesPairs (Eval.caller order depth) s pairs st ps st' → ∃ t,
      (Expr.hash pairs).eval (Eval.caller order depth) s st = .ok (.hash t) st' ∧
      (t.map fun p => p.1.hashKey).Nodup ∧ (∀ p, p ∈ t ↔ IsLast p ps) ∧
      (∀ st₁, Builtin.call .len [.hash t] st₁ =
        .ok (.int (Int64.ofNat (hashKeyCount ps))) st₁) ∧
      (pairs.length < 2 ^ 63 → (Int64.ofNat (hashKeyCount ps)).toInt = hashKeyCount ps) ∧
      (∀ w k, w.key? = some k →
        (∀ p, IsLast p ps → p.1.hashKey = k.hashKey →
          Value.atIndex order (.hash t) w = .ok p.2) ∧
        ((∀ p ∈ ps, p.1.hashKey ≠ k.hashKey) →
          Value.atIndex order (.hash t) w = .error (.missingKey (w.display order)))) ∧
      (st.Intact → s < st.scopes.size → ∀ c s' pairs' qs st₁ st₂, Reorders ps qs →
        EvaluatesPairs c s' pairs' st₁ qs st₂ → ∃ u,
          (Expr.hash pairs').eval c s' st₁ = .ok (.hash u) st₂ ∧
            (Value.hash t).same (.hash u) = true)) ∧
    (∀ a b : Key, a.hashKey = b.hashKey →
      a.value.type = b.value.type ∧ (a.value.type ≠ .string → a = b)) ∧
    (∀ stop st', (Expr.hash pairs).eval (Eval.caller order depth) s st = .error stop st' ↔
      PairsStop (Eval.caller order depth) s pairs st stop st') := by
  refine ⟨fun ps st' hps => ?_, fun a b => Key.eq_of_hashKey_eq,
    fun stop st' => eval_hash_eq_error_iff⟩
  have hlast := Table.lastWins_ofPairs ps
  refine ⟨Table.ofPairs ps, hps.eval_hash, hlast.unique, hlast.mem_iff, hlast.call_len,
    fun hlength => ?_, fun w k hk => hlast.atIndex_eq order hk,
    fun hst hs c s' pairs' qs st₁ st₂ hqs hps' => ?_⟩
  · exact Int64.toInt_ofNat_of_lt
      (Nat.lt_of_le_of_lt (hashKeyCount_le ps) (hps.length_eq ▸ hlength))
  · -- What an intact store evaluates to is intact, so the values of the entries are.
    obtain ⟨-, -, ht⟩ := intact_of_eval_eq_ok hst hs hps.eval_hash
    exact ⟨Table.ofPairs qs, hps'.eval_hash,
      hlast.same (Table.lastWins_ofPairs qs) hqs ht.wellFiled⟩

/-- Pairs with two different strings that share a hash key, and an integer between them. -/
def collidingPairs : List (Key × Value) :=
  [(.str "8yn0iYCKYHlIj4-BwPqk", .int 1), (.int 5, .bool true),
    (.str "GReLUrM4wMqfg9yzV3KQ", .int 2)]

/-- The same pairs with the integer in front. -/
def collidingPairs' : List (Key × Value) :=
  [(.int 5, .bool true), (.str "8yn0iYCKYHlIj4-BwPqk", .int 1),
    (.str "GReLUrM4wMqfg9yzV3KQ", .int 2)]

theorem reorders_collidingPairs : Reorders collidingPairs collidingPairs' :=
  .swap (by decide) _

/-- There are two entries, the first string finds what was filed with the second one, and it
does not matter where the integer stands. -/
theorem hash_literal_last_wins_collision :
    ∃ t, (Expr.hash [(.str "8yn0iYCKYHlIj4-BwPqk", .int 1), (.int 5, .bool true),
        (.str "GReLUrM4wMqfg9yzV3KQ", .int 2)]).eval (Eval.caller HashOrder.byKey 0) 0
          Interpreter.start.store = .ok (.hash t) Interpreter.start.store ∧
      Builtin.call .len [.hash t] Interpreter.start.store =
        .ok (.int 2) Interpreter.start.store ∧
      Value.atIndex HashOrder.byKey (.hash t) (.str "8yn0iYCKYHlIj4-BwPqk") = .ok (.int 2) ∧
      ∃ u, (Expr.hash [(.int 5, .bool true), (.str "8yn0iYCKYHlIj4-BwPqk", .int 1),
          (.str "GReLUrM4wMqfg9yzV3KQ", .int 2)]).eval (Eval.caller HashOrder.byKey 0) 0
            Interpreter.start.store = .ok (.hash u) Interpreter.start.store ∧
        (Value.hash t).same (.hash u) = true := by
  have hpairs : EvaluatesPairs (Eval.caller HashOrder.byKey 0) 0
      [(.str "8yn0iYCKYHlIj4-BwPqk", .int 1), (.int 5, .bool true),
        (.str "GReLUrM4wMqfg9yzV3KQ", .int 2)] Interpreter.start.store collidingPairs
      Interpreter.start.store :=
    .cons rfl rfl rfl (.cons rfl rfl rfl (.cons rfl rfl rfl .nil))
  have hpairs' : EvaluatesPairs (Eval.caller HashOrder.byKey 0) 0
      [(.int 5, .bool true), (.str "8yn0iYCKYHlIj4-BwPqk", .int 1),
        (.str "GReLUrM4wMqfg9yzV3KQ", .int 2)] Interpreter.start.store collidingPairs'
      Interpreter.start.store :=
    .cons rfl rfl rfl (.cons rfl rfl rfl (.cons rfl rfl rfl .nil))
  have hlast : IsLast (.str "GReLUrM4wMqfg9yzV3KQ", .int 2) collidingPairs :=
    ⟨[(.str "8yn0iYCKYHlIj4-BwPqk", .int 1), (.int 5, .bool true)], [], rfl, nofun⟩
  have hcount : hashKeyCount collidingPairs = 2 := by decide
  obtain ⟨t, ht, -, -, hlen, -, hindex, hsame⟩ := (hash_literal_last_wins HashOrder.byKey 0 0 _
    Interpreter.start.store).1 _ _ hpairs
  rw [hcount] at hlen
  refine ⟨t, ht, hlen _, ?_, ?_⟩
  · exact (hindex (.str "8yn0iYCKYHlIj4-BwPqk") (.str "8yn0iYCKYHlIj4-BwPqk") rfl).1 _ hlast
      (by decide)
  · exact hsame (Store.intact_empty.newScope nofun) Nat.zero_lt_one _ _ _ _ _ _
      reorders_collidingPairs hpairs'

end ScriptLang
