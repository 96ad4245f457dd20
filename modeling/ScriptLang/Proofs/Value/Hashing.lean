import Mathlib.Logic.ExistsUnique
import ScriptLang.Proofs.Eval.HashLiteral

/-!
What FNV-1a keeps apart. A step of the hash takes in a byte by an exclusive or and multiplies by
the prime, which has an inverse among the 64-bit words; so a step loses nothing, neither of the hash
before it nor of the byte. Hashes that differ once therefore differ after any further bytes, and
hashes that agree have agreed all along (`fnv1a_append_eq_iff`). In particular a single byte that
differs makes the hashes differ, and strings with such bytes are filed apart.
-/

namespace ScriptLang

/-! ### Steps -/

/-- What undoes the factor of a step. -/
def fnvInverse : UInt64 := 0xce965057aff6957b

theorem fnvPrime_mul_fnvInverse : fnvPrime * fnvInverse = 1 := by decide

theorem mul_fnvPrime_injective : Function.Injective (· * fnvPrime) := by
  intro x y h
  have hback : x * fnvPrime * fnvInverse = y * fnvPrime * fnvInverse :=
    congrArg (· * fnvInverse) h
  simpa only [UInt64.mul_assoc, fnvPrime_mul_fnvInverse, UInt64.mul_one] using hback

/-- A step loses nothing of the hash before it. -/
theorem fnvStep_left_injective (byte : UInt8) : Function.Injective fun hash => fnvStep hash byte :=
  fun _ _ h => (UInt64.xor_left_inj _).mp (mul_fnvPrime_injective h)

/-- A step loses nothing of the byte that it takes in. -/
theorem fnvStep_injective (hash : UInt64) : Function.Injective (fnvStep hash) :=
  fun _ _ h => UInt8.toUInt64_inj.mp ((UInt64.xor_right_inj _).mp (mul_fnvPrime_injective h))

theorem foldl_fnvStep_injective (bytes : List UInt8) :
    Function.Injective fun hash => bytes.foldl fnvStep hash := by
  induction bytes with
  | nil => exact Function.injective_id
  | cons byte bytes ih => exact ih.comp (fnvStep_left_injective byte)

/-- The same bytes behind two rows of bytes neither make their hashes agree nor differ. -/
theorem fnv1a_append_eq_iff (as bs tail : List UInt8) :
    fnv1a (as ++ tail) = fnv1a (bs ++ tail) ↔ fnv1a as = fnv1a bs := by
  rw [fnv1a_append, fnv1a_append]
  exact (foldl_fnvStep_injective tail).eq_iff

/-! ### A single byte -/

/-- Two rows are of one length and differ in exactly one place. -/
structure DifferOnce {α : Type} (as bs : List α) : Prop where
  length_eq : as.length = bs.length
  place : ∃! i : Nat, as[i]? ≠ bs[i]?

theorem DifferOnce.exists_eq_append {α : Type} {as bs : List α} (h : DifferOnce as bs) :
    ∃ front a b back, as = front ++ a :: back ∧ bs = front ++ b :: back ∧ a ≠ b := by
  obtain ⟨i, hi, huniq⟩ := h.place
  have heq (j : Nat) (hj : j ≠ i) : as[j]? = bs[j]? := by
    by_contra hne
    exact hj (huniq j hne)
  have hias : i < as.length := by
    by_contra hle
    refine hi ?_
    rw [List.getElem?_eq_none (by omega), List.getElem?_eq_none (by have := h.length_eq; omega)]
  have hibs : i < bs.length := h.length_eq ▸ hias
  have hfront : as.take i = bs.take i := by
    refine List.ext_getElem? fun j => ?_
    rw [List.getElem?_take, List.getElem?_take]
    split
    · exact heq j (by omega)
    · rfl
  have hback : as.drop (i + 1) = bs.drop (i + 1) := by
    refine List.ext_getElem? fun j => ?_
    rw [List.getElem?_drop, List.getElem?_drop]
    exact heq _ (by omega)
  refine ⟨as.take i, as[i], bs[i], as.drop (i + 1), ?_, ?_, fun hab => hi ?_⟩
  · rw [List.cons_getElem_drop_succ, List.take_append_drop]
  · rw [hfront, hback, List.cons_getElem_drop_succ, List.take_append_drop]
  · rw [List.getElem?_eq_getElem hias, List.getElem?_eq_getElem hibs, hab]

/-- Rows that differ in one byte have different hashes. -/
theorem fnv1a_ne_of_differOnce {as bs : List UInt8} (h : DifferOnce as bs) :
    fnv1a as ≠ fnv1a bs := by
  obtain ⟨front, a, b, back, rfl, rfl, hne⟩ := h.exists_eq_append
  intro heq
  have hsplit (c : UInt8) : front ++ c :: back = (front ++ [c]) ++ back := by simp
  rw [hsplit a, hsplit b, fnv1a_append_eq_iff, fnv1a_append, fnv1a_append] at heq
  exact hne (fnvStep_injective _ heq)

theorem Key.hashKey_str_ne {s t : String} (h : DifferOnce (utf8Bytes s) (utf8Bytes t)) :
    (Key.str s).hashKey ≠ (Key.str t).hashKey :=
  fun heq => fnv1a_ne_of_differOnce h (HashKey.mk.inj heq).2

/-! ### Hashes -/

def pairsWithout (k : Key) (ps : List (Key × Value)) : List (Key × Value) :=
  ps.filter fun p => p.1 ≠ k

theorem find?_ofPairs_pairsWithout {h : HashKey} {k : Key} (hne : k.hashKey ≠ h)
    (ps : List (Key × Value)) :
    (Table.ofPairs (pairsWithout k ps)).find? h = (Table.ofPairs ps).find? h := by
  rw [find?_ofPairs, find?_ofPairs, lastPair_eq_getLast?_filter, lastPair_eq_getLast?_filter,
    pairsWithout, List.filter_filter]
  refine congrArg List.getLast? (List.filter_congr fun p _ => ?_)
  -- A pair with the hash key that is looked for has another key.
  by_cases hp : p.1.hashKey = h
  · have hk : p.1 ≠ k := fun hk => hne (hk ▸ hp)
    simp [hp, hk]
  · simp [hp]

theorem atIndex_pairsWithout {s : String} {k : Key} (hne : k.hashKey ≠ (Key.str s).hashKey)
    (order : HashOrder) (ps : List (Key × Value)) :
    Value.atIndex order (.hash (Table.ofPairs (pairsWithout k ps))) (.str s) =
      Value.atIndex order (.hash (Table.ofPairs ps)) (.str s) := by
  have hk : (Value.str s).key? = some (.str s) := rfl
  rw [Value.atIndex_hash hk, Value.atIndex_hash hk, find?_ofPairs_pairsWithout hne]

/-- A difference in one byte is kept.

The hashes of two rows of bytes agree if and only if they agree with the same bytes behind both. So
two strings whose bytes differ in exactly one place, and are as many, are filed under different hash
keys, and neither takes the place of the other: when the pairs of a hash literal have been
evaluated, what the hash has under the one string is what it would have without the pairs for the
other one. -/
theorem single_byte_keeps_apart :
    (∀ as bs tail : List UInt8,
      fnv1a (as ++ tail) = fnv1a (bs ++ tail) ↔ fnv1a as = fnv1a bs) ∧
    ∀ s t : String, DifferOnce (utf8Bytes s) (utf8Bytes t) →
      (Key.str s).hashKey ≠ (Key.str t).hashKey ∧
      ∀ (c : Caller) (scope : ScopeId) (pairs : List (Expr × Expr)) (ps : List (Key × Value))
        (st st' : Store), EvaluatesPairs c scope pairs st ps st' → ∃ h,
          (Expr.hash pairs).eval c scope st = .ok (.hash h) st' ∧
          ∀ order : HashOrder,
            Value.atIndex order (.hash h) (.str s) =
              Value.atIndex order (.hash (Table.ofPairs (pairsWithout (.str t) ps))) (.str s) ∧
            Value.atIndex order (.hash h) (.str t) =
              Value.atIndex order (.hash (Table.ofPairs (pairsWithout (.str s) ps))) (.str t) := by
  refine ⟨fnv1a_append_eq_iff, fun s t hst => ?_⟩
  have hne := Key.hashKey_str_ne hst
  refine ⟨hne, fun c scope pairs ps st st' hps => ⟨Table.ofPairs ps, hps.eval_hash, ?_⟩⟩
  intro order
  exact ⟨(atIndex_pairsWithout hne.symm order ps).symm,
    (atIndex_pairsWithout hne order ps).symm⟩

/-- The two bytes of `é` and those of `è` differ in the second one. -/
theorem differOnce_accents : DifferOnce (utf8Bytes "é") (utf8Bytes "è") where
  length_eq := rfl
  place := by
    refine ⟨1, by decide, fun i hi => ?_⟩
    match i with
    | 0 => exact absurd rfl hi
    | 1 => rfl
    | _ + 2 => exact absurd rfl hi

/-- Strings that differ in one byte of one character do not disturb one another. -/
theorem single_byte_keeps_apart_accents :
    DifferOnce (utf8Bytes "é") (utf8Bytes "è") ∧
    ∃ h, (Expr.hash [(.str "é", .int 1), (.str "è", .int 2)]).eval
        (Eval.caller HashOrder.byKey 0) 0 Store.empty = .ok (.hash h) Store.empty ∧
      Value.atIndex HashOrder.byKey (.hash h) (.str "é") = .ok (.int 1) ∧
      Value.atIndex HashOrder.byKey (.hash h) (.str "è") = .ok (.int 2) := by
  have hpairs : EvaluatesPairs (Eval.caller HashOrder.byKey 0) 0
      [(.str "é", .int 1), (.str "è", .int 2)] Store.empty
      [(.str "é", .int 1), (.str "è", .int 2)] Store.empty :=
    .cons rfl rfl rfl (.cons rfl rfl rfl .nil)
  obtain ⟨h, heval, hindex⟩ :=
    (single_byte_keeps_apart.2 "é" "è" differOnce_accents).2 _ _ _ _ _ _ hpairs
  obtain ⟨hfirst, hsecond⟩ := hindex HashOrder.byKey
  exact ⟨differOnce_accents, h, heval, hfirst.trans rfl, hsecond.trans rfl⟩

end ScriptLang
