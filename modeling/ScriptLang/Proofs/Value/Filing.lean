import ScriptLang.Value.Equality

/-!
How a hash files its entries. A table is looked up by hash key, so an entry is found
for every key that shares its hash key, and of several such entries only the one that
was added last is left. For integers and truth values a hash key is as good as the
key itself. For strings it is not: it holds 64 bits of a text of any length, and two
texts may have the same ones (`hashKey_collision`).

`lastPair` picks the last of some pairs whose key meets a condition. A lookup by
content would pick the last pair with the very key; what a table finds is the last
pair with its hash key (`find?_ofPairs`), and the two agree exactly if the latter has
the very key (`lastPair_hashKey_eq_iff`).
-/

namespace ScriptLang

/-! ### Hash keys -/

/-- Two keys share a hash key exactly if they are the same key, or strings whose bytes
have the same hash. -/
theorem Key.hashKey_eq_iff (a b : Key) :
    a.hashKey = b.hashKey ↔
      a = b ∨ ∃ s t, a = .str s ∧ b = .str t ∧ fnv1a (utf8Bytes s) = fnv1a (utf8Bytes t) := by
  constructor
  · intro h
    obtain ⟨hkind, hvalue⟩ := HashKey.mk.inj h
    cases a with
    | int m =>
        cases b with
        | int n =>
            have hbits := Int64.toBitVec.inj (congrArg UInt64.toBitVec hvalue)
            exact .inl (congrArg Key.int hbits)
        | bool _ => cases hkind
        | str _ => cases hkind
    | bool x =>
        cases b with
        | int _ => cases hkind
        | bool y => exact .inl (by revert hvalue; cases x <;> cases y <;> decide)
        | str _ => cases hkind
    | str s =>
        cases b with
        | int _ => cases hkind
        | bool _ => cases hkind
        | str t => exact .inr ⟨s, t, rfl, rfl, hvalue⟩
  · rintro (rfl | ⟨s, t, rfl, rfl, h⟩)
    · rfl
    · exact congrArg (HashKey.mk .string) h

theorem hashKey_collision :
    Key.hashKey (.str "8yn0iYCKYHlIj4-BwPqk") = Key.hashKey (.str "GReLUrM4wMqfg9yzV3KQ") ∧
      Key.str "8yn0iYCKYHlIj4-BwPqk" ≠ Key.str "GReLUrM4wMqfg9yzV3KQ" := by
  decide

theorem Key.same_value_iff (a b : Key) : a.value.same b.value = true ↔ a = b := by
  cases a <;> cases b <;> simp [Key.value, Value.same]

/-! ### Tables of pairs -/

variable {α : Type}

def Table.ofPairs (ps : List (Key × α)) : Table α :=
  ps.foldl (fun t p => t.insert p.1 p.2) []

def lastPair (cond : Key → Bool) (ps : List (Key × α)) : Option (Key × α) :=
  ps.reverse.find? fun p => cond p.1

theorem lastPair_cons (cond : Key → Bool) (p : Key × α) (ps : List (Key × α)) :
    lastPair cond (p :: ps) = (lastPair cond ps).or (if cond p.1 then some p else none) := by
  unfold lastPair
  rw [List.reverse_cons, List.find?_append, List.find?_singleton]

theorem lastPair_eq_none_iff {cond : Key → Bool} {ps : List (Key × α)} :
    lastPair cond ps = none ↔ ∀ p ∈ ps, cond p.1 = false := by
  simp [lastPair]

theorem cond_of_lastPair {cond : Key → Bool} {ps : List (Key × α)} {p : Key × α}
    (h : lastPair cond ps = some p) : cond p.1 = true :=
  List.find?_some (p := fun q : Key × α => cond q.1) h

theorem find?_foldl_insert (h : HashKey) (ps : List (Key × α)) (t : Table α) :
    Table.find? h (ps.foldl (fun t p => t.insert p.1 p.2) t) =
      (lastPair (fun k => k.hashKey = h) ps).or (t.find? h) := by
  induction ps generalizing t with
  | nil => rfl
  | cons p ps ih =>
      rw [List.foldl_cons, ih, Table.find?_insert, lastPair_cons, Option.or_assoc]
      congr 1
      by_cases hp : p.1.hashKey = h <;> simp [hp]

/-- A table finds the last pair with the hash key that it is asked for. -/
theorem find?_ofPairs (h : HashKey) (ps : List (Key × α)) :
    (Table.ofPairs ps).find? h = lastPair (fun k => k.hashKey = h) ps := by
  rw [Table.ofPairs, find?_foldl_insert]
  exact Option.or_none

/-- The last pair with a narrower condition is the last one with a wider condition, if
that one meets the narrower condition too. -/
theorem lastPair_eq_of_imp {cond cond' : Key → Bool} {ps : List (Key × α)} {p : Key × α}
    (himp : ∀ k, cond' k = true → cond k = true) (h : lastPair cond ps = some p)
    (hp : cond' p.1 = true) : lastPair cond' ps = some p := by
  induction ps with
  | nil => cases h
  | cons q ps ih =>
      rw [lastPair_cons] at h ⊢
      -- The pair comes from the rest if anything there meets the wider condition.
      cases hrest : lastPair cond ps with
      | some r =>
          rw [hrest] at h
          obtain rfl : r = p := Option.some.inj h
          rw [ih hrest]
          rfl
      | none =>
          rw [hrest] at h
          have hnone : lastPair cond' ps = none := by
            refine lastPair_eq_none_iff.mpr fun r hr => Bool.eq_false_iff.mpr fun hcond => ?_
            have := lastPair_eq_none_iff.mp hrest r hr
            rw [himp _ hcond] at this
            cases this
          rw [hnone]
          by_cases hq : cond q.1
          · simp only [hq, if_true, Option.none_or, Option.some.injEq] at h
            subst h
            simp [hp]
          · simp [hq] at h

/-- Filing by hash key finds what a lookup by content would find exactly if the last pair
with the hash key has the very key that was asked for, or there is no such pair. -/
theorem lastPair_hashKey_eq_iff (k : Key) (ps : List (Key × α)) :
    lastPair (fun k' => k'.hashKey = k.hashKey) ps = lastPair (fun k' => k' = k) ps ↔
      ∀ p, lastPair (fun k' => k'.hashKey = k.hashKey) ps = some p → p.1 = k := by
  constructor
  · intro h p hp
    rw [h] at hp
    simpa using cond_of_lastPair hp
  · intro h
    cases hlast : lastPair (fun k' => k'.hashKey = k.hashKey) ps with
    | some p =>
        refine (lastPair_eq_of_imp ?_ hlast (by simpa using h p hlast)).symm
        intro k' hk'
        simpa using congrArg Key.hashKey (of_decide_eq_true hk')
    | none =>
        refine (lastPair_eq_none_iff.mpr fun p hp => ?_).symm
        have hne := lastPair_eq_none_iff.mp hlast p hp
        simp only [decide_eq_false_iff_not] at hne ⊢
        exact fun hk => hne (congrArg Key.hashKey hk)

end ScriptLang
