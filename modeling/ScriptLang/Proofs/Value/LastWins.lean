import Mathlib.Data.List.Dedup
import ScriptLang.Proofs.Value.Equality

/-!
Of pairs that share a hash key the last one wins. `Table.LastWins ps t` says that a table
holds, for each hash key of some pairs, the last pair with that hash key, and nothing else;
the order of the entries is left open. All that can be observed of the table follows from
this: what is found under a hash key, how many entries there are, and which hashes are equal
to it. Adding the pairs to a table one after another makes such a table
(`Table.lastWins_ofPairs`).

Whether a pair is the last one with its hash key depends only on the pairs that share the
hash key. So the others may stand anywhere between them (`Reorders`).
-/

namespace ScriptLang

variable {α : Type}

/-- A pair stands in a list, and none behind it has its hash key. -/
def IsLast (p : Key × α) (ps : List (Key × α)) : Prop :=
  ∃ front back, ps = front ++ p :: back ∧ ∀ q ∈ back, q.1.hashKey ≠ p.1.hashKey

structure Reorders (ps qs : List (Key × α)) : Prop where
  perm : ps.Perm qs
  /-- Pairs that share a hash key keep their order. -/
  order : ∀ h : HashKey,
    ps.filter (fun p => p.1.hashKey = h) = qs.filter (fun p => p.1.hashKey = h)

/-- A table with one entry for each hash key of some pairs: the last pair that has it. -/
structure Table.LastWins (ps : List (Key × α)) (t : Table α) : Prop where
  unique : t.Unique
  mem_iff : ∀ p, p ∈ t ↔ IsLast p ps

/-! ### The last pair with a hash key -/

section

variable {ps qs : List (Key × α)} {p : Key × α} {h : HashKey}

theorem lastPair_hashKey_eq_some_iff :
    lastPair (fun k => k.hashKey = h) ps = some p ↔ IsLast p ps ∧ p.1.hashKey = h := by
  rw [lastPair, List.find?_eq_some_iff_append]
  constructor
  · rintro ⟨hp, front, back, hps, hback⟩
    have hp : p.1.hashKey = h := of_decide_eq_true hp
    refine ⟨⟨back.reverse, front.reverse, ?_, fun q hq => ?_⟩, hp⟩
    · rw [← List.reverse_reverse ps, hps]
      simp
    · have hne := hback q (List.mem_reverse.mp hq)
      simpa [hp] using hne
  · rintro ⟨⟨front, back, rfl, hback⟩, hp⟩
    refine ⟨decide_eq_true hp, back.reverse, front.reverse, by simp, fun q hq => ?_⟩
    have hne := hback q (List.mem_reverse.mp hq)
    simpa [← hp] using hne

theorem lastPair_eq_getLast?_filter (cond : Key → Bool) (ps : List (Key × α)) :
    lastPair cond ps = (ps.filter fun p => cond p.1).getLast? := by
  rw [lastPair, ← List.head?_filter, List.filter_reverse, List.head?_reverse]

/-- Pairs that are put in another order, but for those that share a hash key, leave the same
one as the last. -/
theorem Reorders.lastPair_eq (hps : Reorders ps qs) (h : HashKey) :
    lastPair (fun k => k.hashKey = h) ps = lastPair (fun k => k.hashKey = h) qs := by
  rw [lastPair_eq_getLast?_filter, lastPair_eq_getLast?_filter, hps.order h]

theorem Reorders.swap {q : Key × α} (h : p.1.hashKey ≠ q.1.hashKey) (ps : List (Key × α)) :
    Reorders (p :: q :: ps) (q :: p :: ps) where
  perm := .swap q p ps
  order k := by
    simp only [List.filter_cons, decide_eq_true_eq]
    by_cases hp : p.1.hashKey = k
    · have hq : ¬ q.1.hashKey = k := fun hq => h (hp.trans hq.symm)
      rw [if_neg hq, if_neg hq]
    · rw [if_neg hp, if_neg hp]

end

/-! ### What can be observed -/

namespace Table

variable {ps qs : List (Key × α)} {t u : Table α}

/-- Under a hash key a table finds the last pair that has it. -/
theorem LastWins.find?_eq (ht : t.LastWins ps) (h : HashKey) :
    t.find? h = lastPair (fun k => k.hashKey = h) ps := by
  refine Option.ext fun p => ?_
  rw [lastPair_hashKey_eq_some_iff, ← ht.mem_iff p]
  constructor
  · exact fun hp => ⟨List.mem_of_find?_eq_some hp, hashKey_of_find? hp⟩
  · rintro ⟨hmem, hkey⟩
    exact (ht.unique.find?_eq_some_iff hmem h).mpr hkey

/-- There are as many entries as different hash keys. -/
theorem LastWins.length_eq (ht : t.LastWins ps) :
    t.length = (ps.map fun p => p.1.hashKey).dedup.length := by
  have hperm : (t.map fun p => p.1.hashKey).Perm (ps.map fun p => p.1.hashKey).dedup := by
    refine (List.perm_ext_iff_of_nodup ht.unique (List.nodup_dedup _)).mpr fun h => ?_
    rw [mem_hashKeys_iff, ht.find?_eq, List.mem_dedup, Option.isSome_iff_ne_none, ne_eq,
      lastPair_eq_none_iff]
    simp
  simpa using hperm.length_eq

theorem unique_ofPairs (ps : List (Key × α)) : (ofPairs ps).Unique := by
  have hfold (t : Table α) (ht : t.Unique) :
      Unique (ps.foldl (fun t p => t.insert p.1 p.2) t) := by
    induction ps generalizing t with
    | nil => exact ht
    | cons p ps ih => exact ih _ (ht.insert p.1 p.2)
  exact hfold [] unique_nil

theorem lastWins_ofPairs (ps : List (Key × α)) : (ofPairs ps).LastWins ps where
  unique := unique_ofPairs ps
  mem_iff p := by
    constructor
    · intro hp
      have hfound := ((unique_ofPairs ps).find?_eq_some_iff hp p.1.hashKey).mpr rfl
      rw [find?_ofPairs] at hfound
      exact (lastPair_hashKey_eq_some_iff.mp hfound).1
    · intro hp
      have hlast := lastPair_hashKey_eq_some_iff.mpr ⟨hp, rfl⟩
      rw [← find?_ofPairs] at hlast
      exact List.mem_of_find?_eq_some hlast

end Table

/-- Two hashes are equal if the pairs that they are made of are the same but for their order,
and those that share a hash key come in the same order. -/
theorem Table.LastWins.same {ps qs : List (Key × Value)} {t u : Table Value}
    (ht : t.LastWins ps) (hu : u.LastWins qs) (hps : Reorders ps qs)
    (hvalue : (Value.hash t).WellFiled) : (Value.hash t).same (.hash u) = true := by
  refine (Value.same_hash_iff ht.unique hu.unique).mpr fun h => ?_
  rw [hu.find?_eq, ← hps.lastPair_eq, ← ht.find?_eq]
  exact optionRel_refl fun e he =>
    ⟨rfl, Value.same_refl (hvalue.entry (List.mem_of_find?_eq_some he))⟩

end ScriptLang
