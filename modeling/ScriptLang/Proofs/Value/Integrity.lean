import ScriptLang.Proofs.Value.Likeness

/-!
What a value relies on. A closure names the scope it was made in by its number, so there
has to be a scope with this number. And a hash finds an entry by its hash key alone, so no
two of its entries may share one. A value is intact (`Value.Intact`) if this holds of all
closures and hashes that it holds, however deep inside arrays and hashes.

Scopes are never taken away, so what is intact stays intact. Arrays of intact values are
intact, and so are hashes to which intact values are added one after another.
-/

namespace ScriptLang

/-! ### Tables with one entry for each hash key -/

namespace Table

variable {α : Type} {t : Table α}

def Unique (t : Table α) : Prop := (t.map fun entry => entry.1.hashKey).Nodup

theorem unique_nil : Unique ([] : Table α) := List.nodup_nil

theorem Unique.erase (ht : t.Unique) (h : HashKey) : (t.erase h).Unique :=
  (List.filter_sublist.map _).nodup ht

theorem Unique.insert (ht : t.Unique) (k : Key) (a : α) : (t.insert k a).Unique := by
  unfold Unique Table.insert
  rw [List.map_append]
  refine List.nodup_append.mpr ⟨ht.erase k.hashKey, by simp, ?_⟩
  intro h hleft h' hright hsame
  obtain ⟨entry, hentry, rfl⟩ := List.mem_map.mp hleft
  obtain rfl : h' = k.hashKey := by simpa using hright
  have hne : entry.1.hashKey ≠ k.hashKey := by simpa using (List.mem_filter.mp hentry).2
  exact hne hsame

/-- Each entry is filed under its own hash key and under no other. -/
theorem Unique.find?_eq_some_iff (ht : t.Unique) {entry : Key × α} (hentry : entry ∈ t)
    (h : HashKey) : t.find? h = some entry ↔ entry.1.hashKey = h := by
  constructor
  · exact hashKey_of_find?
  · rintro rfl
    induction t with
    | nil => cases hentry
    | cons first t ih =>
        obtain ⟨hfirst, ht⟩ := List.nodup_cons.mp ht
        rcases List.mem_cons.mp hentry with rfl | hmem
        · simp [find?]
        · have hne : first.1.hashKey ≠ entry.1.hashKey := fun heq =>
            hfirst (List.mem_map.mpr ⟨entry, hmem, heq.symm⟩)
          have hrest : Table.find? entry.1.hashKey t = some entry := ih ht hmem
          simpa [find?, hne] using hrest

end Table

namespace Value

/-- A value holds a hash with these entries, at any depth inside arrays and hashes, or is
that hash. -/
inductive Files : Value → Table Value → Prop
  | here (t : Table Value) : Files (.hash t) t
  | array {vs : List Value} {v : Value} {t : Table Value} :
      v ∈ vs → Files v t → Files (.array vs) t
  | hash {es : List (Key × Value)} {e : Key × Value} {t : Table Value} :
      e ∈ es → Files e.2 t → Files (.hash es) t

/-- Where there are so many scopes, everything that a value relies on is there. -/
structure Intact (n : Nat) (v : Value) : Prop where
  captured : ∀ i, v.Captures i → i < n
  filed : ∀ t, v.Files t → t.Unique

variable {n m : Nat} {v w : Value} {vs : List Value} {t : Table Value}

theorem Intact.mono (hv : v.Intact n) (h : n ≤ m) : v.Intact m :=
  ⟨fun i hi => Nat.lt_of_lt_of_le (hv.captured i hi) h, hv.filed⟩

theorem intact_of_isAtom (h : v.isAtom = true) : v.Intact n := by
  cases v with
  | func | array | hash => cases h
  | _ => exact ⟨nofun, nofun⟩

theorem intact_func_iff {f : Closure} : (Value.func f).Intact n ↔ f.scope < n := by
  constructor
  · exact fun h => h.captured _ (.func f)
  · intro h
    refine ⟨fun i hi => ?_, nofun⟩
    cases hi
    exact h

theorem intact_array_iff : (Value.array vs).Intact n ↔ ∀ v ∈ vs, v.Intact n := by
  constructor
  · exact fun h v hv => ⟨fun i hi => h.captured i (.array hv hi),
      fun t ht => h.filed t (.array hv ht)⟩
  · intro h
    refine ⟨fun i hi => ?_, fun t ht => ?_⟩
    · cases hi with
      | array hv hi => exact (h _ hv).captured i hi
    · cases ht with
      | array hv ht => exact (h _ hv).filed t ht

theorem intact_hash_iff : (Value.hash t).Intact n ↔ t.Unique ∧ ∀ e ∈ t, e.2.Intact n := by
  constructor
  · exact fun h => ⟨h.filed t (.here t), fun e he => ⟨fun i hi => h.captured i (.hash he hi),
      fun t' ht' => h.filed t' (.hash he ht')⟩⟩
  · rintro ⟨hunique, h⟩
    refine ⟨fun i hi => ?_, fun t' ht' => ?_⟩
    · cases hi with
      | hash he hi => exact (h _ he).captured i hi
    · cases ht' with
      | here => exact hunique
      | hash he ht' => exact (h _ he).filed t' ht'

theorem intact_hash_nil : (Value.hash []).Intact n :=
  intact_hash_iff.mpr ⟨Table.unique_nil, nofun⟩

theorem Intact.insert (ht : (Value.hash t).Intact n) (k : Key) (hv : v.Intact n) :
    (Value.hash (t.insert k v)).Intact n := by
  obtain ⟨hunique, hvalues⟩ := intact_hash_iff.mp ht
  refine intact_hash_iff.mpr ⟨hunique.insert k v, fun e he => ?_⟩
  rcases List.mem_append.mp he with he | he
  · exact hvalues e (List.mem_filter.mp he).1
  · obtain rfl := List.mem_singleton.mp he
    exact hv

end Value

end ScriptLang
