import Mathlib.Data.List.Perm.Subperm
import ScriptLang.Eval.Operator
import ScriptLang.Proofs.Value.Filing
import ScriptLang.Proofs.Value.Integrity

/-!
Equality of values is an equivalence. It is defined from one side: every entry of the one
hash has to have its equal in the other, and then the numbers of entries are compared. But
no two entries of a hash share a hash key, so the hash keys of the one are those of the
other, and whatever is looked up in both is found in both or in neither
(`Value.same_hash_iff`). An array is looked up by place in the same way
(`Value.same_array_iff`). Seen like this, neither side is special, and equality inherits
from the items and the entries whatever an equivalence needs.
-/

namespace ScriptLang

/-! ### Looking up in two collections -/

section

variable {α : Type} {R : α → α → Prop} {a b c : Option α}

theorem optionRel_refl (h : ∀ x, a = some x → R x x) : Option.Rel R a a := by
  cases a with
  | none => exact .none
  | some x => exact .some (h x rfl)

theorem optionRel_symm (hab : Option.Rel R a b)
    (h : ∀ x y, a = some x → b = some y → R x y → R y x) : Option.Rel R b a := by
  cases hab with
  | none => exact .none
  | some hxy => exact .some (h _ _ rfl rfl hxy)

theorem optionRel_trans (hab : Option.Rel R a b) (hbc : Option.Rel R b c)
    (h : ∀ x y z, a = some x → b = some y → c = some z → R x y → R y z → R x z) :
    Option.Rel R a c := by
  cases hab with
  | none => exact hbc
  | some hxy =>
      cases hbc with
      | some hyz => exact .some (h _ _ _ rfl rfl rfl hxy hyz)

end

namespace Table

variable {α : Type} {t u : Table α}

theorem mem_hashKeys_iff {h : HashKey} :
    h ∈ t.map (fun entry => entry.1.hashKey) ↔ (t.find? h).isSome := by
  simp [find?]

/-- Two tables have equally many entries, and under every hash key of the one something is
filed in the other: then they have the same hash keys. -/
theorem Unique.perm_hashKeys (ht : t.Unique) (hlength : t.length = u.length)
    (hsub : ∀ entry ∈ t, (u.find? entry.1.hashKey).isSome) :
    (t.map fun entry => entry.1.hashKey).Perm (u.map fun entry => entry.1.hashKey) := by
  have hsubset : (t.map fun entry => entry.1.hashKey) ⊆ u.map fun entry => entry.1.hashKey := by
    intro h hh
    obtain ⟨entry, hentry, rfl⟩ := List.mem_map.mp hh
    exact mem_hashKeys_iff.mpr (hsub entry hentry)
  refine (List.subperm_of_subset ht hsubset).perm_of_length_le ?_
  rw [List.length_map, List.length_map]
  exact Nat.le_of_eq hlength.symm

end Table

namespace Value

variable {v w u : Value} {vs ws : List Value} {es fs : Table Value}

/-! ### Values with tables that have one entry for each hash key -/

/-- Every hash in the value, at any depth, has at most one entry for each hash key. -/
def WellFiled (v : Value) : Prop := ∀ t, v.Files t → t.Unique

theorem Intact.wellFiled {n : Nat} (h : v.Intact n) : v.WellFiled := h.filed

theorem WellFiled.item (h : (Value.array vs).WellFiled) (hv : v ∈ vs) : v.WellFiled :=
  fun t ht => h t (.array hv ht)

theorem WellFiled.unique (h : (Value.hash es).WellFiled) : es.Unique := h es (.here es)

theorem WellFiled.entry (h : (Value.hash es).WellFiled) {e : Key × Value} (he : e ∈ es) :
    e.2.WellFiled :=
  fun t ht => h t (.hash he ht)

/-! ### Equality by looking up -/

def SameEntry (e f : Key × Value) : Prop := e.1 = f.1 ∧ e.2.same f.2 = true

theorem sameItems_iff : sameItems vs ws = true ↔
    ∀ i : Nat, Option.Rel (fun v w : Value => v.same w = true) vs[i]? ws[i]? := by
  induction vs generalizing ws with
  | nil =>
      cases ws with
      | nil => exact ⟨fun _ _ => .none, fun _ => rfl⟩
      | cons w ws =>
          refine ⟨nofun, fun h => ?_⟩
          cases h 0
  | cons v vs ih =>
      cases ws with
      | nil =>
          refine ⟨nofun, fun h => ?_⟩
          cases h 0
      | cons w ws =>
          simp only [sameItems, Bool.and_eq_true, ih]
          constructor
          · rintro ⟨hv, hvs⟩ (_ | i)
            · exact .some hv
            · exact hvs i
          · intro h
            refine ⟨?_, fun i => h (i + 1)⟩
            cases h 0 with
            | some hv => exact hv

theorem same_array_iff : (Value.array vs).same (.array ws) = true ↔
    ∀ i : Nat, Option.Rel (fun v w : Value => v.same w = true) vs[i]? ws[i]? :=
  sameItems_iff

theorem sameEntries_iff : sameEntries es fs = true ↔
    ∀ e ∈ es, ∃ f, fs.find? e.1.hashKey = some f ∧ SameEntry e f := by
  induction es with
  | nil => simp [sameEntries]
  | cons e es ih =>
      rw [sameEntries, Bool.and_eq_true, ih, List.forall_mem_cons]
      refine and_congr_left fun _ => ?_
      cases fs.find? e.1.hashKey with
      | none => simp
      | some f => simp [SameEntry]

theorem same_hash_iff (hes : es.Unique) (hfs : fs.Unique) :
    (Value.hash es).same (.hash fs) = true ↔
      ∀ h, Option.Rel SameEntry (es.find? h) (fs.find? h) := by
  rw [same, Bool.and_eq_true, decide_eq_true_eq, sameEntries_iff]
  constructor
  · rintro ⟨hlength, hfound⟩ h
    cases he : es.find? h with
    | some e =>
        obtain rfl := Table.hashKey_of_find? he
        obtain ⟨f, hf, hsame⟩ := hfound e (List.mem_of_find?_eq_some he)
        rw [hf]
        exact .some hsame
    | none =>
        -- The other hash has no further hash keys: there are no more entries than here.
        have hperm := hes.perm_hashKeys hlength fun e he => by
          obtain ⟨f, hf, -⟩ := hfound e he
          rw [hf]
          rfl
        cases hf : fs.find? h with
        | none => exact .none
        | some f =>
            have hmem := hperm.mem_iff.mpr (Table.mem_hashKeys_iff.mpr (by rw [hf]; rfl))
            rw [Table.mem_hashKeys_iff, he] at hmem
            cases hmem
  · intro h
    have hfound : ∀ e ∈ es, ∃ f, fs.find? e.1.hashKey = some f ∧ SameEntry e f := by
      intro e he
      have hrel := h e.1.hashKey
      rw [(hes.find?_eq_some_iff he _).mpr rfl] at hrel
      generalize fs.find? e.1.hashKey = found at hrel
      cases hrel with
      | some hsame => exact ⟨_, rfl, hsame⟩
    refine ⟨?_, hfound⟩
    have hkeys : (es.map fun e => e.1.hashKey).Perm (fs.map fun f => f.1.hashKey) := by
      refine (List.perm_ext_iff_of_nodup hes hfs).mpr fun k => ?_
      rw [Table.mem_hashKeys_iff, Table.mem_hashKeys_iff]
      have hrel := h k
      generalize es.find? k = e at hrel
      generalize fs.find? k = f at hrel
      cases hrel <;> rfl
    simpa using hkeys.length_eq

/-! ### Induction over values -/

section

variable {motive : Value → Prop}
  (int : ∀ n, motive (.int n)) (str : ∀ s, motive (.str s)) (bool : ∀ b, motive (.bool b))
  (null : motive .null) (func : ∀ f, motive (.func f)) (builtin : ∀ b, motive (.builtin b))
  (array : ∀ vs, (∀ v ∈ vs, motive v) → motive (.array vs))
  (hash : ∀ es, (∀ e ∈ es, motive e.2) → motive (.hash es))

include int str bool null func builtin array hash

/-- What holds of arrays and hashes if it holds of what is in them holds of all values. -/
@[elab_as_elim]
theorem nestedInduction (v : Value) : motive v := by
  refine @Value.rec motive (fun vs => ∀ v ∈ vs, motive v) (fun es => ∀ e ∈ es, motive e.2)
    (fun e => motive e.2) int str bool null func builtin array hash nofun ?_ nofun ?_ ?_ v
  · exact fun _ _ hv hvs => List.forall_mem_cons.mpr ⟨hv, hvs⟩
  · exact fun _ _ he hes => List.forall_mem_cons.mpr ⟨he, hes⟩
  · exact fun _ _ hv => hv

end

/-! ### An equivalence -/

theorem same_refl (hv : v.WellFiled) : v.same v = true := by
  induction v using nestedInduction with
  | int | str | bool | null | func | builtin => simp [same]
  | array vs ih =>
      refine same_array_iff.mpr fun i => optionRel_refl fun v hi => ?_
      have hmem := List.mem_of_getElem? hi
      exact ih v hmem (hv.item hmem)
  | hash es ih =>
      refine (same_hash_iff hv.unique hv.unique).mpr fun h => optionRel_refl fun e he => ?_
      have hmem := List.mem_of_find?_eq_some he
      exact ⟨rfl, ih e hmem (hv.entry hmem)⟩

theorem same_symm (hv : v.WellFiled) (hw : w.WellFiled) (h : v.same w = true) :
    w.same v = true := by
  induction v using nestedInduction generalizing w with
  | int | str | bool | null | func | builtin =>
      cases w <;> simp_all [same]
  | array vs ih =>
      cases w with
      | array ws =>
          refine same_array_iff.mpr fun i => optionRel_symm (same_array_iff.mp h i) ?_
          intro v w hvi hwi hsame
          have hmem := List.mem_of_getElem? hvi
          exact ih v hmem (hv.item hmem) (hw.item (List.mem_of_getElem? hwi)) hsame
      | _ => simp [same] at h
  | hash es ih =>
      cases w with
      | hash fs =>
          rw [same_hash_iff hv.unique hw.unique] at h
          refine (same_hash_iff hw.unique hv.unique).mpr fun k => optionRel_symm (h k) ?_
          rintro e f he hf ⟨hkey, hsame⟩
          have hmem := List.mem_of_find?_eq_some he
          exact ⟨hkey.symm,
            ih e hmem (hv.entry hmem) (hw.entry (List.mem_of_find?_eq_some hf)) hsame⟩
      | _ => simp [same] at h

theorem same_trans (hv : v.WellFiled) (hw : w.WellFiled) (hu : u.WellFiled)
    (h : v.same w = true) (h' : w.same u = true) : v.same u = true := by
  induction v using nestedInduction generalizing w u with
  | int | str | bool | null | func | builtin =>
      cases w <;> cases u <;> simp_all [same]
  | array vs ih =>
      cases w with
      | array ws =>
          cases u with
          | array us =>
              rw [same_array_iff] at h h' ⊢
              refine fun i => optionRel_trans (h i) (h' i) fun v w u hvi hwi hui hvw hwu => ?_
              have hmem := List.mem_of_getElem? hvi
              exact ih v hmem (hv.item hmem) (hw.item (List.mem_of_getElem? hwi))
                (hu.item (List.mem_of_getElem? hui)) hvw hwu
          | _ => simp [same] at h'
      | _ => simp [same] at h
  | hash es ih =>
      cases w with
      | hash fs =>
          cases u with
          | hash gs =>
              rw [same_hash_iff hv.unique hw.unique] at h
              rw [same_hash_iff hw.unique hu.unique] at h'
              refine (same_hash_iff hv.unique hu.unique).mpr fun k =>
                optionRel_trans (h k) (h' k) ?_
              rintro e f g he hf hg ⟨hkey, hef⟩ ⟨hkey', hfg⟩
              have hmem := List.mem_of_find?_eq_some he
              exact ⟨hkey.trans hkey', ih e hmem (hv.entry hmem)
                (hw.entry (List.mem_of_find?_eq_some hf))
                (hu.entry (List.mem_of_find?_eq_some hg)) hef hfg⟩
          | _ => simp [same] at h'
      | _ => simp [same] at h

theorem type_eq_of_same (h : v.same w = true) : v.type = w.type := by
  cases v <;> cases w <;> simp [same] at h <;> rfl

/-- Equal values are the same key, or fail to be one for the same reason. -/
theorem asKey_eq_of_same (h : v.same w = true) : v.asKey = w.asKey := by
  cases v <;> cases w <;> simp_all [same, asKey, key?, type]

/-- Equality is an equivalence relation on the values whose hashes have at most one entry
for each hash key, as those of all values have that come out of a run. Equal values are of
the same type, and as keys they are filed under the same hash key, or they fail to be keys
with the same error. -/
theorem same_equivalence (a b c : Value) (ha : a.WellFiled) (hb : b.WellFiled)
    (hc : c.WellFiled) :
    a.same a = true ∧
      (a.same b = true ↔ b.same a = true) ∧
      (a.same b = true → b.same c = true → a.same c = true) ∧
      (a.same b = true → a.type = b.type ∧
        a.asKey.map Key.hashKey = b.asKey.map Key.hashKey) := by
  refine ⟨same_refl ha, ⟨same_symm ha hb, same_symm hb ha⟩, same_trans ha hb hc, fun h => ?_⟩
  exact ⟨type_eq_of_same h, by rw [asKey_eq_of_same h]⟩

/-- The entries of `{1: [func() { }], "k": {}}` in the order in which they were added. -/
def mixedEntries : Table Value :=
  [(.int 1, .array [.func ⟨0, [], [], 0⟩]), (.str "k", .hash [])]

theorem wellFiled_of_perm_mixedEntries {t : Table Value} (h : t.Perm mixedEntries) :
    (Value.hash t).WellFiled := by
  have hunique : mixedEntries.Unique := by
    show List.Nodup _
    decide
  have hitem : (Value.array [.func ⟨0, [], [], 0⟩]).Intact 1 :=
    intact_array_iff.mpr (by simpa using intact_func_iff.mpr Nat.one_pos)
  refine Intact.wellFiled (n := 1) (intact_hash_iff.mpr ⟨?_, fun e he => ?_⟩)
  · exact (h.map _).nodup_iff.mpr hunique
  · have hmem : e ∈ mixedEntries := h.mem_iff.mp he
    rcases List.mem_cons.mp hmem with rfl | hmem
    · exact hitem
    · obtain rfl := List.mem_singleton.mp hmem
      exact intact_hash_nil

/-- A hash is equal to the one that lists the same entries backward, so each of them is
equal to the other. -/
theorem same_equivalence_reversed :
    (Value.hash mixedEntries).WellFiled ∧ (Value.hash mixedEntries.reverse).WellFiled ∧
      (Value.hash mixedEntries).same (.hash mixedEntries.reverse) = true ∧
      (Value.hash mixedEntries.reverse).same (.hash mixedEntries) = true ∧
      (Value.hash mixedEntries).same (.hash mixedEntries) = true := by
  have hforward := wellFiled_of_perm_mixedEntries (List.Perm.refl mixedEntries)
  have hbackward := wellFiled_of_perm_mixedEntries mixedEntries.reverse_perm
  obtain ⟨-, hsymm, htrans, -⟩ := same_equivalence (.hash mixedEntries)
    (.hash mixedEntries.reverse) (.hash mixedEntries) hforward hbackward hforward
  have hsame : (Value.hash mixedEntries).same (.hash mixedEntries.reverse) = true := by decide
  exact ⟨hforward, hbackward, hsame, hsymm.mp hsame, htrans hsame (hsymm.mp hsame)⟩

end Value

end ScriptLang
