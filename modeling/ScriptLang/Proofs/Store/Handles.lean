import ScriptLang.Proofs.Store.Log
import ScriptLang.Proofs.Store.Lookup

/-!
Handles answer as their log tells. Whatever was done before, in any order and through
any handles, an answer follows from the log alone: a definition fails exactly if one of
that name has succeeded on the same scope, and a name is found on the nearest scope that
binds it. Handles are numbered, scopes are numbered as well, and `Keeps` relates the
two: it lists the handle that each scope was made with.

A scope lies inside one with a smaller number, so looking a name up comes to an end, and
never because of the numbers: `Keeps.finds_get?`.
-/

namespace ScriptLang

namespace Handles

/-! ### Runs -/

def after : List Op → Handles
  | [] => empty
  | op :: ops => ((after ops).perform op).2

def log : List Op → Log
  | [] => []
  | op :: ops => (op, ((after ops).perform op).1) :: log ops

theorem withScope_of_some {hs : Handles} {h : Nat} {s : ScopeId}
    (hs' : hs.scopes[h]? = some s) (f : ScopeId → Answer × Handles) :
    hs.withScope h f = f s := by
  rw [withScope, hs']

theorem withScope_of_none {hs : Handles} {h : Nat} (hs' : hs.scopes[h]? = none)
    (f : ScopeId → Answer × Handles) : hs.withScope h f = (.noHandle, hs) := by
  rw [withScope, hs']

/-- The handles are kept as the log tells: the scope number `s` is the one that was made
with the handle `made[s]`. -/
structure Keeps (L : Log) (hs : Handles) (made : List Nat) : Prop where
  length_eq : made.length = hs.store.scopes.size
  nodup : made.Nodup
  /-- Handles are numbered without gaps. -/
  lt_size : ∀ m ∈ made, m < hs.scopes.size
  lt_length : ∀ (h : Nat) (s : Nat), hs.scopes[h]? = some s → s < made.length
  outer_lt : ∀ s o : Nat, hs.store.outer? s = some o → o < s
  on_iff : ∀ h m, L.On h m ↔ ∃ s : Nat, hs.scopes[h]? = some s ∧ made[s]? = some m
  inside_iff : ∀ m k, L.Inside m k ↔ ∃ s o : Nat,
    made[s]? = some m ∧ hs.store.outer? s = some o ∧ made[o]? = some k
  binds_iff : ∀ m x v, L.Binds m x v ↔ ∃ s : Nat,
    made[s]? = some m ∧ hs.store.local? s x = some v

namespace Keeps

variable {L : Log} {hs : Handles} {made : List Nat} {h m : Nat} {s : Nat} {x : String}
  {v : Value}

theorem start : Keeps [] empty [] where
  length_eq := rfl
  nodup := List.nodup_nil
  lt_size m hm := absurd hm List.not_mem_nil
  lt_length h s hs := by cases hs
  outer_lt s o ho := by cases ho
  on_iff h m := by
    constructor
    · intro hon
      cases hon
    · rintro ⟨_, hs, _⟩
      cases hs
  inside_iff m k := by
    constructor
    · intro hinside
      cases hinside
    · rintro ⟨_, _, hs, _⟩
      cases hs
  binds_iff m x v := by
    constructor
    · intro hbinds
      cases hbinds
    · rintro ⟨_, hs, _⟩
      cases hs

theorem lt_length_of_getElem? (hmade : made[s]? = some m) : s < made.length :=
  (List.getElem?_eq_some_iff.mp hmade).1

theorem scope_unique (hk : Keeps L hs made) {t : Nat} (hs : made[s]? = some m)
    (ht : made[t]? = some m) : s = t :=
  (List.getElem?_inj (lt_length_of_getElem? hs) hk.nodup).mp (hs.trans ht.symm)

theorem exists_scope (hk : Keeps L hs made) (hon : L.On h m) :
    ∃ s : Nat, hs.scopes[h]? = some s ∧ made[s]? = some m ∧ s < hs.store.scopes.size := by
  obtain ⟨s, hs', hmade⟩ := (hk.on_iff h m).mp hon
  exact ⟨s, hs', hmade, hk.length_eq ▸ hk.lt_length h s hs'⟩

theorem free_iff (hk : Keeps L hs made) (hmade : made[s]? = some m) :
    L.Free m x ↔ hs.store.local? s x = none := by
  constructor
  · intro hfree
    cases hlocal : hs.store.local? s x with
    | none => rfl
    | some v => exact absurd ((hk.binds_iff m x v).mpr ⟨s, hmade, hlocal⟩) (hfree v)
  · intro hlocal v hbinds
    obtain ⟨t, ht, hvalue⟩ := (hk.binds_iff m x v).mp hbinds
    obtain rfl := hk.scope_unique hmade ht
    rw [hlocal] at hvalue
    cases hvalue

theorem exists_outer (hk : Keeps L hs made) {o : Nat} (hmade : made[s]? = some m)
    (ho : hs.store.outer? s = some o) : ∃ k, made[o]? = some k :=
  ⟨_, List.getElem?_eq_getElem
    (Nat.lt_trans (hk.outer_lt s o ho) (lt_length_of_getElem? hmade))⟩

/-! ### Looking up -/

/-- What is looked up in the scopes is what the log finds. -/
theorem finds_get? (hk : Keeps L hs made) (hmade : made[s]? = some m) :
    L.Finds x m (hs.store.get? s x) := by
  induction s using Nat.strongRecOn generalizing m with
  | ind s ih =>
      cases hlocal : hs.store.local? s x with
      | some v =>
          rw [Store.get?_of_local hlocal]
          exact .here ((hk.binds_iff m x v).mpr ⟨s, hmade, hlocal⟩)
      | none =>
          have hfree : L.Free m x := (hk.free_iff hmade).mpr hlocal
          cases houter : hs.store.outer? s with
          | none =>
              rw [Store.get?_of_outermost hlocal houter]
              refine .nowhere hfree fun k hinside => ?_
              obtain ⟨t, o, ht, ho, -⟩ := (hk.inside_iff m k).mp hinside
              obtain rfl := hk.scope_unique hmade ht
              rw [houter] at ho
              cases ho
          | some o =>
              have hlt : o < s := hk.outer_lt s o houter
              obtain ⟨k, ho⟩ := hk.exists_outer hmade houter
              rw [Store.get?_of_outer hlocal houter hlt]
              exact .outward hfree ((hk.inside_iff m k).mpr ⟨s, o, hmade, houter, ho⟩)
                (ih o hlt ho)

theorem get?_eq_of_finds (hk : Keeps L hs made) (hmade : made[s]? = some m)
    {r : Option Value} (hfinds : L.Finds x m r) : hs.store.get? s x = r := by
  induction hfinds generalizing s with
  | @here m v hbinds =>
      obtain ⟨t, ht, hvalue⟩ := (hk.binds_iff m x v).mp hbinds
      obtain rfl := hk.scope_unique hmade ht
      exact Store.get?_of_local hvalue
  | @outward m k r hfree hinside _ ih =>
      obtain ⟨t, o, ht, ho, hok⟩ := (hk.inside_iff m k).mp hinside
      obtain rfl := hk.scope_unique hmade ht
      rw [Store.get?_of_outer ((hk.free_iff hmade).mp hfree) ho (hk.outer_lt s o ho)]
      exact ih hok
  | @nowhere m hfree hout =>
      refine Store.get?_of_outermost ((hk.free_iff hmade).mp hfree) ?_
      cases houter : hs.store.outer? s with
      | none => rfl
      | some o =>
          obtain ⟨k, ho⟩ := hk.exists_outer hmade houter
          exact absurd ((hk.inside_iff m k).mpr ⟨s, o, hmade, houter, ho⟩) (hout k)

/-! ### One more operation -/

/-- An entry of the log that makes nothing and binds nothing. -/
theorem skip (hk : Keeps L hs made) {entry : Op × Answer}
    (hanswer : ∀ n, entry.2 ≠ .handle n) (hdefine : entry.2 ≠ .defined) :
    Keeps (entry :: L) hs made where
  length_eq := hk.length_eq
  nodup := hk.nodup
  lt_size := hk.lt_size
  lt_length := hk.lt_length
  outer_lt := hk.outer_lt
  on_iff h m := (Log.on_cons_iff hanswer).trans (hk.on_iff h m)
  inside_iff m k := (Log.inside_cons_iff hanswer).trans (hk.inside_iff m k)
  binds_iff m x v := (Log.binds_cons_iff hdefine).trans (hk.binds_iff m x v)

theorem getElem?_scopes_push_iff {t : Nat} :
    (hs.scopes.push s)[h]? = some t ↔
      (h = hs.scopes.size ∧ t = s) ∨ hs.scopes[h]? = some t := by
  rw [Array.getElem?_push]
  by_cases hh : h = hs.scopes.size
  · subst hh
    simp [eq_comm]
  · simp [hh]

theorem getElem?_concat_iff {n : Nat} :
    (made ++ [n])[s]? = some m ↔ (s = made.length ∧ m = n) ∨ made[s]? = some m := by
  grind

/-- A new scope, with a new handle on it. The entry of the log has to say of the handle
that it is on a scope of its own, and inside which scope this one lies. -/
theorem grow (hk : Keeps L hs made) {entry : Op × Answer} {outer : Option ScopeId}
    (houter : ∀ o : Nat, outer = some o → o < made.length)
    (hon : ∀ h m, Log.On (entry :: L) h m ↔
      (h = hs.scopes.size ∧ m = hs.scopes.size) ∨ L.On h m)
    (hinside : ∀ m k, Log.Inside (entry :: L) m k ↔
      (m = hs.scopes.size ∧ ∃ o, outer = some o ∧ made[o]? = some k) ∨ L.Inside m k)
    (hanswer : entry.2 = .handle hs.scopes.size) :
    Keeps (entry :: L) ⟨(hs.store.newScope outer).2, hs.scopes.push hs.store.scopes.size⟩
      (made ++ [hs.scopes.size]) where
  length_eq := by
    rw [List.length_append, Store.size_newScope, hk.length_eq]
    rfl
  nodup := by
    refine List.nodup_append.mpr ⟨hk.nodup, by simp, fun a ha b hb => ?_⟩
    rw [List.mem_singleton.mp hb]
    exact Nat.ne_of_lt (hk.lt_size a ha)
  lt_size m hm := by
    rw [Array.size_push]
    rcases List.mem_append.mp hm with hm | hm
    · exact Nat.lt_succ_of_lt (hk.lt_size m hm)
    · rw [List.mem_singleton.mp hm]
      exact Nat.lt_succ_self _
  lt_length h s hs' := by
    rw [List.length_append, List.length_singleton]
    rcases getElem?_scopes_push_iff.mp hs' with ⟨-, rfl⟩ | hs'
    · exact Nat.lt_succ_of_le (Nat.le_of_eq hk.length_eq.symm)
    · exact Nat.lt_succ_of_lt (hk.lt_length h s hs')
  outer_lt s o ho := by
    rcases Store.outer?_newScope_iff.mp ho with ⟨rfl, hnew⟩ | ho
    · exact hk.length_eq ▸ houter o hnew
    · exact hk.outer_lt s o ho
  on_iff h m := by
    rw [hon, hk.on_iff]
    simp only [getElem?_scopes_push_iff, getElem?_concat_iff]
    constructor
    · rintro (⟨rfl, rfl⟩ | ⟨s, hs', hmade⟩)
      · exact ⟨_, .inl ⟨rfl, rfl⟩, .inl ⟨hk.length_eq.symm, rfl⟩⟩
      · exact ⟨s, .inr hs', .inr hmade⟩
    -- A handle of before is not on the new scope, and the new one is on no other.
    · rintro ⟨s, ⟨rfl, rfl⟩ | hs', ⟨hnew, rfl⟩ | hmade⟩
      · exact .inl ⟨rfl, rfl⟩
      · exact absurd (lt_length_of_getElem? hmade) (by rw [hk.length_eq]; exact Nat.lt_irrefl _)
      · exact absurd (hk.lt_length h s hs') (hnew ▸ Nat.lt_irrefl _)
      · exact .inr ⟨s, hs', hmade⟩
  inside_iff m k := by
    rw [hinside, hk.inside_iff]
    simp only [Store.outer?_newScope_iff]
    constructor
    · rintro (⟨rfl, o, ho, hok⟩ | ⟨s, o, hmade, ho, hok⟩)
      · exact ⟨_, o, List.getElem?_concat_length, .inl ⟨hk.length_eq, ho⟩,
          getElem?_concat_iff.mpr (.inr hok)⟩
      · exact ⟨s, o, getElem?_concat_iff.mpr (.inr hmade), .inr ho,
          getElem?_concat_iff.mpr (.inr hok)⟩
    -- Whichever scope it is, the one around it was there before.
    · rintro ⟨s, o, hmade, ⟨rfl, ho⟩ | ho, hok⟩
      · rw [List.getElem?_append_left (houter o ho)] at hok
        rw [← hk.length_eq, List.getElem?_concat_length] at hmade
        exact .inl ⟨(Option.some.inj hmade).symm, o, ho, hok⟩
      · have hs : s < made.length := hk.length_eq ▸ Store.lt_size_of_outer? ho
        rw [List.getElem?_append_left hs] at hmade
        rw [List.getElem?_append_left (Nat.lt_trans (hk.outer_lt s o ho) hs)] at hok
        exact .inr ⟨s, o, hmade, ho, hok⟩
  binds_iff m x v := by
    rw [Log.binds_cons_iff (by simp [hanswer]), hk.binds_iff]
    simp only [Store.local?_newScope, getElem?_concat_iff]
    constructor
    · rintro ⟨s, hmade, hvalue⟩
      exact ⟨s, .inr hmade, hvalue⟩
    · rintro ⟨s, ⟨rfl, rfl⟩ | hmade, hvalue⟩
      · exact absurd (Store.lt_size_of_local? hvalue) (by rw [hk.length_eq]; exact Nat.lt_irrefl _)
      · exact ⟨s, hmade, hvalue⟩

theorem clone (hk : Keeps L hs made) (hs' : hs.scopes[h]? = some s) :
    Keeps ((.clone h, .handle hs.scopes.size) :: L) ⟨hs.store, hs.scopes.push s⟩ made where
  length_eq := hk.length_eq
  nodup := hk.nodup
  lt_size m hm := by
    rw [Array.size_push]
    exact Nat.lt_succ_of_lt (hk.lt_size m hm)
  lt_length i t ht := by
    rcases getElem?_scopes_push_iff.mp ht with ⟨-, rfl⟩ | ht
    · exact hk.lt_length h t hs'
    · exact hk.lt_length i t ht
  outer_lt := hk.outer_lt
  on_iff i m := by
    simp only [getElem?_scopes_push_iff]
    constructor
    · intro hon
      cases hon with
      | clone hon =>
          obtain ⟨t, ht, hmade⟩ := (hk.on_iff h m).mp hon
          obtain rfl := Option.some.inj (hs'.symm.trans ht)
          exact ⟨s, .inl ⟨rfl, rfl⟩, hmade⟩
      | before hon =>
          obtain ⟨t, ht, hmade⟩ := (hk.on_iff i m).mp hon
          exact ⟨t, .inr ht, hmade⟩
    · rintro ⟨t, ⟨rfl, rfl⟩ | ht, hmade⟩
      · exact .clone ((hk.on_iff h m).mpr ⟨t, hs', hmade⟩)
      · exact .before ((hk.on_iff i m).mpr ⟨t, ht, hmade⟩)
  inside_iff m k := by
    rw [← hk.inside_iff]
    constructor
    · rintro (_ | hinside)
      exact hinside
    · exact .before
  binds_iff m x v := (Log.binds_cons_iff (by simp)).trans (hk.binds_iff m x v)

theorem define (hk : Keeps L hs made) {st' : Store} (hs' : hs.scopes[h]? = some s)
    (hdefine : hs.store.define s x v = .ok st') :
    Keeps ((.define h x v, .defined) :: L) { hs with store := st' } made where
  length_eq := hk.length_eq.trans (Store.size_define hdefine).symm
  nodup := hk.nodup
  lt_size := hk.lt_size
  lt_length := hk.lt_length
  outer_lt t o ho := hk.outer_lt t o ((Store.outer?_define hdefine).symm.trans ho)
  on_iff i m := (Log.on_cons_iff (by simp)).trans (hk.on_iff i m)
  inside_iff m k := by
    rw [Log.inside_cons_iff (by simp), hk.inside_iff]
    simp only [Store.outer?_define hdefine]
  binds_iff m y w := by
    have hsize : s < hs.store.scopes.size := hk.length_eq ▸ hk.lt_length h s hs'
    have hlocal := Store.define_ok_local hdefine
    rw [Log.binds_define_iff, hk.on_iff, hk.binds_iff]
    simp only [Store.local?_define hdefine hsize]
    constructor
    · rintro (⟨⟨t, ht, hmade⟩, rfl, rfl⟩ | ⟨t, hmade, hvalue⟩)
      · obtain rfl := Option.some.inj (hs'.symm.trans ht)
        exact ⟨s, hmade, if_pos ⟨rfl, rfl⟩⟩
      · refine ⟨t, hmade, ?_⟩
        rw [if_neg, hvalue]
        rintro ⟨rfl, rfl⟩
        rw [hlocal] at hvalue
        cases hvalue
    · rintro ⟨t, hmade, hvalue⟩
      split at hvalue
      · rename_i hboth
        obtain ⟨rfl, rfl⟩ := hboth
        exact .inl ⟨⟨t, hs', hmade⟩, rfl, (Option.some.inj hvalue).symm⟩
      · exact .inr ⟨t, hmade, hvalue⟩

theorem new (hk : Keeps L hs made) :
    ∃ made', Keeps ((.new, (hs.perform .new).1) :: L) (hs.perform .new).2 made' := by
  refine ⟨_, hk.grow (fun o ho => by cases ho) ?_ ?_ rfl⟩
  · intro h m
    constructor
    · rintro (_ | _ | _ | hon)
      · exact .inl ⟨rfl, rfl⟩
      · exact .inr hon
    · rintro (⟨rfl, rfl⟩ | hon)
      · exact .new
      · exact .before hon
  · intro m k
    constructor
    · rintro (_ | hinside)
      exact .inr hinside
    · rintro (⟨-, o, ho, -⟩ | hinside)
      · cases ho
      · exact .before hinside

theorem enclosed (hk : Keeps L hs made) (hs' : hs.scopes[h]? = some s) :
    ∃ made', Keeps ((.enclosed h, .handle hs.scopes.size) :: L)
      (hs.add hs.store.scopes.size (hs.store.newScope (some s)).2).2 made' := by
  refine ⟨_, hk.grow (fun o ho => ?_) ?_ ?_ rfl⟩
  · obtain rfl := Option.some.inj ho
    exact hk.lt_length h s hs'
  · intro i m
    constructor
    · rintro (_ | _ | _ | hon)
      · exact .inl ⟨rfl, rfl⟩
      · exact .inr hon
    · rintro (⟨rfl, rfl⟩ | hon)
      · exact .enclosed
      · exact .before hon
  · intro m k
    constructor
    · rintro (hon | hinside)
      · obtain ⟨t, ht, hmade⟩ := (hk.on_iff h k).mp hon
        obtain rfl := Option.some.inj (hs'.symm.trans ht)
        exact .inl ⟨rfl, s, rfl, hmade⟩
      · exact .inr hinside
    · rintro (⟨rfl, o, ho, hok⟩ | hinside)
      · obtain rfl := Option.some.inj ho
        exact .enclosed ((hk.on_iff h k).mpr ⟨s, hs', hok⟩)
      · exact .before hinside

/-- An operation on the scope of a handle. Without a handle of the number it leads to
nothing. -/
theorem perform_on (hk : Keeps L hs made) (op : Op) {f : ScopeId → Answer × Handles}
    (hf : ∀ s, hs.scopes[h]? = some s → ∃ made', Keeps ((op, (f s).1) :: L) (f s).2 made') :
    ∃ made', Keeps ((op, (hs.withScope h f).1) :: L) (hs.withScope h f).2 made' := by
  cases hs' : hs.scopes[h]? with
  | none =>
      rw [withScope_of_none hs']
      exact ⟨made, hk.skip (by simp) (by simp)⟩
  | some s =>
      rw [withScope_of_some hs']
      exact hf s hs'

theorem perform (hk : Keeps L hs made) (op : Op) :
    ∃ made', Keeps ((op, (hs.perform op).1) :: L) (hs.perform op).2 made' := by
  cases op with
  | new => exact hk.new
  | enclosed h => exact hk.perform_on (.enclosed h) fun s hs' => hk.enclosed hs'
  | clone h => exact hk.perform_on (.clone h) fun s hs' => ⟨made, hk.clone hs'⟩
  | define h x v =>
      refine hk.perform_on (.define h x v) fun s hs' => ?_
      cases hdefine : hs.store.define s x v with
      | ok st' => exact ⟨made, hk.define hs' hdefine⟩
      | error e => exact ⟨made, hk.skip (by simp) (by simp)⟩
  | get h x =>
      exact hk.perform_on (.get h x) fun s _ => ⟨made, hk.skip (by simp) (by simp)⟩
  | isLocal h x =>
      exact hk.perform_on (.isLocal h x) fun s _ => ⟨made, hk.skip (by simp) (by simp)⟩

/-- The handles are kept as the log tells after every row of operations. -/
theorem of_ops (ops : List Op) : ∃ made, Keeps (log ops) (after ops) made := by
  induction ops with
  | nil => exact ⟨[], start⟩
  | cons op ops ih =>
      obtain ⟨made, hk⟩ := ih
      exact hk.perform op

end Keeps

/-! ### Answers -/

/-- Handles answer by a log: what they answer to the next operation follows from it. -/
structure AnswersBy (hs : Handles) (L : Log) : Prop where
  /-- Making a scope gives a handle. -/
  new : ∃ n, (hs.perform .new).1 = .handle n
  /-- A handle on a scope can be used to make a scope inside it, and one more handle on
  it. -/
  extend : ∀ {h m}, L.On h m → (∃ n, (hs.perform (.enclosed h)).1 = .handle n) ∧
    ∃ n, (hs.perform (.clone h)).1 = .handle n
  /-- The number of a handle is new. -/
  fresh : ∀ {op n}, (hs.perform op).1 = .handle n → ∀ m, ¬ L.On n m
  /-- A handle is on one scope only. -/
  on_unique : ∀ {h m k}, L.On h m → L.On h k → m = k
  /-- A definition fails exactly if one of that name has succeeded on the same scope,
  through whatever handle. -/
  define_fails_iff : ∀ {h m}, L.On h m → ∀ x v,
    (hs.perform (.define h x v)).1 = .failed (.alreadyDefined x) ↔ ∃ w, L.Binds m x w
  /-- Otherwise it succeeds. -/
  define_succeeds_iff : ∀ {h m}, L.On h m → ∀ x v,
    (hs.perform (.define h x v)).1 = .defined ↔ L.Free m x
  /-- A definition that does not succeed changes nothing. -/
  unchanged : ∀ h x v, (hs.perform (.define h x v)).1 ≠ .defined →
    (hs.perform (.define h x v)).2 = hs
  /-- At most one definition of a name succeeds on a scope. -/
  binds_unique : ∀ {m x v w}, L.Binds m x v → L.Binds m x w → v = w
  /-- Looking up a name yields what the nearest scope binds to it, and nothing if no
  scope of the chain does; it changes nothing. -/
  get : ∀ {h m}, L.On h m → ∀ x, ∃ r, hs.perform (.get h x) = (.value r, hs) ∧
    ∀ r', L.Finds x m r' ↔ r' = r
  /-- A name is local exactly if the scope itself binds it. -/
  isLocal : ∀ {h m}, L.On h m → ∀ x, ∃ b, hs.perform (.isLocal h x) = (.truth b, hs) ∧
    (b = true ↔ ∃ v, L.Binds m x v)
  /-- After a definition that succeeds, its value is looked up from every scope that sees
  its scope. -/
  get_of_sees : ∀ {h m}, L.On h m → ∀ x v, (hs.perform (.define h x v)).1 = .defined →
    ∀ {i k}, L.On i k → L.Sees x m k →
      ((hs.perform (.define h x v)).2.perform (.get i x)).1 = .value (some v)
  /-- From the other scopes, and under other names, everything is looked up as before. -/
  get_of_not_sees : ∀ {h m}, L.On h m → ∀ x v, (hs.perform (.define h x v)).1 = .defined →
    ∀ {i k}, L.On i k → ∀ y, ¬ (y = x ∧ L.Sees x m k) →
      ((hs.perform (.define h x v)).2.perform (.get i y)).1 = (hs.perform (.get i y)).1

namespace Keeps

variable {L : Log} {hs : Handles} {made : List Nat} {h m : Nat} {s : Nat} {x : String}
  {v : Value}

theorem perform_get (hs' : hs.scopes[h]? = some s) :
    hs.perform (.get h x) = (.value (hs.store.get? s x), hs) :=
  withScope_of_some hs' _

theorem perform_define_of_free (hs' : hs.scopes[h]? = some s)
    (hlocal : hs.store.local? s x = none) (v : Value) :
    ∃ st', hs.store.define s x v = .ok st' ∧
      hs.perform (.define h x v) = (.defined, { hs with store := st' }) := by
  refine ⟨_, Store.define_eq_ok hlocal v, ?_⟩
  rw [Handles.perform, withScope_of_some hs', Store.define_eq_ok hlocal v]

theorem perform_define_of_local {w : Value} (hs' : hs.scopes[h]? = some s)
    (hlocal : hs.store.local? s x = some w) (v : Value) :
    hs.perform (.define h x v) = (.failed (.alreadyDefined x), hs) := by
  rw [Handles.perform, withScope_of_some hs', Store.define_eq_error hlocal v]

theorem eq_size_of_perform {op : Op} {n : Nat} (hanswer : (hs.perform op).1 = .handle n) :
    n = hs.scopes.size := by
  cases op with
  | new => exact (Answer.handle.inj hanswer).symm
  | enclosed h | clone h | get h x | isLocal h x =>
      unfold Handles.perform Handles.withScope at hanswer
      cases hs' : hs.scopes[h]? with
      | none => simp [hs'] at hanswer
      | some s => simp_all [add]
  | define h x v =>
      unfold Handles.perform Handles.withScope at hanswer
      cases hs' : hs.scopes[h]? with
      | none => simp [hs'] at hanswer
      | some s => cases hdefine : hs.store.define s x v <;> simp [hs', hdefine] at hanswer

theorem perform_define (hk : Keeps L hs made) (hon : L.On h m) (x : String) (v : Value) :
    (L.Free m x ∧ (hs.perform (.define h x v)).1 = .defined) ∨
      ((∃ w, L.Binds m x w) ∧
        hs.perform (.define h x v) = (.failed (.alreadyDefined x), hs)) := by
  obtain ⟨s, hs', hmade, -⟩ := hk.exists_scope hon
  cases hlocal : hs.store.local? s x with
  | none =>
      obtain ⟨st', -, hperform⟩ := perform_define_of_free hs' hlocal v
      exact .inl ⟨(hk.free_iff hmade).mpr hlocal, by rw [hperform]⟩
  | some w =>
      exact .inr ⟨⟨w, (hk.binds_iff m x w).mpr ⟨s, hmade, hlocal⟩⟩,
        perform_define_of_local hs' hlocal v⟩

theorem get_iff (hk : Keeps L hs made) (hon : L.On h m) (x : String) :
    ∃ r, hs.perform (.get h x) = (.value r, hs) ∧ ∀ r', L.Finds x m r' ↔ r' = r := by
  obtain ⟨s, hs', hmade, -⟩ := hk.exists_scope hon
  refine ⟨_, perform_get hs', fun r' => ⟨fun hfinds => ?_, ?_⟩⟩
  · exact (hk.get?_eq_of_finds hmade hfinds).symm
  · rintro rfl
    exact hk.finds_get? hmade

theorem on_unique (hk : Keeps L hs made) {k : Nat} (hm : L.On h m) (hk' : L.On h k) :
    m = k := by
  obtain ⟨s, hs', hmade, -⟩ := hk.exists_scope hm
  obtain ⟨t, ht, hmade', -⟩ := hk.exists_scope hk'
  obtain rfl := Option.some.inj (hs'.symm.trans ht)
  exact Option.some.inj (hmade.symm.trans hmade')

/-- What a definition that succeeded leads to is found from the log with one more
entry. -/
theorem get_after_define (hk : Keeps L hs made) {y : String} {i k : Nat}
    {r : Option Value} (hdefined : (hs.perform (.define h x v)).1 = .defined)
    (hi : L.On i k) (hfinds : Log.Finds ((.define h x v, .defined) :: L) y k r) :
    ((hs.perform (.define h x v)).2.perform (.get i y)).1 = .value r := by
  obtain ⟨made', hk'⟩ := hk.perform (.define h x v)
  rw [hdefined] at hk'
  obtain ⟨r', hget, hr'⟩ := hk'.get_iff (.before hi) y
  rw [hget, (hr' r).mp hfinds]

theorem answersBy (hk : Keeps L hs made) : hs.AnswersBy L where
  new := ⟨_, rfl⟩
  extend hon := by
    obtain ⟨s, hs', -⟩ := hk.exists_scope hon
    exact ⟨⟨_, by rw [Handles.perform, withScope_of_some hs']; rfl⟩,
      ⟨_, by rw [Handles.perform, withScope_of_some hs']; rfl⟩⟩
  fresh hanswer m hon := by
    obtain ⟨s, hs', -⟩ := hk.exists_scope hon
    exact Nat.ne_of_lt (Array.getElem?_eq_some_iff.mp hs').1 (eq_size_of_perform hanswer)
  on_unique := hk.on_unique
  define_fails_iff hon x v := by
    rcases hk.perform_define hon x v with ⟨hfree, hanswer⟩ | ⟨hbinds, hperform⟩
    · rw [hanswer]
      exact ⟨nofun, fun ⟨w, hw⟩ => absurd hw (hfree w)⟩
    · rw [hperform]
      exact ⟨fun _ => hbinds, fun _ => rfl⟩
  define_succeeds_iff hon x v := by
    rcases hk.perform_define hon x v with ⟨hfree, hanswer⟩ | ⟨⟨w, hw⟩, hperform⟩
    · exact ⟨fun _ => hfree, fun _ => hanswer⟩
    · rw [hperform]
      exact ⟨nofun, fun hfree => absurd hw (hfree w)⟩
  unchanged h x v hanswer := by
    cases hs' : hs.scopes[h]? with
    | none => rw [Handles.perform, withScope_of_none hs']
    | some s =>
        cases hlocal : hs.store.local? s x with
        | none =>
            obtain ⟨st', -, hperform⟩ := perform_define_of_free hs' hlocal v
            rw [hperform] at hanswer
            exact absurd rfl hanswer
        | some w => rw [perform_define_of_local hs' hlocal v]
  binds_unique hv hw := by
    obtain ⟨s, hmade, hvalue⟩ := (hk.binds_iff _ _ _).mp hv
    obtain ⟨t, hmade', hvalue'⟩ := (hk.binds_iff _ _ _).mp hw
    obtain rfl := hk.scope_unique hmade hmade'
    exact Option.some.inj (hvalue.symm.trans hvalue')
  get hon x := hk.get_iff hon x
  isLocal hon x := by
    obtain ⟨s, hs', hmade, -⟩ := hk.exists_scope hon
    refine ⟨(hs.store.local? s x).isSome, by rw [Handles.perform, withScope_of_some hs'], ?_⟩
    rw [Option.isSome_iff_exists]
    constructor
    · rintro ⟨v, hvalue⟩
      exact ⟨v, (hk.binds_iff _ x v).mpr ⟨s, hmade, hvalue⟩⟩
    · rintro ⟨v, hbinds⟩
      obtain ⟨t, ht, hvalue⟩ := (hk.binds_iff _ x v).mp hbinds
      obtain rfl := hk.scope_unique hmade ht
      exact ⟨v, hvalue⟩
  get_of_sees hon x v hdefined i k hi hsees :=
    hk.get_after_define hdefined hi (Log.finds_define_of_sees hon hsees)
  get_of_not_sees hon x v hdefined i k hi y hother := by
    obtain ⟨r, hget, hr⟩ := hk.get_iff hi y
    have hfinds := (hr r).mpr rfl
    rw [hget]
    exact hk.get_after_define hdefined hi
      (Log.finds_define_of_not_sees (fun j hj => hk.on_unique hj hon) hfinds hother)

end Keeps

/-- Whatever has been done with handles before, they answer by the log of it. -/
theorem answersBy_log (ops : List Op) : (after ops).AnswersBy (log ops) := by
  obtain ⟨made, hk⟩ := Keeps.of_ops ops
  exact hk.answersBy

/-- A name that is bound after a scope was made inside is seen from there. -/
example : ((after [.define 0 "x" (.bool true), .enclosed 0, .new]).perform (.get 1 "x")).1 =
    .value (some (.bool true)) := by
  cbv

end Handles

end ScriptLang
