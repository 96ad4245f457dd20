import Mathlib
import ScriptLang.Proofs.Eval.Invariant
import ScriptLang.Proofs.Store.Integrity

/-!
Evaluation keeps stores intact, however it ends. It is given values that are intact, and
works in a scope that exists; then whatever it makes or hands on is intact too, and so is
the store. Values that a later step is given may be older than its store: they are intact
with the scopes there were, and stay so.

So whatever programs are run one after another, all that is left behind is intact.
-/

namespace ScriptLang

def Invariant.intact : Invariant where
  value n v := v.Intact n
  scope n s := s < n
  store := Store.Intact
  mono := Value.Intact.mono
  atom := Value.intact_of_isAtom
  array_iff := Value.intact_array_iff
  of_entry ht := (Value.intact_hash_iff.mp ht).2
  hash_nil _ := Value.intact_hash_nil
  insert k ht hv := ht.insert k hv
  scope_mono := Nat.lt_of_lt_of_le
  get? hst hv := hst.bound _ (Store.binds_of_get? hv)
  define hst _ hv hdefine := hst.define hv hdefine
  enclose hst hf := by
    refine ⟨Nat.lt_succ_self _, hst.newScope ?_⟩
    rintro _ ⟨⟩
    exact Value.intact_func_iff.mp hf
  newClosure hst hs _ _ := ⟨Value.intact_func_iff.mpr hs, hst.of_scopes_eq rfl⟩
  print _ hst := hst.of_scopes_eq rfl

theorem intact_of_eval_eq_ok {order : HashOrder} {depth : Nat} {s : ScopeId} {e : Expr}
    {v : Value} {st st' : Store} (hst : st.Intact) (hs : s < st.scopes.size)
    (h : e.eval (Eval.caller order depth) s st = .ok v st') :
    st'.Intact ∧ st.scopes.size ≤ st'.scopes.size ∧ v.Intact st'.scopes.size := by
  have hnode : (Fragment.expr e).eval (Eval.caller order depth) s st = .ok v st' := h
  exact Invariant.intact.of_eval_eq_ok hst hs hnode

/-! ### One program after another -/

def Outcome.results : Outcome → List Value
  | .value v => [v]
  | .error _ | .tooManyCalls => []

/-- The store, and the values that came out, after programs have been run one after another
in scopes that existed then. At first there is a scope without bindings and nothing else. -/
inductive AfterRuns : Store → List Value → Prop
  | start : AfterRuns Interpreter.start.store []
  | run {st : Store} {results : List Value} {s : ScopeId} (settings : Settings) (p : Program) :
      AfterRuns st results → s < st.scopes.size →
      AfterRuns (Program.run settings s p st).2
        ((Program.run settings s p st).1.results ++ results)

theorem Program.run_intact {st : Store} {s : ScopeId} (settings : Settings) (p : Program)
    (hst : st.Intact) (hs : s < st.scopes.size) :
    (Program.run settings s p st).2.Intact ∧
      st.scopes.size ≤ (Program.run settings s p st).2.scopes.size ∧
      ∀ v ∈ (Program.run settings s p st).1.results,
        v.Intact (Program.run settings s p st).2.scopes.size := by
  obtain ⟨hst', hsize, hvalue⟩ := Invariant.intact.run settings hst hs p
  refine ⟨hst', hsize, fun v hv => hvalue v ?_⟩
  generalize (Program.run settings s p st).1 = outcome at hv
  cases outcome with
  | value w => rw [List.mem_singleton.mp hv]
  | error e => cases hv
  | tooManyCalls => cases hv

/-- What came out of a run is still intact after later runs. -/
theorem AfterRuns.intact {st : Store} {results : List Value} (h : AfterRuns st results) :
    st.Intact ∧ ∀ v ∈ results, v.Intact st.scopes.size := by
  induction h with
  | start => exact ⟨Store.intact_empty.newScope nofun, nofun⟩
  | run settings p _ hs ih =>
      obtain ⟨hst, hresults⟩ := ih
      obtain ⟨hst', hsize, hnew⟩ := Program.run_intact settings p hst hs
      refine ⟨hst', fun v hv => ?_⟩
      rcases List.mem_append.mp hv with hv | hv
      · exact hnew v hv
      · exact (hresults v hv).mono hsize

/-- After any runs, whether they ended with a value, with a `return` or with an error:

A scope around another one exists and was made earlier, so the way outward comes to an end,
and looking a name up goes all the way. And in every value that a scope binds or that came
out of a run, at any depth, the closures were made in scopes that exist, and the hashes
have at most one entry for each hash key: the key of an entry can be a key, and the entry
is filed under the hash key of its key and under no other. -/
theorem integrity_after_runs {st : Store} {results : List Value} (h : AfterRuns st results) :
    (∀ s o, st.outer? s = some o → o < s ∧ s < st.scopes.size) ∧
    (WellFounded fun o s => st.outer? s = some o) ∧
    (∀ s x, st.get? s x = (st.local? s x).or ((st.outer? s).bind fun o => st.get? o x)) ∧
    ∀ v, v ∈ results ∨ st.Binds v →
      (∀ i, v.Captures i → i < st.scopes.size) ∧
      ∀ t, v.Files t → (t.map fun e => e.1.hashKey).Nodup ∧
        ∀ e ∈ t, e.1.value.key? = some e.1 ∧
          ∀ h, t.find? h = some e ↔ e.1.hashKey = h := by
  obtain ⟨hst, hresults⟩ := h.intact
  refine ⟨fun s o ho => ⟨hst.outer_lt s o ho, Store.lt_size_of_outer? ho⟩, hst.wellFounded,
    hst.get?_eq, fun v hv => ?_⟩
  have hintact : v.Intact st.scopes.size := hv.elim (hresults v) (hst.bound v)
  refine ⟨hintact.captured, fun t ht => ⟨hintact.filed t ht, fun e he => ⟨?_, ?_⟩⟩⟩
  · exact Value.key?_eq_some_iff.mpr rfl
  · exact (hintact.filed t ht).find?_eq_some_iff he

/-- `func(x) { return {1: x, 1: [func() {}]}; }`, made in the outermost scope. -/
def hashMaker : Closure :=
  ⟨0, ["x"], [.ret (.hash [(.int 1, .name "x"), (.int 1, .array [.func [] []])])], 0⟩

/-- `var f = func(x) { return {1: x, 1: [func() {}]}; }; return f({});` -/
def makesHash : Program :=
  [.var "f" (.func hashMaker.params hashMaker.body), .ret (.call (.name "f") [.hash []])]

/-- `var g = push([], f(1)); g + 1` -/
def failsLater : Program :=
  [.var "g" (.call (.name "push") [.array [], .call (.name "f") [.int 1]]),
    .expr (.binary .plus (.name "g") (.int 1))]

/-- What the `n`-th call of `hashMaker` returns: the second pair has taken the place of the
first one. -/
def madeHash (n : Nat) : Value :=
  .hash [(.int 1, .array [.func ⟨n, [], [], n⟩])]

def madeOnce : Store where
  scopes := #[⟨none, [("f", .func hashMaker)]⟩, ⟨some 0, [("x", .hash [])]⟩]
  closures := 2
  printed := #[]

def madeTwice : Store where
  scopes := #[⟨none, [("g", .array [madeHash 2]), ("f", .func hashMaker)]⟩,
    ⟨some 0, [("x", .hash [])]⟩, ⟨some 0, [("x", .int 1)]⟩]
  closures := 3
  printed := #[]

/-- The first program returns a hash. The second one fails when it has bound an array with
another hash, so both hashes stay, with a closure in each that was made in the scope of a
call. -/
theorem integrity_after_runs_failed :
    AfterRuns madeTwice [madeHash 1] ∧ madeTwice.outer? 2 = some 0 ∧
      madeTwice.get? 2 "g" = some (.array [madeHash 2]) ∧ 2 < madeTwice.scopes.size ∧
      ∀ t, (Value.array [madeHash 2]).Files t → (t.map fun e => e.1.hashKey).Nodup := by
  have hone : AfterRuns madeOnce [madeHash 1] := by
    have hrun : Program.run ⟨HashOrder.byKey, 1⟩ 0 makesHash Interpreter.start.store =
        (.value (madeHash 1), madeOnce) := by
      cbv
    have h := AfterRuns.start.run ⟨HashOrder.byKey, 1⟩ makesHash Nat.zero_lt_one
    rwa [hrun] at h
  have htwo : AfterRuns madeTwice [madeHash 1] := by
    have hstore : (Program.run ⟨HashOrder.byKey, 1⟩ 0 failsLater madeOnce).2 = madeTwice := by
      cbv
    have hresults : (Program.run ⟨HashOrder.byKey, 1⟩ 0 failsLater madeOnce).1.results = [] := by
      cbv
    have h := hone.run ⟨HashOrder.byKey, 1⟩ failsLater Nat.zero_lt_two
    rwa [hstore, hresults] at h
  obtain ⟨-, -, hget, hvalues⟩ := integrity_after_runs htwo
  have hg : madeTwice.local? 0 "g" = some (.array [madeHash 2]) := by
    cbv
  have hfound : madeTwice.get? 2 "g" = some (.array [madeHash 2]) :=
    (hget 2 "g").trans (Store.get?_of_local hg)
  obtain ⟨hcaptured, hfiled⟩ := hvalues _ (.inr (Store.binds_of_local? hg))
  refine ⟨htwo, rfl, hfound, hcaptured 2 ?_, fun t ht => (hfiled t ht).1⟩
  exact .array List.mem_cons_self (.hash List.mem_cons_self (.array List.mem_cons_self (.func _)))

end ScriptLang
