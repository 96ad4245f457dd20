import ScriptLang.Store.Basic

/-!
Working on scopes through handles. A handle refers to a scope, and several handles
can refer to the same one; what is bound through one of them is seen through all.
Handles are numbered in the order in which they are made.
-/

namespace ScriptLang

/-- A store and the scopes that the handles made so far refer to. -/
structure Handles where
  store : Store
  scopes : Array ScopeId

namespace Handles

inductive Op
  | new
  | enclosed (h : Nat)
  /-- Makes one more handle on the scope of a handle. -/
  | clone (h : Nat)
  | define (h : Nat) (x : String) (v : Value)
  | get (h : Nat) (x : String)
  /-- Asks whether the scope itself binds a name. -/
  | isLocal (h : Nat) (x : String)

inductive Answer
  /-- The number of the handle that was made. -/
  | handle (h : Nat)
  | defined
  | failed (e : RuntimeError)
  | value (v : Option Value)
  | truth (b : Bool)
  | noHandle

def empty : Handles := ⟨Store.empty, #[]⟩

def add (hs : Handles) (s : ScopeId) (st : Store) : Answer × Handles :=
  (.handle hs.scopes.size, ⟨st, hs.scopes.push s⟩)

def withScope (hs : Handles) (h : Nat) (f : ScopeId → Answer × Handles) : Answer × Handles :=
  match hs.scopes[h]? with
  | some s => f s
  | none => (.noHandle, hs)

def perform (hs : Handles) : Op → Answer × Handles
  | .new =>
    let (s, st) := hs.store.newScope none
    hs.add s st
  | .enclosed h => hs.withScope h fun outer =>
    let (s, st) := hs.store.newScope (some outer)
    hs.add s st
  | .clone h => hs.withScope h fun s => hs.add s hs.store
  | .define h x v => hs.withScope h fun s =>
    match hs.store.define s x v with
    | .ok st => (.defined, { hs with store := st })
    | .error e => (.failed e, hs)
  | .get h x => hs.withScope h fun s => (.value (hs.store.get? s x), hs)
  | .isLocal h x => hs.withScope h fun s => (.truth (hs.store.local? s x).isSome, hs)

end Handles

end ScriptLang
