import ScriptLang.Text.Basic

/-!
Keys of hashes. Integers, truth values and strings can be keys. A hash files its
entries under hash keys, which tell the kinds of key apart and otherwise hold 64
bits: the integer itself, or the FNV-1a hash of the bytes of the string. Two keys
with the same hash key share one entry.
-/

namespace ScriptLang

/-! ### FNV-1a -/

def fnvBasis : UInt64 := 0xcbf29ce484222325

def fnvPrime : UInt64 := 0x100000001b3

def fnvStep (hash : UInt64) (byte : UInt8) : UInt64 :=
  (hash ^^^ byte.toUInt64) * fnvPrime

/-- The 64-bit FNV-1a hash of the bytes. -/
def fnv1a (bytes : List UInt8) : UInt64 :=
  bytes.foldl fnvStep fnvBasis

theorem fnv1a_append (as bs : List UInt8) :
    fnv1a (as ++ bs) = bs.foldl fnvStep (fnv1a as) :=
  List.foldl_append

/-! ### Hash keys -/

inductive KeyKind
  | integer
  | boolean
  | string
  deriving DecidableEq

/-- The kinds in the order in which keys are listed. -/
def KeyKind.rank : KeyKind → Nat
  | .integer => 0
  | .boolean => 1
  | .string => 2

def KeyKind.name : KeyKind → String
  | .integer => "Integer"
  | .boolean => "Boolean"
  | .string => "String"

/-- What an entry of a hash is filed under. -/
structure HashKey where
  kind : KeyKind
  value : UInt64
  deriving DecidableEq

/-- The order in which entries are listed: by kind, then by the 64 bits. -/
def HashKey.le (a b : HashKey) : Bool :=
  a.kind.rank < b.kind.rank || (a.kind.rank == b.kind.rank && a.value ≤ b.value)

/-! ### Keys -/

inductive Key
  | int (n : Int64)
  | bool (b : Bool)
  | str (s : String)
  deriving DecidableEq

def utf8Bytes (s : String) : List UInt8 := s.toUTF8.data.toList

def Key.hashKey : Key → HashKey
  | .int n => ⟨.integer, n.toUInt64⟩
  | .bool b => ⟨.boolean, if b then 1 else 0⟩
  | .str s => ⟨.string, fnv1a (utf8Bytes s)⟩

/-! ### Tables -/

/-- Entries with their keys, the one that was added last at the end. -/
abbrev Table (α : Type) := List (Key × α)

namespace Table

variable {α : Type}

def find? (h : HashKey) (t : Table α) : Option (Key × α) :=
  List.find? (fun entry => entry.1.hashKey = h) t

def erase (h : HashKey) (t : Table α) : Table α :=
  t.filter fun entry => entry.1.hashKey ≠ h

/-- Adds an entry; it takes the place of one with the same hash key. -/
def insert (k : Key) (a : α) (t : Table α) : Table α :=
  t.erase k.hashKey ++ [(k, a)]

def sorted (t : Table α) : Table α :=
  t.mergeSort fun a b => a.1.hashKey.le b.1.hashKey

theorem hashKey_of_find? {h : HashKey} {t : Table α} {entry : Key × α}
    (found : t.find? h = some entry) : entry.1.hashKey = h := by
  simpa using List.find?_some found

/-- Removing an entry leaves what is filed under every other hash key. -/
theorem find?_erase (h h' : HashKey) (t : Table α) :
    (t.erase h').find? h = if h' = h then none else t.find? h := by
  induction t with
  | nil => simp [erase, find?]
  | cons entry t ih =>
      unfold erase find? at *
      by_cases e : entry.1.hashKey = h' <;> by_cases e' : entry.1.hashKey = h <;>
        grind

/-- What was added last under a hash key is what is found there. -/
theorem find?_insert (h : HashKey) (k : Key) (a : α) (t : Table α) :
    (t.insert k a).find? h = if k.hashKey = h then some (k, a) else t.find? h := by
  have split : (t.insert k a).find? h =
      ((t.erase k.hashKey).find? h).or (Table.find? h [(k, a)]) :=
    List.find?_append
  rw [split, find?_erase]
  by_cases e : k.hashKey = h <;> simp [find?, e]

end Table

end ScriptLang
