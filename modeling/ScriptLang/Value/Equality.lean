import ScriptLang.Value.Basic

/-!
Equality of values. Functions are equal if they are the same one, however alike
their texts are. Two hashes are equal if they have equally many entries and every
entry of the one has its equal, key and value, under the same hash key in the
other.
-/

namespace ScriptLang

mutual

def Value.same : Value → Value → Bool
  | .int m, .int n => m = n
  | .str s, .str t => s = t
  | .bool a, .bool b => a = b
  | .null, .null => true
  | .func f, .func g => f.id = g.id
  | .builtin a, .builtin b => a = b
  | .array as, .array bs => Value.sameItems as bs
  | .hash es, .hash fs => es.length = fs.length && Value.sameEntries es fs
  | _, _ => false

def Value.sameItems : List Value → List Value → Bool
  | [], [] => true
  | v :: vs, w :: ws => v.same w && Value.sameItems vs ws
  | _, _ => false

/-- Whether every one of these entries has its equal in the table. -/
def Value.sameEntries : List (Key × Value) → Table Value → Bool
  | [], _ => true
  | (k, v) :: es, t =>
    (match t.find? k.hashKey with
      | some (k', v') => k = k' && v.same v'
      | none => false) && Value.sameEntries es t

end

instance : BEq Value := ⟨Value.same⟩

end ScriptLang
