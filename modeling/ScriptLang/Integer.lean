/-!
The integers of the language are the signed 64-bit numbers, and no operation on
them wraps around. Operations compute with unbounded numbers; `integer?` then
says whether there is an integer with that value.
-/

namespace ScriptLang

/-- The integer with this value, if there is one. -/
def integer? (n : Int) : Option Int64 :=
  if Int64.minValue.toInt ≤ n ∧ n ≤ Int64.maxValue.toInt then some (Int64.ofInt n) else none

theorem toInt_ofInt_of_mem_range {n : Int} (least : Int64.minValue.toInt ≤ n)
    (greatest : n ≤ Int64.maxValue.toInt) : (Int64.ofInt n).toInt = n := by
  rw [Int64.toInt_minValue] at least
  rw [Int64.toInt_maxValue] at greatest
  exact Int64.toInt_ofInt_of_le least (Int.lt_of_le_sub_one greatest)

theorem integer?_eq_some_iff {n : Int} {i : Int64} :
    integer? n = some i ↔ i.toInt = n := by
  unfold integer?
  constructor
  · intro found
    split at found
    · rename_i range
      obtain rfl := Option.some.inj found
      exact toInt_ofInt_of_mem_range range.1 range.2
    · contradiction
  · rintro rfl
    have least : Int64.minValue.toInt ≤ i.toInt := Int64.minValue_le_toInt i
    have greatest : i.toInt ≤ Int64.maxValue.toInt := Int64.toInt_le i
    rw [if_pos ⟨least, greatest⟩, Int64.ofInt_toInt]

theorem integer?_eq_none_iff {n : Int} :
    integer? n = none ↔ ∀ i : Int64, i.toInt ≠ n := by
  simp only [ne_eq, ← integer?_eq_some_iff]
  cases integer? n <;> simp

end ScriptLang
