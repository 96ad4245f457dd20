import ScriptLang.Expr.Printer
import ScriptLang.Value.Basic

/-!
Values as the user sees them. A hash lists its entries in an order that is not
part of its value: it is chosen by a `HashOrder`, and everything that shows values
takes one. The order may be another one in each place where a hash is shown, so
that even equal hashes may be shown differently. Where no hash with two or more
entries is shown, the order makes no difference (`Value.display_eq_of_isOrderFree`).
-/

namespace ScriptLang

/-- Part of what is shown: an operand of an operator that fails, one of the values
that were printed, an item of an array or an entry of a hash. -/
inductive Part
  | left
  | right
  | printed (i : Nat)
  | item (i : Nat)

/-- An order in which the entries of a hash are listed: given the place of the hash,
as the parts that lead to it from the outside, and the texts of its entries, each
with the hash key of its entry, it arranges them. -/
structure HashOrder where
  arrange : List Part → List (HashKey × String) → List (HashKey × String)
  perm : ∀ place entries, (arrange place entries).Perm entries

namespace HashOrder

def byKey : HashOrder where
  arrange _ entries := entries.mergeSort fun a b => a.1.le b.1
  perm _ entries := List.mergeSort_perm entries _

/-- The order in the places inside a part. -/
def inside (order : HashOrder) (part : Part) : HashOrder where
  arrange place := order.arrange (part :: place)
  perm place := order.perm (part :: place)

def listing (order : HashOrder) (entries : List (HashKey × String)) : String :=
  Text.separated ", " ((order.arrange [] entries).map Prod.snd)

end HashOrder

def Key.display : Key → String
  | .int n => Text.decimal n.toInt
  | .bool b => truthText b
  | .str s => s

/-- A function as the user sees it: its canonical text. -/
def Closure.display (f : Closure) : String :=
  "func(" ++ Text.separated ", " f.params ++ ") " ++ Block.print f.body

def Builtin.display (b : Builtin) : String :=
  "builtin function " ++ b.name

mutual

/-- A value as the user sees it. -/
def Value.display (order : HashOrder) : Value → String
  | .int n => Text.decimal n.toInt
  | .str s => s
  | .bool b => truthText b
  | .null => "NULL"
  | .func f => f.display
  | .builtin b => b.display
  | .array vs => "[" ++ Text.separated ", " (Value.displayItems order 0 vs) ++ "]"
  | .hash es => "\x7b" ++ order.listing (Value.displayEntries order 0 es) ++ "\x7d"

/-- The items of an array, from the `i`-th on, as the user sees them. -/
def Value.displayItems (order : HashOrder) (i : Nat) : List Value → List String
  | [] => []
  | v :: vs => v.display (order.inside (.item i)) :: Value.displayItems order (i + 1) vs

def Value.displayEntries (order : HashOrder) (i : Nat) :
    List (Key × Value) → List (HashKey × String)
  | [] => []
  | (k, v) :: es =>
    (k.hashKey, k.display ++ ": " ++ v.display (order.inside (.item i))) ::
      Value.displayEntries order (i + 1) es

end

mutual

/-- Whether a value shows no hash with two or more entries. -/
def Value.isOrderFree : Value → Bool
  | .array vs => Value.itemsOrderFree vs
  | .hash es => es.length ≤ 1 && Value.entriesOrderFree es
  | _ => true

def Value.itemsOrderFree : List Value → Bool
  | [] => true
  | v :: vs => v.isOrderFree && Value.itemsOrderFree vs

def Value.entriesOrderFree : List (Key × Value) → Bool
  | [] => true
  | (_, v) :: es => v.isOrderFree && Value.entriesOrderFree es

end

theorem Value.length_displayEntries (order : HashOrder) (i : Nat)
    (es : List (Key × Value)) : (Value.displayEntries order i es).length = es.length := by
  induction es generalizing i with
  | nil => rfl
  | cons e es ih => rw [Value.displayEntries, List.length_cons, List.length_cons, ih]

/-- There is one way only to arrange at most one entry. -/
theorem HashOrder.arrange_eq_self (order : HashOrder) (place : List Part)
    {entries : List (HashKey × String)} (h : entries.length ≤ 1) :
    order.arrange place entries = entries := by
  match entries, h with
  | [], _ => exact List.perm_nil.1 (order.perm place [])
  | [e], _ => exact List.perm_singleton.1 (order.perm place [e])

mutual

/-- Without a hash that has two or more entries, all orders show the same. -/
theorem Value.display_eq_of_isOrderFree (o₁ o₂ : HashOrder) :
    ∀ v : Value, v.isOrderFree = true → v.display o₁ = v.display o₂
  | .int _, _ | .str _, _ | .bool _, _ | .null, _ | .func _, _ | .builtin _, _ => rfl
  | .array vs, h => by
    simp only [Value.isOrderFree] at h
    simp only [Value.display, Value.displayItems_eq_of_orderFree o₁ o₂ 0 vs h]
  | .hash es, h => by
    simp only [Value.isOrderFree, Bool.and_eq_true, decide_eq_true_eq] at h
    have same := Value.displayEntries_eq_of_orderFree o₁ o₂ 0 es h.2
    have short : (Value.displayEntries o₂ 0 es).length ≤ 1 :=
      Nat.le_trans (Nat.le_of_eq (Value.length_displayEntries o₂ 0 es)) h.1
    simp only [Value.display, HashOrder.listing, same, o₁.arrange_eq_self [] short,
      o₂.arrange_eq_self [] short]

theorem Value.displayItems_eq_of_orderFree (o₁ o₂ : HashOrder) (i : Nat) :
    ∀ vs : List Value, Value.itemsOrderFree vs = true →
      Value.displayItems o₁ i vs = Value.displayItems o₂ i vs
  | [], _ => rfl
  | v :: vs, h => by
    simp only [Value.itemsOrderFree, Bool.and_eq_true] at h
    simp only [Value.displayItems,
      Value.display_eq_of_isOrderFree (o₁.inside (.item i)) (o₂.inside (.item i)) v h.1,
      Value.displayItems_eq_of_orderFree o₁ o₂ (i + 1) vs h.2]

theorem Value.displayEntries_eq_of_orderFree (o₁ o₂ : HashOrder) (i : Nat) :
    ∀ es : List (Key × Value), Value.entriesOrderFree es = true →
      Value.displayEntries o₁ i es = Value.displayEntries o₂ i es
  | [], _ => rfl
  | (k, v) :: es, h => by
    simp only [Value.entriesOrderFree, Bool.and_eq_true] at h
    simp only [Value.displayEntries,
      Value.display_eq_of_isOrderFree (o₁.inside (.item i)) (o₂.inside (.item i)) v h.1,
      Value.displayEntries_eq_of_orderFree o₁ o₂ (i + 1) es h.2]

end

end ScriptLang
