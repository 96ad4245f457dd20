import ScriptLang.Text.Basic
import ScriptLang.Token.Basic

/-!
The units of a string. Between its quotes a string is a row of units, each a character that stands
for itself or a backslash with any character behind it. What ends the row is a quote where a unit
would begin. So the place of the closing quote is where a row of units ends
(`closingQuote?_eq_some_iff`), whether it is looked for unit by unit or one character at a time
(`quoteOffset?_eq`), and a row of units is read as the characters of its units (`unescape_units`).
-/

namespace ScriptLang.Text

/-- A unit of the text between the quotes of a string. -/
inductive StringUnit
  | plain (c : Char) (not_quote : c ≠ '"') (not_backslash : c ≠ '\\')
  /-- A backslash and the character that it takes along. -/
  | escaped (c : Char)

namespace StringUnit

/-- The character that a unit stands for. -/
def char : StringUnit → Char
  | plain c _ _ => c
  | escaped c => c

def text : StringUnit → List Char
  | plain c _ _ => [c]
  | escaped c => ['\\', c]

end StringUnit

def unitsText (units : List StringUnit) : List Char := units.flatMap StringUnit.text

@[simp] theorem unitsText_nil : unitsText [] = [] := rfl

@[simp] theorem unitsText_plain {c : Char} (hq : c ≠ '"') (hb : c ≠ '\\')
    (units : List StringUnit) : unitsText (.plain c hq hb :: units) = c :: unitsText units := rfl

@[simp] theorem unitsText_escaped (c : Char) (units : List StringUnit) :
    unitsText (.escaped c :: units) = '\\' :: c :: unitsText units := rfl

variable {cs : List Char} {n : Nat}

/-! ### The closing quote -/

theorem closingQuote?_units (units : List StringUnit) (rest : List Char) :
    closingQuote? (unitsText units ++ '"' :: rest) = some (unitsText units).length := by
  induction units with
  | nil => rfl
  | cons unit units ih =>
      cases unit with
      | plain c hq hb =>
          rw [unitsText_plain, List.cons_append,
            closingQuote?.eq_4 c _ hq fun _ _ hc _ => hb hc, ih]
          rfl
      | escaped c =>
          rw [unitsText_escaped, List.cons_append, List.cons_append, closingQuote?, ih]
          rfl

theorem exists_units_of_closingQuote? (h : closingQuote? cs = some n) :
    ∃ units rest, cs = unitsText units ++ '"' :: rest ∧ n = (unitsText units).length := by
  induction cs using closingQuote?.induct generalizing n with
  | case1 => cases h
  | case2 cs =>
      cases h
      exact ⟨[], cs, rfl, rfl⟩
  | case3 c cs ih =>
      obtain ⟨m, hm, rfl⟩ := Option.map_eq_some_iff.mp h
      obtain ⟨units, rest, rfl, rfl⟩ := ih hm
      exact ⟨.escaped c :: units, rest, rfl, rfl⟩
  | case4 c cs hquote hescape ih =>
      rw [closingQuote?.eq_4 c cs hquote hescape] at h
      obtain ⟨m, hm, rfl⟩ := Option.map_eq_some_iff.mp h
      -- A quote is still to come, so a backslash here would take a character along.
      have hbackslash : c ≠ '\\' := by
        cases cs with
        | nil => cases hm
        | cons d ds => exact fun hc => hescape d ds hc rfl
      obtain ⟨units, rest, rfl, rfl⟩ := ih hm
      exact ⟨.plain c hquote hbackslash :: units, rest, rfl, rfl⟩

/-- The closing quote is the one behind a row of units. -/
theorem closingQuote?_eq_some_iff : closingQuote? cs = some n ↔
    ∃ units rest, cs = unitsText units ++ '"' :: rest ∧ n = (unitsText units).length := by
  refine ⟨exists_units_of_closingQuote?, ?_⟩
  rintro ⟨units, rest, rfl, rfl⟩
  exact closingQuote?_units units rest

/-! ### One character at a time -/

/-- How many bytes stand before the quote that closes a string, found by going through the
characters one at a time. All that is kept in mind is whether the character before was a backslash
that takes this one along. -/
def quoteOffset? : Bool → List Char → Option Nat
  | _, [] => none
  | true, c :: cs => (quoteOffset? false cs).map (c.utf8Size + ·)
  | false, c :: cs =>
    if c = '\\' then (quoteOffset? true cs).map (c.utf8Size + ·)
    else if c = '"' then some 0
    else (quoteOffset? false cs).map (c.utf8Size + ·)

theorem quoteOffset?_eq (cs : List Char) :
    quoteOffset? false cs = (closingQuote? cs).map fun n => byteLength (cs.take n) := by
  induction cs using closingQuote?.induct with
  | case1 => rfl
  | case2 cs => rfl
  | case3 c cs ih =>
      show ((quoteOffset? false cs).map _).map _ = ((closingQuote? cs).map _).map _
      rw [ih]
      simp only [Option.map_map]
      rfl
  | case4 c cs hquote hescape ih =>
      rw [closingQuote?.eq_4 c cs hquote hescape, quoteOffset?]
      by_cases hc : c = '\\'
      · -- Nothing is left for the backslash to take along.
        cases cs with
        | nil => rw [if_pos hc]; rfl
        | cons d ds => exact absurd rfl (hescape d ds hc)
      · rw [if_neg hc, if_neg hquote, ih, Option.map_map, Option.map_map]
        rfl

theorem quoteOffset?_eq_some_iff {b : Nat} : quoteOffset? false cs = some b ↔
    ∃ units rest, cs = unitsText units ++ '"' :: rest ∧ b = byteLength (unitsText units) := by
  rw [quoteOffset?_eq, Option.map_eq_some_iff]
  constructor
  · rintro ⟨n, hn, rfl⟩
    obtain ⟨units, rest, rfl, rfl⟩ := closingQuote?_eq_some_iff.mp hn
    exact ⟨units, rest, rfl, by rw [List.take_left]⟩
  · rintro ⟨units, rest, rfl, rfl⟩
    exact ⟨_, closingQuote?_units units rest, by rw [List.take_left]⟩

/-! ### The content -/

theorem unescape_units (units : List StringUnit) :
    unescape (unitsText units) = units.map StringUnit.char := by
  induction units with
  | nil => rfl
  | cons unit units ih =>
      cases unit with
      | plain c hq hb =>
          rw [unitsText_plain, unescape.eq_4 _ _ (fun hc _ => hb hc) fun _ _ hc _ => hb hc, ih]
          rfl
      | escaped c =>
          rw [unitsText_escaped, unescape, ih]
          rfl

/-- A row of units does not end with a backslash that takes nothing along. -/
theorem unitsText_ne_append_backslash (units front : List StringUnit) :
    unitsText units ≠ unitsText front ++ ['\\'] := by
  induction front generalizing units with
  | nil =>
      intro h
      cases units with
      | nil => cases h
      | cons unit units =>
          cases unit with
          | plain c hq hb => exact hb (List.cons.inj h).1
          | escaped c => cases h
  | cons unit front ih =>
      intro h
      cases units with
      | nil => cases unit <;> cases h
      | cons unit' units =>
          cases unit with
          | plain c hq hb =>
              cases unit' with
              | plain c' hq' hb' => exact ih units (List.cons.inj h).2
              | escaped c' => exact hb (List.cons.inj h).1.symm
          | escaped c =>
              cases unit' with
              | plain c' hq' hb' => exact hb' (List.cons.inj h).1
              | escaped c' => exact ih units (List.cons.inj (List.cons.inj h).2).2

end ScriptLang.Text
