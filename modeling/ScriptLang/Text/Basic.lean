/-!
Texts: white space, rows of texts, decimal numbers, string literals, and lines.

A character is blank if Unicode gives it the property `White_Space`; the table
lists the ranges of that property. A number has no leading zeros when it is
written and may have them when it is read.

Between the quotes of a string literal a backslash takes the character after it
along: a quote or a backslash stands for itself only behind a backslash, and any
other character may have one too. Writing puts a backslash only where one is
needed, and reading drops every backslash that takes a character along
(`unescape_escape`). Where a literal ends is decided by the first quote that no
backslash takes along (`closingQuote?_escape`).

Of bytes, a line feed ends a line, and a carriage return right before it belongs
to the end of the line too. What comes after the last line feed is one more line
if it is not empty. A line is text only if its bytes are UTF-8.
-/

namespace ScriptLang.Text

/-! ### White space -/

/-- The ranges of code points, both ends included, with the property
`White_Space`. -/
def blankRanges : List (Nat × Nat) :=
  [(0x0009, 0x000D), (0x0020, 0x0020), (0x0085, 0x0085), (0x00A0, 0x00A0),
    (0x1680, 0x1680), (0x2000, 0x200A), (0x2028, 0x2029), (0x202F, 0x202F),
    (0x205F, 0x205F), (0x3000, 0x3000)]

def isBlank (c : Char) : Bool :=
  blankRanges.any fun (first, last) => first ≤ c.toNat && c.toNat ≤ last

def trim (s : String) : String :=
  String.ofList ((s.toList.dropWhile isBlank).reverse.dropWhile isBlank).reverse

/-! ### Rows of texts -/

def separated (separator : String) : List String → String
  | [] => ""
  | [s] => s
  | s :: t :: rest => s ++ separator ++ separated separator (t :: rest)

theorem separated_cons_cons (separator s t : String) (rest : List String) :
    separated separator (s :: t :: rest) =
      s ++ separator ++ separated separator (t :: rest) := rfl

/-! ### Decimal numbers -/

def decimal (n : Int) : String :=
  if n < 0 then "-" ++ Nat.repr n.natAbs else Nat.repr n.natAbs

def readDecimal (digits : String) : Nat :=
  Nat.ofDigitChars 10 digits.toList 0

theorem readDecimal_decimal (n : Nat) : readDecimal (decimal n) = n := by
  have h : ¬ (n : Int) < 0 := by omega
  rw [decimal, if_neg h, readDecimal, Int.natAbs_natCast, Nat.toList_repr,
    Nat.ofDigitChars_toDigits (by decide) (by decide)]

/-! ### String literals -/

/-- How many characters stand before the quote that closes a string. -/
def closingQuote? : List Char → Option Nat
  | [] => none
  | '"' :: _ => some 0
  | '\\' :: _ :: cs => (closingQuote? cs).map (· + 2)
  | _ :: cs => (closingQuote? cs).map (· + 1)

/-- The content of a string with these characters between its quotes. -/
def unescape : List Char → List Char
  | [] => []
  | ['\\'] => []
  | '\\' :: c :: cs => c :: unescape cs
  | c :: cs => c :: unescape cs

/-- The characters between the quotes of a string with this content. -/
def escape : List Char → List Char
  | [] => []
  | c :: cs => if c = '"' ∨ c = '\\' then '\\' :: c :: escape cs else c :: escape cs

def stringLiteral (s : String) : String :=
  "\"" ++ String.ofList (escape s.toList) ++ "\""

theorem unescape_escape (cs : List Char) : unescape (escape cs) = cs := by
  induction cs with
  | nil => rfl
  | cons c cs ih =>
      rw [escape]
      split
      · rw [unescape, ih]
      · rename_i h
        have hc : c ≠ '\\' := fun e => h (.inr e)
        rw [unescape.eq_4 _ _ (by rintro rfl; exact absurd rfl hc)
          (by rintro _ _ rfl; exact absurd rfl hc), ih]

/-- The quote after written characters is the one that closes the string. -/
theorem closingQuote?_escape (cs rest : List Char) :
    closingQuote? (escape cs ++ '"' :: rest) = some (escape cs).length := by
  induction cs with
  | nil => rfl
  | cons c cs ih =>
      rw [escape]
      split
      · simp [closingQuote?, ih]
      · rename_i h
        have hq : c ≠ '"' := fun e => h (.inl e)
        have hc : c ≠ '\\' := fun e => h (.inr e)
        rw [List.cons_append, closingQuote?.eq_4 _ _ hq (by rintro _ _ rfl; exact absurd rfl hc),
          ih]
        rfl

/-! ### Lines -/

def ofBytes? (bytes : List UInt8) : Option String :=
  String.fromUTF8? ⟨bytes.toArray⟩

def withoutReturn (line : List UInt8) : List UInt8 :=
  if line.getLast? = some 0x0D then line.dropLast else line

def byteLines (bytes : List UInt8) : List (List UInt8) :=
  match _ : bytes.dropWhile (· ≠ 0x0A) with
  | [] => if bytes.isEmpty then [] else [bytes]
  | _ :: rest => withoutReturn (bytes.takeWhile (· ≠ 0x0A)) :: byteLines rest
  termination_by bytes.length
  decreasing_by
    rename_i h
    have := (List.dropWhile_suffix (l := bytes) (· ≠ 0x0A)).length_le
    rw [h, List.length_cons] at this
    omega

/-- The lines of some bytes as texts; none stands for a line that is no text. -/
def lines (bytes : List UInt8) : List (Option String) :=
  (byteLines bytes).map ofBytes?

end ScriptLang.Text
