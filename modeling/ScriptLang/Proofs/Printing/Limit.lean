import ScriptLang.Proofs.Printing.RoundTrip

/-!
Formatting and the nesting limit. The canonical text of a program puts parentheses
around every operation, and each pair of them takes a level of its own, so a text
that is accepted can have a canonical text that is not. What decides is the nesting of
the program, and this is less than twice the height of its trees: every program whose
trees are at most half as high as the limit can be formatted and read again.
-/

namespace ScriptLang

mutual

/-- How many expressions lie inside one another in an expression, itself included. -/
def Expr.height : Expr → Nat
  | .name _ | .int _ | .str _ | .bool _ => 1
  | .unary _ e => 1 + e.height
  | .binary _ l r => 1 + max l.height r.height
  | .cond c t e => 1 + max c.height (max (Stmt.heightAll t) (Stmt.heightElse e))
  | .func _ b => 1 + Stmt.heightAll b
  | .call f es => 1 + max f.height (Expr.heightEach es)
  | .array es => 1 + Expr.heightEach es
  | .index c i => 1 + max c.height i.height
  | .hash ps => 1 + Expr.heightPairs ps

def Expr.heightEach : List Expr → Nat
  | [] => 0
  | e :: es => max e.height (Expr.heightEach es)

def Expr.heightPairs : List (Expr × Expr) → Nat
  | [] => 0
  | (k, v) :: ps => max k.height (max v.height (Expr.heightPairs ps))

def Stmt.height : Stmt → Nat
  | .var _ e | .ret e | .expr e => e.height

def Stmt.heightAll : List Stmt → Nat
  | [] => 0
  | s :: ss => max s.height (Stmt.heightAll ss)

def Stmt.heightElse : Option (List Stmt) → Nat
  | none => 0
  | some e => Stmt.heightAll e

end

mutual

/-- The canonical text takes less than two levels for every level of the tree: the
parentheses around an operation, and what stands inside them. -/
theorem Expr.nesting_lt : ∀ e : Expr, e.nesting < 2 * e.height
  | .name _ | .int _ | .str _ | .bool _ => Nat.lt_succ_self 1
  | .unary _ e => by
    have := Expr.nesting_lt e
    simp only [Expr.nesting, Expr.height]
    omega
  | .binary _ l r => by
    have := Expr.nesting_lt l
    have := Expr.nesting_lt r
    simp only [Expr.nesting, Expr.height]
    omega
  | .cond c t e => by
    have := Expr.nesting_lt c
    have := Stmt.nestingAll_le t
    have := Stmt.nestingElse_le e
    simp only [Expr.nesting, Expr.height]
    omega
  | .func _ b => by
    have := Stmt.nestingAll_le b
    simp only [Expr.nesting, Expr.height]
    omega
  | .call f es => by
    have := Expr.nesting_lt f
    have := Expr.nestingEach_le es
    simp only [Expr.nesting, Expr.height]
    omega
  | .array es => by
    have := Expr.nestingEach_le es
    simp only [Expr.nesting, Expr.height]
    omega
  | .index c i => by
    have := Expr.nesting_lt c
    have := Expr.nesting_lt i
    simp only [Expr.nesting, Expr.height]
    omega
  | .hash ps => by
    have := Expr.nestingPairs_le ps
    simp only [Expr.nesting, Expr.height]
    omega

theorem Expr.nestingEach_le : ∀ es : List Expr, Expr.nestingEach es ≤ 2 * Expr.heightEach es
  | [] => Nat.le_refl _
  | e :: es => by
    have := Expr.nesting_lt e
    have := Expr.nestingEach_le es
    simp only [Expr.nestingEach, Expr.heightEach]
    omega

theorem Expr.nestingPairs_le :
    ∀ ps : List (Expr × Expr), Expr.nestingPairs ps ≤ 2 * Expr.heightPairs ps
  | [] => Nat.le_refl _
  | (k, v) :: ps => by
    have := Expr.nesting_lt k
    have := Expr.nesting_lt v
    have := Expr.nestingPairs_le ps
    simp only [Expr.nestingPairs, Expr.heightPairs]
    omega

theorem Stmt.nesting_lt : ∀ s : Stmt, s.nesting < 2 * s.height
  | .var _ e | .ret e | .expr e => Expr.nesting_lt e

theorem Stmt.nestingAll_le : ∀ ss : List Stmt, Stmt.nestingAll ss ≤ 2 * Stmt.heightAll ss
  | [] => Nat.le_refl _
  | s :: ss => by
    have := Stmt.nesting_lt s
    have := Stmt.nestingAll_le ss
    simp only [Stmt.nestingAll, Stmt.heightAll]
    omega

theorem Stmt.nestingElse_le :
    ∀ e : Option (List Stmt), Stmt.nestingElse e ≤ 2 * Stmt.heightElse e
  | none => Nat.le_refl _
  | some e => Stmt.nestingAll_le e

end

/-- Of a program that can be written, the canonical text is accepted exactly if it is
within the nesting limit. -/
theorem errors_parse_print_eq_nil_iff {p : Program} (h : Stmt.AllWritable p) :
    (parse (Program.print p)).2 = [] ↔ Stmt.nestingAll p ≤ maxNesting := by
  constructor
  · refine fun haccepted => Nat.le_of_not_lt fun hdeep => ?_
    obtain ⟨span, hspan⟩ := tooDeep_parse_print h hdeep
    rw [haccepted] at hspan
    cases hspan
  · intro hdepth
    rw [parse_print h hdepth]

/-! ### Signs before a number -/

/-- A number behind a row of minus signs, as it is written. -/
def signedOne (n : Nat) : Phrase := (List.replicate n UnaryOp.minus).foldr .unary (.int "1" 1)

theorem signedOne_succ (n : Nat) : signedOne (n + 1) = .unary .minus (signedOne n) := rfl

theorem spells_signedOne (n : Nat) :
    Spells (List.replicate n '-' ++ ['1']) (signedOne n).yield := by
  induction n with
  | zero =>
      have hne : "1".toList ≠ [] := by decide
      have hdigits : ∀ d ∈ "1".toList, d.isDigit = true := by simp
      exact spells_int hne hdigits (show Breaks [] from nofun) spells_nil
  | succ n ih => exact spells_symbol rfl rfl ih

theorem tree_signedOne (n : Nat) :
    (signedOne n).tree = (List.replicate n UnaryOp.minus).foldr .unary (.int 1) := by
  induction n with
  | zero => rfl
  | succ n ih =>
      rw [signedOne_succ, Phrase.tree, ih]
      rfl

theorem wellFormed_signedOne (n : Nat) :
    .unary ≤ (signedOne n).binding ∧ (signedOne n).WellFormed := by
  induction n with
  | zero =>
      have hone : integer? (Text.readDecimal "1") = some 1 := by decide
      exact ⟨by decide, hone⟩
  | succ n ih => exact ⟨Nat.le_refl _, ih⟩

theorem depth_signedOne (n : Nat) : (signedOne n).depth = n + 1 := by
  induction n with
  | zero => rfl
  | succ n ih => rw [signedOne_succ, Phrase.depth, ih]

/-- A text may begin with as many signs as there are levels below the first. -/
theorem parse_signs {n : Nat} (h : n < maxNesting) :
    parse (String.ofList (List.replicate n '-' ++ ['1'])) =
      ([.expr ((List.replicate n UnaryOp.minus).foldr .unary (.int 1))], []) := by
  have hspells : Spells (String.ofList (List.replicate n '-' ++ ['1'])).toList
      (signedOne n).yield := by
    rw [String.toList_ofList]
    exact spells_signedOne n
  refine (parse_eq_iff _ _).mpr ⟨error_not_mem_scan_of_spells hspells,
    [.expr (signedOne n) false], ?_, ?_, ?_, ?_⟩
  · rw [terminals_eq_of_spells hspells]
    simp [Sentence.yieldAll, Sentence.yield, ending]
  · exact ⟨(wellFormed_signedOne n).2, .inr nofun, trivial⟩
  · simp only [Sentence.depthAll, Sentence.depth, depth_signedOne]
    omega
  · rw [← tree_signedOne]
    rfl

/-! ### Accepted programs -/

/-- The canonical text of an accepted program is accepted exactly if its nesting is
within the limit. Then it stands for the same program, and formatting it once more
changes nothing. Programs whose trees are at most half as high as the limit are always
within it. -/
theorem format_accepted_iff {source : String} {p : Program} (h : parse source = (p, [])) :
    ((parse (Program.print p)).2 = [] ↔ Stmt.nestingAll p ≤ maxNesting) ∧
      ((parse (Program.print p)).2 = [] → (parse (Program.print p)).1 = p ∧
        Program.print (parse (Program.print p)).1 = Program.print p) ∧
      (2 * Stmt.heightAll p ≤ maxNesting → parse (Program.print p) = (p, [])) := by
  have hp : Stmt.AllWritable p := by
    rw [show p = (parse source).1 by rw [h]]
    exact allWritable_parse source
  refine ⟨errors_parse_print_eq_nil_iff hp, fun haccepted => ?_, fun hheight => ?_⟩
  · have hsame := parse_print hp ((errors_parse_print_eq_nil_iff hp).mp haccepted)
    exact ⟨congrArg Prod.fst hsame, by rw [hsame]⟩
  · exact parse_print hp (Nat.le_trans (Stmt.nestingAll_le p) hheight)

/-- Sixty-four signs before a number are accepted, but their canonical text is not: it
takes two levels for every sign. -/
theorem format_signs_rejected :
    parse (String.ofList (List.replicate 64 '-' ++ ['1'])) =
        ([.expr ((List.replicate 64 UnaryOp.minus).foldr .unary (.int 1))], []) ∧
      (parse (Program.print
        [.expr ((List.replicate 64 UnaryOp.minus).foldr .unary (.int 1))])).2 ≠ [] := by
  have hparse := parse_signs (n := 64) (by decide)
  refine ⟨hparse, fun haccepted => ?_⟩
  have hdepth := (format_accepted_iff hparse).1.mp haccepted
  exact absurd hdepth (by decide)

end ScriptLang
