import ScriptLang.Proofs.Grammar.Acceptance
import ScriptLang.Proofs.Parser.Construction
import ScriptLang.Proofs.Printing.Printed

/-!
Printing and parsing. The canonical text of a program that can be written spells
its canonical derivation, so parsing yields the program again if the levels suffice
for it, and otherwise says that they do not. What the parser itself has built can
always be written, even where it had to leave broken statements out: names are names, no
integer is negative, and what is put together from writable expressions is writable.
-/

namespace ScriptLang

/-! ### What the parser builds -/

theorem Expr.eachWritable_iff {es : List Expr} :
    Expr.EachWritable es ↔ ∀ e ∈ es, e.Writable := by
  induction es with
  | nil => exact ⟨fun _ => nofun, fun _ => trivial⟩
  | cons e es ih => rw [Expr.EachWritable, ih, List.forall_mem_cons]

theorem Expr.pairsWritable_iff {ps : List (Expr × Expr)} :
    Expr.PairsWritable ps ↔ ∀ p ∈ ps, p.1.Writable ∧ p.2.Writable := by
  induction ps with
  | nil => exact ⟨fun _ => nofun, fun _ => trivial⟩
  | cons p ps ih => rw [Expr.PairsWritable, ih, List.forall_mem_cons, and_assoc]

theorem Stmt.writable_of_madeOf {s : Stmt} (h : s.MadeOf Expr.Writable) : s.Writable := by
  cases s with
  | var x e => exact h
  | ret e => exact h
  | expr e => exact h

theorem Stmt.allWritable_of_madeOf {ss : List Stmt} (h : ∀ s ∈ ss, s.MadeOf Expr.Writable) :
    Stmt.AllWritable ss := by
  induction ss with
  | nil => trivial
  | cons s ss ih =>
      obtain ⟨hs, hss⟩ := List.forall_mem_cons.mp h
      exact ⟨writable_of_madeOf hs, ih hss⟩

theorem construction_writable : Parse.Construction Expr.Writable Expr.Writable where
  name hx := hx
  int hn := hn
  str _ := trivial
  bool _ := trivial
  grouped he := he
  unary _ _ he := he
  cond {_ _ a} hc ht ha := by
    refine ⟨hc, Stmt.allWritable_of_madeOf ht, ?_⟩
    cases a with
    | none => trivial
    | some b => exact Stmt.allWritable_of_madeOf (ha b rfl)
  func hxs hb := ⟨hxs, Stmt.allWritable_of_madeOf hb⟩
  array hes := Expr.eachWritable_iff.mpr hes
  hash hps := Expr.pairsWritable_iff.mpr hps
  binary _ _ _ hl hr := ⟨hl, hr⟩
  call hf hes := ⟨hf, Expr.eachWritable_iff.mpr hes⟩
  index hc hi := ⟨hc, hi⟩

/-- What the parser yields for a source text, broken or not, can be written. -/
theorem allWritable_parse (source : String) : Stmt.AllWritable (parse source).1 :=
  Stmt.allWritable_of_madeOf
    (madeOf_parse (P := fun _ => Expr.Writable) (fun _ => construction_writable) source)

/-! ### Reading what was printed -/

/-- A program that can be written is read from its canonical text, if the levels
suffice. -/
theorem parse_print {ss : Program} (h : Stmt.AllWritable ss)
    (hdepth : Stmt.nestingAll ss ≤ maxNesting) : parse (Program.print ss) = (ss, []) := by
  have hspells := spells_program_print h
  refine (parse_eq_iff _ _).mpr ⟨error_not_mem_scan_of_spells hspells, Stmt.sentences ss,
    (terminals_eq_of_spells hspells).symm, Stmt.allWellFormed_sentences ss h, ?_,
    Stmt.treeAll_sentences ss⟩
  rw [Stmt.depthAll_sentences]
  exact hdepth

/-- If they do not suffice, the parser says so. -/
theorem tooDeep_parse_print {ss : Program} (h : Stmt.AllWritable ss)
    (hdepth : maxNesting < Stmt.nestingAll ss) : TooDeep (parse (Program.print ss)).2 := by
  have hspells := spells_program_print h
  refine tooDeep_parse (error_not_mem_scan_of_spells hspells)
    (terminals_eq_of_spells hspells).symm (Stmt.allWellFormed_sentences ss h) ?_
  rw [Stmt.depthAll_sentences]
  exact hdepth

/-- Whatever text it was built from, a program is read from its canonical text exactly
as it is, if its nesting is within the limit, and beyond the limit the parser records
that it is nested too deeply. -/
theorem parse_print_parse (source : String) :
    (Stmt.nestingAll (parse source).1 ≤ maxNesting →
      parse (Program.print (parse source).1) = ((parse source).1, [])) ∧
    (maxNesting < Stmt.nestingAll (parse source).1 →
      ∃ span, .tooDeeplyNested span ∈ (parse (Program.print (parse source).1)).2) :=
  ⟨parse_print (allWritable_parse source), tooDeep_parse_print (allWritable_parse source)⟩

end ScriptLang
