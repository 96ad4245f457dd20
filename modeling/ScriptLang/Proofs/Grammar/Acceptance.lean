import ScriptLang.Proofs.Grammar.Completeness

/-!
The parser and its grammar. A text is parsed without an error exactly if its tokens
are the terminals of a derivation, and the program is then the tree of the
derivation. As parsing is a function, this also says that the grammar is
unambiguous.
-/

namespace ScriptLang

/-- A program is read without an error exactly if it is the tree of a derivation whose
levels suffice. -/
theorem parse_eq_iff (source : String) (ss : Program) :
    parse source = (ss, []) ↔
      (∀ e, .error e ∉ scan source) ∧
      ∃ σs, Sentence.yieldAll σs = terminals source ∧ Sentence.AllWellFormed σs ∧
        Sentence.depthAll σs ≤ maxNesting ∧ Sentence.treeAll σs = ss := by
  let p := Parser.ofSource source
  have hparse : parse source = ((p.statements (p.left + 2)).1,
      (p.statements (p.left + 2)).2.errors) := rfl
  constructor
  · intro h
    have hlexical : ∀ e, .error e ∉ scan source := by
      intro e he
      have hnil : (scan source).filterMap Item.error? = [] := by
        rw [← lexicalErrors_parse, h]
        rfl
      exact absurd (List.filterMap_eq_nil_iff.mp hnil _ he) (by simp [Item.error?])
    obtain ⟨hon, herrors⟩ := Parser.on_ofSource hlexical
    rw [hparse] at h
    obtain ⟨htree, hlast⟩ := Prod.mk.inj h
    obtain ⟨σs, hyield, hσs⟩ := hon.allWrite hon.length_lt rfl (hlast.trans herrors.symm)
    exact ⟨hlexical, σs, hyield.symm, hσs.wellFormed, hσs.depth_le, hσs.tree.trans htree⟩
  · rintro ⟨hlexical, σs, hyield, hσs, hdepth, rfl⟩
    obtain ⟨hon, herrors⟩ := Parser.on_ofSource hlexical
    rw [← hyield] at hon
    obtain ⟨htree, hlast⟩ := (hon.statements_eq hσs hon.length_lt rfl).1 hdepth
    rw [hparse]
    exact Prod.ext htree (hlast.trans herrors)

/-- Parsing finds no error in a text exactly if the lexer finds none and the tokens of
the text are derivable, by a derivation that needs no more levels than there are. -/
theorem parse_errors_eq_nil_iff (source : String) :
    (parse source).2 = [] ↔
      (∀ e, .error e ∉ scan source) ∧
      ∃ σs, Sentence.yieldAll σs = terminals source ∧ Sentence.AllWellFormed σs ∧
        Sentence.depthAll σs ≤ maxNesting := by
  constructor
  · intro h
    obtain ⟨hlexical, σs, hyield, hσs, hdepth, -⟩ :=
      (parse_eq_iff source (parse source).1).mp (Prod.ext rfl h)
    exact ⟨hlexical, σs, hyield, hσs, hdepth⟩
  · rintro ⟨hlexical, σs, hyield, hσs, hdepth⟩
    rw [(parse_eq_iff source (Sentence.treeAll σs)).mpr
      ⟨hlexical, σs, hyield, hσs, hdepth, rfl⟩]

/-- Where the tokens of a text are derivable but the levels do not suffice, the parser
says so. -/
theorem tooDeep_parse {source : String} {σs : List Sentence}
    (hlexical : ∀ e, .error e ∉ scan source) (hyield : Sentence.yieldAll σs = terminals source)
    (hσs : Sentence.AllWellFormed σs) (hdepth : maxNesting < Sentence.depthAll σs) :
    TooDeep (parse source).2 := by
  have hon := (Parser.on_ofSource hlexical).1
  rw [← hyield] at hon
  exact (hon.statements_eq hσs hon.length_lt rfl).2 hdepth

end ScriptLang
