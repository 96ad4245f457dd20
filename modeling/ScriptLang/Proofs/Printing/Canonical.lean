import ScriptLang.Expr.Printer
import ScriptLang.Proofs.Grammar.Phrase
import ScriptLang.Proofs.Parser.LexicalErrors

/-!
The canonical derivation of a tree. `Expr.phrase` writes an expression in the way
the printer does: operations and indexing stand in parentheses and every sentence
ends in a semicolon, so nothing is left for precedences to decide. `Expr.nesting`
counts the levels that this takes, and `Expr.Writable` says what a tree must not
hold for there to be a text: the grammar has no negative numbers, and a name has to
be a word that is no keyword.
-/

namespace ScriptLang

mutual

/-- How many expressions are under construction at one time when the canonical text of
an expression is read. -/
def Expr.nesting : Expr → Nat
  | .name _ | .int _ | .str _ | .bool _ => 1
  | .unary _ e => 2 + e.nesting
  | .binary _ l r => max (1 + l.nesting) (2 + r.nesting)
  | .cond c t e => 1 + max c.nesting (max (Stmt.nestingAll t) (Stmt.nestingElse e))
  | .func _ b => 1 + Stmt.nestingAll b
  | .call f es => max f.nesting (1 + Expr.nestingEach es)
  | .array es => 1 + Expr.nestingEach es
  | .index c i => max (1 + c.nesting) (2 + i.nesting)
  | .hash ps => 1 + Expr.nestingPairs ps

def Expr.nestingEach : List Expr → Nat
  | [] => 0
  | e :: es => max e.nesting (Expr.nestingEach es)

def Expr.nestingPairs : List (Expr × Expr) → Nat
  | [] => 0
  | (k, v) :: ps => max k.nesting (max v.nesting (Expr.nestingPairs ps))

def Stmt.nesting : Stmt → Nat
  | .var _ e | .ret e | .expr e => e.nesting

def Stmt.nestingAll : List Stmt → Nat
  | [] => 0
  | s :: ss => max s.nesting (Stmt.nestingAll ss)

def Stmt.nestingElse : Option (List Stmt) → Nat
  | none => 0
  | some e => Stmt.nestingAll e

end

mutual

/-- The names in an expression are names and its numbers are not negative. -/
def Expr.Writable : Expr → Prop
  | .name x => IsName x
  | .int n => 0 ≤ n.toInt
  | .str _ | .bool _ => True
  | .unary _ e => e.Writable
  | .binary _ l r => l.Writable ∧ r.Writable
  | .cond c t e => c.Writable ∧ Stmt.AllWritable t ∧ Stmt.ElseWritable e
  | .func xs b => (∀ x ∈ xs, IsName x) ∧ Stmt.AllWritable b
  | .call f es => f.Writable ∧ Expr.EachWritable es
  | .array es => Expr.EachWritable es
  | .index c i => c.Writable ∧ i.Writable
  | .hash ps => Expr.PairsWritable ps

def Expr.EachWritable : List Expr → Prop
  | [] => True
  | e :: es => e.Writable ∧ Expr.EachWritable es

def Expr.PairsWritable : List (Expr × Expr) → Prop
  | [] => True
  | (k, v) :: ps => k.Writable ∧ v.Writable ∧ Expr.PairsWritable ps

def Stmt.Writable : Stmt → Prop
  | .var x e => IsName x ∧ e.Writable
  | .ret e | .expr e => e.Writable

def Stmt.AllWritable : List Stmt → Prop
  | [] => True
  | s :: ss => s.Writable ∧ Stmt.AllWritable ss

def Stmt.ElseWritable : Option (List Stmt) → Prop
  | none => True
  | some e => Stmt.AllWritable e

end

mutual

/-- The canonical derivation of an expression. -/
def Expr.phrase : Expr → Phrase
  | .name x => .name x
  | .int n => .int (Text.decimal n.toInt) n
  | .str s => .str (String.ofList (Text.escape s.toList))
  | .bool b => .bool b
  | .unary op e => .paren (.unary op e.phrase)
  | .binary op l r => .paren (.binary op l.phrase r.phrase)
  | .cond c t e => .cond c.phrase (Stmt.sentences t) (Stmt.sentencesElse e)
  | .func xs b => .func xs (Stmt.sentences b)
  | .call f es => .call f.phrase (Expr.phrases es)
  | .array es => .array (Expr.phrases es)
  | .index c i => .paren (.index c.phrase i.phrase)
  | .hash ps => .hash (Expr.phrasePairs ps)

def Expr.phrases : List Expr → List Phrase
  | [] => []
  | e :: es => e.phrase :: Expr.phrases es

def Expr.phrasePairs : List (Expr × Expr) → List (Phrase × Phrase)
  | [] => []
  | (k, v) :: ps => (k.phrase, v.phrase) :: Expr.phrasePairs ps

def Stmt.sentence : Stmt → Sentence
  | .var x e => .var x e.phrase true
  | .ret e => .ret e.phrase true
  | .expr e => .expr e.phrase true

def Stmt.sentences : List Stmt → List Sentence
  | [] => []
  | s :: ss => s.sentence :: Stmt.sentences ss

def Stmt.sentencesElse : Option (List Stmt) → Option (List Sentence)
  | none => none
  | some e => some (Stmt.sentences e)

end

/-! ### The canonical derivation derives the tree -/

mutual

theorem Expr.tree_phrase : ∀ e : Expr, e.phrase.tree = e
  | .name _ | .int _ | .bool _ => rfl
  | .str s => by
    rw [Expr.phrase, Phrase.tree, String.toList_ofList, Text.unescape_escape,
      String.ofList_toList]
  | .unary op e => by rw [Expr.phrase, Phrase.tree, Phrase.tree, Expr.tree_phrase e]
  | .binary op l r => by
    rw [Expr.phrase, Phrase.tree, Phrase.tree, Expr.tree_phrase l, Expr.tree_phrase r]
  | .cond c t e => by
    rw [Expr.phrase, Phrase.tree, Expr.tree_phrase c, Stmt.treeAll_sentences t,
      Stmt.treeElse_sentences e]
  | .func xs b => by rw [Expr.phrase, Phrase.tree, Stmt.treeAll_sentences b]
  | .call f es => by rw [Expr.phrase, Phrase.tree, Expr.tree_phrase f, Expr.treeEach_phrases es]
  | .array es => by rw [Expr.phrase, Phrase.tree, Expr.treeEach_phrases es]
  | .index c i => by
    rw [Expr.phrase, Phrase.tree, Phrase.tree, Expr.tree_phrase c, Expr.tree_phrase i]
  | .hash ps => by rw [Expr.phrase, Phrase.tree, Expr.treePairs_phrases ps]

theorem Expr.treeEach_phrases : ∀ es : List Expr, Phrase.treeEach (Expr.phrases es) = es
  | [] => rfl
  | e :: es => by rw [Expr.phrases, Phrase.treeEach, Expr.tree_phrase e, Expr.treeEach_phrases es]

theorem Expr.treePairs_phrases :
    ∀ ps : List (Expr × Expr), Phrase.treePairs (Expr.phrasePairs ps) = ps
  | [] => rfl
  | (k, v) :: ps => by
    rw [Expr.phrasePairs, Phrase.treePairs, Expr.tree_phrase k, Expr.tree_phrase v,
      Expr.treePairs_phrases ps]

theorem Stmt.tree_sentence : ∀ s : Stmt, s.sentence.tree = s
  | .var x e => by rw [Stmt.sentence, Sentence.tree, Expr.tree_phrase e]
  | .ret e => by rw [Stmt.sentence, Sentence.tree, Expr.tree_phrase e]
  | .expr e => by rw [Stmt.sentence, Sentence.tree, Expr.tree_phrase e]

theorem Stmt.treeAll_sentences : ∀ ss : List Stmt, Sentence.treeAll (Stmt.sentences ss) = ss
  | [] => rfl
  | s :: ss => by
    rw [Stmt.sentences, Sentence.treeAll, Stmt.tree_sentence s, Stmt.treeAll_sentences ss]

theorem Stmt.treeElse_sentences :
    ∀ e : Option (List Stmt), Sentence.treeElse (Stmt.sentencesElse e) = e
  | none => rfl
  | some e => by rw [Stmt.sentencesElse, Sentence.treeElse, Stmt.treeAll_sentences e]

end

/-! ### Its levels -/

mutual

theorem Expr.depth_phrase : ∀ e : Expr, e.phrase.depth = e.nesting
  | .name _ | .int _ | .str _ | .bool _ => rfl
  | .unary op e => by
    simp only [Expr.phrase, Phrase.depth, Expr.nesting, Expr.depth_phrase e]
    omega
  | .binary op l r => by
    simp only [Expr.phrase, Phrase.depth, Expr.nesting, Expr.depth_phrase l, Expr.depth_phrase r]
    omega
  | .cond c t e => by
    simp only [Expr.phrase, Phrase.depth, Expr.nesting, Expr.depth_phrase c,
      Stmt.depthAll_sentences t, Stmt.depthElse_sentences e]
    omega
  | .func xs b => by
    simp only [Expr.phrase, Phrase.depth, Expr.nesting, Stmt.depthAll_sentences b]
    omega
  | .call f es => by
    simp only [Expr.phrase, Phrase.depth, Expr.nesting, Expr.depth_phrase f,
      Expr.depthEach_phrases es]
    omega
  | .array es => by
    simp only [Expr.phrase, Phrase.depth, Expr.nesting, Expr.depthEach_phrases es]
    omega
  | .index c i => by
    simp only [Expr.phrase, Phrase.depth, Expr.nesting, Expr.depth_phrase c, Expr.depth_phrase i]
    omega
  | .hash ps => by
    simp only [Expr.phrase, Phrase.depth, Expr.nesting, Expr.depthPairs_phrases ps]
    omega

theorem Expr.depthEach_phrases :
    ∀ es : List Expr, Phrase.depthEach (Expr.phrases es) = Expr.nestingEach es
  | [] => rfl
  | e :: es => by
    rw [Expr.phrases, Phrase.depthEach, Expr.depth_phrase e, Expr.depthEach_phrases es,
      Expr.nestingEach]

theorem Expr.depthPairs_phrases : ∀ ps : List (Expr × Expr),
    Phrase.depthPairs (Expr.phrasePairs ps) = Expr.nestingPairs ps
  | [] => rfl
  | (k, v) :: ps => by
    rw [Expr.phrasePairs, Phrase.depthPairs, Expr.depth_phrase k, Expr.depth_phrase v,
      Expr.depthPairs_phrases ps, Expr.nestingPairs]

theorem Stmt.depth_sentence : ∀ s : Stmt, s.sentence.depth = s.nesting
  | .var x e => by rw [Stmt.sentence, Sentence.depth, Expr.depth_phrase e, Stmt.nesting]
  | .ret e => by rw [Stmt.sentence, Sentence.depth, Expr.depth_phrase e, Stmt.nesting]
  | .expr e => by rw [Stmt.sentence, Sentence.depth, Expr.depth_phrase e, Stmt.nesting]

theorem Stmt.depthAll_sentences :
    ∀ ss : List Stmt, Sentence.depthAll (Stmt.sentences ss) = Stmt.nestingAll ss
  | [] => rfl
  | s :: ss => by
    rw [Stmt.sentences, Sentence.depthAll, Stmt.depth_sentence s, Stmt.depthAll_sentences ss,
      Stmt.nestingAll]

theorem Stmt.depthElse_sentences :
    ∀ e : Option (List Stmt), Sentence.depthElse (Stmt.sentencesElse e) = Stmt.nestingElse e
  | none => rfl
  | some e => by
    rw [Stmt.sentencesElse, Sentence.depthElse, Stmt.depthAll_sentences e, Stmt.nestingElse]

end

/-! ### Its conditions -/

/-- Every operation stands in parentheses. -/
theorem Expr.binding_phrase (e : Expr) : e.phrase.binding = .call := by
  cases e <;> rfl

theorem integer?_decimal {n : Int64} (h : 0 ≤ n.toInt) :
    integer? (Text.readDecimal (Text.decimal n.toInt)) = some n := by
  obtain ⟨m, hm⟩ := Int.eq_ofNat_of_zero_le h
  rw [integer?_eq_some_iff, hm, Text.readDecimal_decimal]

mutual

theorem Expr.wellFormed_phrase : ∀ e : Expr, e.Writable → e.phrase.WellFormed
  | .name _, _ | .str _, _ | .bool _, _ => trivial
  | .int _, h => integer?_decimal h
  | .unary op e, h =>
    ⟨(Precedence.le_call _).trans e.binding_phrase.ge, Expr.wellFormed_phrase e h⟩
  | .binary op l r, h => by
    refine ⟨⟨(Precedence.le_call _).trans l.binding_phrase.ge, ?_⟩,
      Expr.wellFormed_phrase l h.1, Expr.wellFormed_phrase r h.2⟩
    rw [r.binding_phrase]
    cases op <;> decide
  | .cond c t e, h =>
    ⟨Expr.wellFormed_phrase c h.1, Stmt.allWellFormed_sentences t h.2.1,
      Stmt.elseWellFormed_sentences e h.2.2⟩
  | .func xs b, h => Stmt.allWellFormed_sentences b h.2
  | .call f es, h =>
    ⟨f.binding_phrase.ge, Expr.wellFormed_phrase f h.1, Expr.eachWellFormed_phrases es h.2⟩
  | .array es, h => Expr.eachWellFormed_phrases es h
  | .index c i, h =>
    ⟨c.binding_phrase.ge, Expr.wellFormed_phrase c h.1, Expr.wellFormed_phrase i h.2⟩
  | .hash ps, h => Expr.pairsWellFormed_phrases ps h

theorem Expr.eachWellFormed_phrases :
    ∀ es : List Expr, Expr.EachWritable es → Phrase.EachWellFormed (Expr.phrases es)
  | [], _ => trivial
  | e :: es, h => ⟨Expr.wellFormed_phrase e h.1, Expr.eachWellFormed_phrases es h.2⟩

theorem Expr.pairsWellFormed_phrases : ∀ ps : List (Expr × Expr), Expr.PairsWritable ps →
    Phrase.PairsWellFormed (Expr.phrasePairs ps)
  | [], _ => trivial
  | (k, v) :: ps, h =>
    ⟨Expr.wellFormed_phrase k h.1, Expr.wellFormed_phrase v h.2.1,
      Expr.pairsWellFormed_phrases ps h.2.2⟩

theorem Stmt.wellFormed_sentence : ∀ s : Stmt, s.Writable → s.sentence.WellFormed
  | .var _ e, h => Expr.wellFormed_phrase e h.2
  | .ret e, h => Expr.wellFormed_phrase e h
  | .expr e, h => Expr.wellFormed_phrase e h

theorem Stmt.allWellFormed_sentences :
    ∀ ss : List Stmt, Stmt.AllWritable ss → Sentence.AllWellFormed (Stmt.sentences ss)
  | [], _ => trivial
  | s :: ss, h =>
    ⟨Stmt.wellFormed_sentence s h.1, .inl (by cases s <;> rfl),
      Stmt.allWellFormed_sentences ss h.2⟩

theorem Stmt.elseWellFormed_sentences : ∀ e : Option (List Stmt), Stmt.ElseWritable e →
    Sentence.ElseWellFormed (Stmt.sentencesElse e)
  | none, _ => trivial
  | some e, h => Stmt.allWellFormed_sentences e h

end

end ScriptLang
