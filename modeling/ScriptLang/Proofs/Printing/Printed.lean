import ScriptLang.Proofs.Printing.Canonical
import ScriptLang.Proofs.Printing.Spelling

/-!
The canonical text spells the canonical derivation. What is printed for a part of a
program is followed by the rest of the text, and the rest spells something already;
so each lemma says that the printed text may be put in front of any such rest. An
expression may end in a word or a number, and then the rest has to break it off,
which every character does that the printer puts behind an expression.
-/

namespace ScriptLang

/-! ### Separated texts -/

/-- The texts after a first one, each behind the separator. -/
def Text.following (separator : String) : List String → String
  | [] => ""
  | s :: ss => separator ++ s ++ Text.following separator ss

theorem Text.separated_cons (separator s : String) (ss : List String) :
    Text.separated separator (s :: ss) = s ++ Text.following separator ss := by
  induction ss generalizing s with
  | nil => simp [Text.separated, Text.following]
  | cons t ss ih =>
      rw [Text.separated_cons_cons, ih, Text.following]
      simp only [String.append_assoc]

variable {cs rest : List Char} {ts us : List Terminal}

/-- Behind an element of a list comes a comma or what comes behind the list. -/
theorem breaks_following (ss : List String) (hrest : Breaks rest) :
    Breaks ((Text.following ", " ss).toList ++ rest) := by
  cases ss with
  | nil => simpa [Text.following] using hrest
  | cons s ss =>
      have hchars : (Text.following ", " (s :: ss)).toList ++ rest =
          ',' :: ' ' :: (s.toList ++ ((Text.following ", " ss).toList ++ rest)) := by
        simp [Text.following]
      rw [hchars]
      exact breaks_cons _ rfl

/-! ### Operators and names -/

/-- A unary operator stands right before its operand, which must not turn it into
another operator. -/
theorem spells_unaryOp (op : UnaryOp) (hne : cs.head? ≠ some '=') (h : Spells cs ts) :
    Spells (op.text.toList ++ cs) (.symbol op.kind :: ts) := by
  cases op with
  | not =>
      have hlead : lead '!' cs = (.token .bang, 0) := if_neg hne
      exact spells_symbol hlead rfl h
  | minus => exact spells_symbol (c := '-') rfl rfl h
  | plus => exact spells_symbol (c := '+') rfl rfl h

theorem spells_binaryOp (op : BinaryOp) (h : Spells cs ts) :
    Spells (op.text.toList ++ ' ' :: cs) (.symbol op.kind :: ts) := by
  have h := spells_space h
  cases op with
  | plus => exact spells_symbol (c := '+') rfl rfl h
  | minus => exact spells_symbol (c := '-') rfl rfl h
  | times => exact spells_symbol (c := '*') rfl rfl h
  | divide => exact spells_symbol (c := '/') rfl rfl h
  | less => exact spells_symbol (c := '<') rfl rfl h
  | greater => exact spells_symbol (c := '>') rfl rfl h
  | lessEqual => exact spells_symbol₂ (c := '<') (d := '=') rfl rfl h
  | greaterEqual => exact spells_symbol₂ (c := '>') (d := '=') rfl rfl h
  | equal => exact spells_symbol₂ (c := '=') (d := '=') rfl rfl h
  | notEqual => exact spells_symbol₂ (c := '!') (d := '=') rfl rfl h
  | and => exact spells_symbol₂ (c := '&') (d := '&') rfl rfl h
  | or => exact spells_symbol₂ (c := '|') (d := '|') rfl rfl h

theorem spells_truthText (b : Bool) (hrest : Breaks rest) (h : Spells rest us) :
    Spells ((truthText b).toList ++ rest) (.symbol (truthKind b) :: us) := by
  cases b with
  | true =>
      show Spells ('t' :: (['r', 'u', 'e'] ++ rest)) _
      exact spells_keyword rfl rfl rfl hrest h
  | false =>
      show Spells ('f' :: (['a', 'l', 's', 'e'] ++ rest)) _
      exact spells_keyword rfl rfl rfl hrest h

theorem spells_decimal {n : Int} (hn : 0 ≤ n) (hrest : Breaks rest) (h : Spells rest us) :
    Spells ((Text.decimal n).toList ++ rest) (.int (Text.decimal n) :: us) := by
  have hdecimal : (Text.decimal n).toList = Nat.toDigits 10 n.natAbs := by
    rw [Text.decimal, if_neg (Int.not_lt_of_ge hn), Nat.toList_repr]
  refine spells_int ?_ ?_ hrest h
  · rw [hdecimal]
    exact Nat.toDigits_ne_nil
  · rw [hdecimal]
    exact fun d hd => Nat.isDigit_of_mem_toDigits (by decide) (by decide) hd

theorem spells_moreNames {xs : List String} (hxs : ∀ x ∈ xs, IsName x) (hrest : Breaks rest)
    (h : Spells rest us) :
    Spells ((Text.following ", " xs).toList ++ rest) (yieldMoreNames xs ++ us) := by
  induction xs with
  | nil => simpa [Text.following, yieldMoreNames] using h
  | cons x xs ih =>
      have hchars : (Text.following ", " (x :: xs)).toList ++ rest =
          ',' :: ' ' :: (x.toList ++ ((Text.following ", " xs).toList ++ rest)) := by
        simp [Text.following]
      rw [hchars]
      refine spells_symbol rfl rfl (spells_space ?_)
      exact spells_name (hxs x List.mem_cons_self) (breaks_following xs hrest)
        (ih fun y hy => hxs y (List.mem_cons_of_mem _ hy))

theorem spells_names {xs : List String} (hxs : ∀ x ∈ xs, IsName x) (hrest : Breaks rest)
    (h : Spells rest us) :
    Spells ((Text.separated ", " xs).toList ++ rest) (yieldNames xs ++ us) := by
  cases xs with
  | nil => simpa [Text.separated, yieldNames] using h
  | cons x xs =>
      rw [Text.separated_cons, String.toList_append, List.append_assoc]
      exact spells_name (hxs x List.mem_cons_self) (breaks_following xs hrest)
        (spells_moreNames (fun y hy => hxs y (List.mem_cons_of_mem _ hy)) hrest h)

/-- No phrase begins with an equals sign. -/
theorem head?_ne_equal_of_spells {φ : Phrase} (h : Spells cs (φ.yield ++ us)) :
    cs.head? ≠ some '=' := by
  intro hcs
  obtain ⟨t, ts, hyield, ht⟩ := φ.yield_eq_cons
  obtain ⟨ds, rfl⟩ := List.head?_eq_some_iff.mp hcs
  rw [hyield] at h
  rcases kind_of_spells_equal h with hk | hk
  · rw [hk] at ht
    cases ht
  · rw [hk] at ht
    cases ht

theorem spells_braced {text : String} (h : Spells (text.toList ++ '\x7d' :: rest) ts) :
    Spells ((braced text).toList ++ rest) (.symbol .leftBrace :: ts) := by
  have hchars : (braced text).toList ++ rest =
      '\x7b' :: ' ' :: (text.toList ++ '\x7d' :: rest) := by
    simp [braced]
  rw [hchars]
  exact spells_symbol rfl rfl (spells_space h)

/-! ### Expressions and statements -/

mutual

/-- The text of an expression spells its canonical derivation, before whatever breaks
off its last word. -/
theorem Expr.spells_print : ∀ e : Expr, e.Writable → ∀ {rest us}, Breaks rest →
    Spells rest us → Spells (e.print.toList ++ rest) (e.phrase.yield ++ us)
  | .name x, h, rest, us, hrest, hs => by
    rw [Expr.print]
    exact spells_name h hrest hs
  | .int n, h, rest, us, hrest, hs => by
    rw [Expr.print]
    exact spells_decimal h hrest hs
  | .str s, _, rest, us, _, hs => by
    have hchars : (Expr.str s).print.toList ++ rest =
        '"' :: (Text.escape s.toList ++ '"' :: rest) := by
      simp [Expr.print, Text.stringLiteral]
    rw [hchars]
    exact spells_str s.toList hs
  | .bool b, _, rest, us, hrest, hs => by
    rw [Expr.print]
    exact spells_truthText b hrest hs
  | .unary op e, h, rest, us, _, hs => by
    have hchars : (Expr.unary op e).print.toList ++ rest =
        '(' :: (op.text.toList ++ (e.print.toList ++ ')' :: rest)) := by
      simp [Expr.print]
    have hyield : (Expr.unary op e).phrase.yield ++ us = .symbol .leftParen ::
        .symbol op.kind :: (e.phrase.yield ++ .symbol .rightParen :: us) := by
      simp [Expr.phrase, Phrase.yield]
    rw [hchars, hyield]
    -- An exclamation mark before an equals sign would be another token.
    have hclose : Spells (')' :: rest) (.symbol .rightParen :: us) :=
      spells_symbol rfl rfl hs
    have he := Expr.spells_print e h (breaks_cons rest rfl) hclose
    exact spells_symbol rfl rfl (spells_unaryOp op (head?_ne_equal_of_spells he) he)
  | .binary op l r, h, rest, us, _, hs => by
    have hchars : (Expr.binary op l r).print.toList ++ rest = '(' :: (l.print.toList ++
        ' ' :: (op.text.toList ++ ' ' :: (r.print.toList ++ ')' :: rest))) := by
      simp [Expr.print]
    have hyield : (Expr.binary op l r).phrase.yield ++ us = .symbol .leftParen ::
        (l.phrase.yield ++ .symbol op.kind ::
          (r.phrase.yield ++ .symbol .rightParen :: us)) := by
      simp [Expr.phrase, Phrase.yield]
    rw [hchars, hyield]
    refine spells_symbol rfl rfl (Expr.spells_print l h.1 (breaks_cons _ rfl) ?_)
    refine spells_space (spells_binaryOp op ?_)
    exact Expr.spells_print r h.2 (breaks_cons _ rfl) (spells_symbol rfl rfl hs)
  | .cond c t none, h, rest, us, _, hs => by
    have hchars : (Expr.cond c t none).print.toList ++ rest = 'i' :: (['f'] ++
        ' ' :: (c.print.toList ++ ' ' :: ((braced (Stmt.printAll t)).toList ++ rest))) := by
      simp [Expr.print]
    have hyield : (Expr.cond c t none).phrase.yield ++ us = .symbol .ifWord ::
        (c.phrase.yield ++ .symbol .leftBrace :: (Sentence.yieldAll (Stmt.sentences t) ++
          .symbol .rightBrace :: us)) := by
      simp [Expr.phrase, Phrase.yield, Stmt.sentencesElse, Sentence.yieldElse]
    rw [hchars, hyield]
    refine spells_keyword_space rfl rfl rfl ?_
    refine Expr.spells_print c h.1 (breaks_cons _ rfl) (spells_space ?_)
    exact spells_braced (Stmt.spells_printAll t h.2.1 (spells_symbol rfl rfl hs))
  | .cond c t (some e), h, rest, us, _, hs => by
    have hchars : (Expr.cond c t (some e)).print.toList ++ rest = 'i' :: (['f'] ++
        ' ' :: (c.print.toList ++ ' ' :: ((braced (Stmt.printAll t)).toList ++
          ' ' :: 'e' :: (['l', 's', 'e'] ++ ' ' ::
            ((braced (Stmt.printAll e)).toList ++ rest))))) := by
      simp [Expr.print]
    have hyield : (Expr.cond c t (some e)).phrase.yield ++ us = .symbol .ifWord ::
        (c.phrase.yield ++ .symbol .leftBrace :: (Sentence.yieldAll (Stmt.sentences t) ++
          .symbol .rightBrace :: .symbol .elseWord :: .symbol .leftBrace ::
            (Sentence.yieldAll (Stmt.sentences e) ++ .symbol .rightBrace :: us))) := by
      simp [Expr.phrase, Phrase.yield, Stmt.sentencesElse, Sentence.yieldElse]
    rw [hchars, hyield]
    refine spells_keyword_space rfl rfl rfl ?_
    refine Expr.spells_print c h.1 (breaks_cons _ rfl) (spells_space ?_)
    refine spells_braced (Stmt.spells_printAll t h.2.1 (spells_symbol rfl rfl (spells_space ?_)))
    refine spells_keyword_space rfl rfl rfl ?_
    exact spells_braced (Stmt.spells_printAll e h.2.2 (spells_symbol rfl rfl hs))
  | .func xs b, h, rest, us, _, hs => by
    have hchars : (Expr.func xs b).print.toList ++ rest = 'f' :: (['u', 'n', 'c'] ++
        '(' :: ((Text.separated ", " xs).toList ++ ')' :: ' ' ::
          ((braced (Stmt.printAll b)).toList ++ rest))) := by
      simp [Expr.print]
    have hyield : (Expr.func xs b).phrase.yield ++ us = .symbol .func ::
        .symbol .leftParen :: (yieldNames xs ++ .symbol .rightParen :: .symbol .leftBrace ::
          (Sentence.yieldAll (Stmt.sentences b) ++ .symbol .rightBrace :: us)) := by
      simp [Expr.phrase, Phrase.yield]
    rw [hchars, hyield]
    refine spells_keyword rfl rfl rfl (breaks_cons _ rfl) ?_
    refine spells_symbol rfl rfl (spells_names h.1 (breaks_cons _ rfl) ?_)
    refine spells_symbol rfl rfl (spells_space ?_)
    exact spells_braced (Stmt.spells_printAll b h.2 (spells_symbol rfl rfl hs))
  | .call f es, h, rest, us, _, hs => by
    have hchars : (Expr.call f es).print.toList ++ rest = f.print.toList ++
        '(' :: ((Text.separated ", " (Expr.printEach es)).toList ++ ')' :: rest) := by
      simp [Expr.print]
    have hyield : (Expr.call f es).phrase.yield ++ us = f.phrase.yield ++
        .symbol .leftParen :: (Phrase.yieldEach (Expr.phrases es) ++
          .symbol .rightParen :: us) := by
      simp [Expr.phrase, Phrase.yield]
    rw [hchars, hyield]
    refine Expr.spells_print f h.1 (breaks_cons _ rfl) (spells_symbol rfl rfl ?_)
    exact Expr.spells_printEach es h.2 (breaks_cons _ rfl)
      (spells_symbol rfl rfl hs)
  | .array es, h, rest, us, _, hs => by
    have hchars : (Expr.array es).print.toList ++ rest =
        '[' :: ((Text.separated ", " (Expr.printEach es)).toList ++ ']' :: rest) := by
      simp [Expr.print]
    have hyield : (Expr.array es).phrase.yield ++ us = .symbol .leftBracket ::
        (Phrase.yieldEach (Expr.phrases es) ++ .symbol .rightBracket :: us) := by
      simp [Expr.phrase, Phrase.yield]
    rw [hchars, hyield]
    exact spells_symbol rfl rfl (Expr.spells_printEach es h (breaks_cons _ rfl)
      (spells_symbol rfl rfl hs))
  | .index c i, h, rest, us, _, hs => by
    have hchars : (Expr.index c i).print.toList ++ rest = '(' :: (c.print.toList ++
        '[' :: (i.print.toList ++ ']' :: ')' :: rest)) := by
      simp [Expr.print]
    have hyield : (Expr.index c i).phrase.yield ++ us = .symbol .leftParen ::
        (c.phrase.yield ++ .symbol .leftBracket :: (i.phrase.yield ++
          .symbol .rightBracket :: .symbol .rightParen :: us)) := by
      simp [Expr.phrase, Phrase.yield]
    rw [hchars, hyield]
    refine spells_symbol rfl rfl (Expr.spells_print c h.1 (breaks_cons _ rfl) ?_)
    refine spells_symbol rfl rfl (Expr.spells_print i h.2 (breaks_cons _ rfl) ?_)
    exact spells_symbol rfl rfl (spells_symbol rfl rfl hs)
  | .hash ps, h, rest, us, _, hs => by
    have hchars : (Expr.hash ps).print.toList ++ rest = '\x7b' ::
        ((Text.separated ", " (Expr.printPairs ps)).toList ++ '\x7d' :: rest) := by
      simp [Expr.print]
    have hyield : (Expr.hash ps).phrase.yield ++ us = .symbol .leftBrace ::
        (Phrase.yieldPairs (Expr.phrasePairs ps) ++ .symbol .rightBrace :: us) := by
      simp [Expr.phrase, Phrase.yield]
    rw [hchars, hyield]
    exact spells_symbol rfl rfl (Expr.spells_printPairs ps h
      (breaks_cons _ rfl) (spells_symbol rfl rfl hs))

theorem Expr.spells_printMore : ∀ es : List Expr, Expr.EachWritable es → ∀ {rest us},
    Breaks rest → Spells rest us →
    Spells ((Text.following ", " (Expr.printEach es)).toList ++ rest)
      (Phrase.yieldMore (Expr.phrases es) ++ us)
  | [], _, rest, us, _, hs => by
    simpa [Expr.printEach, Text.following, Expr.phrases, Phrase.yieldMore] using hs
  | e :: es, h, rest, us, hrest, hs => by
    have hchars : (Text.following ", " (Expr.printEach (e :: es))).toList ++ rest =
        ',' :: ' ' :: (e.print.toList ++
          ((Text.following ", " (Expr.printEach es)).toList ++ rest)) := by
      simp [Expr.printEach, Text.following]
    have hyield : Phrase.yieldMore (Expr.phrases (e :: es)) ++ us = .symbol .comma ::
        (e.phrase.yield ++ (Phrase.yieldMore (Expr.phrases es) ++ us)) := by
      simp [Expr.phrases, Phrase.yieldMore]
    rw [hchars, hyield]
    refine spells_symbol rfl rfl (spells_space ?_)
    exact Expr.spells_print e h.1 (breaks_following _ hrest)
      (Expr.spells_printMore es h.2 hrest hs)

theorem Expr.spells_printEach : ∀ es : List Expr, Expr.EachWritable es → ∀ {rest us},
    Breaks rest → Spells rest us →
    Spells ((Text.separated ", " (Expr.printEach es)).toList ++ rest)
      (Phrase.yieldEach (Expr.phrases es) ++ us)
  | [], _, rest, us, _, hs => by
    simpa [Expr.printEach, Text.separated, Expr.phrases, Phrase.yieldEach] using hs
  | e :: es, h, rest, us, hrest, hs => by
    rw [Expr.printEach, Text.separated_cons, String.toList_append, List.append_assoc,
      Expr.phrases, Phrase.yieldEach, List.append_assoc]
    exact Expr.spells_print e h.1 (breaks_following _ hrest)
      (Expr.spells_printMore es h.2 hrest hs)

theorem Expr.spells_printMorePairs : ∀ ps : List (Expr × Expr), Expr.PairsWritable ps →
    ∀ {rest us}, Breaks rest → Spells rest us →
    Spells ((Text.following ", " (Expr.printPairs ps)).toList ++ rest)
      (Phrase.yieldMorePairs (Expr.phrasePairs ps) ++ us)
  | [], _, rest, us, _, hs => by
    simpa [Expr.printPairs, Text.following, Expr.phrasePairs, Phrase.yieldMorePairs] using hs
  | (k, v) :: ps, h, rest, us, hrest, hs => by
    have hchars : (Text.following ", " (Expr.printPairs ((k, v) :: ps))).toList ++ rest =
        ',' :: ' ' :: (k.print.toList ++ ':' :: ' ' :: (v.print.toList ++
          ((Text.following ", " (Expr.printPairs ps)).toList ++ rest))) := by
      simp [Expr.printPairs, Text.following]
    have hyield : Phrase.yieldMorePairs (Expr.phrasePairs ((k, v) :: ps)) ++ us =
        .symbol .comma :: (k.phrase.yield ++ .symbol .colon :: (v.phrase.yield ++
          (Phrase.yieldMorePairs (Expr.phrasePairs ps) ++ us))) := by
      simp [Expr.phrasePairs, Phrase.yieldMorePairs]
    rw [hchars, hyield]
    refine spells_symbol rfl rfl (spells_space ?_)
    refine Expr.spells_print k h.1 (breaks_cons _ rfl) ?_
    refine spells_symbol rfl rfl (spells_space ?_)
    exact Expr.spells_print v h.2.1 (breaks_following _ hrest)
      (Expr.spells_printMorePairs ps h.2.2 hrest hs)

theorem Expr.spells_printPairs : ∀ ps : List (Expr × Expr), Expr.PairsWritable ps →
    ∀ {rest us}, Breaks rest → Spells rest us →
    Spells ((Text.separated ", " (Expr.printPairs ps)).toList ++ rest)
      (Phrase.yieldPairs (Expr.phrasePairs ps) ++ us)
  | [], _, rest, us, _, hs => by
    simpa [Expr.printPairs, Text.separated, Expr.phrasePairs, Phrase.yieldPairs] using hs
  | (k, v) :: ps, h, rest, us, hrest, hs => by
    have hchars : (Text.separated ", " (Expr.printPairs ((k, v) :: ps))).toList ++ rest =
        k.print.toList ++ ':' :: ' ' :: (v.print.toList ++
          ((Text.following ", " (Expr.printPairs ps)).toList ++ rest)) := by
      rw [Expr.printPairs, Text.separated_cons]
      simp
    have hyield : Phrase.yieldPairs (Expr.phrasePairs ((k, v) :: ps)) ++ us =
        k.phrase.yield ++ .symbol .colon :: (v.phrase.yield ++
          (Phrase.yieldMorePairs (Expr.phrasePairs ps) ++ us)) := by
      simp [Expr.phrasePairs, Phrase.yieldPairs]
    rw [hchars, hyield]
    refine Expr.spells_print k h.1 (breaks_cons _ rfl) ?_
    refine spells_symbol rfl rfl (spells_space ?_)
    exact Expr.spells_print v h.2.1 (breaks_following _ hrest)
      (Expr.spells_printMorePairs ps h.2.2 hrest hs)

/-- A statement ends in a semicolon, which nothing can go on with. -/
theorem Stmt.spells_print : ∀ s : Stmt, s.Writable → ∀ {rest us}, Spells rest us →
    Spells (s.print.toList ++ rest) (s.sentence.yield ++ us)
  | .var x e, h, rest, us, hs => by
    have hchars : (Stmt.var x e).print.toList ++ rest = 'v' :: (['a', 'r'] ++ ' ' ::
        (x.toList ++ ' ' :: '=' :: ' ' :: (e.print.toList ++ ';' :: rest))) := by
      simp [Stmt.print]
    have hyield : (Stmt.var x e).sentence.yield ++ us = .symbol .var :: .name x ::
        .symbol .equal :: (e.phrase.yield ++ .symbol .semicolon :: us) := by
      simp [Stmt.sentence, Sentence.yield, ending]
    rw [hchars, hyield]
    refine spells_keyword_space rfl rfl rfl ?_
    refine spells_name h.1 (breaks_cons _ rfl) (spells_space ?_)
    refine spells_symbol rfl rfl (spells_space ?_)
    exact Expr.spells_print e h.2 (breaks_cons _ rfl) (spells_symbol rfl rfl hs)
  | .ret e, h, rest, us, hs => by
    have hchars : (Stmt.ret e).print.toList ++ rest = 'r' :: (['e', 't', 'u', 'r', 'n'] ++
        ' ' :: (e.print.toList ++ ';' :: rest)) := by
      simp [Stmt.print]
    have hyield : (Stmt.ret e).sentence.yield ++ us = .symbol .ret ::
        (e.phrase.yield ++ .symbol .semicolon :: us) := by
      simp [Stmt.sentence, Sentence.yield, ending]
    rw [hchars, hyield]
    refine spells_keyword_space rfl rfl rfl ?_
    exact Expr.spells_print e h (breaks_cons _ rfl) (spells_symbol rfl rfl hs)
  | .expr e, h, rest, us, hs => by
    have hchars : (Stmt.expr e).print.toList ++ rest = e.print.toList ++ ';' :: rest := by
      simp [Stmt.print]
    have hyield : (Stmt.expr e).sentence.yield ++ us =
        e.phrase.yield ++ .symbol .semicolon :: us := by
      simp [Stmt.sentence, Sentence.yield, ending]
    rw [hchars, hyield]
    exact Expr.spells_print e h (breaks_cons _ rfl) (spells_symbol rfl rfl hs)

theorem Stmt.spells_printAll : ∀ ss : List Stmt, Stmt.AllWritable ss → ∀ {rest us},
    Spells rest us →
    Spells ((Stmt.printAll ss).toList ++ rest) (Sentence.yieldAll (Stmt.sentences ss) ++ us)
  | [], _, rest, us, hs => by
    simpa [Stmt.printAll, Stmt.sentences, Sentence.yieldAll] using hs
  | s :: ss, h, rest, us, hs => by
    have hchars : (Stmt.printAll (s :: ss)).toList ++ rest =
        s.print.toList ++ ' ' :: ((Stmt.printAll ss).toList ++ rest) := by
      simp [Stmt.printAll]
    rw [hchars, Stmt.sentences, Sentence.yieldAll, List.append_assoc]
    exact Stmt.spells_print s h.1 (spells_space (Stmt.spells_printAll ss h.2 hs))

end

/-! ### Programs -/

theorem spells_following_print {ss : List Stmt} (h : Stmt.AllWritable ss) :
    Spells (Text.following "\n" (ss.map Stmt.print)).toList
      (Sentence.yieldAll (Stmt.sentences ss)) := by
  induction ss with
  | nil => simpa [Text.following, Stmt.sentences, Sentence.yieldAll] using spells_nil
  | cons s ss ih =>
      have hchars : (Text.following "\n" ((s :: ss).map Stmt.print)).toList = '\n' ::
          (s.print.toList ++ (Text.following "\n" (ss.map Stmt.print)).toList) := by
        simp [Text.following]
      rw [hchars]
      exact spells_newline (Stmt.spells_print s h.1 (ih h.2))

theorem spells_program_print {ss : Program} (h : Stmt.AllWritable ss) :
    Spells (Program.print ss).toList (Sentence.yieldAll (Stmt.sentences ss)) := by
  cases ss with
  | nil => simpa [Program.print, Text.separated, Stmt.sentences, Sentence.yieldAll] using
      spells_nil
  | cons s ss =>
      rw [Program.print, List.map_cons, Text.separated_cons, String.toList_append]
      exact Stmt.spells_print s h.1 (spells_following_print h.2)

end ScriptLang
