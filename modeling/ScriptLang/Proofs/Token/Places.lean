import ScriptLang.Proofs.Token.Tiling

/-!
The places of the items of a source text. Every item, and the end of the input, stands at a
stretch of whole characters of the text (`Span.LiesIn`), and the items come in the order of
their places.
-/

namespace ScriptLang

/-- A span is the place of a stretch of whole characters of a source text. -/
def Span.LiesIn (source : String) (span : Span) : Prop :=
  ∃ before text behind : List Char, source.toList = before ++ (text ++ behind) ∧
    span = ⟨byteLength before, byteLength text⟩

theorem Span.LiesIn.stop_le {source : String} {span : Span} (h : span.LiesIn source) :
    span.stop ≤ byteLength source.toList := by
  obtain ⟨before, text, behind, hsource, rfl⟩ := h
  rw [hsource, byteLength_append, byteLength_append, ← Nat.add_assoc]
  exact Nat.le_add_right _ _

theorem liesIn_of_mem_scan {source : String} {item : Item} (h : item ∈ scan source) :
    item.span.LiesIn source := by
  obtain ⟨n, hn⟩ : ∃ n, (Lexer.start source).items[n]? = some item := List.getElem?_of_mem h
  obtain ⟨gap, text, htakes⟩ := Lexer.takes_after hn
  obtain ⟨before, hsource, hbyte⟩ := Lexer.within_after (Lexer.within_start source) n
  refine ⟨before ++ gap, text, ((Lexer.start source).after (n + 1)).rest, ?_, ?_⟩
  · rw [hsource, htakes.rest_eq, List.append_assoc]
  · rw [htakes.span_eq, hbyte, byteLength_append]

theorem liesIn_endOf (source : String) : (endOf source).span.LiesIn source :=
  ⟨source.toList, [], [], by simp, rfl⟩

theorem le_start_of_mem_itemsFrom {start : Nat} {ps : List Piece} {item : Item}
    (h : item ∈ itemsFrom start ps) : start ≤ item.span.start := by
  induction ps generalizing start with
  | nil => cases h
  | cons p ps ih =>
      have later (h : item ∈ itemsFrom (start + byteLength p.text) ps) :
          start ≤ item.span.start :=
        Nat.le_trans (Nat.le_add_right _ _) (ih h)
      rw [itemsFrom] at h
      split at h
      · rename_i hitem
        rcases List.mem_cons.mp h with rfl | h
        · rw [Piece.span_of_item? hitem]
        · exact later h
      · exact later h

theorem pairwise_start_itemsFrom (start : Nat) (ps : List Piece) :
    (itemsFrom start ps).Pairwise fun a b => a.span.start ≤ b.span.start := by
  induction ps generalizing start with
  | nil => exact .nil
  | cons p ps ih =>
      rw [itemsFrom]
      split
      · rename_i hitem
        refine List.pairwise_cons.mpr ⟨fun b hb => ?_, ih _⟩
        rw [Piece.span_of_item? hitem]
        exact Nat.le_trans (Nat.le_add_right _ _) (le_start_of_mem_itemsFrom hb)
      · exact ih _

end ScriptLang
