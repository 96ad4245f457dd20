import Mathlib.Data.List.TakeWhile
import ScriptLang.Text.Basic
import ScriptLang.Value.Key

/-!
Texts joined by line feeds are the lines of the joined text. In UTF-8 a byte below 128
never is a part of a longer character, so the line feeds among the bytes are those of the
text, and so is a carriage return at the end of a line.
-/

namespace ScriptLang.Text

/-- A text that is read as one line: it is not empty, so that it is a line also where no
line feed follows, it has no line feed in it, and no carriage return at its end. -/
structure IsLine (t : String) : Prop where
  ne_empty : t ≠ ""
  noLineFeed : '\n' ∉ t.toList
  noReturn : t.toList.getLast? ≠ some '\r'

/-! ### Bytes of characters -/

/-- A byte below 128 is a whole character. -/
theorem eq_singleton_of_mem_utf8EncodeChar {c : Char} {b : UInt8}
    (hb : b ∈ String.utf8EncodeChar c) (hsmall : b.toNat < 128) :
    String.utf8EncodeChar c = [b] ∧ c.toNat = b.toNat := by
  unfold String.utf8EncodeChar at *
  have hnat (n : Nat) : (UInt8.ofNat n).toNat = n % 256 := UInt8.toNat_ofNat'
  have hc : c.toNat = c.val.toNat := rfl
  dsimp only at *
  split at hb
  · cases List.mem_singleton.mp hb
    rw [if_pos (by assumption), hnat]
    exact ⟨rfl, by omega⟩
  · -- Every byte of a longer character has its highest bit set.
    exfalso
    split at hb
    · simp only [List.mem_cons, List.not_mem_nil, or_false] at hb
      rcases hb with rfl | rfl <;> rw [hnat] at hsmall <;> omega
    · split at hb <;> simp only [List.mem_cons, List.not_mem_nil, or_false] at hb
      · rcases hb with rfl | rfl | rfl <;> rw [hnat] at hsmall <;> omega
      · rcases hb with rfl | rfl | rfl | rfl <;> rw [hnat] at hsmall <;> omega

theorem eq_of_mem_utf8EncodeChar {c d : Char} {b : UInt8} (hb : b ∈ String.utf8EncodeChar c)
    (hd : d.toNat = b.toNat) (hsmall : b.toNat < 128) : c = d := by
  have hc := (eq_singleton_of_mem_utf8EncodeChar hb hsmall).2
  exact Char.toNat_inj.mp (hc.trans hd.symm)

theorem utf8EncodeChar_ne_nil (c : Char) : String.utf8EncodeChar c ≠ [] := by
  rw [← List.length_pos_iff, String.length_utf8EncodeChar]
  exact c.utf8Size_pos

theorem utf8Bytes_eq_flatMap (t : String) :
    utf8Bytes t = t.toList.flatMap String.utf8EncodeChar := by
  rw [utf8Bytes, String.toUTF8_eq_toByteArray, ← String.utf8Encode_toList, List.utf8Encode,
    List.data_toByteArray]

theorem utf8Bytes_append (t u : String) : utf8Bytes (t ++ u) = utf8Bytes t ++ utf8Bytes u := by
  simp only [utf8Bytes_eq_flatMap, String.toList_append, List.flatMap_append]

theorem ofBytes?_utf8Bytes (t : String) : ofBytes? (utf8Bytes t) = some t := by
  unfold ofBytes? utf8Bytes String.fromUTF8?
  rw [Array.toArray_toList, String.toUTF8_eq_toByteArray, dif_pos t.isValidUTF8]
  rfl

namespace IsLine

variable {t : String}

theorem not_mem_utf8Bytes (h : IsLine t) : 0x0A ∉ utf8Bytes t := by
  rw [utf8Bytes_eq_flatMap]
  intro hmem
  obtain ⟨c, hc, hb⟩ := List.mem_flatMap.mp hmem
  have hfeed : c = '\n' := eq_of_mem_utf8EncodeChar hb rfl (by decide)
  exact h.noLineFeed (hfeed ▸ hc)

theorem exists_last (h : IsLine t) :
    ∃ bytes c, utf8Bytes t = bytes ++ String.utf8EncodeChar c ∧ t.toList.getLast? = some c := by
  have hne : t.toList ≠ [] := fun hnil => h.ne_empty (String.toList_eq_nil_iff.mp hnil)
  refine ⟨t.toList.dropLast.flatMap String.utf8EncodeChar, t.toList.getLast hne, ?_,
    List.getLast?_eq_some_getLast hne⟩
  rw [utf8Bytes_eq_flatMap, ← List.flatMap_singleton String.utf8EncodeChar,
    ← List.flatMap_append, List.dropLast_concat_getLast hne]

theorem utf8Bytes_ne_nil (h : IsLine t) : utf8Bytes t ≠ [] := by
  obtain ⟨bytes, c, hbytes, -⟩ := h.exists_last
  rw [hbytes]
  exact List.append_ne_nil_of_right_ne_nil _ (utf8EncodeChar_ne_nil c)

theorem withoutReturn_utf8Bytes (h : IsLine t) : withoutReturn (utf8Bytes t) = utf8Bytes t := by
  obtain ⟨bytes, c, hbytes, hlast⟩ := h.exists_last
  refine if_neg fun hreturn => h.noReturn ?_
  rw [hbytes, List.getLast?_append, List.getLast?_eq_some_getLast (utf8EncodeChar_ne_nil c)]
    at hreturn
  have hbyte : (String.utf8EncodeChar c).getLast (utf8EncodeChar_ne_nil c) = 0x0D :=
    Option.some.inj hreturn
  have hc : c = '\r' :=
    eq_of_mem_utf8EncodeChar (hbyte ▸ List.getLast_mem _) rfl (by decide)
  rw [hlast, hc]

end IsLine

/-! ### Lines -/

variable {bytes : List UInt8}

theorem byteLines_nil : byteLines [] = [] := by
  rw [byteLines]
  rfl

theorem byteLines_of_not_mem (h : 0x0A ∉ bytes) (hne : bytes ≠ []) : byteLines bytes = [bytes] := by
  have hdrop : bytes.dropWhile (· ≠ 0x0A) = [] :=
    List.dropWhile_eq_nil_iff.mpr fun b hb => decide_eq_true fun hfeed => h (hfeed ▸ hb)
  rw [byteLines]
  split
  · exact if_neg (by simpa using hne)
  · rename_i hcons
    rw [hdrop] at hcons
    cases hcons

theorem byteLines_append (h : 0x0A ∉ bytes) (rest : List UInt8) :
    byteLines (bytes ++ 0x0A :: rest) = withoutReturn bytes :: byteLines rest := by
  have hall : ∀ b ∈ bytes, decide (b ≠ 0x0A) = true :=
    fun b hb => decide_eq_true fun hfeed => h (hfeed ▸ hb)
  have hdrop : (bytes ++ 0x0A :: rest).dropWhile (· ≠ 0x0A) = 0x0A :: rest := by
    rw [List.dropWhile_append_of_pos hall]
    rfl
  have htake : (bytes ++ 0x0A :: rest).takeWhile (· ≠ 0x0A) = bytes := by
    rw [List.takeWhile_append_of_pos hall]
    exact List.append_nil bytes
  rw [byteLines]
  split
  · rename_i hnil
    rw [hdrop] at hnil
    cases hnil
  · rename_i hcons
    rw [hdrop] at hcons
    cases hcons
    rw [htake]

/-- Texts that are joined by line feeds are the lines again. -/
theorem lines_separated {ts : List String} (h : ∀ t ∈ ts, IsLine t) :
    lines (utf8Bytes (separated "\n" ts)) = ts.map some := by
  have hbytes : byteLines (utf8Bytes (separated "\n" ts)) = ts.map utf8Bytes := by
    induction ts with
    | nil => exact byteLines_nil
    | cons t ts ih =>
        obtain ⟨ht, hts⟩ := List.forall_mem_cons.mp h
        cases ts with
        | nil => exact byteLines_of_not_mem ht.not_mem_utf8Bytes ht.utf8Bytes_ne_nil
        | cons u us =>
            have hfeed : utf8Bytes "\n" = [0x0A] := rfl
            rw [separated_cons_cons, utf8Bytes_append, utf8Bytes_append, hfeed,
              List.append_assoc, List.singleton_append,
              byteLines_append ht.not_mem_utf8Bytes, ht.withoutReturn_utf8Bytes, ih hts]
            rfl
  rw [lines, hbytes, List.map_map]
  exact List.map_congr_left fun t _ => ofBytes?_utf8Bytes t

end ScriptLang.Text
