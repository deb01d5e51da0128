import GrammarCheck.Proofs.Token.Division

/-! The lines of the tokens of a text. They never go back, and none comes before the line of what it
separates or behind the line on which the text ends. -/

namespace GrammarCheck

/-- Lines between two others, none of them before the one in front of it. -/
def Ascending (first : Nat) (lines : List Nat) (last : Nat) : Prop :=
  List.IsChain (· ≤ ·) (first :: (lines ++ [last]))

namespace Ascending

variable {first last : Nat} {lines : List Nat}

theorem nil_iff : Ascending first [] last ↔ first ≤ last := by
  simp [Ascending]

theorem cons_iff {line : Nat} :
    Ascending first (line :: lines) last ↔ first ≤ line ∧ Ascending line lines last :=
  List.isChain_cons_cons

theorem of_le (h : Ascending first lines last) {earlier : Nat} (hLe : earlier ≤ first) :
    Ascending earlier lines last := by
  cases lines with
  | nil => exact nil_iff.2 (Nat.le_trans hLe (nil_iff.1 h))
  | cons line lines =>
      obtain ⟨hLine, hLines⟩ := cons_iff.1 h
      exact cons_iff.2 ⟨Nat.le_trans hLe hLine, hLines⟩

/-- Lines that ascend up to a line go on with lines that ascend from it. -/
theorem append {middle : Nat} {others : List Nat} (h : Ascending first lines middle)
    (hOthers : Ascending middle others last) : Ascending first (lines ++ others) last := by
  induction lines generalizing first with
  | nil => exact hOthers.of_le (nil_iff.1 h)
  | cons line lines ih =>
      obtain ⟨hLine, hLines⟩ := cons_iff.1 h
      exact cons_iff.2 ⟨hLine, ih hLines⟩

theorem pairwise (h : Ascending first lines last) : (lines ++ [last]).Pairwise (· ≤ ·) :=
  (List.isChain_iff_pairwise.1 h).of_cons

end Ascending

theorem lineAfter_le_append (above below : List Char) :
    lineAfter above ≤ lineAfter (above ++ below) := by
  rw [lineAfter_append]
  omega

/-- The blank line in a gap is no further up than the gap begins, nor further down than it ends. -/
theorem Separates.ascending {above gap : List Char} {separator : List Lexeme}
    (h : Separates above gap separator) :
    Ascending (lineAfter above) (separator.map (·.line)) (lineAfter (above ++ gap)) := by
  cases h with
  | nothing => exact Ascending.nil_iff.2 (lineAfter_le_append above gap)
  | @blankLine before hAbove hFirst =>
      obtain ⟨below, rfl⟩ := hFirst.ends
      rw [← List.append_assoc]
      exact Ascending.cons_iff.2 ⟨lineAfter_le_append above before,
        Ascending.nil_iff.2 (lineAfter_le_append _ _)⟩

/-- Piece by piece, the lines go down with the text. -/
theorem Divides.ascending {above : List Char} {division : Division} {lexemes : List Lexeme}
    (h : Divides above division lexemes) :
    Ascending (lineAfter above) (lexemes.map (·.line)) (lineAfter (above ++ division.text)) := by
  induction h with
  | last hGap hSeparator => exact hSeparator.ascending
  | @piece above last piece pieces separator lexemes hGap hSeparator hToken later ih =>
      rw [Division.text_cons, List.map_append, List.map_cons]
      simp only [List.append_assoc] at ih
      apply hSeparator.ascending.append
      apply Ascending.cons_iff.2 ⟨Nat.le_refl _, ?_⟩
      apply ih.of_le
      rw [← List.append_assoc]
      exact lineAfter_le_append _ _

namespace TokenStream

/-- The tokens of a text stand on lines that never go back. -/
theorem pairwise_lines_ofText (text : List Char) :
    ((ofText text).lexemes.map (·.line) ++ [(ofText text).endLine]).Pairwise (· ≤ ·) := by
  obtain ⟨division, lexemes, rfl, hDivides⟩ := exists_divides [] text
  have hRead : ofText division.text = ⟨lexemes, lineAfter division.text⟩ := hDivides.readFrom_eq
  rw [hRead]
  exact hDivides.ascending.pairwise

end TokenStream

end GrammarCheck
