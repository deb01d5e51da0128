import GrammarCheck.Proofs.Token.Division

/-! The token in which a character of the text stands. Every character but blank space is in the span
of one, and the lexeme is on the line of the character, since no span goes over a line end. -/

namespace GrammarCheck

/-- The lexeme of the piece in whose span the character behind `before` stands. Lexemes and pieces
go together in order, apart from the blank lines. -/
inductive Covers (division : Division) (lexemes : List Lexeme) : List Char → Lexeme → Prop where
  | intro {earlier later : List Piece} {piece : Piece} {front back : List Char}
      {others next : List Lexeme} {line : Nat} (hPieces : division.pieces = earlier ++ piece :: later)
      (hSpan : piece.span = front ++ back) (hBack : back ≠ [])
      (hLexemes : lexemes = others ++ ⟨piece.token, line⟩ :: next)
      (hOthers : earlier.map (·.token) = (others.map (·.token)).filter (· ≠ .blankLine)) :
      Covers division lexemes (Division.text ⟨earlier, piece.gap ++ front⟩) ⟨piece.token, line⟩

variable {c : Char}

/-- A character of two texts put together stands in the first or in the second. -/
theorem append_eq_append_cons {α : Type} {xs ys before after : List α} {x : α}
    (h : xs ++ ys = before ++ x :: after) :
    (∃ back, xs = before ++ x :: back) ∨ ∃ front, before = xs ++ front ∧ ys = front ++ x :: after := by
  rcases List.append_eq_append_iff.1 h with ⟨front, hBefore, hRest⟩ | ⟨back, hFirst, hRest⟩
  · exact .inr ⟨front, hBefore, hRest⟩
  · cases back with
    | nil => exact .inr ⟨[], by rw [hFirst, List.append_nil, List.append_nil], hRest.symm⟩
    | cons y back =>
        obtain ⟨rfl, -⟩ := List.cons.inj hRest
        exact .inl ⟨back, hFirst⟩

/-- A character in the span of the first piece is covered by its lexeme. -/
theorem Covers.here {piece : Piece} {pieces : List Piece} {last front back : List Char}
    {separator lexemes : List Lexeme} {line : Nat} (hSpan : piece.span = front ++ c :: back)
    (hSeparator : (separator.map (·.token)).filter (· ≠ .blankLine) = []) :
    Covers ⟨piece :: pieces, last⟩ (separator ++ ⟨piece.token, line⟩ :: lexemes)
      (piece.gap ++ front) ⟨piece.token, line⟩ :=
  @Covers.intro ⟨piece :: pieces, last⟩ _ [] pieces piece front (c :: back) separator lexemes line
    rfl hSpan (List.cons_ne_nil c back) rfl hSeparator.symm

/-- A character of a later piece is covered as it is without the first one. -/
theorem Covers.piece {piece : Piece} {pieces : List Piece} {last before : List Char}
    {separator lexemes : List Lexeme} {l : Lexeme} {line : Nat}
    (hSeparator : (separator.map (·.token)).filter (· ≠ .blankLine) = [])
    (hToken : piece.token ≠ .blankLine) (h : Covers ⟨pieces, last⟩ lexemes before l) :
    Covers ⟨piece :: pieces, last⟩ (separator ++ ⟨piece.token, line⟩ :: lexemes)
      (piece.gap ++ (piece.span ++ before)) l := by
  cases h with
  | @intro earlier later found front back others next place hPieces hSpan hBack hLexemes hOthers =>
      have hSplit : separator ++ ⟨piece.token, line⟩ :: lexemes =
          (separator ++ ⟨piece.token, line⟩ :: others) ++ ⟨found.token, place⟩ :: next := by
        rw [hLexemes, List.append_assoc, List.cons_append]
      rw [← Division.text_cons]
      refine .intro (congrArg (piece :: ·) hPieces) hSpan hBack hSplit ?_
      rw [List.map_append, List.filter_append, hSeparator, List.map_cons, hOthers, List.map_cons,
        List.filter_cons_of_pos (by simpa using hToken), List.nil_append]

namespace Divides

variable {above before after : List Char} {division : Division} {lexemes : List Lexeme}

/-- A character that is no blank space is in a token on its line. -/
theorem exists_covers (h : Divides above division lexemes)
    (hText : division.text = before ++ c :: after) (hc : c.isWhitespace = false) :
    ∃ token span rest, token.Spelled span rest ∧ c ∈ span ∧
      Covers division lexemes before ⟨token, lineAfter (above ++ before)⟩ := by
  induction h generalizing before with
  | @last above last separator hGap hSeparator =>
      rw [Division.text_nil] at hText
      have hSpace := hGap.inside c (hText ▸ List.mem_append_right before List.mem_cons_self)
      rw [hc] at hSpace
      cases hSpace
  | @piece above last piece pieces separator lexemes hGap hSeparator hToken later ih =>
      rw [Division.text_cons] at hText
      rcases append_eq_append_cons hText with ⟨back, hBack⟩ | ⟨within, rfl, hWithin⟩
      · have hSpace := hGap.inside c (hBack ▸ List.mem_append_right before List.mem_cons_self)
        rw [hc] at hSpace
        cases hSpace
      · rcases append_eq_append_cons hWithin with ⟨back, hSpan⟩ | ⟨behind, rfl, hBehind⟩
        · -- The character is in the first token, whose line its gap ends.
          have hLine : lineAfter (above ++ (piece.gap ++ within)) = lineAfter (above ++ piece.gap) := by
            have hNone : '\n' ∉ within := fun hMem =>
              hToken.newline_not_mem (hSpan ▸ List.mem_append_left _ hMem)
            rw [← List.append_assoc, lineAfter_append, List.count_eq_zero.2 hNone, Nat.add_zero]
          refine ⟨piece.token, piece.span, _, hToken, ?_, ?_⟩
          · exact hSpan ▸ List.mem_append_right within List.mem_cons_self
          · rw [hLine]
            exact Covers.here hSpan hSeparator.filter_eq_nil
        · obtain ⟨token, span, rest, hSpelled, hMem, hCovers⟩ := ih hBehind
          refine ⟨token, span, rest, hSpelled, hMem, ?_⟩
          simp only [List.append_assoc] at hCovers
          exact hCovers.piece hSeparator.filter_eq_nil hToken.ne_blankLine

end Divides

namespace Token.Spelled

variable {token : Token} {span rest : List Char} {c : Char}

/-- A character that no token needs makes an error of any token in which it stands. -/
theorem error_of_mem (h : Spelled token span rest) (hMem : c ∈ span) (hName : isNameChar c = false)
    (hSign : c ∉ ['|', '-', '>', '%']) :
    token = .error (.unexpectedCharacter c) ∨ token = .error (.brokenArrow (some c)) := by
  have hAlpha := isAlpha_eq_false hName
  simp only [List.mem_cons, List.not_mem_nil, or_false, not_or] at hSign
  cases h with
  | pipe => exact absurd (List.mem_singleton.1 hMem) hSign.1
  | arrow => exact absurd (List.mem_pair.1 hMem) (not_or.2 ⟨hSign.2.1, hSign.2.2.1⟩)
  | loneMinus => exact absurd (List.mem_singleton.1 hMem) hSign.2.1
  | brokenArrow =>
      obtain rfl := (List.mem_pair.1 hMem).resolve_left hSign.2.1
      exact .inr rfl
  | startDirective hWord | tokenDirective hWord | unknownDirective hWord =>
      exact absurd ((List.mem_cons.1 hMem).resolve_left hSign.2.2.2) (hWord.not_mem hAlpha)
  | identifier _ hWord | identifierTooLong _ hWord => exact absurd hMem (hWord.not_mem hName)
  | unexpected =>
      obtain rfl := List.mem_singleton.1 hMem
      exact .inl rfl

end Token.Spelled

end GrammarCheck
