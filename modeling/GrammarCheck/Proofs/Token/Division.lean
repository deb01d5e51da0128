import GrammarCheck.Proofs.Token.Gap
import GrammarCheck.Proofs.Token.Spelling

/-! Dividing a text into its tokens and the blank space around them. Every text can be divided in
exactly one way, and its lexemes are those of the division, each on the line where it stands. -/

namespace GrammarCheck

/-- A token with the characters that spell it, and the blank space in front of them. -/
@[ext]
structure Piece where
  gap : List Char
  span : List Char
  token : Token

/-- Some pieces in order, and the blank space behind the last one. -/
structure Division where
  pieces : List Piece
  last : List Char

def Division.text (division : Division) : List Char :=
  division.pieces.flatMap (fun piece => piece.gap ++ piece.span) ++ division.last

/-- The line on which the text behind `above` goes on. -/
def lineAfter (above : List Char) : Nat := above.count '\n' + 1

/-- What is met in a gap behind the text `above`: its first blank line, on the line that the second
of its two newlines ends. In front of the first token there is nothing to separate. -/
inductive Separates (above gap : List Char) : List Lexeme → Prop where
  | nothing (h : above = [] ∨ ¬ HasBlankLine gap) : Separates above gap []
  | blankLine {before : List Char} (hAbove : above ≠ []) (hFirst : FirstBlankLine gap before) :
      Separates above gap [⟨.blankLine, lineAfter (above ++ before)⟩]

/-- The lexemes of a division of what stands behind the text `above`. A gap is as long as it can be,
and a token is spelled with all that comes behind it in view. -/
inductive Divides : (above : List Char) → Division → List Lexeme → Prop where
  | last {above last : List Char} {separator : List Lexeme} (hGap : Run Char.isWhitespace last [])
      (hSeparator : Separates above last separator) : Divides above ⟨[], last⟩ separator
  | piece {above last : List Char} {piece : Piece} {pieces : List Piece}
      {separator lexemes : List Lexeme}
      (hGap : Run Char.isWhitespace piece.gap (piece.span ++ Division.text ⟨pieces, last⟩))
      (hSeparator : Separates above piece.gap separator)
      (hToken : piece.token.Spelled piece.span (Division.text ⟨pieces, last⟩))
      (later : Divides (above ++ piece.gap ++ piece.span) ⟨pieces, last⟩ lexemes) :
      Divides above ⟨piece :: pieces, last⟩
        (separator ++ ⟨piece.token, lineAfter (above ++ piece.gap)⟩ :: lexemes)

/-- A text moves on by as many lines as it has newlines. -/
theorem lineAfter_append (above below : List Char) :
    lineAfter (above ++ below) = lineAfter above + below.count '\n' := by
  simp only [lineAfter, List.count_append]
  omega

theorem Division.text_cons (piece : Piece) (pieces : List Piece) (last : List Char) :
    Division.text ⟨piece :: pieces, last⟩ =
      piece.gap ++ (piece.span ++ Division.text ⟨pieces, last⟩) := by
  simp [Division.text]

theorem Division.text_nil (last : List Char) : Division.text ⟨[], last⟩ = last := rfl

/-- With a token in it a text is not all space. -/
theorem Division.text_cons_ne {piece : Piece} {pieces : List Piece} {last space : List Char}
    (hGap : Run Char.isWhitespace piece.gap (piece.span ++ Division.text ⟨pieces, last⟩))
    (hToken : piece.token.Spelled piece.span (Division.text ⟨pieces, last⟩))
    (hSpace : Run Char.isWhitespace space []) : Division.text ⟨piece :: pieces, last⟩ ≠ space := by
  intro hText
  obtain ⟨c, others, hSpan, -⟩ := hToken.exists_first
  rw [text_cons, ← List.append_nil space] at hText
  have hNil := (hGap.eq_of_append_eq hSpace hText).2
  rw [hSpan] at hNil
  cases hNil

/-- Reading a gap shows what is to be met in it. -/
theorem separates_separator (above cs : List Char) :
    Separates above (cs.takeWhile Char.isWhitespace)
      ((Gap.read (lineAfter above) 0 none cs).separator !above.isEmpty) := by
  unfold Gap.separator
  split
  case h_1 l hBlank =>
    obtain ⟨before, hFirst, rfl⟩ := Gap.blankLine_read_eq_some_iff.1 hBlank
    cases above with
    | nil => exact .nothing (.inl rfl)
    | cons c above =>
        rw [← lineAfter_append]
        exact .blankLine (List.cons_ne_nil c above) hFirst
  case h_2 hNone => exact .nothing (.inr (Gap.blankLine_read_eq_none_iff.1 hNone))

theorem Separates.eq {above gap : List Char} {separator other : List Lexeme}
    (h : Separates above gap separator) (hOther : Separates above gap other) :
    separator = other := by
  cases h with
  | nothing hNone =>
      cases hOther with
      | nothing => rfl
      | @blankLine before hAbove hFirst =>
          exact (hNone.elim hAbove fun hNo => hNo (hasBlankLine_iff.2 ⟨before, hFirst⟩)).elim
  | @blankLine before hAbove hFirst =>
      cases hOther with
      | nothing hNone =>
          exact (hNone.elim hAbove fun hNo => hNo (hasBlankLine_iff.2 ⟨before, hFirst⟩)).elim
      | blankLine _ hOtherFirst => rw [hFirst.eq hOtherFirst]

theorem Separates.filter_eq_nil {above gap : List Char} {separator : List Lexeme}
    (h : Separates above gap separator) :
    (separator.map (·.token)).filter (· ≠ .blankLine) = [] := by
  cases h <;> rfl

namespace Divides

variable {above : List Char} {division : Division} {lexemes : List Lexeme}

/-- The tokens of a division are its lexemes without the blank lines. -/
theorem tokens_eq (h : Divides above division lexemes) :
    division.pieces.map (·.token) = (lexemes.map (·.token)).filter (· ≠ .blankLine) := by
  induction h with
  | last hGap hSeparator => exact hSeparator.filter_eq_nil.symm
  | piece hGap hSeparator hToken later ih =>
      have hNone := hSeparator.filter_eq_nil
      simp only [List.map_append, List.map_cons, List.filter_append] at hNone ih ⊢
      rw [hNone, ih, List.filter_cons_of_pos (by simpa using hToken.ne_blankLine)]
      rfl

/-- The token of every piece is spelled by its span. -/
theorem spelled (h : Divides above division lexemes) :
    ∀ piece ∈ division.pieces, ∃ rest, piece.token.Spelled piece.span rest := by
  induction h with
  | last => simp
  | piece hGap hSeparator hToken later ih => exact List.forall_mem_cons.2 ⟨⟨_, hToken⟩, ih⟩

/-- Reading goes through a division piece by piece. The induction is on the division. -/
theorem readFrom_eq (h : Divides above division lexemes) :
    TokenStream.readFrom (lineAfter above) (!above.isEmpty) division.text =
      ⟨lexemes, lineAfter (above ++ division.text)⟩ := by
  induction h with
  | @last above last separator hGap hSeparator =>
      rw [Division.text_nil]
      have hTake : last.takeWhile Char.isWhitespace = last := by
        simpa using hGap.takeWhile_append
      have hRest : (Gap.read (lineAfter above) 0 none last).rest = [] := by
        rw [Gap.rest_read]
        simpa using hGap.dropWhile_append
      have hShown := separates_separator above last
      rw [hTake] at hShown
      rw [TokenStream.readFrom_of_rest_nil hRest, Gap.endLine_read, hTake, ← lineAfter_append,
        hShown.eq hSeparator]
  | @piece above last piece pieces separator lexemes hGap hSeparator hToken later ih =>
      rw [Division.text_cons]
      generalize Division.text ⟨pieces, last⟩ = rest at hGap hToken ih ⊢
      obtain ⟨c, others, hSpan, -⟩ := hToken.exists_first
      have hShown := separates_separator above (piece.gap ++ (piece.span ++ rest))
      rw [hGap.takeWhile_append] at hShown
      have hEnd : (Gap.read (lineAfter above) 0 none (piece.gap ++ (piece.span ++ rest))).endLine =
          lineAfter (above ++ piece.gap) := by
        rw [Gap.endLine_read, hGap.takeWhile_append, lineAfter_append]
      have hRest : (Gap.read (lineAfter above) 0 none (piece.gap ++ (piece.span ++ rest))).rest =
          c :: (others ++ rest) := by
        rw [Gap.rest_read, hGap.dropWhile_append, hSpan, List.cons_append]
      have hRead : Token.read c (others ++ rest) = (piece.token, rest) :=
        Token.Spelled.read_eq (hSpan ▸ hToken)
      -- A span has no newline, so the token ends on the line where it begins.
      have hLine : lineAfter (above ++ piece.gap ++ piece.span) =
          lineAfter (above ++ piece.gap) := by
        rw [lineAfter_append, List.count_eq_zero.2 hToken.newline_not_mem, Nat.add_zero]
      have hSeen : (!(above ++ piece.gap ++ piece.span).isEmpty) = true := by simp [hSpan]
      rw [hLine, hSeen] at ih
      rw [TokenStream.readFrom_of_rest_cons hRest, hRead, hEnd, hShown.eq hSeparator, ih]
      simp only [List.append_assoc]

/-- A text is divided in one way. -/
theorem eq_of_text_eq {other : Division} {others : List Lexeme} (h : Divides above division lexemes)
    (hOther : Divides above other others) (hText : division.text = other.text) :
    division = other := by
  induction h generalizing other others with
  | @last above last separator hGap hSeparator =>
      rw [Division.text_nil] at hText
      cases hOther with
      | last => rw [hText, Division.text_nil]
      | piece hOtherGap _ hOtherToken =>
          exact absurd hText.symm (Division.text_cons_ne hOtherGap hOtherToken hGap)
  | @piece above last piece pieces separator lexemes hGap hSeparator hToken later ih =>
      cases hOther with
      | last hOtherGap =>
          rw [Division.text_nil] at hText
          exact absurd hText (Division.text_cons_ne hGap hToken hOtherGap)
      | piece hOtherGap _ hOtherToken hOtherLater =>
          rw [Division.text_cons, Division.text_cons] at hText
          obtain ⟨hSameGap, hSameRest⟩ := hGap.eq_of_append_eq hOtherGap hText
          obtain ⟨hSameToken, hSameSpan, hSameText⟩ := hToken.eq_of_append_eq hOtherToken hSameRest
          obtain rfl := Piece.ext hSameGap hSameSpan hSameToken
          obtain ⟨rfl, rfl⟩ := Division.mk.inj (ih hOtherLater hSameText)
          rfl

end Divides

/-- Every text can be divided. The induction is on what is left of it. -/
theorem exists_divides (above text : List Char) :
    ∃ division lexemes, division.text = text ∧ Divides above division lexemes := by
  induction hLength : text.length using Nat.strongRecOn generalizing above text with
  | ind length ih =>
      have hShown := separates_separator above text
      cases hRest : text.dropWhile Char.isWhitespace with
      | nil =>
          obtain ⟨hGap, hSplit⟩ := Run.of_dropWhile hRest
          rw [List.append_nil] at hSplit
          exact ⟨⟨[], _⟩, _, hSplit, .last hGap hShown⟩
      | cons c rest =>
          obtain ⟨hGap, hSplit⟩ := Run.of_dropWhile hRest
          obtain ⟨others, hOthers, hToken⟩ := Token.exists_spelled_read (hGap.ends c rfl) rest
          have hShorter : (Token.read c rest).2.length < length :=
            hLength ▸ Token.length_read_lt hSplit
          obtain ⟨⟨pieces, last⟩, lexemes, hText, hDivides⟩ := ih _ hShorter
            (above ++ text.takeWhile Char.isWhitespace ++ c :: others) _ rfl
          rw [← hText] at hToken hOthers
          rw [hOthers, ← List.cons_append] at hGap
          refine ⟨⟨⟨_, c :: others, _⟩ :: pieces, last⟩, _, ?_, .piece hGap hShown hToken hDivides⟩
          rw [Division.text_cons, List.cons_append, ← hOthers, hSplit]

namespace TokenStream

/-- The tokens that are pulled from a text, and their lines, are those of its one division into
pieces. Behind them comes the end of the text for ever. -/
theorem pull_ofText_exact (text : List Char) :
    ∃ division lexemes,
      (∀ other others, other.text = text ∧ Divides [] other others ↔
        other = division ∧ others = lexemes) ∧
      (∀ piece ∈ division.pieces, piece.span ≠ [] ∧ '\n' ∉ piece.span) ∧
      division.pieces.map (·.token) = (lexemes.map (·.token)).filter (· ≠ .blankLine) ∧
      ∀ n, (ofText text).pull n =
        (lexemes.map fun l => (some l.token, l.line)).take n ++
          List.replicate (n - lexemes.length) (none, lineAfter text) := by
  obtain ⟨division, lexemes, rfl, hDivides⟩ := exists_divides [] text
  refine ⟨division, lexemes, ?_, ?_, hDivides.tokens_eq, ?_⟩
  · intro other others
    constructor
    · rintro ⟨hText, hOther⟩
      obtain rfl := hOther.eq_of_text_eq hDivides hText
      exact ⟨rfl, congrArg TokenStream.lexemes (hOther.readFrom_eq.symm.trans hDivides.readFrom_eq)⟩
    · rintro ⟨rfl, rfl⟩
      exact ⟨rfl, hDivides⟩
  · intro piece hMem
    obtain ⟨rest, hToken⟩ := hDivides.spelled piece hMem
    obtain ⟨c, others, hSpan, -⟩ := hToken.exists_first
    exact ⟨hSpan ▸ List.cons_ne_nil c others, hToken.newline_not_mem⟩
  · intro n
    have hRead : ofText division.text = ⟨lexemes, lineAfter division.text⟩ := hDivides.readFrom_eq
    rw [hRead]
    rfl

end TokenStream

end GrammarCheck
