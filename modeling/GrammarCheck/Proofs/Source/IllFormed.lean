import GrammarCheck.Proofs.Grammar.Severity
import GrammarCheck.Proofs.Text.Stretch
import GrammarCheck.Proofs.Token.Place

/-! Files that are not UTF-8. They are refused for what is wrong with their text. What is ill-formed
in them is found in the tokens of the text, on the line where its bytes stand. -/

namespace GrammarCheck

open Text

variable {fault : LexicalFault} {line : Nat} {l : Lexeme} {lexemes : List Lexeme}
  {division : Division} {before after : List Char} {c : Char}

theorem Ident.error_not_mem_lexemes (names : List Ident) :
    ⟨.error fault, line⟩ ∉ names.map Ident.lexeme := by
  intro hMem
  obtain ⟨x, -, hSame⟩ := List.mem_map.1 hMem
  cases hSame

theorem RuleBody.error_not_mem_lexemes (b : RuleBody) : ⟨.error fault, line⟩ ∉ b.lexemes := by
  induction b with
  | last alternative => exact Ident.error_not_mem_lexemes alternative.toList
  | more alternative pipe others ih =>
      simp [lexemes, Ident.error_not_mem_lexemes, ih]

/-- A part of a well-formed text has no error in it. -/
theorem Part.error_not_mem_lexemes (part : Part) : ⟨.error fault, line⟩ ∉ part.lexemes := by
  cases part with
  | blank place => simp [lexemes]
  | start place symbol => simp [lexemes, Ident.lexeme]
  | terminals place names => simp [lexemes, Ident.error_not_mem_lexemes]
  | rule header arrow body => simp [lexemes, Ident.lexeme, RuleBody.error_not_mem_lexemes]

/-- The parts of a text are spelled without errors. -/
theorem Part.not_spell_of_error (hMem : l ∈ lexemes) (hError : l.token = .error fault) :
    ¬ ∃ parts, Part.Spell parts lexemes := by
  rintro ⟨parts, rfl⟩
  obtain ⟨part, -, hPart⟩ := List.mem_flatMap.1 hMem
  obtain ⟨token, line⟩ := l
  obtain rfl : token = .error fault := hError
  exact part.error_not_mem_lexemes hPart

/-- The lexeme that covers a character is one of the text. -/
theorem Covers.mem (h : Covers division lexemes before l) : l ∈ lexemes := by
  cases h with
  | intro _ _ _ hLexemes => exact hLexemes ▸ List.mem_append_right _ List.mem_cons_self

/-- A character that no token needs is in an error on its line. -/
theorem Divides.exists_error (h : Divides [] division lexemes)
    (hText : division.text = before ++ c :: after) (hc : c.isWhitespace = false)
    (hName : isNameChar c = false) (hSign : c ∉ ['|', '-', '>', '%']) :
    ∃ l, Covers division lexemes before l ∧ l.line = lineAfter before ∧
      (l.token = .error (.unexpectedCharacter c) ∨ l.token = .error (.brokenArrow (some c))) := by
  obtain ⟨token, span, rest, hSpelled, hMem, hCovers⟩ := h.exists_covers hText hc
  exact ⟨_, hCovers, rfl, hSpelled.error_of_mem hMem hName hSign⟩

/-- Each stretch that is decoded to the replacement character is in an error, on the line that the
newlines among the bytes before it tell. -/
def ReplacementsInErrors (division : Division) (lexemes : List Lexeme)
    (stretches : List Utf8.Stretch) : Prop :=
  ∀ before s after, stretches = before ++ s :: after → s.char = Utf8.replacement →
    ∃ l, Covers division lexemes (before.map Utf8.Stretch.char) l ∧
      (l.token = .error (.unexpectedCharacter Utf8.replacement) ∨
        l.token = .error (.brokenArrow (some Utf8.replacement))) ∧
      l.line = 1 + (before.flatMap Utf8.Stretch.bytes).count 0x0A

/-- The lines of a text are those of the bytes that it was decoded from. -/
theorem Divides.replacementsInErrors {bytes : List UInt8} {stretches : List Utf8.Stretch}
    (h : Divides [] division lexemes) (hText : division.text = Utf8.decode bytes)
    (hStretches : Utf8.Divides bytes stretches) :
    ReplacementsInErrors division lexemes stretches := by
  rintro before s after rfl hChar
  have hPlace : division.text =
      before.map Utf8.Stretch.char ++ Utf8.replacement :: after.map Utf8.Stretch.char := by
    rw [hText, hStretches.decode_eq, List.map_append, List.map_cons, hChar]
  obtain ⟨l, hCovers, hLine, hToken⟩ :=
    h.exists_error hPlace (by decide) (by decide) (by decide)
  refine ⟨l, hCovers, hToken, ?_⟩
  rw [hLine, lineAfter, hStretches.count_newline, Nat.add_comm]

namespace Grammar

/-- A text with an error is refused, and not as if it could not be read. -/
theorem ofText_of_error (file : FileName) {text : List Char}
    (hMem : l ∈ (TokenStream.ofText text).lexemes) (hError : l.token = .error fault) :
    ∃ defects, ofText file text = .error defects ∧
      ∀ d ∈ defects, ∀ failure, d.cause ≠ .unreadable failure := by
  obtain ⟨defects, hRefused, -⟩ := ofText_of_not_spelled file (Part.not_spell_of_error hMem hError)
  refine ⟨defects, hRefused, fun d hDefect failure hCause => ?_⟩
  rcases (malformed_or_conflict_of_ofText hRefused).2 d hDefect with hMalformed | ⟨c, hConflict⟩
  · rw [hCause] at hMalformed
    exact hMalformed
  · rw [hCause] at hConflict
    cases hConflict

/-- A file that is not UTF-8 is refused for what is wrong with its text. Its bytes are divided in
one way, and what is ill-formed in them is in the errors of the text. -/
theorem ofContent_of_not_isValidUTF8 (file : FileName) {bytes : List UInt8}
    (h : ¬ bytes.toByteArray.IsValidUTF8) :
    (∃ defects, ofContent file (.ok bytes) = .error defects ∧
      ∀ d ∈ defects, ∀ failure, d.cause ≠ .unreadable failure) ∧
    ∃ stretches division, (∀ others, Utf8.Divides bytes others ↔ others = stretches) ∧
      (∃ s ∈ stretches, s.unit = none) ∧
      Utf8.decode bytes = stretches.map Utf8.Stretch.char ∧
      division.text = Utf8.decode bytes ∧
      Divides [] division (TokenStream.ofText (Utf8.decode bytes)).lexemes ∧
      ReplacementsInErrors division (TokenStream.ofText (Utf8.decode bytes)).lexemes stretches := by
  obtain ⟨stretches, hStretches, hUnits⟩ := Utf8.exists_divides bytes
  obtain ⟨division, lexemes, hText, hDivides⟩ := exists_divides [] (Utf8.decode bytes)
  have hRead : TokenStream.ofText (Utf8.decode bytes) = ⟨lexemes, _⟩ :=
    hText ▸ hDivides.readFrom_eq
  have hErrors := hDivides.replacementsInErrors hText hStretches
  have hNone : ∃ s ∈ stretches, s.unit = none := by
    rw [Utf8.isValidUTF8_iff, not_not, hUnits] at h
    exact List.mem_map.1 h
  rw [hRead]
  refine ⟨?_, stretches, division, ?_, hNone, hStretches.decode_eq, hText, hDivides, hErrors⟩
  · obtain ⟨s, hMem, hUnit⟩ := hNone
    obtain ⟨before, after, hSplit⟩ := List.append_of_mem hMem
    have hChar : s.char = Utf8.replacement := congrArg (Option.getD · Utf8.replacement) hUnit
    obtain ⟨l, hCovers, hToken, -⟩ := hErrors before s after hSplit hChar
    have hLexeme : l ∈ (TokenStream.ofText (Utf8.decode bytes)).lexemes := hRead ▸ hCovers.mem
    rcases hToken with hError | hError <;> exact ofText_of_error file hLexeme hError
  · intro others
    constructor
    · exact fun hOther => hOther.eq_of_eq hStretches rfl
    · rintro rfl
      exact hStretches

/-- A rule and below it a minus with an accented letter as other encodings have it. In this one the
byte begins a character that is not finished. -/
def latin : List UInt8 := [0x61, 0x20, 0x2D, 0x3E, 0x20, 0x62, 0x0A, 0x2D, 0xE9]

/-- The accented letter is found, as an error on the second line, and not as a failure to read the
file. -/
theorem ofContent_latin :
    ¬ latin.toByteArray.IsValidUTF8 ∧
      (∃ defects, ofContent ⟨"g"⟩ (.ok latin) = .error defects ∧
        ∀ d ∈ defects, ∀ failure, d.cause ≠ .unreadable failure) ∧
      ∃ stretches division, Utf8.Divides latin stretches ∧ division.text = Utf8.decode latin ∧
        ReplacementsInErrors division (TokenStream.ofText (Utf8.decode latin)).lexemes stretches := by
  have hLatin : ¬ latin.toByteArray.IsValidUTF8 := by
    rw [Utf8.isValidUTF8_iff, not_not]
    decide
  obtain ⟨hRefused, stretches, division, hOnly, -, -, hText, -, hErrors⟩ :=
    ofContent_of_not_isValidUTF8 ⟨"g"⟩ hLatin
  exact ⟨hLatin, hRefused, stretches, division, (hOnly stretches).2 rfl, hText, hErrors⟩

end Grammar

end GrammarCheck
