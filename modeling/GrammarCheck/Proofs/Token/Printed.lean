import GrammarCheck.Proofs.Token.Space
import Mathlib.Data.List.Chain

/-! Tokens that are printed and read again. Blank space ends every token, so tokens printed with a
space between them are read one by one. A space does not run into a blank line either, so as long as
each token shows all that it is made of, what is read is what was printed. -/

namespace GrammarCheck

namespace Token

def Emitted (token : Token) : Prop := ∃ text, token ∈ (TokenStream.ofText text).words

/-- Whether the text of a token shows all of it. Of an identifier that is too long only the beginning
is left, and a control code is not shown at all. -/
def isShown : Token → Bool
  | .error (.identifierTooLong _) => false
  | .error (.unexpectedCharacter c) => !Text.isControl c
  | _ => true

/-- A token as it is written. A blank line has a name in messages only. -/
def print : Token → String
  | .blankLine => "\n\n"
  | token => token.text

theorem print_error (e : LexicalFault) :
    (Token.error e).print = e.text?.getD "invalid input" := rfl

/-- Tokens as they are written, with single spaces between them. -/
def printAll (tokens : List Token) : String := " ".intercalate (tokens.map print)

/-- Tokens that show all that they are made of, in an order in which a text can contain them. -/
structure Printable (tokens : List Token) : Prop where
  emitted : ∀ token ∈ tokens, token.Emitted
  shown : ∀ token ∈ tokens, token.isShown = true
  first : tokens.head? ≠ some .blankLine
  apart : tokens.IsChain fun token next => ¬ (token = .blankLine ∧ next = .blankLine)

/-- A token of a text is spelled in it, unless it is a blank line. -/
theorem Emitted.exists_spelled {token : Token} (h : token.Emitted) (hBlank : token ≠ .blankLine) :
    ∃ span rest, token.Spelled span rest := by
  obtain ⟨text, hMem⟩ := h
  obtain ⟨division, lexemes, rfl, hDivides⟩ := exists_divides [] text
  have hRead : TokenStream.ofText division.text = ⟨lexemes, lineAfter division.text⟩ :=
    hDivides.readFrom_eq
  rw [hRead] at hMem
  have hPiece : token ∈ division.pieces.map (·.token) := by
    rw [hDivides.tokens_eq]
    exact List.mem_filter.2 ⟨hMem, decide_eq_true hBlank⟩
  obtain ⟨piece, hPieces, rfl⟩ := List.mem_map.1 hPiece
  obtain ⟨rest, hToken⟩ := hDivides.spelled piece hPieces
  exact ⟨piece.span, rest, hToken⟩

/-- A word that is cut off at a limit is not a shorter one. -/
theorem take_ne {word other : List Char} (h : word ≠ other) {n : Nat} (hLength : other.length < n) :
    word.take n ≠ other := by
  rintro rfl
  have hAll : word.length ≤ n := by
    rw [List.length_take] at hLength
    omega
  exact h (List.take_of_length_le hAll).symm

/-- A shown token is spelled by its own text. -/
theorem Spelled.print {token : Token} {span rest : List Char} (h : token.Spelled span rest)
    (hShown : token.isShown = true) : token.Spelled token.print.toList [] := by
  have hAlone {p : Char → Bool} {word : List Char} (hRun : Run p word rest) : Run p word [] :=
    ⟨hRun.inside, by simp⟩
  cases h with
  | pipe => exact .pipe
  | arrow => exact .arrow
  | loneMinus => exact .loneMinus (by simp)
  | @brokenArrow c _ hArrow hBlank =>
      have hText : (Token.error (.brokenArrow (some c))).print.toList = ['-', c] :=
        String.toList_ofList
      rw [hText]
      exact .brokenArrow hArrow hBlank
  | startDirective hWord => exact .startDirective (hAlone hWord)
  | tokenDirective hWord => exact .tokenDirective (hAlone hWord)
  | @unknownDirective word _ hWord hStart hToken =>
      have hText : (Token.error (.unknownDirective (String.ofList (word.take 16)))).print.toList =
          '%' :: word.take 16 := by
        rw [print_error, LexicalFault.text?, Option.getD_some, String.toList_append,
          String.toList_ofList, String.toList_ofList]
        rfl
      have hSame : word.take 16 = (word.take 16).take 16 := by rw [List.take_take, Nat.min_self]
      have hRun : Run Char.isAlpha (word.take 16) [] :=
        ⟨fun c hMem => hWord.inside c (List.mem_of_mem_take hMem), by simp⟩
      rw [hText]
      nth_rewrite 1 [hSame]
      exact .unknownDirective hRun (take_ne hStart (by decide)) (take_ne hToken (by decide))
  | @identifier c others _ hFirst hName hLength =>
      have hText : (Token.identifier (String.ofList (c :: others))).print.toList = c :: others :=
        String.toList_ofList
      rw [hText]
      exact .identifier hFirst (hAlone hName) hLength
  | identifierTooLong => cases hShown
  | @unexpected c _ hPipe hMinus hPercent hName hGap =>
      have hControl : Text.isControl c = false := by simpa [isShown] using hShown
      have hText : (Token.error (.unexpectedCharacter c)).print.toList = [c] := by
        rw [print_error, LexicalFault.text?, if_neg (by simp [hControl]), Option.getD_some,
          String.toList_singleton]
      rw [hText]
      exact .unexpected hPipe hMinus hPercent hName hGap

def printRest (tokens : List Token) : List Char := tokens.flatMap fun token => ' ' :: token.print.toList

theorem toList_printAll_cons (token : Token) (tokens : List Token) :
    (printAll (token :: tokens)).toList = token.print.toList ++ printRest tokens := by
  rw [printAll, String.toList_intercalate, List.map_map, List.map_cons]
  induction tokens generalizing token with
  | nil => simp [printRest]
  | cons next tokens ih =>
      rw [List.map_cons, List.intercalate_cons_cons, ih]
      simp [printRest]

/-- In front of printed tokens a shown token is read as it is. -/
theorem Spelled.printRest {token : Token} {span rest : List Char} (h : token.Spelled span rest)
    (hShown : token.isShown = true) (tokens : List Token) :
    token.Spelled token.print.toList (printRest tokens) := by
  cases tokens with
  | nil => exact h.print hShown
  | cons next tokens => exact (h.print hShown).append_space rfl _

/-- What has been printed of a gap behind a token, and what it shows. -/
inductive Gapped : List Char → List Token → Prop where
  | nothing : Gapped [] []
  | blankLine : Gapped [' ', '\n', '\n'] [.blankLine]

end Token

namespace TokenStream

open Token

/-- A gap is left behind, and then a token. -/
theorem exists_words_readFrom {token : Token} {gap span rest : List Char}
    (hGap : ∀ c ∈ gap, c.isWhitespace = true) (hToken : token.Spelled span rest) (line : Nat)
    (seen : Bool) :
    ∃ later, (readFrom line seen (gap ++ (span ++ rest))).words =
      ((Gap.read line 0 none gap).separator seen).map (·.token) ++
        token :: (readFrom later true rest).words := by
  obtain ⟨c, others, rfl, hFirst⟩ := hToken.exists_first
  have hRun : Run Char.isWhitespace gap (c :: others ++ rest) := ⟨hGap, by simpa using hFirst⟩
  have hRead := Gap.read_run line hRun
  have hRest : (Gap.read line 0 none (gap ++ (c :: others ++ rest))).rest = c :: (others ++ rest) := by
    rw [hRead]
    rfl
  refine ⟨(Gap.read line 0 none gap).endLine, ?_⟩
  rw [readFrom_of_rest_cons hRest, hRead, hToken.read_eq, words, List.map_append, List.map_cons]
  rfl

/-- Printed tokens are read from behind the token before them. The induction is on the tokens; a
blank line waits in the gap until the next token or the end shows it. -/
theorem words_readFrom_printRest {gap : List Char} {blanks tokens : List Token}
    (hGap : Gapped gap blanks)
    (hSpelled : ∀ token ∈ tokens, token ≠ .blankLine →
      token.isShown = true ∧ ∃ span rest, token.Spelled span rest)
    (hApart : (blanks ++ tokens).IsChain fun token next =>
      ¬ (token = .blankLine ∧ next = .blankLine)) (line : Nat) :
    (readFrom line true (gap ++ printRest tokens)).words = blanks ++ tokens := by
  induction tokens generalizing gap blanks line with
  | nil =>
      rw [printRest, List.flatMap_nil, List.append_nil, List.append_nil]
      cases hGap with
      | nothing =>
          rw [readFrom_of_rest_nil rfl]
          rfl
      | blankLine =>
          rw [readFrom_of_rest_nil rfl]
          rfl
  | cons token tokens ih =>
      obtain ⟨hToken, hTokens⟩ := List.forall_mem_cons.1 hSpelled
      have hPrinted : gap ++ printRest (token :: tokens) =
          gap ++ [' '] ++ (token.print.toList ++ printRest tokens) := by simp [printRest]
      by_cases hBlank : token = .blankLine
      · subst hBlank
        cases hGap with
        | nothing =>
            exact ih .blankLine hTokens hApart line
        | blankLine =>
            exact absurd ⟨rfl, rfl⟩ (List.isChain_cons_cons.1 hApart).1
      · obtain ⟨hShown, span, rest, hSpan⟩ := hToken hBlank
        have hSpace : ∀ c ∈ gap ++ [' '], c.isWhitespace = true := by
          cases hGap <;> simp [Char.isWhitespace]
        have hSeparator : ((Gap.read line 0 none (gap ++ [' '])).separator true).map (·.token) =
            blanks := by
          cases hGap <;> rfl
        obtain ⟨later, hWords⟩ :=
          exists_words_readFrom hSpace (hSpan.printRest hShown tokens) line true
        have hRest : (readFrom later true (printRest tokens)).words = tokens :=
          ih .nothing hTokens (List.isChain_append.1 hApart).2.1.tail later
        rw [hPrinted, hWords, hSeparator, hRest]

theorem map_fst_toEnd_eq_words (stream : TokenStream) :
    stream.toEnd.map Prod.fst = stream.words.map some ++ [none] := by
  simp [toEnd, tokens, words]

/-- Tokens that can be printed are what is read when they are printed, and nothing else. -/
theorem ofText_printAll {tokens : List Token} (h : Printable tokens) :
    (ofText (printAll tokens).toList).toEnd.map Prod.fst = tokens.map some ++ [none] := by
  rw [map_fst_toEnd_eq_words]
  congr 2
  cases tokens with
  | nil =>
      rw [ofText, readFrom_of_rest_nil rfl]
      rfl
  | cons token tokens =>
      obtain ⟨hShown, hOthers⟩ := List.forall_mem_cons.1 h.shown
      obtain ⟨hEmitted, hTokens⟩ := List.forall_mem_cons.1 h.emitted
      have hBlank : token ≠ .blankLine := fun hEq => h.first (hEq ▸ rfl)
      obtain ⟨span, rest, hSpan⟩ := hEmitted.exists_spelled hBlank
      obtain ⟨later, hWords⟩ :=
        exists_words_readFrom (List.forall_mem_nil _) (hSpan.printRest hShown tokens) 1 false
      have hRest : (readFrom later true (Token.printRest tokens)).words = tokens :=
        words_readFrom_printRest .nothing
          (fun other hMem hOther => ⟨hOthers other hMem, (hTokens other hMem).exists_spelled hOther⟩)
          h.apart.tail later
      rw [toList_printAll_cons]
      rw [hRest] at hWords
      exact hWords

/-- Some of each kind of token: a rule, a blank line, and what is no token. -/
def assorted : List Token :=
  [.identifier "s", .arrow, .error (.brokenArrow (some 'x')), .pipe, .blankLine, .startDirective,
    .error (.unknownDirective "end"), .error (.brokenArrow none),
    .error (.unexpectedCharacter '7'), .tokenDirective, .blankLine]

theorem ofText_printAll_assorted :
    Printable assorted ∧
      (ofText (printAll assorted).toList).toEnd.map Prod.fst = assorted.map some ++ [none] := by
  have hWords : (ofText "s->-x|\n\n%start%end-\r7%token\n\n".toList).words = assorted := by
    decide +kernel
  have hPrintable : Printable assorted := by
    refine ⟨fun token hMem => ⟨_, hWords ▸ hMem⟩, by decide, by decide, by decide⟩
  exact ⟨hPrintable, ofText_printAll hPrintable⟩

end TokenStream

end GrammarCheck
