import GrammarCheck.Token.Basic

/-! Cutting a text into tokens. Blank space separates tokens and is otherwise dropped, except that a
blank line after the first token is a token of its own. -/

namespace GrammarCheck

/-- The blank space at the front of a text: the line after it, the line of the first blank line in
it, and the text that follows. -/
structure Gap where
  endLine : Nat
  blankLine : Option Nat
  rest : List Char

/-- Reads the blank space from a given line on. `newlines` counts the newlines since the last space
or tab, and a second one makes a blank line; a carriage return changes nothing. -/
def Gap.read (line newlines : Nat) (blankLine : Option Nat) : List Char → Gap
  | '\n' :: cs =>
      let blankLine := if newlines = 1 then blankLine.or (some line) else blankLine
      Gap.read (line + 1) (newlines + 1) blankLine cs
  | ' ' :: cs => Gap.read line 0 blankLine cs
  | '\t' :: cs => Gap.read line 0 blankLine cs
  | '\r' :: cs => Gap.read line newlines blankLine cs
  | cs => ⟨line, blankLine, cs⟩

theorem Gap.length_rest_le (line newlines : Nat) (blankLine : Option Nat) (cs : List Char) :
    (Gap.read line newlines blankLine cs).rest.length ≤ cs.length := by
  fun_induction Gap.read line newlines blankLine cs <;> simp only [List.length_cons] <;> omega

/-- Whether a character can begin an identifier. Only ASCII letters and the underscore can. -/
def isNameStart (c : Char) : Bool := c.isAlpha || c == '_'

def isNameChar (c : Char) : Bool := c.isAlphanum || c == '_'

namespace Token

/-- What follows a minus: the head of an arrow, or something else in its place. -/
def readArrow : List Char → Token × List Char
  | [] => (.error (.brokenArrow none), [])
  | c :: cs =>
      if c = '>' then (.arrow, cs)
      else if Text.isBlank c then (.error (.brokenArrow none), c :: cs)
      else (.error (.brokenArrow (some c)), cs)

def ofDirective (word : List Char) : Token :=
  if word = "start".toList then .startDirective
  else if word = "token".toList then .tokenDirective
  else .error (.unknownDirective (String.ofList (word.take maxDirective)))

def ofName (name : List Char) : Token :=
  if name.length ≤ maxIdentifier then .identifier (String.ofList name)
  else .error (.identifierTooLong (String.ofList (name.take maxIdentifier)))

/-- The token that begins with `c`, and the text after it. -/
def read (c : Char) (cs : List Char) : Token × List Char :=
  if c = '|' then (.pipe, cs)
  else if c = '-' then readArrow cs
  else if c = '%' then (ofDirective (cs.takeWhile Char.isAlpha), cs.dropWhile Char.isAlpha)
  else if isNameStart c then (ofName (c :: cs.takeWhile isNameChar), cs.dropWhile isNameChar)
  else (.error (.unexpectedCharacter c), cs)

theorem length_readArrow_le (cs : List Char) : (readArrow cs).2.length ≤ cs.length := by
  unfold readArrow
  split
  · simp
  · split
    · simp
    · split <;> simp

/-- Reading a token leaves no more than there was behind its first character. -/
theorem length_read_le (c : Char) (cs : List Char) : (read c cs).2.length ≤ cs.length := by
  unfold read
  have hDrop (p : Char → Bool) : (cs.dropWhile p).length ≤ cs.length :=
    (List.dropWhile_suffix p).length_le
  split
  · exact Nat.le_refl _
  · split
    · exact length_readArrow_le cs
    · split
      · exact hDrop _
      · split
        · exact hDrop _
        · exact Nat.le_refl _

end Token

namespace TokenStream

/-- The lexemes from a given line on. `seen` says whether a token came before, since blank lines in
front of the first one separate nothing. -/
def readFrom (line : Nat) (seen : Bool) (cs : List Char) : TokenStream :=
  let gap := Gap.read line 0 none cs
  let blank := match gap.blankLine with
    | some l => if seen then [⟨.blankLine, l⟩] else []
    | none => []
  match _hRest : gap.rest with
  | [] => ⟨blank, gap.endLine⟩
  | c :: rest =>
      let after := readFrom gap.endLine true (Token.read c rest).2
      ⟨blank ++ ⟨(Token.read c rest).1, gap.endLine⟩ :: after.lexemes, after.endLine⟩
termination_by cs.length
decreasing_by
  have hGap := Gap.length_rest_le line 0 none cs
  have hRead := Token.length_read_le c rest
  have hLength := congrArg List.length _hRest
  simp only [List.length_cons, gap] at hLength
  omega

def ofText (text : List Char) : TokenStream := readFrom 1 false text

/-- The tokens with their lines, each as it is met when the text can also end. -/
def tokens (stream : TokenStream) : List (Option Token × Nat) :=
  stream.lexemes.map fun lexeme => (some lexeme.token, lexeme.line)

/-- The first `n` tokens, with the end of the text as often as it takes to have `n` of them. -/
def pull (stream : TokenStream) (n : Nat) : List (Option Token × Nat) :=
  stream.tokens.take n ++ List.replicate (n - stream.lexemes.length) (none, stream.endLine)

/-- All tokens and then, once, the end of the text. -/
def toEnd (stream : TokenStream) : List (Option Token × Nat) :=
  stream.tokens ++ [(none, stream.endLine)]

end TokenStream

end GrammarCheck
