import GrammarCheck.Text.Blank
import GrammarCheck.Text.Quoted

/-! The tokens of a grammar text, and the character sequences that make none. -/

namespace GrammarCheck

/-- The longest identifier that a grammar may use. -/
def maxIdentifier : Nat := 50

/-- How much of the word of an unknown directive is kept. -/
def maxDirective : Nat := 16

inductive LexicalFault where
  /-- A minus without the arrow head, with the character read in its place. Blank space is not read,
  since it may end a line. -/
  | brokenArrow (found : Option Char)
  /-- A percent sign with a word that names no directive. -/
  | unknownDirective (word : String)
  /-- An identifier beyond `maxIdentifier`, as far as that limit. -/
  | identifierTooLong (start : String)
  /-- A character that begins no token. -/
  | unexpectedCharacter (char : Char)
  deriving DecidableEq

namespace LexicalFault

/-- The characters that were read, unless they cannot be shown. -/
def text? : LexicalFault → Option String
  | .brokenArrow none => some "-"
  | .brokenArrow (some c) => some (String.ofList ['-', c])
  | .unknownDirective word => some ("%" ++ word)
  | .identifierTooLong start => some start
  | .unexpectedCharacter c => if Text.isControl c then none else some (String.singleton c)

def message : LexicalFault → String
  | .brokenArrow none => "expected `->`, found `-`"
  | .brokenArrow (some c) => s!"expected `->`, found `-{c}`"
  | .unknownDirective word => s!"unknown directive `%{word}`"
  | .identifierTooLong start =>
      s!"identifier `{start}...` is longer than {maxIdentifier} characters"
  | .unexpectedCharacter c => "unexpected character " ++ Text.quotedChar c

end LexicalFault

/-- A token. The end of the text is not one of them: where it can be met, it is a missing token. -/
inductive Token where
  | startDirective
  | tokenDirective
  | arrow
  | pipe
  | identifier (name : String)
  /-- A blank line, or several of them in a row. -/
  | blankLine
  | error (error : LexicalFault)
  deriving DecidableEq

namespace Token

def text : Token → String
  | .startDirective => "%start"
  | .tokenDirective => "%token"
  | .arrow => "->"
  | .pipe => "|"
  | .identifier name => name
  | .blankLine => "double newline"
  | .error e => e.text?.getD "invalid input"

def textOrEnd : Option Token → String
  | some token => token.text
  | none => "End of file"

end Token

/-- A token with the line it stands on. -/
structure Lexeme where
  token : Token
  line : Nat
  deriving DecidableEq

/-- All tokens of a text, and the line on which the text ends. -/
structure TokenStream where
  lexemes : List Lexeme
  endLine : Nat
  deriving DecidableEq

end GrammarCheck
