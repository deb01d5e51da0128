import GrammarCheck.Token.Basic

/-! Tokens as a log shows them: by the kind of token, with every text between quotes. -/

namespace GrammarCheck

namespace LexicalFault

def kind : LexicalFault → String
  | .brokenArrow _ => "BrokenArrow"
  | .unknownDirective _ => "UnknownDirective"
  | .identifierTooLong _ => "IdentifierTooLong"
  | .unexpectedCharacter _ => "UnexpectedCharacter"

/-- The characters of a fault between quotes. A single one is quoted as such. -/
def quoted : LexicalFault → String
  | .brokenArrow found => Text.quotedText (String.ofList ('-' :: found.toList))
  | .unknownDirective word => Text.quotedText word
  | .identifierTooLong start => Text.quotedText start
  | .unexpectedCharacter c => Text.quotedChar c

def record (e : LexicalFault) : String := s!"{e.kind}({e.quoted})"

end LexicalFault

def Token.record : Token → String
  | .startDirective => "StartDirective"
  | .tokenDirective => "TokenDirective"
  | .arrow => "Arrow"
  | .pipe => "Pipe"
  | .identifier name => s!"Identifier({Text.quotedText name})"
  | .blankLine => "BlankLine"
  | .error e => s!"Error({e.record})"

def Token.recordOrEnd : Option Token → String
  | some token => token.record
  | none => "EndOfFile"

end GrammarCheck
