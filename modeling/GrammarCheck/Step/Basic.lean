import GrammarCheck.Construct

/-! The steps in which a grammar text is read. -/

namespace GrammarCheck

/-- What a rejected construct was waiting for. -/
inductive Expectation where
  | construct
  | arrow
  | symbol
  | ruleEnd
  | terminalAfterDirective
  | terminal
  | startAfterDirective
  | startEnd
  deriving DecidableEq

def Expectation.text : Expectation → String
  | .construct => "a rule or a directive"
  | .arrow => "`->`"
  | .symbol => "a symbol"
  | .ruleEnd => "`|` or the end of the rule"
  | .terminalAfterDirective => "a terminal name after `%token`"
  | .terminal => "a terminal name"
  | .startAfterDirective => "a start symbol after `%start`"
  | .startEnd => "the end of the `%start` directive"

inductive Step where
  /-- The next lexeme is left behind. -/
  | shift (lexeme : Lexeme)
  /-- A name is used in an alternative. -/
  | mention (name : Ident)
  /-- A name heads a rule. -/
  | header (name : Ident)
  /-- A name is declared by `%token`. -/
  | terminal (name : Ident)
  /-- A name is declared by `%start`. -/
  | start (name : Ident)
  /-- A construct has ended as it should. -/
  | complete (construct : Construct)
  /-- The construct cannot go on with the lexeme that was found, `none` being the end of the
  text. -/
  | reject (expected : Expectation) (found : Option Lexeme)
  deriving DecidableEq

end GrammarCheck
