import GrammarCheck.FileSystem
import GrammarCheck.Location
import GrammarCheck.Step.Basic
import GrammarCheck.Symbol.Table

/-! What can be wrong with a grammar. -/

namespace GrammarCheck

/-- What is wrong, without the place. -/
inductive Fault where
  /-- Characters that make no token. -/
  | lexical (error : LexicalFault)
  /-- A token where a construct cannot have it. -/
  | unexpected (expected : Expectation) (found : Option Token)
  /-- A name that is both a terminal and a nonterminal. -/
  | conflict (conflict : KindConflict)
  /-- Two different start symbols. -/
  | duplicateStart (first second : String)
  | missingStart
  | startUndefined (name : String)
  | undefinedSymbol (name : String)
  /-- A nonterminal from which no derivation ever ends. -/
  | unproductive (name : String)
  /-- There was no text to begin with. -/
  | unreadable (failure : ReadFailure)
  deriving DecidableEq

namespace Fault

/-- The fault of a lexeme that cannot be where it is. A character sequence that is no token is wrong
anywhere, whatever was expected. -/
def ofFound (expected : Expectation) : Option Token → Fault
  | some (.error e) => .lexical e
  | found => .unexpected expected found

def message : Fault → String
  | .lexical e => e.message
  | .unexpected expected found => s!"expected {expected.text}, found {Token.textOrEnd found}"
  | .conflict c => c.message
  | .duplicateStart first second =>
      s!"start symbol is already `{first}`, cannot also declare `{second}`"
  | .missingStart => "no start symbol declared, add a `%start` directive"
  | .startUndefined name => s!"start symbol `{name}` is never defined by a rule"
  | .undefinedSymbol name =>
      s!"`{name}` is used but never declared with `%token` or defined by a rule"
  | .unproductive name => s!"`{name}` can never derive a string of terminals"
  | .unreadable failure => s!"file error: {failure.message}"

/-- Whether the fault leaves no grammar that could be examined further. -/
def isFatal : Fault → Bool
  | .lexical _ => true
  | .unexpected _ _ => true
  | .conflict _ => true
  | .unreadable _ => true
  | _ => false

end Fault

/-- A fault in its place. -/
abbrev Defect := Diagnostic Fault

def Defect.render (d : Defect) : String := Diagnostic.render Fault.message d

end GrammarCheck
