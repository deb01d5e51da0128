import GrammarCheck.Grammar.Reading
import GrammarCheck.Report
import GrammarCheck.Token.Record

/-! What a log says about reading and examining a grammar, as a list of events. The events follow
from the steps of reading and from the ranks found, so keeping a log changes nothing. -/

namespace GrammarCheck.Log

/-- How much an event matters. -/
inductive Level where
  | trace
  | debug
  | info
  deriving DecidableEq

namespace Level

def text : Level → String
  | .trace => "TRACE"
  | .debug => "DEBUG"
  | .info => "INFO"

/-- Higher levels are for what matters more. -/
def height : Level → Nat
  | .trace => 0
  | .debug => 1
  | .info => 2

end Level

inductive Event where
  /-- A token, or the end of the text, comes into view. -/
  | token (found : Option Token) (line : Nat)
  /-- A symbol enters the table. -/
  | newSymbol (id : SymbolId) (symbol : Symbol)
  | startDeclared (name : String)
  | ruleRead (name : String) (alternatives : Nat)
  | terminalsDeclared (count : Nat)
  | conflict (fault : Fault)
  | rejection (defect : Defect)
  | grammarRead (terminals nonterminals : Nat)
  | pass (number proven : Nat)
  | examined (productive nonterminals defects : Nat)

namespace Event

def level : Event → Level
  | .token _ _ => .trace
  | .newSymbol _ _ => .trace
  | .grammarRead _ _ => .info
  | .examined _ _ _ => .info
  | _ => .debug

def text : Event → String
  | .token found line => s!"line {line}: {Token.recordOrEnd found}"
  | .newSymbol id s => s!"interned {s.kind.text} `{s.name}` as SymbolId({id.index})"
  | .startDeclared name => s!"start symbol `{name}`"
  | .ruleRead name alternatives => s!"rule `{name}` with {alternatives} alternatives"
  | .terminalsDeclared count => s!"declared {count} terminals"
  | .conflict fault => fault.message
  | .rejection defect => s!"{defect.location.render}: {defect.cause.message}"
  | .grammarRead terminals nonterminals =>
      s!"parsed {terminals} terminals and {nonterminals} nonterminals"
  | .pass number proven => s!"productivity pass {number}: {proven} nonterminals proven"
  | .examined productive nonterminals defects =>
      s!"{productive} of {nonterminals} nonterminals are productive, {defects} defects"

end Event

/-- A token that comes into view. Blank lines are passed over in silence. -/
def ofToken : Option Token × Nat → List Event
  | (some .blankLine, _) => []
  | (found, line) => [.token found line]

/-- The symbols that a later state of the grammar has beyond an earlier one. -/
def ofTables (before after : Grammar) : List Event :=
  (after.symbols.toList.drop before.symbols.size).map fun (id, s) => .newSymbol id s

/-- What comes of a step that shows the given defects. -/
def outcome : Step → List Defect → List Event
  | .reject _ _, defects => defects.map .rejection
  | _, d :: ds => (d :: ds).map fun d => .conflict d.cause
  | .start x, [] => [.startDeclared x.name]
  | .complete (.rule header alternatives), [] => [.ruleRead header.name alternatives.length]
  | .complete (.terminals names), [] => [.terminalsDeclared names.length]
  | _, [] => []

/-- The events of some steps. A token comes into view two places ahead, so every lexeme left
behind brings on the first of the tokens `ahead`. -/
def ofSteps (g : Grammar) (endLine : Nat) (ahead : List (Option Token × Nat)) :
    List Step → List Event
  | [] => []
  | .shift _ :: steps =>
      ofToken (ahead.headD (none, endLine)) ++ ofSteps g endLine ahead.tail steps
  | step :: steps =>
      let now := g.take endLine step
      ofTables g now.1 ++ outcome step now.2 ++ ofSteps now.1 endLine ahead steps

/-- The events of finding the ranks: a pass for every rank, and one that proves nothing unless
there were passes enough for every nonterminal to have its own. -/
def ofRanking (g : Grammar) (r : Ranking) : List Event :=
  (List.range (min (r.maxRank + 1) g.symbols.nonterminals.length)).map fun i =>
    .pass (i + 1) (r.countAt (i + 1))

def ofReport (g : Grammar) : List Event :=
  let report := g.report
  let nonterminals := g.symbols.nonterminals
  let productive := nonterminals.filter fun (id, _) => report.ranking.isProductive id
  ofRanking g report.ranking ++
    [.examined productive.length nonterminals.length report.defects.length]

/-- The events behind those of reading. Only a grammar without defects is examined. -/
def examination : Except (List Defect) Grammar → List Event
  | .ok g => .grammarRead g.symbols.terminals.length g.symbols.nonterminals.length :: ofReport g
  | .error _ => []

/-- The events of reading a grammar and, if it has no defects, of examining it. -/
def ofStream (file : FileName) (stream : TokenStream) : List Event :=
  (stream.pull 2).flatMap ofToken ++
    ofSteps (.ofFile file) stream.endLine (stream.tokens.drop 2) (Step.ofLexemes stream.lexemes) ++
    examination (Grammar.ofStream file stream)

def atLeast (level : Level) (events : List Event) : List Event :=
  events.filter fun event => level.height ≤ event.level.height

end GrammarCheck.Log
