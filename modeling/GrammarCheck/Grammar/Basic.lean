import GrammarCheck.Location
import GrammarCheck.Symbol.Edit

/-! Grammars: a symbol table together with the start symbol. -/

namespace GrammarCheck

/-- A `%start` directive that names another symbol than the first one did. -/
structure ExtraStart where
  symbol : SymbolId
  line : Nat
  deriving DecidableEq

/-- A grammar, with the file it was read from for the diagnostics about it. -/
structure Grammar where
  file : FileName
  symbols : SymbolTable
  start : Option SymbolId
  startLine : Nat
  extraStarts : List ExtraStart
  deriving BEq

inductive GrammarEdit where
  | symbols (edit : SymbolEdit)
  /-- A known name is declared as the start symbol. -/
  | start (name : String) (line : Nat)
  deriving DecidableEq

namespace Grammar

/-- The grammar of a file of which nothing has been read. -/
def ofFile (file : FileName) : Grammar := ⟨file, .empty, none, 0, []⟩

def place (g : Grammar) (line : Nat) : Location := ⟨g.file, line⟩

/-- Declares the start symbol. The first declaration counts; another symbol is kept as an extra one,
and the same symbol again says nothing new. -/
def declareStart (g : Grammar) (id : SymbolId) (line : Nat) : Grammar :=
  match g.start with
  | none => { g with start := some id, startLine := line }
  | some start =>
      if start = id then g else { g with extraStarts := g.extraStarts ++ [⟨id, line⟩] }

/-- Makes an edit. Gives the id of the symbol it is about, and the changed grammar. -/
def edit (g : Grammar) : GrammarEdit → Except Refusal (SymbolId × Grammar)
  | .symbols e => do
      let (id, symbols) ← g.symbols.edit e
      return (id, { g with symbols })
  | .start name line => do
      let (id, _) ← g.symbols.lookup name
      return (id, g.declareStart id line)

/-- Makes edits one after the other, up to the first that is refused. -/
def editAll (g : Grammar) : List GrammarEdit → Except Refusal Grammar
  | [] => .ok g
  | e :: es => do
      let (_, g) ← g.edit e
      g.editAll es

end Grammar

end GrammarCheck
