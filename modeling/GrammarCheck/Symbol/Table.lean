import GrammarCheck.Dictionary
import GrammarCheck.Symbol.Basic

/-! The symbols of one grammar in the order of their first use, with an index from names to ids. An
id stays valid for as long as the table grows. -/

namespace GrammarCheck

/-- A name wanted as one kind after it has been settled as the other. -/
structure KindConflict where
  name : String
  existing : SymbolKind
  requested : SymbolKind
  deriving DecidableEq

def KindConflict.message (c : KindConflict) : String :=
  s!"`{c.name}` is already a {c.existing.text} and cannot also be used as a {c.requested.text}"

/-- The symbols by id, and the ids by name. -/
structure SymbolTable where
  symbols : Array Symbol
  index : Dictionary String SymbolId

namespace SymbolTable

def empty : SymbolTable := ⟨#[], Dictionary.empty⟩

/-- Tables are compared by their symbols; the index only finds them. -/
instance : BEq SymbolTable where
  beq a b := a.symbols == b.symbols

def size (t : SymbolTable) : Nat := t.symbols.size

def get? (t : SymbolTable) (name : String) : Option SymbolId := t.index.get? name

def symbol? (t : SymbolTable) (id : SymbolId) : Option Symbol := t.symbols[id.index]?

def find? (t : SymbolTable) (name : String) : Option (SymbolId × Symbol) := do
  let id ← t.get? name
  let s ← t.symbol? id
  return (id, s)

/-- All symbols with their ids, in the order of the ids. -/
def toList (t : SymbolTable) : List (SymbolId × Symbol) :=
  t.symbols.toList.zipIdx.map fun (s, i) => (⟨i⟩, s)

def terminals (t : SymbolTable) : List (SymbolId × Symbol) := t.toList.filter (·.2.isTerminal)

def nonterminals (t : SymbolTable) : List (SymbolId × Symbol) := t.toList.filter (·.2.isNonterminal)

/-- The name of a symbol, empty for an id of no symbol. -/
def name (t : SymbolTable) (id : SymbolId) : String := ((t.symbol? id).map (·.name)).getD ""

def add (t : SymbolTable) (name : String) (line : Nat) (kind : SymbolKind) :
    SymbolId × SymbolTable :=
  let id : SymbolId := ⟨t.size⟩
  (id, ⟨t.symbols.push ⟨name, kind, [], line, none⟩, (t.index.insert name id).2⟩)

def modify (t : SymbolTable) (id : SymbolId) (change : Symbol → Symbol) : SymbolTable :=
  { t with symbols := t.symbols.modify id.index change }

/-- Uses a name in an alternative, which leaves its kind open. -/
def mention (t : SymbolTable) (name : String) (line : Nat) : SymbolId × SymbolTable :=
  match t.get? name with
  | some id => (id, t)
  | none => t.add name line .unresolved

/-- Uses a name as a given kind. The first such use settles the kind of the name, and a later use as
the other kind changes nothing. -/
def settle (t : SymbolTable) (name : String) (line : Nat) (kind : SymbolKind) :
    Except KindConflict (SymbolId × SymbolTable) :=
  match t.find? name with
  | none => .ok (t.add name line kind)
  | some (id, s) =>
      if s.kind = kind then .ok (id, t)
      else if s.kind = .unresolved then .ok (id, t.modify id fun s => { s with kind := kind })
      else .error ⟨name, s.kind, kind⟩

/-- Declares a terminal, which also defines it. -/
def declareTerminal (t : SymbolTable) (name : String) (line : Nat) :
    Except KindConflict (SymbolId × SymbolTable) := do
  let (id, t) ← t.settle name line .terminal
  return (id, t.modify id (·.define line))

/-- Declares a nonterminal, which is not defined before it has a rule. -/
def declareNonterminal (t : SymbolTable) (name : String) (line : Nat) :
    Except KindConflict (SymbolId × SymbolTable) :=
  t.settle name line .nonterminal

end SymbolTable

end GrammarCheck
