import GrammarCheck.Symbol.Table

/-! Edits of a symbol table by names. A table is reached by a sequence of edits from the empty one,
and an edit that would break it is refused and changes nothing. -/

namespace GrammarCheck

inductive SymbolEdit where
  /-- A name is used in an alternative. -/
  | mention (name : String) (line : Nat)
  /-- A name is declared as a terminal. -/
  | terminal (name : String) (line : Nat)
  /-- A name is declared as a nonterminal. -/
  | nonterminal (name : String) (line : Nat)
  /-- A nonterminal gets an alternative. -/
  | rule (name : String) (symbols : List String) (line : Nat)
  /-- A nonterminal is defined. -/
  | define (name : String) (line : Nat)
  deriving DecidableEq

inductive Refusal where
  /-- The name is in no symbol of the table. -/
  | unknownName (name : String)
  /-- Only a nonterminal can have alternatives. -/
  | notNonterminal (name : String)
  | conflict (conflict : KindConflict)
  deriving DecidableEq

namespace SymbolTable

/-- The symbol with a given name, which has to be there. -/
def lookup (t : SymbolTable) (name : String) : Except Refusal (SymbolId × Symbol) :=
  match t.find? name with
  | some found => .ok found
  | none => .error (.unknownName name)

/-- The ids of some names, which have to be there. -/
def lookupAll (t : SymbolTable) : List String → Except Refusal (List SymbolId)
  | [] => .ok []
  | name :: names => do
      let (id, _) ← t.lookup name
      let ids ← t.lookupAll names
      return id :: ids

/-- The outcome of an edit for a nonterminal. -/
def ifNonterminal (name : String) (s : Symbol) (outcome : SymbolId × SymbolTable) :
    Except Refusal (SymbolId × SymbolTable) :=
  if s.isNonterminal then .ok outcome else .error (.notNonterminal name)

/-- Makes an edit. Gives the id of the symbol it is about, and the changed table. -/
def edit (t : SymbolTable) : SymbolEdit → Except Refusal (SymbolId × SymbolTable)
  | .mention name line => .ok (t.mention name line)
  | .terminal name line => (t.declareTerminal name line).mapError .conflict
  | .nonterminal name line => (t.declareNonterminal name line).mapError .conflict
  | .rule name symbols line => do
      let (id, s) ← t.lookup name
      let ids ← t.lookupAll symbols
      ifNonterminal name s (id, t.modify id (·.attach ⟨ids, line⟩))
  | .define name line => do
      let (id, s) ← t.lookup name
      ifNonterminal name s (id, t.modify id (·.define line))

end SymbolTable

end GrammarCheck
