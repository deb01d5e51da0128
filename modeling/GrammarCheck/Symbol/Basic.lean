/-! Symbols of a grammar. Rules name symbols by their ids, so a symbol can be used before it is
known what it is. -/

namespace GrammarCheck

inductive SymbolKind where
  | terminal
  | nonterminal
  /-- Only seen in alternatives so far. -/
  | unresolved
  deriving DecidableEq

def SymbolKind.text : SymbolKind → String
  | .terminal => "terminal"
  | .nonterminal => "nonterminal"
  | .unresolved => "unresolved symbol"

/-- The place of a symbol in its table. -/
structure SymbolId where
  index : Nat
  deriving DecidableEq

/-- One alternative of a nonterminal, written at some line. -/
structure Rule where
  symbols : List SymbolId
  line : Nat
  deriving DecidableEq

/-- A symbol: its name, its kind, its alternatives in the order in which they were attached, the
line of its first use, and the line that defines it, if one does. -/
structure Symbol where
  name : String
  kind : SymbolKind
  rules : List Rule
  firstSeen : Nat
  definedAt : Option Nat
  deriving DecidableEq

namespace Symbol

def isDefined (s : Symbol) : Bool := s.definedAt.isSome

def isTerminal (s : Symbol) : Bool := s.kind = .terminal

def isNonterminal (s : Symbol) : Bool := s.kind = .nonterminal

/-- The symbol with a line that defines it. The first such line stays. -/
def define (s : Symbol) (line : Nat) : Symbol :=
  { s with definedAt := s.definedAt.or (some line) }

def attach (s : Symbol) (rule : Rule) : Symbol :=
  { s with rules := s.rules ++ [rule] }

/-- The line to report the symbol at: where it is defined, or else where it is first used. -/
def homeLine (s : Symbol) : Nat := s.definedAt.getD s.firstSeen

end Symbol

end GrammarCheck
