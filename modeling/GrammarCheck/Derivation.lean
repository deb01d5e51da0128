import GrammarCheck.Symbol.Table

/-! Derivation trees. -/

namespace GrammarCheck

/-- A derivation as a tree of symbols. -/
inductive Derivation where
  /-- A symbol that is a word of its own. -/
  | leaf (id : SymbolId)
  /-- A nonterminal with a derivation of each symbol of one of its alternatives. -/
  | node (id : SymbolId) (children : List Derivation)
  /-- A symbol that no alternative was left for. -/
  | stuck (id : SymbolId)

namespace Derivation

def root : Derivation → SymbolId
  | .leaf id => id
  | .node id _ => id
  | .stuck id => id

mutual

/-- The words at the leaves from left to right. -/
def leaves : Derivation → List SymbolId
  | .leaf id => [id]
  | .node _ children => leavesOf children
  | .stuck _ => []

def leavesOf : List Derivation → List SymbolId
  | [] => []
  | tree :: trees => leaves tree ++ leavesOf trees

end

/-- The sentence derived: the names at the leaves with single spaces between them. -/
def sentence (t : SymbolTable) (tree : Derivation) : String :=
  " ".intercalate (tree.leaves.map t.name)

end Derivation

end GrammarCheck
