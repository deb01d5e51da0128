import GrammarCheck.Derivation
import Mathlib.Order.Bounds.Defs
import Mathlib.Order.Nat

/-! Complete derivations: the trees that a symbol table allows, and how high they are. -/

namespace GrammarCheck

namespace SymbolTable

/-- The list of all symbols has exactly the symbols of the table under their ids. -/
theorem mem_toList {t : SymbolTable} {id : SymbolId} {s : Symbol} :
    (id, s) ∈ t.toList ↔ t.symbol? id = some s := by
  constructor
  · intro hMem
    obtain ⟨⟨s', i⟩, hEntry, hEq⟩ := List.mem_map.1 hMem
    cases hEq
    simpa [symbol?] using List.mem_zipIdx_iff_getElem?.1 hEntry
  · intro hSymbol
    refine List.mem_map.2 ⟨(s, id.index), List.mem_zipIdx_iff_getElem?.2 ?_, rfl⟩
    simpa [symbol?] using hSymbol

theorem mem_nonterminals {t : SymbolTable} {id : SymbolId} {s : Symbol} :
    (id, s) ∈ t.nonterminals ↔ t.symbol? id = some s ∧ s.isNonterminal = true := by
  rw [nonterminals, List.mem_filter, mem_toList]

end SymbolTable

theorem Symbol.not_isTerminal_of_isNonterminal {s : Symbol} (h : s.isNonterminal = true) :
    s.isTerminal = false := by
  simp only [isNonterminal, isTerminal, decide_eq_true_eq] at h ⊢
  simp [h]

namespace Derivation

mutual

/-- The height of a tree. A word has none, and a nonterminal stands one above the highest of its
subtrees, or at one if it derives the empty sentence at once. -/
def height : Derivation → Nat
  | .leaf _ => 0
  | .node _ children => heightOf children + 1
  | .stuck _ => 0

def heightOf : List Derivation → Nat
  | [] => 0
  | tree :: trees => max (height tree) (heightOf trees)

end

/-- A bound on several heights is a bound on each of them. -/
theorem heightOf_le_iff {trees : List Derivation} {n : Nat} :
    heightOf trees ≤ n ↔ ∀ tree ∈ trees, tree.height ≤ n := by
  induction trees with
  | nil => simp [heightOf]
  | cons tree trees ih => rw [heightOf, Nat.max_le, ih, List.forall_mem_cons]

theorem leavesOf_append (before after : List Derivation) :
    leavesOf (before ++ after) = leavesOf before ++ leavesOf after := by
  induction before with
  | nil => rfl
  | cons tree before ih => rw [List.cons_append, leavesOf, ih, leavesOf, List.append_assoc]

/-- A tree without loose ends: its leaves are terminals of the table, and the children of every
inner node spell one of the alternatives of the nonterminal there. -/
inductive Complete (t : SymbolTable) : Derivation → Prop where
  | leaf {id : SymbolId} {s : Symbol} (hSymbol : t.symbol? id = some s)
      (hTerminal : s.isTerminal = true) : Complete t (.leaf id)
  | node {id : SymbolId} {s : Symbol} {rule : Rule} {children : List Derivation}
      (hSymbol : t.symbol? id = some s) (hNonterminal : s.isNonterminal = true)
      (hRule : rule ∈ s.rules) (hRoots : children.map root = rule.symbols)
      (hChildren : ∀ child ∈ children, Complete t child) : Complete t (.node id children)

end Derivation

namespace SymbolTable

/-- A complete derivation from a given symbol. -/
structure Derives (t : SymbolTable) (id : SymbolId) (tree : Derivation) : Prop where
  complete : tree.Complete t
  root_eq : tree.root = id

/-- Whether a symbol has a finite derivation at all. -/
def Productive (t : SymbolTable) (id : SymbolId) : Prop := ∃ tree, t.Derives id tree

def heights (t : SymbolTable) (id : SymbolId) : Set Nat :=
  {n | ∃ tree, t.Derives id tree ∧ tree.height = n}

def DerivesWithin (t : SymbolTable) (n : Nat) (id : SymbolId) : Prop :=
  ∃ tree, t.Derives id tree ∧ tree.height ≤ n

theorem Derives.of_terminal {t : SymbolTable} {id : SymbolId} {s : Symbol}
    (hSymbol : t.symbol? id = some s) (hTerminal : s.isTerminal = true) :
    t.Derives id (.leaf id) :=
  ⟨.leaf hSymbol hTerminal, rfl⟩

/-- Derivations of the symbols of an alternative, one for each in order. -/
theorem exists_derivations {p : Derivation → Prop} {ids : List SymbolId}
    (h : ∀ id ∈ ids, ∃ tree : Derivation, tree.root = id ∧ p tree) :
    ∃ trees : List Derivation, trees.map Derivation.root = ids ∧ ∀ tree ∈ trees, p tree := by
  induction ids with
  | nil => exact ⟨[], rfl, by simp⟩
  | cons id ids ih =>
      obtain ⟨tree, hRoot, hTree⟩ := h id List.mem_cons_self
      obtain ⟨trees, hRoots, hTrees⟩ := ih fun other hMem => h other (List.mem_cons_of_mem id hMem)
      exact ⟨tree :: trees, by rw [List.map_cons, hRoot, hRoots],
        List.forall_mem_cons.2 ⟨hTree, hTrees⟩⟩

/-- A nonterminal is productive when all symbols of one of its alternatives are. -/
theorem Productive.of_rule {t : SymbolTable} {id : SymbolId} {s : Symbol} {rule : Rule}
    (hSymbol : t.symbol? id = some s) (hNonterminal : s.isNonterminal = true)
    (hRule : rule ∈ s.rules) (h : ∀ child ∈ rule.symbols, t.Productive child) :
    t.Productive id := by
  obtain ⟨trees, hRoots, hTrees⟩ := exists_derivations fun child hMem => by
    obtain ⟨tree, hComplete, hRoot⟩ := h child hMem
    exact ⟨tree, hRoot, hComplete⟩
  exact ⟨.node id trees, .node hSymbol hNonterminal hRule hRoots hTrees, rfl⟩

/-- Without a level above the words only terminals derive anything. -/
theorem derivesWithin_zero_iff {t : SymbolTable} {id : SymbolId} :
    t.DerivesWithin 0 id ↔ ∃ s, t.symbol? id = some s ∧ s.isTerminal = true := by
  constructor
  · rintro ⟨tree, ⟨hComplete, rfl⟩, hHeight⟩
    cases hComplete with
    | leaf hSymbol hTerminal => exact ⟨_, hSymbol, hTerminal⟩
    | node => simp [Derivation.height] at hHeight
  · rintro ⟨s, hSymbol, hTerminal⟩
    exact ⟨.leaf id, .of_terminal hSymbol hTerminal, Nat.le_refl 0⟩

/-- One level more allows a nonterminal exactly when one of its alternatives consists of symbols
allowed before. -/
theorem derivesWithin_succ_iff {t : SymbolTable} {n : Nat} {id : SymbolId} {s : Symbol}
    (hSymbol : t.symbol? id = some s) (hNonterminal : s.isNonterminal = true) :
    t.DerivesWithin (n + 1) id ↔
      ∃ rule ∈ s.rules, ∀ child ∈ rule.symbols, t.DerivesWithin n child := by
  constructor
  · rintro ⟨tree, ⟨hComplete, rfl⟩, hHeight⟩
    cases hComplete with
    | leaf hLeaf hTerminal =>
        cases hSymbol.symm.trans hLeaf
        simp [Symbol.not_isTerminal_of_isNonterminal hNonterminal] at hTerminal
    | @node _ s' rule children hNode _ hRule hRoots hChildren =>
        cases hSymbol.symm.trans hNode
        refine ⟨rule, hRule, fun child hMem => ?_⟩
        rw [← hRoots] at hMem
        obtain ⟨subtree, hSubtree, hRoot⟩ := List.mem_map.1 hMem
        have hLow : Derivation.heightOf children ≤ n := by
          simpa [Derivation.height] using hHeight
        exact ⟨subtree, ⟨hChildren subtree hSubtree, hRoot⟩,
          Derivation.heightOf_le_iff.1 hLow subtree hSubtree⟩
  · rintro ⟨rule, hRule, hChildren⟩
    obtain ⟨trees, hRoots, hTrees⟩ := exists_derivations fun child hMem => by
      obtain ⟨tree, ⟨hComplete, hRoot⟩, hHeight⟩ := hChildren child hMem
      exact ⟨tree, hRoot, And.intro hComplete hHeight⟩
    refine ⟨.node id trees, ⟨.node hSymbol hNonterminal hRule hRoots fun tree hMem =>
      (hTrees tree hMem).1, rfl⟩, ?_⟩
    have hLow := Derivation.heightOf_le_iff.2 fun tree hMem => (hTrees tree hMem).2
    simpa [Derivation.height] using hLow

/-- Only the symbols of the table that are terminals or nonterminals derive anything. -/
theorem DerivesWithin.symbol {t : SymbolTable} {n : Nat} {id : SymbolId}
    (h : t.DerivesWithin n id) :
    ∃ s, t.symbol? id = some s ∧ (s.isTerminal = true ∨ s.isNonterminal = true) := by
  obtain ⟨tree, ⟨hComplete, rfl⟩, -⟩ := h
  cases hComplete with
  | leaf hSymbol hTerminal => exact ⟨_, hSymbol, .inl hTerminal⟩
  | node hSymbol hNonterminal => exact ⟨_, hSymbol, .inr hNonterminal⟩

/-- Where there is a derivation that is low enough, there is a lowest one. -/
theorem exists_least_height {t : SymbolTable} {n : Nat} {id : SymbolId}
    (h : t.DerivesWithin n id) : ∃ m ≤ n, IsLeast (t.heights id) m := by
  classical
  obtain ⟨tree, hTree, hHeight⟩ := h
  have hSome : ∃ m, m ∈ t.heights id := ⟨tree.height, tree, hTree, rfl⟩
  refine ⟨Nat.find hSome, ?_, Nat.find_spec hSome, fun m hMem => Nat.find_min' hSome hMem⟩
  exact (Nat.find_min' hSome ⟨tree, hTree, rfl⟩).trans hHeight

/-- A derivation within `n` levels exists from the least height on. -/
theorem derivesWithin_of_least {t : SymbolTable} {m n : Nat} {id : SymbolId}
    (h : IsLeast (t.heights id) m) : t.DerivesWithin n id ↔ m ≤ n := by
  constructor
  · rintro ⟨tree, hTree, hHeight⟩
    exact (h.2 ⟨tree, hTree, rfl⟩).trans hHeight
  · intro hLe
    obtain ⟨tree, hTree, hHeight⟩ := h.1
    exact ⟨tree, hTree, hHeight.trans_le hLe⟩

/-- A nonterminal never has a derivation of height zero. -/
theorem least_height_pos {t : SymbolTable} {m : Nat} {id : SymbolId} {s : Symbol}
    (h : IsLeast (t.heights id) m) (hSymbol : t.symbol? id = some s)
    (hNonterminal : s.isNonterminal = true) : 0 < m := by
  by_contra hZero
  obtain ⟨s', hSymbol', hTerminal⟩ :=
    derivesWithin_zero_iff.1 ((derivesWithin_of_least h).2 (Nat.le_of_not_lt hZero))
  cases hSymbol.symm.trans hSymbol'
  simp [Symbol.not_isTerminal_of_isNonterminal hNonterminal] at hTerminal

end SymbolTable

end GrammarCheck
