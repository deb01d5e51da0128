import GrammarCheck.Proofs.Derivation.Complete

/-! The words of a derivation, told by a relation between trees and lists of words. It knows neither
the list of leaves nor the sentence that is printed, so it can say what that sentence is. A complete
derivation yields words in exactly one way, and its sentence is these words with single spaces
between them. -/

namespace GrammarCheck

namespace Derivation

variable {t : SymbolTable} {tree : Derivation} {trees : List Derivation}
  {words others : List String}

mutual

/-- What a tree yields from left to right: the name of the terminal at each of its leaves. A symbol
that no alternative was left for yields nothing, not even no words. -/
inductive Yields (t : SymbolTable) : Derivation → List String → Prop where
  | leaf {id : SymbolId} {s : Symbol} (hSymbol : t.symbol? id = some s)
      (hTerminal : s.isTerminal = true) : Yields t (.leaf id) [s.name]
  | node {id : SymbolId} {children : List Derivation} {words : List String}
      (hChildren : YieldsAll t children words) : Yields t (.node id children) words

/-- What several trees yield, one after the other. -/
inductive YieldsAll (t : SymbolTable) : List Derivation → List String → Prop where
  | nil : YieldsAll t [] []
  | cons {tree : Derivation} {trees : List Derivation} {first others : List String}
      (hFirst : Yields t tree first) (hOthers : YieldsAll t trees others) :
      YieldsAll t (tree :: trees) (first ++ others)

end

/-- Trees that all yield words yield them one after the other. -/
theorem exists_yieldsAll (h : ∀ tree ∈ trees, ∃ words, tree.Yields t words) :
    ∃ words, YieldsAll t trees words := by
  induction trees with
  | nil => exact ⟨[], .nil⟩
  | cons tree trees ih =>
      obtain ⟨⟨first, hFirst⟩, hLater⟩ := List.forall_mem_cons.1 h
      obtain ⟨others, hOthers⟩ := ih hLater
      exact ⟨first ++ others, .cons hFirst hOthers⟩

/-- A complete derivation yields some words. The induction is on the derivation; nothing but a
symbol without an alternative could stand in the way, and there is none. -/
theorem Complete.exists_yields (h : tree.Complete t) : ∃ words, tree.Yields t words := by
  induction h with
  | leaf hSymbol hTerminal => exact ⟨_, .leaf hSymbol hTerminal⟩
  | node _ _ _ _ _ ih =>
      obtain ⟨words, hWords⟩ := exists_yieldsAll ih
      exact ⟨words, .node hWords⟩

mutual

/-- The words are the names of the symbols at the leaves. -/
theorem Yields.names_leaves {tree : Derivation} {words : List String} :
    tree.Yields t words → tree.leaves.map t.name = words
  | .leaf hSymbol _ => by simp [leaves, SymbolTable.name, hSymbol]
  | .node hChildren => hChildren.names_leavesOf

theorem YieldsAll.names_leavesOf {trees : List Derivation} {words : List String} :
    YieldsAll t trees words → (leavesOf trees).map t.name = words
  | .nil => rfl
  | .cons hFirst hOthers => by
      rw [leavesOf, List.map_append, hFirst.names_leaves, hOthers.names_leavesOf]

end

/-- No tree yields words in two ways. -/
theorem Yields.unique (h : tree.Yields t words) (h' : tree.Yields t others) : words = others :=
  h.names_leaves.symm.trans h'.names_leaves

/-- The sentence that is printed for a tree is what the tree yields. -/
theorem Yields.sentence_eq (h : tree.Yields t words) : tree.sentence t = " ".intercalate words :=
  congrArg (" ".intercalate ·) h.names_leaves

/-- What a complete derivation yields is its sentence. -/
theorem Complete.exists_sentence (h : tree.Complete t) :
    ∃ words, tree.Yields t words ∧ tree.sentence t = " ".intercalate words := by
  obtain ⟨words, hWords⟩ := h.exists_yields
  exact ⟨words, hWords, hWords.sentence_eq⟩

theorem Yields.length_eq (h : tree.Yields t words) : words.length = tree.leaves.length := by
  rw [← h.names_leaves, List.length_map]

end Derivation

end GrammarCheck
