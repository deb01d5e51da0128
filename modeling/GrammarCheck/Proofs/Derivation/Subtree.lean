import GrammarCheck.Proofs.Derivation.Complete
import Mathlib.Algebra.Group.Nat.Defs
import Mathlib.Data.List.MinMax

/-! Subtrees in their places, and how many words a derivation has. A tree of bounded height has
boundedly many words. Behind any number of words there are only so many subtrees left: each level of
the tree leaves at most the siblings to the right of one place. -/

namespace GrammarCheck

namespace SymbolTable

def longest (t : SymbolTable) : Nat :=
  ((t.symbols.toList.flatMap (·.rules)).map (·.symbols.length)).foldr max 0

/-- No alternative of the table is longer than the longest. -/
theorem length_le_longest {t : SymbolTable} {id : SymbolId} {s : Symbol} {rule : Rule}
    (hSymbol : t.symbol? id = some s) (hRule : rule ∈ s.rules) :
    rule.symbols.length ≤ t.longest := by
  have hMem : s ∈ t.symbols.toList := Array.mem_toList_iff.2 (Array.mem_of_getElem? hSymbol)
  have hRules : rule ∈ t.symbols.toList.flatMap (·.rules) := List.mem_flatMap.2 ⟨s, hMem, hRule⟩
  exact List.le_max_of_le' 0 (List.mem_map_of_mem hRules) (Nat.le_refl _)

end SymbolTable

namespace Derivation

/-- A subtree in its place: so many levels below the root, and behind so many words. -/
inductive Contains : (tree : Derivation) → (depth words : Nat) → (subtree : Derivation) → Prop where
  | root (tree : Derivation) : Contains tree 0 0 tree
  | child {id : SymbolId} (before after : List Derivation) {child subtree : Derivation}
      {depth words : Nat} (h : Contains child depth words subtree) :
      Contains (.node id (before ++ child :: after)) (depth + 1)
        ((leavesOf before).length + words) subtree

/-- A complete derivation than which no other one from its symbol is lower. -/
structure Lowest (t : SymbolTable) (tree : Derivation) : Prop where
  complete : tree.Complete t
  height_le : ∀ other, t.Derives tree.root other → tree.height ≤ other.height

variable {t : SymbolTable} {tree subtree : Derivation} {depth words : Nat}

/-- A subtree of a complete derivation is complete. The induction is on the way down to it. -/
theorem Complete.of_contains (h : tree.Complete t) (hIn : tree.Contains depth words subtree) :
    subtree.Complete t := by
  induction hIn with
  | root tree => exact h
  | child before after hIn ih =>
      cases h with
      | node _ _ _ _ hChildren => exact ih (hChildren _ (by simp))

theorem length_leavesOf_le {trees : List Derivation} {n : Nat}
    (h : ∀ tree ∈ trees, tree.leaves.length ≤ n) : (leavesOf trees).length ≤ trees.length * n := by
  induction trees with
  | nil => simp [leavesOf]
  | cons tree trees ih =>
      obtain ⟨hTree, hTrees⟩ := List.forall_mem_cons.1 h
      have hOthers := ih hTrees
      rw [leavesOf, List.length_append, List.length_cons, Nat.succ_mul]
      omega

/-- The children of a node are as many as the symbols of an alternative, so there are not too
many. -/
theorem Complete.length_children_le {id : SymbolId} {children : List Derivation}
    (h : (Derivation.node id children).Complete t) : children.length ≤ t.longest := by
  cases h with
  | @node _ s rule _ hSymbol _ hRule hRoots _ =>
      have hLength := congrArg List.length hRoots
      rw [List.length_map] at hLength
      exact hLength ▸ SymbolTable.length_le_longest hSymbol hRule

/-- Each level multiplies the words by the length of an alternative at most. -/
theorem Complete.length_leaves_le (h : tree.Complete t) (hPos : 0 < t.longest) :
    tree.leaves.length ≤ t.longest ^ tree.height := by
  induction h with
  | leaf => simp [leaves, height]
  | @node id s rule children hSymbol hNonterminal hRule hRoots hChildren ih =>
      have hNode : (Derivation.node id children).Complete t :=
        .node hSymbol hNonterminal hRule hRoots hChildren
      have hEach : ∀ child ∈ children, child.leaves.length ≤ t.longest ^ heightOf children := by
        intro child hMem
        have hLow := heightOf_le_iff.1 (Nat.le_refl _) child hMem
        exact (ih child hMem).trans (Nat.pow_le_pow_right hPos hLow)
      calc (leavesOf children).length
          ≤ children.length * t.longest ^ heightOf children := length_leavesOf_le hEach
        _ ≤ t.longest * t.longest ^ heightOf children :=
            Nat.mul_le_mul_right _ hNode.length_children_le
        _ = t.longest ^ (heightOf children + 1) := Nat.pow_succ'.symm

/-- Some subtrees that make up all that a tree has behind its first `k` words. Each of them begins
behind that many words. -/
structure Pending (tree : Derivation) (k : Nat) (pending : List Derivation) : Prop where
  leaves_eq : tree.leaves.drop k = leavesOf pending
  contains : ∀ subtree ∈ pending, ∃ depth words, tree.Contains depth words subtree ∧ k ≤ words

theorem pending_nil {k : Nat} (h : tree.leaves.length ≤ k) : tree.Pending k [] where
  leaves_eq := List.drop_eq_nil_of_le h
  contains := by simp

/-- A place behind some words of a node is behind as many more once the node has another child in
front of the others. -/
theorem Contains.cons {id : SymbolId} {children : List Derivation}
    (h : (node id children).Contains depth words subtree) (hPos : 0 < words) (first : Derivation) :
    (node id (first :: children)).Contains depth (first.leaves.length + words) subtree := by
  generalize hNode : node id children = tree at h
  cases h with
  | root => exact absurd hPos (Nat.lt_irrefl 0)
  | @child _ before after child _ depth words h =>
      cases hNode
      have hPlace : first.leaves.length + ((leavesOf before).length + words) =
          (leavesOf (first :: before)).length + words := by
        rw [leavesOf, List.length_append, Nat.add_assoc]
      rw [hPlace]
      exact .child (first :: before) after h

/-- What is pending in a child is pending in the node, along with the siblings to its right. -/
theorem Pending.node {id : SymbolId} {child : Derivation} {after pending : List Derivation}
    {k : Nat} (h : child.Pending k pending) (hLe : k ≤ child.leaves.length) :
    (node id (child :: after)).Pending k (pending ++ after) where
  leaves_eq := by
    rw [leaves, leavesOf, List.drop_append_of_le_length hLe, h.leaves_eq, leavesOf_append]
  contains := by
    intro subtree hMem
    rcases List.mem_append.1 hMem with hChild | hAfter
    · obtain ⟨depth, words, hIn, hBehind⟩ := h.contains subtree hChild
      exact ⟨depth + 1, _, .child [] after hIn, Nat.le_add_left_of_le hBehind⟩
    · obtain ⟨between, others, rfl⟩ := List.append_of_mem hAfter
      refine ⟨1, _, .child (child :: between) others (.root subtree), ?_⟩
      rw [leavesOf, List.length_append]
      omega

/-- What is left behind a number of words is left of the later children, once these words are more
than the first child has. -/
theorem Pending.cons {id : SymbolId} {first : Derivation} {children pending : List Derivation}
    {k : Nat} (h : (Derivation.node id children).Pending (k - first.leaves.length) pending)
    (hLt : first.leaves.length < k) :
    (Derivation.node id (first :: children)).Pending k pending where
  leaves_eq := by
    rw [← h.leaves_eq, leaves, leavesOf, List.drop_append, leaves,
      List.drop_eq_nil_of_le (Nat.le_of_lt hLt), List.nil_append]
  contains := by
    intro subtree hMem
    obtain ⟨depth, words, hIn, hBehind⟩ := h.contains subtree hMem
    exact ⟨depth, _, hIn.cons (by omega) first, by omega⟩

/-- If at most `n` subtrees are pending in every child, then at most the siblings of one child more
are pending in the node. The induction is on the children, up to the one with the `k`-th word. -/
theorem exists_pending_node (id : SymbolId) {children : List Derivation} {n k : Nat}
    (h : ∀ child ∈ children, ∀ k, 0 < k → ∃ pending, child.Pending k pending ∧ pending.length ≤ n)
    (hPos : 0 < k) :
    ∃ pending, (node id children).Pending k pending ∧
      pending.length ≤ n + (children.length - 1) := by
  induction children generalizing k with
  | nil => exact ⟨[], pending_nil (by simp [leaves, leavesOf]), Nat.zero_le _⟩
  | cons child children ih =>
      obtain ⟨hChild, hChildren⟩ := List.forall_mem_cons.1 h
      rcases Nat.lt_or_ge child.leaves.length k with hLt | hLe
      · obtain ⟨pending, hPending, hLength⟩ := ih hChildren (Nat.sub_pos_of_lt hLt)
        refine ⟨pending, hPending.cons hLt, ?_⟩
        rw [List.length_cons]
        omega
      · obtain ⟨pending, hPending, hLength⟩ := hChild k hPos
        refine ⟨pending ++ children, hPending.node hLe, ?_⟩
        rw [List.length_append, List.length_cons]
        omega

/-- Behind the first words of a derivation there are at most the siblings of one node for each
level. -/
theorem Complete.exists_pending (h : tree.Complete t) {k : Nat} (hPos : 0 < k) :
    ∃ pending, tree.Pending k pending ∧ pending.length ≤ tree.height * (t.longest - 1) := by
  induction h generalizing k with
  | leaf => exact ⟨[], pending_nil hPos, Nat.zero_le _⟩
  | @node id s rule children hSymbol hNonterminal hRule hRoots hChildren ih =>
      have hNode : (Derivation.node id children).Complete t :=
        .node hSymbol hNonterminal hRule hRoots hChildren
      have hFew := hNode.length_children_le
      have hEach : ∀ child ∈ children, ∀ k, 0 < k → ∃ pending, child.Pending k pending ∧
          pending.length ≤ heightOf children * (t.longest - 1) := by
        intro child hMem k hPos
        obtain ⟨pending, hPending, hLength⟩ := ih child hMem hPos
        have hLow := heightOf_le_iff.1 (Nat.le_refl _) child hMem
        exact ⟨pending, hPending, hLength.trans (Nat.mul_le_mul_right _ hLow)⟩
      obtain ⟨pending, hPending, hLength⟩ := exists_pending_node id hEach hPos
      refine ⟨pending, hPending, ?_⟩
      rw [height, Nat.succ_mul]
      omega

end Derivation

end GrammarCheck
