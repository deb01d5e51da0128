import GrammarCheck.Proofs.Grammar.Verified
import GrammarCheck.Proofs.Sampler.Lowest

/-! How many words a sentence may have. Once there are as many as may be chosen freely, only the
subtrees that are pending are still derived, and each of them is a lowest derivation. There are no
more of them than siblings on one path through the tree. -/

namespace GrammarCheck.Grammar

variable {σ : Type} {file : FileName} {text : List Char} {g : Grammar} {name : String}
  {id : SymbolId} {s : Symbol} {tree : Derivation} {maxDepth : Nat}

/-- A grammar with a nonterminal that derives something has an alternative with a symbol. -/
theorem longest_pos_of_ofText (h : ofText file text = .ok g)
    (hSymbol : g.symbols.symbol? id = some s) (hKind : s.isNonterminal = true)
    (hDerives : g.symbols.Derives id tree) :
    0 < g.symbols.longest := by
  obtain ⟨hTree, rfl⟩ := hDerives
  cases hTree with
  | leaf hLeaf hTerminal =>
      cases hSymbol.symm.trans hLeaf
      simp [Symbol.not_isTerminal_of_isNonterminal hKind] at hTerminal
  | node hNode _ hRule _ _ =>
      have hSome := List.length_pos_iff.2 (nonempty_of_ofText h hNode _ hRule)
      exact Nat.lt_of_lt_of_le hSome (SymbolTable.length_le_longest hNode hRule)

/-- A lowest derivation has no more words than the highest rank allows. -/
theorem length_leaves_le_of_lowest (hPos : 0 < g.symbols.longest)
    (hRank : (Ranking.ofTable g.symbols).rank? tree.root = some tree.height)
    (hLowest : tree.Lowest g.symbols) :
    tree.leaves.length ≤ g.symbols.longest ^ (Ranking.ofTable g.symbols).maxRank :=
  (hLowest.complete.length_leaves_le hPos).trans
    (Nat.pow_le_pow_right hPos (Ranking.le_maxRank hRank))

/-- The subtrees that are pending when all words that may be chosen freely have been derived: as
many as the levels of the tree have siblings at most, and each of them with few words. -/
theorem exists_pending_of_grows (hGrows : (g.sampler maxDepth).Grows maxDepth 0 tree)
    (hTree : tree.Complete g.symbols) (hPos : 0 < g.symbols.longest) :
    ∃ pending, tree.Pending maxWords pending ∧
      pending.length ≤ (maxDepth + (Ranking.ofTable g.symbols).maxRank) * (g.symbols.longest - 1) ∧
      ∀ subtree ∈ pending,
        subtree.leaves.length ≤ g.symbols.longest ^ (Ranking.ofTable g.symbols).maxRank := by
  obtain ⟨pending, hPending, hFew⟩ := hTree.exists_pending (show 0 < maxWords by decide)
  have hHeight : tree.height ≤ maxDepth + (Ranking.ofTable g.symbols).maxRank :=
    hGrows.height_le.trans (Sampler.levels_le maxDepth tree.root)
  refine ⟨pending, hPending, hFew.trans (Nat.mul_le_mul_right _ hHeight), fun subtree hMem => ?_⟩
  obtain ⟨depth, words, hIn, hBehind⟩ := hPending.contains subtree hMem
  have hSpent : Sampler.Spent (maxDepth - depth) (0 + words) :=
    .inr (Nat.le_add_left_of_le hBehind)
  obtain ⟨hRank, hLowest⟩ :=
    lowest_of_grows (hGrows.of_contains hIn) hSpent (hTree.of_contains hIn)
  exact length_leaves_le_of_lowest hPos hRank hLowest

/-- The words of a tree are those that may be chosen freely and those of what is pending then. -/
theorem length_leaves_le_of_pending {pending : List Derivation} {n m : Nat}
    (hPending : tree.Pending maxWords pending) (hFew : pending.length ≤ n)
    (hEach : ∀ subtree ∈ pending, subtree.leaves.length ≤ m) :
    tree.leaves.length ≤ maxWords + n * m := by
  have hRest : (tree.leaves.drop maxWords).length ≤ n * m := by
    rw [hPending.leaves_eq]
    exact (Derivation.length_leavesOf_le hEach).trans (Nat.mul_le_mul_right m hFew)
  rw [List.length_drop] at hRest
  omega

/-- Every productive nonterminal of a grammar that was read gives a sentence, and the number of its
words is bounded by the limits, the longest alternative and the highest rank. Behind the words that
may be chosen freely there are only the words of the subtrees that are pending then. -/
theorem sampling_words_le (h : ofText file text = .ok g)
    (hSpells : g.symbols.Spells name id s) (hKind : s.isNonterminal = true)
    (hProductive : g.symbols.Productive id) (maxDepth : Nat) (chooser : Chooser σ) (state : σ) :
    1 ≤ g.symbols.longest ∧
      ∃ tree after, (g.sampler maxDepth).sampleFrom chooser name state = .ok (tree, after) ∧
        (∃ pending, tree.Pending maxWords pending ∧
          pending.length ≤
            (maxDepth + (Ranking.ofTable g.symbols).maxRank) * (g.symbols.longest - 1) ∧
          ∀ subtree ∈ pending,
            subtree.leaves.length ≤ g.symbols.longest ^ (Ranking.ofTable g.symbols).maxRank) ∧
        tree.leaves.length ≤ maxWords +
          (maxDepth + (Ranking.ofTable g.symbols).maxRank) * (g.symbols.longest - 1) *
            g.symbols.longest ^ (Ranking.ofTable g.symbols).maxRank := by
  have hLinked := linked_of_ofText h
  obtain ⟨lowest, hLowest⟩ := hProductive
  have hPos := longest_pos_of_ofText h hSpells.1 hKind hLowest
  obtain ⟨⟨tree, after⟩, hOk⟩ : ∃ outcome,
      (g.sampler maxDepth).sampleFrom chooser name state = .ok outcome :=
    hLinked.exists_sampleFrom_iff.2 ⟨id, s, hSpells, hKind, lowest, hLowest⟩
  obtain ⟨pending, hPending, hFew, hEach⟩ := exists_pending_of_grows
    (Sampler.grows_of_sampleFrom hOk) (hLinked.complete_of_sampleFrom hOk) hPos
  exact ⟨hPos, tree, after, hOk, ⟨pending, hPending, hFew, hEach⟩,
    length_leaves_le_of_pending hPending hFew hEach⟩

def eightfold : List Char := "%start s\n%token a\ns -> s s s s s s s s | a".toList

/-- The default depth allows at most 5048 words here. -/
theorem sampling_words_le_eightfold :
    ∃ g, ofText ⟨""⟩ eightfold = .ok g ∧
      ∃ tree after, (g.sampler defaultDepth).sampleFrom firstChoice "s" () = .ok (tree, after) ∧
        tree.leaves.length ≤ 5048 := by
  have hRead : (ofText ⟨""⟩ eightfold).toOption.map (fun g =>
      ((g.symbols.symbol? ⟨0⟩).map (fun s => (s.name, s.isNonterminal)),
        (Ranking.ofTable g.symbols).isProductive ⟨0⟩, g.symbols.longest,
        (Ranking.ofTable g.symbols).maxRank)) = some (some ("s", true), true, 8, 1) := by
    decide +kernel
  cases hText : ofText ⟨""⟩ eightfold with
  | error defects =>
      rw [hText] at hRead
      cases hRead
  | ok g =>
      simp only [hText, Except.toOption, Option.map_some, Option.some.injEq, Prod.mk.injEq] at hRead
      obtain ⟨hSymbol, hRanked, hLongest, hMax⟩ := hRead
      obtain ⟨s, hS, hEq⟩ := Option.map_eq_some_iff.1 hSymbol
      obtain ⟨hName, hKind⟩ := Prod.mk.inj hEq
      obtain ⟨-, tree, after, hOk, -, hWords⟩ := sampling_words_le hText ⟨hS, hName⟩ hKind
        (Ranking.isProductive_ofTable_iff.1 hRanked) defaultDepth firstChoice ()
      rw [hLongest, hMax] at hWords
      exact ⟨g, rfl, tree, after, hOk, hWords⟩

end GrammarCheck.Grammar
