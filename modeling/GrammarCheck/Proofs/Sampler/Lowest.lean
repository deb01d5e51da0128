import GrammarCheck.Proofs.Derivation.Subtree
import GrammarCheck.Proofs.Sampler.Depth
import Mathlib

/-! Shortest ways out. Once a limit has been reached it stays reached, and from then on every
alternative ranks below its symbol. So what is derived is no higher than the rank of its symbol; and
with the ranks of the grammar itself nothing is lower than that. -/

namespace GrammarCheck

namespace Sampler

variable {sampler : Sampler} {left words : Nat} {tree : Derivation}

/-- Whether a limit has been reached, with `left` levels until the depth limit and after `words`
words. -/
def Spent (left words : Nat) : Prop := left = 0 ∨ maxWords ≤ words

/-- A limit that has been reached is so for everything that is derived below and behind. -/
theorem Spent.later (h : Spent left words) (more : Nat) : Spent (left - 1) (words + more) :=
  h.imp (fun hLeft => by rw [hLeft]) fun hWords => Nat.le_add_right_of_le hWords

/-- Beyond a limit an alternative ranks below the symbol it is chosen for. -/
theorem ruleDepth_lt_depthOf_of_spent (hSpent : Spent left words) {id : SymbolId} {rule : Rule}
    (h : sampler.allows id left words rule = true) :
    sampler.ruleDepth rule < sampler.depthOf id := by
  have hLimit : (decide (0 < left) && decide (words < maxWords)) = false := by
    rcases hSpent with hLeft | hWords
    · simp [hLeft]
    · simp [Nat.not_lt.2 hWords]
  have hZero : sampler.allows id 0 words rule = true := by
    simpa [allows, hLimit] using h
  exact ruleDepth_lt_depthOf hZero

/-- What grows beyond a limit is no higher than the rank of its symbol. The induction is on the
tree: the limit is reached for every child as well, and the rank of a child is below that of the
root. -/
theorem Grows.height_le_depthOf (h : sampler.Grows left words tree) (hSpent : Spent left words) :
    tree.height ≤ sampler.depthOf tree.root := by
  induction h with
  | leaf => exact Nat.zero_le _
  | @node left words id s rule children _ _ _ hAllows hRoots _ ih =>
      have hRule := ruleDepth_lt_depthOf_of_spent hSpent hAllows
      have hBelow : Derivation.heightOf children ≤ sampler.ruleDepth rule := by
        rw [Derivation.heightOf_le_iff]
        intro child hMem
        obtain ⟨before, after, hSplit⟩ := List.append_of_mem hMem
        have hHeight := ih before child after hSplit (hSpent.later _)
        have hChild : child.root ∈ rule.symbols := hRoots ▸ List.mem_map_of_mem hMem
        exact hHeight.trans (depthOf_le_ruleDepth hAllows child.root hChild)
      show Derivation.heightOf children + 1 ≤ sampler.depthOf id
      omega
  | unknown => exact Nat.zero_le _
  | stuck => exact Nat.zero_le _

end Sampler

namespace Grammar

open Sampler

variable {g : Grammar} {maxDepth left words : Nat} {tree : Derivation}

/-- What is sampled with the ranks of the grammar is a complete derivation. -/
theorem Linked.complete_of_sampleFrom {σ : Type} {chooser : Chooser σ} {name : String}
    {state after : σ} (h : g.Linked)
    (hOk : (g.sampler maxDepth).sampleFrom chooser name state = .ok (tree, after)) :
    tree.Complete g.symbols := by
  have hAnswers := h.answers_sampleFrom maxDepth chooser name state
  rw [hOk] at hAnswers
  cases hAnswers with
  | sentence _ _ hDerives => exact hDerives.complete

/-- A complete tree that has grown beyond a limit is a lowest one, and its height is the rank of its
symbol. -/
theorem lowest_of_grows (h : (g.sampler maxDepth).Grows left words tree)
    (hSpent : Spent left words) (hTree : tree.Complete g.symbols) :
    (Ranking.ofTable g.symbols).rank? tree.root = some tree.height ∧ tree.Lowest g.symbols := by
  have hDerives : g.symbols.Derives tree.root tree := ⟨hTree, rfl⟩
  obtain ⟨n, hLe, hLeast⟩ :=
    SymbolTable.exists_least_height ⟨tree, hDerives, Nat.le_refl tree.height⟩
  have hRank := Ranking.rank?_ofTable_iff.2 hLeast
  have hHeight : tree.height ≤ n := by
    simpa [depthOf, sampler, hRank] using h.height_le_depthOf hSpent
  have hEq : n = tree.height := Nat.le_antisymm hLe hHeight
  refine ⟨hEq ▸ hRank, hTree, fun other hOther => ?_⟩
  exact hHeight.trans (hLeast.2 ⟨other, hOther, rfl⟩)

/-- Past a limit, sampling takes a shortest way out. Every subtree that begins at the depth limit or
further down, or behind as many words as may be chosen freely, is a lowest derivation from its
symbol. Without any free levels the whole tree is one, and with some it stands above the highest
rank by no more than them. -/
theorem Reachable.sampling_lowest {σ : Type} (h : g.Reachable) (maxDepth : Nat)
    (chooser : Chooser σ) {name : String} {state after : σ}
    (hOk : (g.sampler maxDepth).sampleFrom chooser name state = .ok (tree, after)) :
    (∀ depth words subtree, tree.Contains depth words subtree →
      maxDepth ≤ depth ∨ maxWords ≤ words →
        (Ranking.ofTable g.symbols).rank? subtree.root = some subtree.height ∧
          subtree.Lowest g.symbols) ∧
      (maxDepth = 0 → tree.Lowest g.symbols) ∧
      tree.height ≤ maxDepth + (Ranking.ofTable g.symbols).maxRank := by
  have hGrows := grows_of_sampleFrom hOk
  have hTree := h.linked.complete_of_sampleFrom hOk
  have hPast (depth words : Nat) (subtree : Derivation)
      (hIn : tree.Contains depth words subtree) (hLimit : maxDepth ≤ depth ∨ maxWords ≤ words) :
      (Ranking.ofTable g.symbols).rank? subtree.root = some subtree.height ∧
        subtree.Lowest g.symbols := by
    have hSpent : Spent (maxDepth - depth) (0 + words) :=
      hLimit.imp Nat.sub_eq_zero_of_le fun hWords => by rwa [Nat.zero_add]
    exact lowest_of_grows (hGrows.of_contains hIn) hSpent (hTree.of_contains hIn)
  refine ⟨hPast, fun hZero => ?_, height_le_of_sampleFrom hOk⟩
  exact (hPast 0 0 tree (.root tree) (.inl (Nat.le_of_eq hZero))).2

/-- The pair at the second level is a lowest derivation, two levels down and behind two words. -/
theorem sampling_lowest_pairs : pairs.Reachable ∧
    (pairs.sampler 2).sampleFrom firstChoice "s" () = .ok (threePairs, ()) ∧
    threePairs.Contains 2 2 innermostPair ∧
    (Ranking.ofTable pairs.symbols).rank? ⟨0⟩ = some 1 ∧ innermostPair.Lowest pairs.symbols ∧
    threePairs.height ≤ 2 + (Ranking.ofTable pairs.symbols).maxRank := by
  have hReachable : pairs.Reachable := ⟨_, _, rfl⟩
  have hPlace : threePairs.Contains 2 2 innermostPair :=
    .child [.leaf ⟨1⟩] [.leaf ⟨2⟩] (.child [.leaf ⟨1⟩] [.leaf ⟨2⟩] (.root innermostPair))
  obtain ⟨hPast, -, hHeight⟩ := hReachable.sampling_lowest 2 firstChoice sampleFrom_pairs
  obtain ⟨hRank, hLowest⟩ := hPast 2 2 innermostPair hPlace (.inl (Nat.le_refl 2))
  exact ⟨hReachable, sampleFrom_pairs, hPlace, hRank, hLowest, hHeight⟩

end Grammar

end GrammarCheck
