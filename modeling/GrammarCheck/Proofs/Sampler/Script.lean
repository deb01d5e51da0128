import GrammarCheck.Proofs.Grammar.Verified
import GrammarCheck.Proofs.Random.Reach

/-! Scripts for derivations. Where every choice can be scripted, so can every complete derivation
within the limits: neither the ranks nor a limit forbids an alternative in it, and the draws of its
nodes can be put one behind the other. -/

namespace GrammarCheck

theorem SymbolTable.symbol?_eq_getElem? {t : SymbolTable} {symbols : List Symbol}
    (h : t.symbols.toList = symbols) (id : SymbolId) : t.symbol? id = symbols[id.index]? := by
  rw [← h, Array.getElem?_toList, symbol?]

/-- Whether each alternative of each symbol is chosen for some script, however many of them are
allowed. -/
def Chooser.ReachesRules {δ : Type} (chooser : Chooser (List δ)) (t : SymbolTable) : Prop :=
  ∀ id s, t.symbol? id = some s → ∀ n ≤ s.rules.length, chooser.Reaches n

/-- Draws of 32 bits reach all alternatives, unless a symbol has as many of them as there are
draws. -/
theorem DrawSource.reachesRules_scripted {t : SymbolTable}
    (h : ∀ id s, t.symbol? id = some s → s.rules.length < UInt32.size) :
    scripted.chooser.ReachesRules t := by
  intro id s hSymbol n hLe
  exact reaches_scripted (Nat.lt_of_le_of_lt hLe (h id s hSymbol))

namespace Sampler

variable {σ δ : Type} {sampler : Sampler}

/-- What lets derivations be scripted: ranks for all that has a derivation, a symbol in every
alternative, and a chooser that reaches each alternative of each symbol. -/
structure Scriptable (sampler : Sampler) (chooser : Chooser (List δ)) : Prop where
  ranked : ∀ id, sampler.grammar.symbols.Productive id → sampler.ranking.rank? id ≠ none
  nonempty : ∀ id s, sampler.grammar.symbols.symbol? id = some s →
    ∀ rule ∈ s.rules, rule.symbols ≠ []
  reaches : chooser.ReachesRules sampler.grammar.symbols

/-- Whether some draws derive a given tree, and no others are taken. -/
def Scripts (sampler : Sampler) (chooser : Chooser (List δ)) (left words : Nat)
    (tree : Derivation) : Prop :=
  ∃ script, ∀ more, sampler.expand chooser left tree.root words (script ++ more) =
    ⟨tree, words + tree.leaves.length, more⟩

variable {chooser : Chooser (List δ)}

/-- The scripts of several trees, put one behind the other, derive all of them. -/
theorem exists_script_all {left words depth : Nat} {trees : List Derivation} {ids : List SymbolId}
    (h : ∀ before tree after, trees = before ++ tree :: after →
      sampler.Scripts chooser left (words + (Derivation.leavesOf before).length) tree)
    (hRoots : trees.map Derivation.root = ids)
    (hDepth : ∀ id ∈ ids, sampler.depthOf id ≤ depth) :
    ∃ script, ∀ more, sampler.expandAll chooser left depth ids hDepth words (script ++ more) =
      ⟨trees, words + (Derivation.leavesOf trees).length, more⟩ := by
  induction trees generalizing words ids with
  | nil =>
      subst hRoots
      use []
      intro more
      simp only [List.map_nil, expandAll]
      rfl
  | cons tree trees ih =>
      subst hRoots
      obtain ⟨first, hFirst⟩ := h [] tree trees rfl
      have hLater : ∀ before other after, trees = before ++ other :: after →
          sampler.Scripts chooser left
            (words + tree.leaves.length + (Derivation.leavesOf before).length) other := by
        intro before other after hSplit
        have hOther := h (tree :: before) other after (by rw [hSplit, List.cons_append])
        rwa [Derivation.leavesOf, List.length_append, ← Nat.add_assoc] at hOther
      obtain ⟨others, hOthers⟩ := ih hLater rfl
        (fun id hMem => hDepth id (List.mem_cons_of_mem _ hMem))
      use first ++ others
      intro more
      have hHead : sampler.expand chooser left tree.root words (first ++ (others ++ more)) =
          ⟨tree, words + tree.leaves.length, others ++ more⟩ := hFirst (others ++ more)
      rw [List.append_assoc]
      simp only [List.map_cons, expandAll, hHead, hOthers]
      rw [Derivation.leavesOf, List.length_append, Nat.add_assoc]

/-- Within the limits an alternative of ranked symbols is allowed. -/
theorem allows_of_within {id : SymbolId} {left words : Nat} {rule : Rule}
    (hRanked : ∀ child ∈ rule.symbols, sampler.ranking.rank? child ≠ none) (hLeft : 0 < left)
    (hWords : words < maxWords) : sampler.allows id left words rule = true := by
  unfold allows
  cases hRank : sampler.ranking.ruleRank? rule with
  | none =>
      obtain ⟨child, hMem, hNone⟩ := Ranking.highest?_eq_none_iff.1 hRank
      exact absurd hNone (hRanked child hMem)
  | some rank => simp [hLeft, hWords]

/-- The alternative of a node can be picked: it is among those allowed, and they are no more than
the symbol has. -/
theorem Scriptable.exists_pick (h : sampler.Scriptable chooser) {left words : Nat} {id : SymbolId}
    {s : Symbol} {rule : Rule} (hSymbol : sampler.grammar.symbols.symbol? id = some s)
    (hRule : rule ∈ s.rules) (hAllows : sampler.allows id left words rule = true) :
    ∃ allowed, s.rules.filter (sampler.allows id left words) = allowed ∧
      ∃ (hPos : 0 < allowed.length) (i : Fin allowed.length) (script : List δ),
        allowed.get i = rule ∧
          ∀ more, chooser.pick allowed.length hPos (script ++ more) = (i, more) := by
  have hMem : rule ∈ s.rules.filter (sampler.allows id left words) :=
    List.mem_filter.2 ⟨hRule, hAllows⟩
  have hFew : (s.rules.filter (sampler.allows id left words)).length ≤ s.rules.length :=
    List.length_filter_le _ _
  generalize s.rules.filter (sampler.allows id left words) = allowed at hMem hFew
  obtain ⟨i, hLt, hAt⟩ := List.getElem_of_mem hMem
  have hPos : 0 < allowed.length := List.length_pos_of_mem hMem
  obtain ⟨script, hPick⟩ := h.reaches id s hSymbol allowed.length hFew hPos ⟨i, hLt⟩
  exact ⟨allowed, rfl, hPos, ⟨i, hLt⟩, script, hAt, hPick⟩

/-- Every complete tree within the limits has a script. The induction is on the tree, for any number
of words to the left of it. -/
theorem Scriptable.scripts (h : sampler.Scriptable chooser) {tree : Derivation}
    (hTree : tree.Complete sampler.grammar.symbols) {left words : Nat}
    (hHeight : tree.height ≤ left) (hWords : words + tree.leaves.length ≤ maxWords) :
    sampler.Scripts chooser left words tree := by
  induction hTree generalizing left words with
  | @leaf id s hSymbol hTerminal =>
      use []
      intro more
      rw [Derivation.root, expand, hSymbol]
      simp only [hTerminal, if_true]
      rfl
  | @node id s rule children hSymbol hNonterminal hRule hRoots hChildren ih =>
      have hNode : (Derivation.node id children).Complete sampler.grammar.symbols :=
        .node hSymbol hNonterminal hRule hRoots hChildren
      have hSome : 0 < (Derivation.node id children).leaves.length :=
        List.length_pos_iff.2 (hNode.leaves_ne_nil h.nonempty)
      rw [Derivation.height] at hHeight
      have hRanked : ∀ child ∈ rule.symbols, sampler.ranking.rank? child ≠ none := by
        intro child hMem
        rw [← hRoots] at hMem
        obtain ⟨subtree, hSubtree, hRoot⟩ := List.mem_map.1 hMem
        exact h.ranked child ⟨subtree, hChildren subtree hSubtree, hRoot⟩
      have hAllows : sampler.allows id left words rule = true :=
        allows_of_within hRanked (by omega) (by omega)
      obtain ⟨allowed, hAllowed, hPos, i, pick, rfl, hPick⟩ :=
        h.exists_pick hSymbol hRule hAllows
      have hDepth := depthOf_le_ruleDepth hAllows
      have hScripts : ∀ before child after, children = before ++ child :: after →
          sampler.Scripts chooser (left - 1)
            (words + (Derivation.leavesOf before).length) child := by
        intro before child after hSplit
        have hMem : child ∈ children := by simp [hSplit]
        have hLow := Derivation.heightOf_le_iff.1 (Nat.le_refl _) child hMem
        rw [Derivation.leaves, hSplit, Derivation.leavesOf_append, Derivation.leavesOf,
          List.length_append, List.length_append] at hWords
        exact ih child hMem (by omega) (by omega)
      obtain ⟨script, hScript⟩ := exists_script_all hScripts hRoots hDepth
      use pick ++ script
      intro more
      rw [List.append_assoc, Derivation.root, expand_of_pick hSymbol
        (Symbol.not_isTerminal_of_isNonterminal hNonterminal) hAllowed hPos (hPick _) hDepth]
      simp only [hScript]
      rfl

end Sampler

namespace Grammar

variable {δ : Type} {file : FileName} {text : List Char} {g : Grammar} {chooser : Chooser (List δ)}
  {maxDepth : Nat} {name : String} {id : SymbolId} {s : Symbol} {tree : Derivation}

/-- With the ranks of its own a grammar that was read can be scripted. -/
theorem scriptable_of_ofText (h : ofText file text = .ok g)
    (hReaches : chooser.ReachesRules g.symbols) (maxDepth : Nat) :
    (g.sampler maxDepth).Scriptable chooser where
  ranked _ hProductive hNone := Ranking.rank?_ofTable_eq_none_iff.1 hNone hProductive
  nonempty _ _ := nonempty_of_ofText h
  reaches := hReaches

/-- Some script makes the sampler derive the tree and then stop. -/
theorem exists_script_sampleFrom (h : ofText file text = .ok g)
    (hReaches : chooser.ReachesRules g.symbols)
    (hSpells : g.symbols.Spells name id s) (hKind : s.isNonterminal = true)
    (hDerives : g.symbols.Derives id tree) (hHeight : tree.height ≤ maxDepth)
    (hWords : tree.leaves.length ≤ maxWords) :
    ∃ script, ∀ more,
      (g.sampler maxDepth).sampleFrom chooser name (script ++ more) = .ok (tree, more) := by
  have hScriptable := scriptable_of_ofText h hReaches maxDepth
  obtain ⟨script, hScript⟩ := hScriptable.scripts hDerives.complete hHeight
    (show 0 + tree.leaves.length ≤ maxWords by omega)
  rw [hDerives.root_eq] at hScript
  use script
  intro more
  have hRanked : (g.sampler maxDepth).ranking.isProductive id = true :=
    Ranking.isProductive_ofTable_iff.2 ⟨tree, hDerives⟩
  have hExpand : (g.sampler maxDepth).expand chooser (g.sampler maxDepth).maxDepth id 0
      (script ++ more) = ⟨tree, 0 + tree.leaves.length, more⟩ := hScript more
  rw [Sampler.sampleFrom_of_productive (linked_of_ofText h).indexed hSpells hKind hRanked, hExpand]

/-- Draws of 32 bits derive every sentence within the limits. -/
theorem exists_draws_sampleFrom (h : ofText file text = .ok g)
    (hFew : ∀ id s, g.symbols.symbol? id = some s → s.rules.length < UInt32.size)
    (hSpells : g.symbols.Spells name id s) (hKind : s.isNonterminal = true)
    (hDerives : g.symbols.Derives id tree) (hHeight : tree.height ≤ maxDepth)
    (hWords : tree.leaves.length ≤ maxWords) :
    ∃ script, ∀ more,
      (g.sampler maxDepth).sampleFrom DrawSource.scripted.chooser name (script ++ more) =
        .ok (tree, more) :=
  exists_script_sampleFrom h (DrawSource.reachesRules_scripted hFew) hSpells hKind hDerives hHeight
    hWords

/-- Every sentence within the limits can come out of sampling. Where some draws make each choice
that the alternatives of the grammar leave open, some draws make the derivation of the sentence, and
whatever is drawn after them is left over. The sentence is what the derivation yields, and it may
have as many words as may be chosen freely. -/
theorem sampling_exhaustive (h : ofText file text = .ok g)
    (hReaches : chooser.ReachesRules g.symbols)
    (hSpells : g.symbols.Spells name id s) (hKind : s.isNonterminal = true)
    (hDerives : g.symbols.Derives id tree) (hHeight : tree.height ≤ maxDepth) :
    ∃ words, tree.Yields g.symbols words ∧ (words.length ≤ maxWords →
      ∃ script, ∀ more,
        (g.sampler maxDepth).sampleFrom chooser name (script ++ more) = .ok (tree, more) ∧
          tree.sentence g.symbols = " ".intercalate words) := by
  obtain ⟨words, hWords, hSentence⟩ := hDerives.complete.exists_sentence
  refine ⟨words, hWords, fun hFew => ?_⟩
  rw [hWords.length_eq] at hFew
  obtain ⟨script, hScript⟩ :=
    exists_script_sampleFrom h hReaches hSpells hKind hDerives hHeight hFew
  exact ⟨script, fun more => ⟨hScript more, hSentence⟩⟩

def pairSymbols : List Symbol :=
  [⟨"s", .nonterminal, [⟨[⟨1⟩, ⟨0⟩, ⟨2⟩], 1⟩, ⟨[⟨1⟩, ⟨2⟩], 1⟩], 1, some 1⟩,
    ⟨"a", .terminal, [], 1, some 2⟩, ⟨"b", .terminal, [], 1, some 2⟩]

def pairInPair : Derivation :=
  .node ⟨0⟩ [.leaf ⟨1⟩, .node ⟨0⟩ [.leaf ⟨1⟩, .leaf ⟨2⟩], .leaf ⟨2⟩]

theorem derives_pairInPair {t : SymbolTable} (h : t.symbols.toList = pairSymbols) :
    t.Derives ⟨0⟩ pairInPair := by
  have hSymbol := SymbolTable.symbol?_eq_getElem? h
  have hOuter := hSymbol ⟨0⟩
  have hOpening : (Derivation.leaf ⟨1⟩).Complete t := .leaf (hSymbol ⟨1⟩) rfl
  have hClosing : (Derivation.leaf ⟨2⟩).Complete t := .leaf (hSymbol ⟨2⟩) rfl
  have hInner : (Derivation.node ⟨0⟩ [.leaf ⟨1⟩, .leaf ⟨2⟩]).Complete t :=
    .node hOuter rfl (List.mem_cons_of_mem _ (List.mem_cons_self ..)) rfl
      (by simp [hOpening, hClosing])
  exact ⟨.node hOuter rfl (List.mem_cons_self ..) rfl (by simp [hOpening, hInner, hClosing]), rfl⟩

theorem yields_pairInPair {t : SymbolTable} (h : t.symbols.toList = pairSymbols) :
    pairInPair.Yields t ["a", "a", "b", "b"] := by
  have hSymbol := SymbolTable.symbol?_eq_getElem? h
  have hOpening : (Derivation.leaf ⟨1⟩).Yields t ["a"] := .leaf (hSymbol ⟨1⟩) rfl
  have hClosing : (Derivation.leaf ⟨2⟩).Yields t ["b"] := .leaf (hSymbol ⟨2⟩) rfl
  have hInner : (Derivation.node ⟨0⟩ [.leaf ⟨1⟩, .leaf ⟨2⟩]).Yields t ["a", "b"] :=
    .node (.cons hOpening (.cons hClosing .nil))
  exact .node (.cons hOpening (.cons hInner (.cons hClosing .nil)))

/-- With two free levels the nested pair can be scripted, and is printed in four words. -/
theorem sampling_exhaustive_pairInPair :
    ∃ g, ofText ⟨""⟩ "s -> a s b | a b\n%token a b\n%start s\n".toList = .ok g ∧
      DrawSource.scripted.chooser.ReachesRules g.symbols ∧
      g.symbols.Derives ⟨0⟩ pairInPair ∧ pairInPair.height = 2 ∧
      pairInPair.Yields g.symbols ["a", "a", "b", "b"] ∧
      ∃ script, ∀ more,
        (g.sampler 2).sampleFrom DrawSource.scripted.chooser "s" (script ++ more) =
            .ok (pairInPair, more) ∧
          pairInPair.sentence g.symbols = "a a b b" := by
  have hRead : (ofText ⟨""⟩ "s -> a s b | a b\n%token a b\n%start s\n".toList).toOption.map
      (fun g => g.symbols.symbols.toList) = some pairSymbols := by decide +kernel
  obtain ⟨g, hOk, hSymbols⟩ := Option.map_eq_some_iff.1 hRead
  cases hText : ofText ⟨""⟩ "s -> a s b | a b\n%token a b\n%start s\n".toList with
  | error defects =>
      rw [hText] at hOk
      cases hOk
  | ok g' =>
      rw [hText] at hOk
      cases hOk
      have hSymbol := SymbolTable.symbol?_eq_getElem? hSymbols
      have hFew : ∀ s ∈ pairSymbols, s.rules.length < UInt32.size := by decide
      have hReaches : DrawSource.scripted.chooser.ReachesRules g.symbols := by
        apply DrawSource.reachesRules_scripted
        intro id s hId
        exact hFew s (List.mem_of_getElem? ((hSymbol id).symm.trans hId))
      have hDerives := derives_pairInPair hSymbols
      have hYields := yields_pairInPair hSymbols
      have hHeight : pairInPair.height ≤ 2 := by decide
      obtain ⟨words, hWords, hScripts⟩ := sampling_exhaustive hText hReaches
        ⟨hSymbol ⟨0⟩, rfl⟩ rfl hDerives hHeight
      obtain rfl := hWords.unique hYields
      obtain ⟨script, hScript⟩ := hScripts (by decide)
      exact ⟨g, rfl, hReaches, hDerives, rfl, hYields, script, hScript⟩

end Grammar

end GrammarCheck
