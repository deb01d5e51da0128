import GrammarCheck.Proofs.Sampler.Sentence

/-! How deep sampling goes. Below the depth limit each level brings the limit nearer, and from the
limit on each level has a lower rank. So a derivation ends within as many levels as the limit and
the highest rank make together, and the ranks may be those of any grammar. -/

namespace GrammarCheck

namespace Ranking

/-- No rank lies above the highest one. -/
theorem le_maxRank {r : Ranking} {id : SymbolId} {n : Nat} (h : r.rank? id = some n) :
    n ≤ r.maxRank := by
  have hMax : ∀ ranks : List (Option Nat), some n ∈ ranks →
      n ≤ ranks.foldr (fun rank m => max (rank.getD 0) m) 0 := by
    intro ranks hMem
    induction ranks with
    | nil => cases hMem
    | cons rank ranks ih =>
        rw [List.foldr_cons]
        rcases List.mem_cons.1 hMem with rfl | hMem
        · exact Nat.le_max_left n _
        · exact Nat.le_trans (ih hMem) (Nat.le_max_right _ _)
  apply hMax
  rw [Array.mem_toList_iff]
  apply Array.mem_of_getElem? (i := id.index)
  cases hEntry : r.ranks[id.index]? with
  | none => simp [rank?, hEntry] at h
  | some rank => simpa [rank?, hEntry] using h

end Ranking

namespace Sampler

variable {σ : Type} {sampler : Sampler}

/-- How many levels there may be below a symbol, with `left` levels until the depth limit. -/
def levels (sampler : Sampler) (left : Nat) (id : SymbolId) : Nat :=
  if left = 0 then sampler.depthOf id else left + sampler.ranking.maxRank

/-- What counts as the depth of a symbol is never above the highest rank. -/
theorem depthOf_le_maxRank (id : SymbolId) : sampler.depthOf id ≤ sampler.ranking.maxRank := by
  unfold depthOf
  cases hRank : sampler.ranking.rank? id with
  | none => exact Nat.zero_le _
  | some n => exact Ranking.le_maxRank hRank

/-- The levels below a symbol are bounded by the limit and the highest rank together. -/
theorem levels_le (left : Nat) (id : SymbolId) :
    sampler.levels left id ≤ left + sampler.ranking.maxRank := by
  unfold levels
  split
  case isTrue => exact Nat.le_trans (depthOf_le_maxRank id) (Nat.le_add_left _ _)
  case isFalse => exact Nat.le_refl _

/-- Each symbol of an allowed alternative has fewer levels below it than the symbol that the
alternative is chosen for. -/
theorem levels_lt_of_allows {id : SymbolId} {left words : Nat} {rule : Rule}
    (h : sampler.allows id left words rule = true) :
    ∀ child ∈ rule.symbols, sampler.levels (left - 1) child < sampler.levels left id := by
  intro child hMem
  cases left with
  | zero =>
      have hChild := depthOf_le_ruleDepth h child hMem
      have hRule := ruleDepth_lt_depthOf h
      show sampler.depthOf child < sampler.depthOf id
      omega
  | succ left =>
      have hChild := sampler.levels_le left child
      show sampler.levels left child < left + 1 + sampler.ranking.maxRank
      omega

/-- An alternative without symbols needs a level as well. -/
theorem levels_pos_of_allows {id : SymbolId} {left words : Nat} {rule : Rule}
    (h : sampler.allows id left words rule = true) : 0 < sampler.levels left id := by
  cases left with
  | zero => exact Nat.zero_lt_of_lt (ruleDepth_lt_depthOf h)
  | succ left =>
      show 0 < left + 1 + sampler.ranking.maxRank
      omega

/-- No tree grows higher than there are levels. The induction is on the tree, where the words before
a child do not matter. -/
theorem Grows.height_le {left words : Nat} {tree : Derivation} (h : sampler.Grows left words tree) :
    tree.height ≤ sampler.levels left tree.root := by
  induction h with
  | leaf => exact Nat.zero_le _
  | @node left words id s rule children _ _ _ hAllows hRoots _ ih =>
      have hPos := levels_pos_of_allows hAllows
      have hBelow : Derivation.heightOf children ≤ sampler.levels left id - 1 := by
        rw [Derivation.heightOf_le_iff]
        intro child hMem
        obtain ⟨before, after, hSplit⟩ := List.append_of_mem hMem
        have hHeight := ih before child after hSplit
        have hChild : child.root ∈ rule.symbols := hRoots ▸ List.mem_map_of_mem hMem
        have hLevels := levels_lt_of_allows hAllows child.root hChild
        omega
      show Derivation.heightOf children + 1 ≤ sampler.levels left id
      omega
  | unknown => exact Nat.zero_le _
  | stuck => exact Nat.zero_le _

/-- Derives from several symbols in turn, unless the derivation of one of them fails. -/
def inTurn (derive : SymbolId → Nat → σ → Option (Progress σ Derivation)) :
    List SymbolId → Nat → σ → Option (Progress σ (List Derivation))
  | [], words, state => some ⟨[], words, state⟩
  | id :: ids, words, state => do
      let first ← derive id words state
      let others ← inTurn derive ids first.words first.state
      return ⟨first.derived :: others.derived, others.words, others.state⟩

/-- Derives from a symbol that stands at some depth, as far as `remaining` levels with that one
suffice. It fails for want of a level, and wherever an id is of no symbol. -/
def expandWithin (sampler : Sampler) (chooser : Chooser σ) :
    (remaining depth : Nat) → SymbolId → Nat → σ → Option (Progress σ Derivation)
  | 0, _, _, _, _ => none
  | remaining + 1, depth, id, words, state => do
      let s ← sampler.grammar.symbols.symbol? id
      if s.isTerminal then return ⟨.leaf id, words + 1, state⟩
      else
        let allowed := s.rules.filter (sampler.allows id (sampler.maxDepth - depth) words)
        if h : 0 < allowed.length then
          let picked := chooser.pick allowed.length h state
          let rule := allowed[picked.1]
          let progress ← inTurn (expandWithin sampler chooser remaining (depth + 1)) rule.symbols
            words picked.2
          return ⟨.node id progress.derived, progress.words, progress.state⟩
        else return ⟨.stuck id, words, state⟩

/-- Derives from the nonterminal of a given name. It fails where a symbol would have to be expanded
at a depth beyond `limit`, and wherever an id is of no symbol. -/
def sampleWithin (sampler : Sampler) (chooser : Chooser σ) (limit : Nat) (name : String)
    (state : σ) : Option (Except SamplingError (Derivation × σ)) :=
  match sampler.grammar.symbols.get? name with
  | none => some (.error (sampler.errorAt 0 (.unknownSymbol name)))
  | some id => do
      let s ← sampler.grammar.symbols.symbol? id
      if !s.isNonterminal then
        return .error (sampler.errorAt s.firstSeen (.notNonterminal name))
      else if !sampler.ranking.isProductive id then
        return .error (sampler.errorAt s.homeLine (.unproductive name))
      else
        let progress ← sampler.expandWithin chooser (limit + 1) 0 id 0 state
        return .ok (progress.derived, progress.state)

/-- Deriving from symbols in turn, where no derivation fails, is deriving from all of them. -/
theorem inTurn_eq_expandAll {chooser : Chooser σ} {left depth : Nat}
    {derive : SymbolId → Nat → σ → Option (Progress σ Derivation)} {ids : List SymbolId}
    (h : ∀ id ∈ ids, sampler.depthOf id ≤ depth)
    (hDerive : ∀ id ∈ ids, ∀ words state,
      derive id words state = some (sampler.expand chooser left id words state))
    (words : Nat) (state : σ) :
    inTurn derive ids words state =
      some (sampler.expandAll chooser left depth ids h words state) := by
  induction ids generalizing words state with
  | nil => rw [inTurn, expandAll]
  | cons id ids ih =>
      have hFirst := hDerive id List.mem_cons_self words state
      have hOthers := ih (fun child hMem => h child (List.mem_cons_of_mem id hMem))
        fun child hMem => hDerive child (List.mem_cons_of_mem id hMem)
      rw [inTurn, hFirst, Option.bind_eq_bind, Option.bind_some, hOthers, expandAll]
      rfl

/-- Enough levels are never exceeded. The induction is on the levels that remain; every id that is
met is in the table, since alternatives are made of such ids. -/
theorem expandWithin_eq_expand (hLawful : sampler.grammar.symbols.Lawful) (chooser : Chooser σ)
    {remaining depth : Nat} {id : SymbolId} (hId : id.index < sampler.grammar.symbols.size)
    (hLevels : sampler.levels (sampler.maxDepth - depth) id < remaining) (words : Nat) (state : σ) :
    sampler.expandWithin chooser remaining depth id words state =
      some (sampler.expand chooser (sampler.maxDepth - depth) id words state) := by
  induction remaining generalizing depth id words state with
  | zero => omega
  | succ remaining ih =>
      obtain ⟨s, hSymbol⟩ : ∃ s, sampler.grammar.symbols.symbol? id = some s :=
        ⟨_, Array.getElem?_eq_getElem hId⟩
      have hTurn (rule : Rule) (hRule : rule ∈ s.rules)
          (hAllows : sampler.allows id (sampler.maxDepth - depth) words rule = true) (state : σ) :
          inTurn (sampler.expandWithin chooser remaining (depth + 1)) rule.symbols words state =
            some (sampler.expandAll chooser (sampler.maxDepth - depth - 1) (sampler.ruleDepth rule)
              rule.symbols (depthOf_le_ruleDepth hAllows) words state) := by
        apply inTurn_eq_expandAll
        intro child hChild words state
        have hLt := levels_lt_of_allows hAllows child hChild
        rw [Nat.sub_sub] at hLt ⊢
        exact ih ((hLawful.symbols id s hSymbol).inRange rule hRule child hChild) (by omega) words
          state
      rw [expandWithin, expand, hSymbol, Option.bind_eq_bind, Option.bind_some]
      dsimp only
      split
      case isTrue => rfl
      case isFalse =>
        split
        case isFalse => rfl
        case isTrue hSome =>
          have hMem {rules : List Rule} (i : Fin rules.length) : rules[i] ∈ rules :=
            List.getElem_mem i.isLt
          obtain ⟨hRule, hAllows⟩ := List.mem_filter.1 (hMem (chooser.pick _ hSome state).1)
          rw [hTurn _ hRule hAllows]
          rfl

/-- There are levels enough: sampling that would fail for want of one never does. -/
theorem sampleWithin_eq_sampleFrom (hLawful : sampler.grammar.symbols.Lawful)
    (chooser : Chooser σ) (name : String) (state : σ) :
    sampler.sampleWithin chooser (sampler.maxDepth + sampler.ranking.maxRank) name state =
      some (sampler.sampleFrom chooser name state) := by
  unfold sampleWithin sampleFrom
  cases hGet : sampler.grammar.symbols.get? name with
  | none => rw [hLawful.indexed.get?_eq_none_iff.1 hGet]
  | some id =>
      obtain ⟨s, hSymbol, hName⟩ := (hLawful.indexed name id).1 hGet
      have hWithin : sampler.expandWithin chooser
          (sampler.maxDepth + sampler.ranking.maxRank + 1) 0 id 0 state =
            some (sampler.expand chooser sampler.maxDepth id 0 state) :=
        expandWithin_eq_expand hLawful chooser (SymbolTable.lt_size_of_symbol? hSymbol)
          (Nat.lt_succ_of_le (sampler.levels_le sampler.maxDepth id)) 0 state
      rw [hLawful.indexed.find?_eq_some_iff.2 ⟨hSymbol, hName⟩]
      simp only [hSymbol, Option.bind_eq_bind, Option.bind_some]
      split
      case isTrue => rfl
      case isFalse =>
        split
        case isTrue => rfl
        case isFalse =>
          rw [hWithin]
          rfl

/-- The tree of a sentence is no higher than the limit and the highest rank together. -/
theorem height_le_of_sampleFrom {chooser : Chooser σ} {name : String} {state after : σ}
    {tree : Derivation} (h : sampler.sampleFrom chooser name state = .ok (tree, after)) :
    tree.height ≤ sampler.maxDepth + sampler.ranking.maxRank :=
  (grows_of_sampleFrom h).height_le.trans (sampler.levels_le sampler.maxDepth tree.root)

end Sampler

namespace Grammar

/-- Sampling ends whatever grammar the ranks are from. No symbol is expanded at a depth beyond the
depth limit and the highest rank together, and no id is met that is of no symbol. -/
theorem Reachable.sampling_bounded {σ : Type} {g : Grammar} (h : g.Reachable) (r : Ranking)
    (maxDepth : Nat) (chooser : Chooser σ) (name : String) (state : σ) :
    (⟨g, r, maxDepth⟩ : Sampler).sampleWithin chooser (maxDepth + r.maxRank) name state =
        some ((⟨g, r, maxDepth⟩ : Sampler).sampleFrom chooser name state) ∧
      ∀ tree after, (⟨g, r, maxDepth⟩ : Sampler).sampleFrom chooser name state = .ok (tree, after) →
        tree.height ≤ maxDepth + r.maxRank :=
  ⟨Sampler.sampleWithin_eq_sampleFrom h.lawful chooser name state,
    fun _ _ hOk => Sampler.height_le_of_sampleFrom hOk⟩

/-- A chain of nonterminals above a terminal. Ids that are terminals of the nested pairs are ranked
nonterminals here. -/
def chain : Grammar := (ofFile ⟨""⟩).afterAll
  [.symbols (.nonterminal "t" 1), .symbols (.mention "u" 1), .symbols (.rule "t" ["u"] 1),
    .symbols (.nonterminal "u" 2), .symbols (.mention "v" 2), .symbols (.rule "u" ["v"] 2),
    .symbols (.terminal "v" 3)]

/-- Nested pairs sampled with the ranks of the chain stay within three levels. -/
theorem sampling_bounded_chain :
    (⟨pairs, .ofTable chain.symbols, 1⟩ : Sampler).sampleWithin firstChoice 3 "s" () =
        some ((⟨pairs, .ofTable chain.symbols, 1⟩ : Sampler).sampleFrom firstChoice "s" ()) ∧
      ∀ tree after, (⟨pairs, .ofTable chain.symbols, 1⟩ : Sampler).sampleFrom firstChoice "s" () =
        .ok (tree, after) → tree.height ≤ 3 := by
  have hReachable : pairs.Reachable := ⟨_, _, rfl⟩
  have hMax : (Ranking.ofTable chain.symbols).maxRank = 2 := by decide +kernel
  have hBounded := hReachable.sampling_bounded (.ofTable chain.symbols) 1 firstChoice "s" ()
  rwa [hMax] at hBounded

end Grammar

end GrammarCheck
