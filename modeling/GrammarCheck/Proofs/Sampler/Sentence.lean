import GrammarCheck.Proofs.Derivation.Subtree
import GrammarCheck.Proofs.Derivation.Yield
import GrammarCheck.Proofs.Grammar.Reachable
import GrammarCheck.Proofs.Sampler.Growth
import Mathlib

/-! What sampling answers. With the ranks of its own grammar a sampler never gets stuck: every
ranked nonterminal has an alternative that ranks below it, which no limit forbids. So the trees it
grows are complete derivations. -/

namespace GrammarCheck

namespace Ranking

/-- Ranks that a table bears out: each ranked symbol is a terminal, or a nonterminal with an
alternative of lower rank. -/
def Supports (r : Ranking) (t : SymbolTable) : Prop :=
  ∀ id n, r.rank? id = some n → ∃ s, t.symbol? id = some s ∧ (s.isTerminal = true ∨
    s.isNonterminal = true ∧ ∃ rule ∈ s.rules, ∃ m < n, r.ruleRank? rule = some m)

/-- A table bears out its own ranks: a lowest derivation begins with an alternative of lower
rank. -/
theorem supports_ofTable (t : SymbolTable) : (ofTable t).Supports t := by
  intro id n hRank
  have hLeast := rank?_ofTable_iff.1 hRank
  have hWithin := (SymbolTable.derivesWithin_of_least hLeast).2 (Nat.le_refl n)
  obtain ⟨s, hSymbol, hKind⟩ := hWithin.symbol
  refine ⟨s, hSymbol, ?_⟩
  rcases hKind with hTerminal | hNonterminal
  · exact .inl hTerminal
  · right
    obtain ⟨m, rfl⟩ : ∃ m, n = m + 1 :=
      ⟨n - 1, (Nat.succ_pred (SymbolTable.least_height_pos hLeast hSymbol hNonterminal).ne').symm⟩
    obtain ⟨rule, hRule, hChildren⟩ :=
      (SymbolTable.derivesWithin_succ_iff hSymbol hNonterminal).1 hWithin
    have hRanks : ∀ child ∈ rule.symbols, ∃ k ≤ m, (ofTable t).rank? child = some k := by
      intro child hMem
      obtain ⟨k, hLe, hChild⟩ := SymbolTable.exists_least_height (hChildren child hMem)
      exact ⟨k, hLe, rank?_ofTable_iff.2 hChild⟩
    obtain ⟨k, hLe, hHighest⟩ := exists_highest?_le hRanks
    exact ⟨hNonterminal, rule, hRule, k, Nat.lt_succ_of_le hLe, hHighest⟩

end Ranking

namespace Sampler

variable {sampler : Sampler}

/-- An alternative of lower rank is allowed beyond every limit. -/
theorem allows_of_lt {id : SymbolId} {rule : Rule} {m n : Nat}
    (hRank : sampler.ranking.rank? id = some n) (hRule : sampler.ranking.ruleRank? rule = some m)
    (hLt : m < n) (left words : Nat) : sampler.allows id left words rule = true := by
  simp [allows, ranksBelow, hRank, hRule, hLt]

/-- Only alternatives of ranked symbols are ever allowed. -/
theorem rank?_ne_none_of_allows {id child : SymbolId} {left words : Nat} {rule : Rule}
    (h : sampler.allows id left words rule = true) (hMem : child ∈ rule.symbols) :
    sampler.ranking.rank? child ≠ none := by
  unfold allows at h
  split at h
  case h_1 m hRule =>
    obtain ⟨k, hRank, -⟩ := Ranking.rank?_le_of_highest? hRule child hMem
    simp [hRank]
  case h_2 => cases h

/-- What grows from a ranked symbol is complete. The induction is on the tree; the ranks carry it,
since an allowed alternative has only ranked symbols and a ranked symbol is never stuck. -/
theorem Grows.complete (hSupports : sampler.ranking.Supports sampler.grammar.symbols)
    {left words : Nat} {tree : Derivation} (h : sampler.Grows left words tree)
    (hRanked : sampler.ranking.rank? tree.root ≠ none) :
    tree.Complete sampler.grammar.symbols := by
  induction h with
  | leaf hSymbol hTerminal => exact .leaf hSymbol hTerminal
  | @node left words id s rule children hSymbol hTerminal hRule hAllows hRoots _ ih =>
      obtain ⟨n, hRank⟩ := Option.ne_none_iff_exists'.1 hRanked
      obtain ⟨s', hSymbol', hKind⟩ := hSupports id n hRank
      cases hSymbol.symm.trans hSymbol'
      have hNonterminal : s.isNonterminal = true := by
        rcases hKind with hTerminal' | ⟨hNonterminal, -⟩
        · simp [hTerminal] at hTerminal'
        · exact hNonterminal
      refine .node hSymbol hNonterminal hRule hRoots fun child hMem => ?_
      obtain ⟨before, after, hSplit⟩ := List.append_of_mem hMem
      refine ih before child after hSplit (rank?_ne_none_of_allows hAllows ?_)
      rw [← hRoots]
      exact List.mem_map_of_mem hMem
  | @unknown left words id hSymbol =>
      obtain ⟨n, hRank⟩ := Option.ne_none_iff_exists'.1 hRanked
      obtain ⟨s, hSymbol', -⟩ := hSupports id n hRank
      rw [hSymbol] at hSymbol'
      cases hSymbol'
  | @stuck left words id s hSymbol hTerminal hNone =>
      obtain ⟨n, hRank⟩ := Option.ne_none_iff_exists'.1 hRanked
      obtain ⟨s', hSymbol', hKind⟩ := hSupports id n hRank
      cases hSymbol.symm.trans hSymbol'
      rcases hKind with hTerminal' | ⟨-, rule, hRule, m, hLt, hRuleRank⟩
      · simp [hTerminal] at hTerminal'
      · have hAllows : sampler.allows id left words rule = true :=
          allows_of_lt hRank hRuleRank hLt left words
        rw [hNone rule hRule] at hAllows
        cases hAllows

/-- A subtree has grown from its place: with fewer levels left, and after the words before it. -/
theorem Grows.of_contains {left words depth before : Nat} {tree subtree : Derivation}
    (h : sampler.Grows left words tree) (hIn : tree.Contains depth before subtree) :
    sampler.Grows (left - depth) (words + before) subtree := by
  induction hIn generalizing left words with
  | root tree => exact h
  | @child id front after child subtree depth before hIn ih =>
      cases h with
      | node _ _ _ _ _ hChildren =>
          have hSubtree := ih (hChildren front child after rfl)
          rwa [Nat.sub_sub, Nat.add_comm 1, Nat.add_assoc] at hSubtree

/-- At the root of a complete tree that has grown there were alternatives to choose from, unless it
is a word. -/
theorem Grows.allowed_ne_nil {left words : Nat} {tree : Derivation} {s : Symbol}
    (h : sampler.Grows left words tree) (hTree : tree.Complete sampler.grammar.symbols)
    (hSymbol : sampler.grammar.symbols.symbol? tree.root = some s)
    (hTerminal : s.isTerminal = false) :
    s.rules.filter (sampler.allows tree.root left words) ≠ [] := by
  cases h with
  | leaf hLeaf hWord =>
      cases hSymbol.symm.trans hLeaf
      rw [hTerminal] at hWord
      cases hWord
  | node hNode _ hRule hAllows =>
      cases hSymbol.symm.trans hNode
      exact List.ne_nil_of_mem (List.mem_filter.2 ⟨hRule, hAllows⟩)
  -- a symbol that is left without alternatives is in no complete tree
  | unknown => cases hTree
  | stuck => cases hTree

/-- While a complete tree was sampled, there were alternatives to choose from wherever a symbol other
than a word was expanded. -/
theorem allowed_ne_nil_of_sampleFrom {σ : Type} {chooser : Chooser σ} {name : String}
    {state after : σ} {tree : Derivation}
    (hOk : sampler.sampleFrom chooser name state = .ok (tree, after))
    (hTree : tree.Complete sampler.grammar.symbols) (depth words : Nat) (subtree : Derivation)
    (s : Symbol) (hIn : tree.Contains depth words subtree)
    (hSymbol : sampler.grammar.symbols.symbol? subtree.root = some s)
    (hTerminal : s.isTerminal = false) :
    s.rules.filter (sampler.allows subtree.root (sampler.maxDepth - depth) words) ≠ [] := by
  have hPlace := (grows_of_sampleFrom hOk).of_contains hIn
  rw [Nat.zero_add] at hPlace
  exact hPlace.allowed_ne_nil (hTree.of_contains hIn) hSymbol hTerminal

end Sampler

namespace Derivation

theorem mem_leavesOf {trees : List Derivation} {id : SymbolId} :
    id ∈ leavesOf trees ↔ ∃ tree ∈ trees, id ∈ tree.leaves := by
  induction trees with
  | nil => simp [leavesOf]
  | cons tree trees ih => simp [leavesOf, ih]

end Derivation

/-- A symbol of the table under its id, with the name it is spelled by. -/
def SymbolTable.Spells (t : SymbolTable) (name : String) (id : SymbolId) (s : Symbol) : Prop :=
  t.symbol? id = some s ∧ s.name = name

namespace Sampler

variable {σ : Type} {sampler : Sampler} {chooser : Chooser σ} {name : String} {id : SymbolId}
  {s : Symbol} {state : σ}

/-- Without a symbol of this name there is nothing to sample from. -/
theorem sampleFrom_of_unknown (hIndexed : sampler.grammar.symbols.Indexed)
    (h : ∀ id s, ¬ sampler.grammar.symbols.Spells name id s) :
    sampler.sampleFrom chooser name state = .error (sampler.errorAt 0 (.unknownSymbol name)) := by
  have hFind : sampler.grammar.symbols.find? name = none :=
    hIndexed.find?_eq_none_iff.2 fun id s hSymbol hName => h id s ⟨hSymbol, hName⟩
  simp [sampleFrom, hFind]

/-- A symbol that is no nonterminal is reported where it first occurs. -/
theorem sampleFrom_of_not_nonterminal (hIndexed : sampler.grammar.symbols.Indexed)
    (hSpells : sampler.grammar.symbols.Spells name id s) (h : s.isNonterminal = false) :
    sampler.sampleFrom chooser name state =
      .error (sampler.errorAt s.firstSeen (.notNonterminal name)) := by
  simp [sampleFrom, hIndexed.find?_eq_some_iff.2 hSpells, h]

/-- A nonterminal without a rank is reported where it is defined. -/
theorem sampleFrom_of_unproductive (hIndexed : sampler.grammar.symbols.Indexed)
    (hSpells : sampler.grammar.symbols.Spells name id s) (hNonterminal : s.isNonterminal = true)
    (h : sampler.ranking.isProductive id = false) :
    sampler.sampleFrom chooser name state =
      .error (sampler.errorAt s.homeLine (.unproductive name)) := by
  simp [sampleFrom, hIndexed.find?_eq_some_iff.2 hSpells, hNonterminal, h]

/-- Any other nonterminal gives a derivation. -/
theorem sampleFrom_of_productive (hIndexed : sampler.grammar.symbols.Indexed)
    (hSpells : sampler.grammar.symbols.Spells name id s) (hNonterminal : s.isNonterminal = true)
    (h : sampler.ranking.isProductive id = true) :
    sampler.sampleFrom chooser name state =
      .ok ((sampler.expand chooser sampler.maxDepth id 0 state).derived,
        (sampler.expand chooser sampler.maxDepth id 0 state).state) := by
  simp [sampleFrom, hIndexed.find?_eq_some_iff.2 hSpells, hNonterminal, h]

/-- A sampler with supported ranks derives a complete tree from every ranked symbol. -/
theorem derives_expand (hSupports : sampler.ranking.Supports sampler.grammar.symbols)
    (hRanked : sampler.ranking.isProductive id = true) (left words : Nat) (state : σ) :
    sampler.grammar.symbols.Derives id (sampler.expand chooser left id words state).derived := by
  have hGrown := grownFrom_expand sampler chooser left id words state
  refine ⟨hGrown.grows.complete hSupports ?_, hGrown.root_eq⟩
  rw [hGrown.root_eq]
  exact Option.isSome_iff_ne_none.1 hRanked

end Sampler

namespace Grammar

/-- The sampler of a grammar with the ranks of its own. -/
def sampler (g : Grammar) (maxDepth : Nat) : Sampler := ⟨g, .ofTable g.symbols, maxDepth⟩

/-- The right answers to the wish for a sentence from a name. -/
inductive Answers {σ : Type} (g : Grammar) (name : String) :
    Except SamplingError (Derivation × σ) → Prop where
  | unknown (hUnknown : ∀ id s, ¬ g.symbols.Spells name id s) :
      Answers g name (.error ⟨g.place 0, .unknownSymbol name⟩)
  | notNonterminal {id : SymbolId} {s : Symbol} (hSpells : g.symbols.Spells name id s)
      (hKind : s.isNonterminal = false) :
      Answers g name (.error ⟨g.place s.firstSeen, .notNonterminal name⟩)
  | unproductive {id : SymbolId} {s : Symbol} (hSpells : g.symbols.Spells name id s)
      (hKind : s.isNonterminal = true) (hUnproductive : ¬ g.symbols.Productive id) :
      Answers g name (.error ⟨g.place s.homeLine, .unproductive name⟩)
  | sentence {id : SymbolId} {s : Symbol} {tree : Derivation} {state : σ}
      (hSpells : g.symbols.Spells name id s) (hKind : s.isNonterminal = true)
      (hDerives : g.symbols.Derives id tree) : Answers g name (.ok (tree, state))

namespace Linked

variable {σ : Type} {g : Grammar} {maxDepth : Nat} {chooser : Chooser σ} {name : String}
  {state : σ}

/-- Sampling from a name gives the right answer, however the choices fall. -/
theorem answers_sampleFrom (h : g.Linked) (maxDepth : Nat) (chooser : Chooser σ) (name : String)
    (state : σ) : g.Answers name ((g.sampler maxDepth).sampleFrom chooser name state) := by
  by_cases hKnown : ∃ id s, g.symbols.Spells name id s
  · obtain ⟨id, s, hSpells⟩ := hKnown
    cases hKind : s.isNonterminal with
    | false =>
        rw [Sampler.sampleFrom_of_not_nonterminal h.indexed hSpells hKind]
        exact .notNonterminal hSpells hKind
    | true =>
        cases hProductive : (g.sampler maxDepth).ranking.isProductive id with
        | false =>
            rw [Sampler.sampleFrom_of_unproductive h.indexed hSpells hKind hProductive]
            refine .unproductive hSpells hKind ?_
            rw [← Ranking.isProductive_ofTable_iff]
            exact Bool.eq_false_iff.1 hProductive
        | true =>
            rw [Sampler.sampleFrom_of_productive h.indexed hSpells hKind hProductive]
            exact .sentence hSpells hKind
              (Sampler.derives_expand (Ranking.supports_ofTable g.symbols) hProductive _ _ _)
  · have hUnknown : ∀ id s, ¬ g.symbols.Spells name id s :=
      fun id s hSpells => hKnown ⟨id, s, hSpells⟩
    rw [Sampler.sampleFrom_of_unknown h.indexed hUnknown]
    exact .unknown hUnknown

/-- Sampling from a name succeeds when the name spells a nonterminal with a finite derivation. -/
theorem exists_sampleFrom_iff (h : g.Linked) :
    (∃ outcome, (g.sampler maxDepth).sampleFrom chooser name state = .ok outcome) ↔
      ∃ id s, g.symbols.Spells name id s ∧ s.isNonterminal = true ∧ g.symbols.Productive id := by
  constructor
  · rintro ⟨outcome, hOk⟩
    have hAnswers := h.answers_sampleFrom maxDepth chooser name state
    rw [hOk] at hAnswers
    cases hAnswers with
    | sentence hSpells hKind hDerives => exact ⟨_, _, hSpells, hKind, _, hDerives⟩
  · rintro ⟨id, s, hSpells, hKind, hProductive⟩
    exact ⟨_, Sampler.sampleFrom_of_productive h.indexed hSpells hKind
      (Ranking.isProductive_ofTable_iff.2 hProductive)⟩

/-- The error says which of the three conditions fails first. -/
theorem sampleFrom_eq_error_iff (h : g.Linked) {e : SamplingError} :
    (g.sampler maxDepth).sampleFrom chooser name state = .error e ↔
      ((∀ id s, ¬ g.symbols.Spells name id s) ∧ e = ⟨g.place 0, .unknownSymbol name⟩) ∨
      ∃ id s, g.symbols.Spells name id s ∧
        ((s.isNonterminal = false ∧ e = ⟨g.place s.firstSeen, .notNonterminal name⟩) ∨
          (s.isNonterminal = true ∧ ¬ g.symbols.Productive id ∧
            e = ⟨g.place s.homeLine, .unproductive name⟩)) := by
  constructor
  · intro hError
    have hAnswers := h.answers_sampleFrom maxDepth chooser name state
    rw [hError] at hAnswers
    cases hAnswers with
    | unknown hUnknown => exact .inl ⟨hUnknown, rfl⟩
    | notNonterminal hSpells hKind => exact .inr ⟨_, _, hSpells, .inl ⟨hKind, rfl⟩⟩
    | unproductive hSpells hKind hUnproductive =>
        exact .inr ⟨_, _, hSpells, .inr ⟨hKind, hUnproductive, rfl⟩⟩
  · rintro (⟨hUnknown, rfl⟩ | ⟨id, s, hSpells, ⟨hKind, rfl⟩ | ⟨hKind, hUnproductive, rfl⟩⟩)
    · exact Sampler.sampleFrom_of_unknown h.indexed hUnknown
    · exact Sampler.sampleFrom_of_not_nonterminal h.indexed hSpells hKind
    · apply Sampler.sampleFrom_of_unproductive h.indexed hSpells hKind
      rw [← Ranking.isProductive_ofTable_iff] at hUnproductive
      exact Bool.eq_false_of_not_eq_true hUnproductive

/-- Sampling from the start symbol is sampling from its name. -/
theorem sample_eq_sampleFrom (h : g.Linked) {start : SymbolId} (hStart : g.start = some start) :
    ∃ s, g.symbols.symbol? start = some s ∧
      (g.sampler maxDepth).sample chooser state =
        (g.sampler maxDepth).sampleFrom chooser s.name state := by
  obtain ⟨s, hSymbol⟩ := h.start start hStart
  refine ⟨s, hSymbol, ?_⟩
  simp [Sampler.sample, sampler, hStart, SymbolTable.name, hSymbol]

/-- Sampling from the start symbol never asks for a name that is not there: the start symbol is one
of the table. -/
theorem sample_ne_unknownSymbol (h : g.Linked) (place : Location) (name : String) :
    (g.sampler maxDepth).sample chooser state ≠ .error ⟨place, .unknownSymbol name⟩ := by
  cases hStart : g.start with
  | none => simp [Sampler.sample, sampler, hStart, Sampler.errorAt]
  | some start =>
      obtain ⟨s, hSymbol, hSample⟩ := h.sample_eq_sampleFrom hStart
      rw [hSample]
      intro hError
      rcases h.sampleFrom_eq_error_iff.1 hError with ⟨hUnknown, -⟩ | ⟨_, _, -, hOther⟩
      · exact hUnknown start s ⟨hSymbol, rfl⟩
      · rcases hOther with ⟨-, hEq⟩ | ⟨-, -, hEq⟩ <;> simp at hEq

/-- A missing start symbol is reported exactly when none was declared. -/
theorem sample_eq_noStartSymbol_iff (h : g.Linked) :
    (∃ place, (g.sampler maxDepth).sample chooser state = .error ⟨place, .noStartSymbol⟩) ↔
      g.start = none := by
  constructor
  · rintro ⟨place, hError⟩
    cases hStart : g.start with
    | none => rfl
    | some start =>
        obtain ⟨s, -, hSample⟩ := h.sample_eq_sampleFrom hStart
        rw [hSample] at hError
        rcases h.sampleFrom_eq_error_iff.1 hError with ⟨-, hEq⟩ | ⟨_, _, -, ⟨-, hEq⟩ | ⟨-, -, hEq⟩⟩
          <;> simp at hEq
  · intro hNone
    exact ⟨g.place 0, by simp [Sampler.sample, sampler, hNone, Sampler.errorAt]⟩

end Linked

/-- Sampling with the ranks of the grammar gives sentences of the grammar and nothing else, whatever
the limit and however the choices fall. The words between the spaces are those of a complete
derivation, and wherever a symbol other than a word is expanded there are alternatives to choose
from. -/
theorem Reachable.sampling_complete {σ : Type} {g : Grammar} (h : g.Reachable) (maxDepth : Nat)
    (chooser : Chooser σ) (state : σ) :
    (∀ name,
      ((∃ outcome, (g.sampler maxDepth).sampleFrom chooser name state = .ok outcome) ↔
        ∃ id s, g.symbols.Spells name id s ∧ s.isNonterminal = true ∧ g.symbols.Productive id) ∧
      (∀ tree after, (g.sampler maxDepth).sampleFrom chooser name state = .ok (tree, after) →
        (∃ id s words, g.symbols.Spells name id s ∧ s.isNonterminal = true ∧
          g.symbols.Derives id tree ∧ tree.Yields g.symbols words ∧
          tree.sentence g.symbols = " ".intercalate words) ∧
        ∀ depth words subtree s, tree.Contains depth words subtree →
          g.symbols.symbol? subtree.root = some s → s.isTerminal = false →
            s.rules.filter ((g.sampler maxDepth).allows subtree.root (maxDepth - depth) words)
              ≠ []) ∧
      (∀ e, (g.sampler maxDepth).sampleFrom chooser name state = .error e ↔
        ((∀ id s, ¬ g.symbols.Spells name id s) ∧ e = ⟨g.place 0, .unknownSymbol name⟩) ∨
        ∃ id s, g.symbols.Spells name id s ∧
          ((s.isNonterminal = false ∧ e = ⟨g.place s.firstSeen, .notNonterminal name⟩) ∨
            (s.isNonterminal = true ∧ ¬ g.symbols.Productive id ∧
              e = ⟨g.place s.homeLine, .unproductive name⟩)))) ∧
    (∀ start, g.start = some start → ∃ s, g.symbols.symbol? start = some s ∧
      (g.sampler maxDepth).sample chooser state =
        (g.sampler maxDepth).sampleFrom chooser s.name state) ∧
    (∀ place name,
      (g.sampler maxDepth).sample chooser state ≠ .error ⟨place, .unknownSymbol name⟩) ∧
    ((∃ place, (g.sampler maxDepth).sample chooser state = .error ⟨place, .noStartSymbol⟩) ↔
      g.start = none) := by
  have hLinked := h.linked
  refine ⟨fun name => ⟨hLinked.exists_sampleFrom_iff, ?_, fun e => hLinked.sampleFrom_eq_error_iff⟩,
    fun start hStart => hLinked.sample_eq_sampleFrom hStart, hLinked.sample_ne_unknownSymbol,
    hLinked.sample_eq_noStartSymbol_iff⟩
  intro tree after hOk
  have hAnswers := hLinked.answers_sampleFrom maxDepth chooser name state
  rw [hOk] at hAnswers
  cases hAnswers with
  | sentence hSpells hKind hDerives =>
      obtain ⟨words, hWords, hSentence⟩ := hDerives.complete.exists_sentence
      exact ⟨⟨_, _, words, hSpells, hKind, hDerives, hWords, hSentence⟩,
        Sampler.allowed_ne_nil_of_sampleFrom hOk hDerives.complete⟩

/-- The grammar of nested pairs, in which one alternative of `s` leads back to `s`. -/
def pairs : Grammar := (ofFile ⟨""⟩).afterAll
  [.symbols (.nonterminal "s" 1), .symbols (.mention "a" 1), .symbols (.mention "b" 1),
    .symbols (.rule "s" ["a", "s", "b"] 1), .symbols (.rule "s" ["a", "b"] 1),
    .symbols (.define "s" 1), .symbols (.terminal "a" 2), .symbols (.terminal "b" 2), .start "s" 3]

def firstChoice : Chooser Unit := ⟨fun _ h state => (⟨0, h⟩, state)⟩

def innermostPair : Derivation := .node ⟨0⟩ [.leaf ⟨1⟩, .leaf ⟨2⟩]

/-- What comes of always choosing the first alternative up to the second level. -/
def threePairs : Derivation :=
  .node ⟨0⟩ [.leaf ⟨1⟩, .node ⟨0⟩ [.leaf ⟨1⟩, innermostPair, .leaf ⟨2⟩], .leaf ⟨2⟩]

/-- The first alternative is allowed on the first two levels and not on the third. -/
theorem sampleFrom_pairs :
    (pairs.sampler 2).sampleFrom firstChoice "s" () = .ok (threePairs, ()) := by cbv

/-- Three pairs nested in each other are derived, and printed as six words. The innermost one is
expanded at the depth limit, where there still is an alternative. -/
theorem sampling_complete_pairs : pairs.Reachable ∧
    (pairs.sampler 2).sampleFrom firstChoice "s" () = .ok (threePairs, ()) ∧
    (∃ id s, pairs.symbols.Spells "s" id s ∧ s.isNonterminal = true ∧
      pairs.symbols.Derives id threePairs) ∧
    threePairs.Yields pairs.symbols ["a", "a", "a", "b", "b", "b"] ∧
    threePairs.sentence pairs.symbols = "a a a b b b" ∧
    ∀ s, pairs.symbols.symbol? ⟨0⟩ = some s → s.isTerminal = false →
      s.rules.filter ((pairs.sampler 2).allows ⟨0⟩ 0 2) ≠ [] := by
  have hReachable : pairs.Reachable := ⟨_, _, rfl⟩
  obtain ⟨-, hTree, -⟩ := (hReachable.sampling_complete 2 firstChoice ()).1 "s"
  obtain ⟨⟨id, s, words, hSpells, hKind, hDerives, hWords, hSentence⟩, hAllowed⟩ :=
    hTree threePairs () sampleFrom_pairs
  have hNames : words = ["a", "a", "a", "b", "b", "b"] :=
    hWords.names_leaves.symm.trans (by decide +kernel)
  subst hNames
  have hInnermost : threePairs.Contains 2 2 innermostPair :=
    .child [.leaf ⟨1⟩] [.leaf ⟨2⟩] (.child [.leaf ⟨1⟩] [.leaf ⟨2⟩] (.root _))
  exact ⟨hReachable, sampleFrom_pairs, ⟨id, s, hSpells, hKind, hDerives⟩, hWords,
    hSentence.trans (by decide), fun s => hAllowed 2 2 innermostPair s hInnermost⟩

end Grammar

end GrammarCheck
