import GrammarCheck.Proofs.Ranking.Later
import GrammarCheck.Proofs.Sampler.Lowest

/-! Sampling from a grammar that has grown since its ranks were found. Every symbol with a rank
still has the alternative that gave it the rank. Of what has come to the grammar since, alternatives
of ranked symbols may be chosen as well, and all others are left out. So the earlier ranks lead to
complete derivations of the later grammar. -/

namespace GrammarCheck

namespace SymbolTable

variable {t later : SymbolTable} {name : String} {id : SymbolId} {s : Symbol}

/-- A name goes on spelling the same symbol. -/
theorem Extends.spells (h : t.Extends later) (hSpells : t.Spells name id s) :
    ∃ s', later.Spells name id s' ∧ s.Grows s' := by
  obtain ⟨hSymbol, hName⟩ := hSpells
  obtain ⟨s', hLater, hGrows⟩ := h.symbols id s hSymbol
  exact ⟨s', ⟨hLater, hGrows.name_eq.trans hName⟩, hGrows⟩

end SymbolTable

namespace Ranking

variable {t later : SymbolTable} {name : String} {id : SymbolId} {s : Symbol} {n : Nat}

/-- A table that bears out some ranks still does so when it has grown. -/
theorem Supports.of_extends {r : Ranking} (h : r.Supports t) (hExtends : t.Extends later) :
    r.Supports later := by
  intro id n hRank
  obtain ⟨s, hSymbol, hKind⟩ := h id n hRank
  obtain ⟨s', hLater, hGrows⟩ := hExtends.symbols id s hSymbol
  refine ⟨s', hLater, ?_⟩
  rcases hKind with hTerminal | ⟨hNonterminal, rule, hRule, hLower⟩
  · exact .inl (hGrows.isTerminal hTerminal)
  · have hKept : rule ∈ s'.rules := hGrows.rules_prefix.subset hRule
    exact .inr ⟨hGrows.isNonterminal hNonterminal, rule, hKept, hLower⟩

/-- A nonterminal with a rank was there under its name when the ranks were found, and it was a
nonterminal then. -/
theorem exists_spells_of_extends (h : t.Extends later) (hRank : (ofTable t).rank? id = some n)
    (hSpells : later.Spells name id s) (hNonterminal : s.isNonterminal = true) :
    ∃ s', t.Spells name id s' ∧ s'.isNonterminal = true := by
  obtain ⟨hLater, hName⟩ := hSpells
  obtain ⟨s', hSymbol, hKind⟩ := (derivesWithin_of_rank? hRank).symbol
  obtain ⟨grown, hGrown, hGrows⟩ := h.symbols id s' hSymbol
  cases hLater.symm.trans hGrown
  refine ⟨s', ⟨hSymbol, hGrows.name_eq.symm.trans hName⟩, hKind.resolve_left fun hTerminal => ?_⟩
  have hSettled := hGrows.isTerminal hTerminal
  rw [Symbol.not_isTerminal_of_isNonterminal hNonterminal] at hSettled
  cases hSettled

end Ranking

namespace Grammar

variable {σ : Type} {g : Grammar} {es : List GrammarEdit} {maxDepth : Nat} {chooser : Chooser σ}
  {name : String} {state after : σ} {tree : Derivation}

/-- The sampler of a grammar after some edits, with the ranks from before them. -/
def laterSampler (g : Grammar) (es : List GrammarEdit) (maxDepth : Nat) : Sampler :=
  ⟨g.afterAll es, .ofTable g.symbols, maxDepth⟩

namespace Reachable

/-- Ranks from an earlier grammar are still borne out by the later one. -/
theorem supports_laterSampler (h : g.Reachable) (es : List GrammarEdit) (maxDepth : Nat) :
    (g.laterSampler es maxDepth).ranking.Supports (g.laterSampler es maxDepth).grammar.symbols :=
  (Ranking.supports_ofTable g.symbols).of_extends (extends_afterAll h.lawful es)

/-- Edits cost no name its sentences: there are sentences from all names of nonterminals that had a
rank before, and only from them. -/
theorem exists_laterSampler_iff (h : g.Reachable) :
    (∃ outcome, (g.laterSampler es maxDepth).sampleFrom chooser name state = .ok outcome) ↔
      ∃ id s, g.symbols.Spells name id s ∧ s.isNonterminal = true ∧
        (Ranking.ofTable g.symbols).rank? id ≠ none := by
  have hExtends := extends_afterAll h.lawful es
  have hIndexed : (g.laterSampler es maxDepth).grammar.symbols.Indexed :=
    (h.linked.afterAll es).indexed
  constructor
  · rintro ⟨⟨tree, after⟩, hOk⟩
    obtain ⟨id, s, hFind, hNonterminal, hRanked, -⟩ := Sampler.exists_of_sampleFrom hOk
    obtain ⟨n, hRank⟩ := Option.isSome_iff_exists.1 hRanked
    have hSpells : (g.afterAll es).symbols.Spells name id s := hIndexed.find?_eq_some_iff.1 hFind
    obtain ⟨s', hBefore, hKind⟩ :=
      Ranking.exists_spells_of_extends hExtends hRank hSpells hNonterminal
    exact ⟨id, s', hBefore, hKind, Option.ne_none_iff_exists'.2 ⟨n, hRank⟩⟩
  · rintro ⟨id, s, hSpells, hNonterminal, hRanked⟩
    obtain ⟨s', hLater, hGrows⟩ := hExtends.spells hSpells
    exact ⟨_, Sampler.sampleFrom_of_productive hIndexed hLater (hGrows.isNonterminal hNonterminal)
      (Option.isSome_iff_ne_none.2 hRanked)⟩

/-- Ranks found earlier stay safe to sample with, whatever edits come later, accepted or refused,
and however the choices fall. Every nonterminal that had a rank still has sentences, each of them
what a complete derivation of the later grammar yields, and wherever a symbol other than a word is
expanded there are alternatives to choose from. -/
theorem sampling_afterAll (h : g.Reachable) (es : List GrammarEdit) (maxDepth : Nat)
    (chooser : Chooser σ) (name : String) (state : σ) :
    ((∃ outcome, (g.laterSampler es maxDepth).sampleFrom chooser name state = .ok outcome) ↔
      ∃ id s, g.symbols.Spells name id s ∧ s.isNonterminal = true ∧
        (Ranking.ofTable g.symbols).rank? id ≠ none) ∧
    ∀ tree after, (g.laterSampler es maxDepth).sampleFrom chooser name state = .ok (tree, after) →
      (∃ id s words, (g.afterAll es).symbols.Spells name id s ∧ s.isNonterminal = true ∧
        (g.afterAll es).symbols.Derives id tree ∧ tree.Yields (g.afterAll es).symbols words ∧
        tree.sentence (g.afterAll es).symbols = " ".intercalate words) ∧
      ∀ depth words subtree s, tree.Contains depth words subtree →
        (g.afterAll es).symbols.symbol? subtree.root = some s → s.isTerminal = false →
          s.rules.filter ((g.laterSampler es maxDepth).allows subtree.root (maxDepth - depth) words)
            ≠ [] := by
  refine ⟨h.exists_laterSampler_iff, fun tree after hOk => ?_⟩
  obtain ⟨id, s, hFind, hNonterminal, hRanked, rfl⟩ := Sampler.exists_of_sampleFrom hOk
  have hSpells : (g.afterAll es).symbols.Spells name id s :=
    (h.linked.afterAll es).indexed.find?_eq_some_iff.1 hFind
  have hDerives : (g.afterAll es).symbols.Derives id
      ((g.laterSampler es maxDepth).expand chooser maxDepth id 0 state).derived :=
    Sampler.derives_expand (h.supports_laterSampler es maxDepth) hRanked maxDepth 0 state
  obtain ⟨words, hWords, hSentence⟩ := hDerives.complete.exists_sentence
  exact ⟨⟨id, s, words, hSpells, hNonterminal, hDerives, hWords, hSentence⟩,
    Sampler.allowed_ne_nil_of_sampleFrom hOk hDerives.complete⟩

end Reachable

/-- A grammar in which `x` is still open and so has no rank. -/
def halfKnown : Grammar := (ofFile ⟨""⟩).afterAll
  [.symbols (.nonterminal "s" 1), .symbols (.mention "w" 1), .symbols (.mention "x" 1),
    .symbols (.rule "s" ["x", "s"] 1), .symbols (.rule "s" ["w"] 1), .symbols (.terminal "w" 2)]

/-- Edits that settle `x`, enter a symbol beyond the ranks and give `s` two more alternatives. One
of them is refused. -/
def amendments : List GrammarEdit :=
  [.symbols (.nonterminal "x" 3), .symbols (.rule "x" ["w"] 3), .symbols (.terminal "s" 4),
    .symbols (.rule "s" ["s", "s"] 5), .symbols (.nonterminal "y" 6), .symbols (.rule "s" ["y"] 6)]

def lastChoice : Chooser Unit := ⟨fun n h state => (⟨n - 1, Nat.sub_lt h Nat.one_pos⟩, state)⟩

/-- What comes of always choosing the last of the choices with one free level. The last alternative
of `s` is none of them, since `y` has no rank, but the one before it is new as well. -/
def twoWords : Derivation := .node ⟨0⟩ [.node ⟨0⟩ [.leaf ⟨1⟩], .node ⟨0⟩ [.leaf ⟨1⟩]]

/-- The later sampler takes the new alternative of `s` and leaves out the one without a rank. -/
theorem sampling_afterAll_halfKnown : halfKnown.Reachable ∧
    (halfKnown.laterSampler amendments 1).sampleFrom lastChoice "s" () = .ok (twoWords, ()) ∧
    (∃ id s, halfKnown.symbols.Spells "s" id s ∧ s.isNonterminal = true ∧
      (Ranking.ofTable halfKnown.symbols).rank? id ≠ none) ∧
    (∃ id s, (halfKnown.afterAll amendments).symbols.Spells "s" id s ∧ s.isNonterminal = true ∧
      (halfKnown.afterAll amendments).symbols.Derives id twoWords) ∧
    twoWords.Yields (halfKnown.afterAll amendments).symbols ["w", "w"] ∧
    twoWords.sentence (halfKnown.afterAll amendments).symbols = "w w" ∧
    ∀ s, (halfKnown.afterAll amendments).symbols.symbol? ⟨0⟩ = some s → s.isTerminal = false →
      s.rules.filter ((halfKnown.laterSampler amendments 1).allows ⟨0⟩ 0 1) ≠ [] := by
  have hReachable : halfKnown.Reachable := ⟨_, _, rfl⟩
  have hOk : (halfKnown.laterSampler amendments 1).sampleFrom lastChoice "s" () =
      .ok (twoWords, ()) := by cbv
  obtain ⟨hRanked, hTree⟩ := hReachable.sampling_afterAll amendments 1 lastChoice "s" ()
  obtain ⟨⟨id, s, words, hSpells, hKind, hDerives, hWords, hSentence⟩, hAllowed⟩ :=
    hTree twoWords () hOk
  have hNames : words = ["w", "w"] := hWords.names_leaves.symm.trans (by decide +kernel)
  subst hNames
  have hSecond : twoWords.Contains 1 1 (.node ⟨0⟩ [.leaf ⟨1⟩]) :=
    .child [.node ⟨0⟩ [.leaf ⟨1⟩]] [] (.root _)
  exact ⟨hReachable, hOk, hRanked.1 ⟨_, hOk⟩, ⟨id, s, hSpells, hKind, hDerives⟩, hWords,
    hSentence.trans (by decide), fun s => hAllowed 1 1 _ s hSecond⟩

end Grammar

end GrammarCheck
