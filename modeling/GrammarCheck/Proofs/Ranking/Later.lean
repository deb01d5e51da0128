import GrammarCheck.Proofs.Grammar.Reachable
import GrammarCheck.Proofs.Ranking.Least

/-! The ranks of a grammar that goes on growing. A table that says more allows every derivation that
was complete before, so no symbol loses its rank and no rank goes up, in however many passes the
ranks of either table are found. -/

namespace GrammarCheck

/-- What a symbol is settled as does not change any more. -/
theorem Symbol.Grows.kind_eq_of_settled {s later : Symbol} (h : s.Grows later) {kind : SymbolKind}
    (hKind : s.kind = kind) (hSettled : kind ≠ .unresolved) : later.kind = kind :=
  (h.kind_eq (hKind ▸ hSettled)).trans hKind

theorem Symbol.Grows.isTerminal {s later : Symbol} (h : s.Grows later)
    (hTerminal : s.isTerminal = true) : later.isTerminal = true :=
  decide_eq_true (h.kind_eq_of_settled (of_decide_eq_true hTerminal) SymbolKind.noConfusion)

theorem Symbol.Grows.isNonterminal {s later : Symbol} (h : s.Grows later)
    (hNonterminal : s.isNonterminal = true) : later.isNonterminal = true :=
  decide_eq_true (h.kind_eq_of_settled (of_decide_eq_true hNonterminal) SymbolKind.noConfusion)

namespace SymbolTable

variable {t later : SymbolTable} {id : SymbolId}

/-- A complete derivation stays complete. The induction is on the tree: its terminals stay
terminals, and the alternatives that its inner nodes spell are still there. -/
theorem Extends.complete (h : t.Extends later) {tree : Derivation} (hTree : tree.Complete t) :
    tree.Complete later := by
  induction hTree with
  | leaf hSymbol hTerminal =>
      obtain ⟨s', hLater, hGrows⟩ := h.symbols _ _ hSymbol
      exact .leaf hLater (hGrows.isTerminal hTerminal)
  | node hSymbol hNonterminal hRule hRoots hChildren ih =>
      obtain ⟨s', hLater, hGrows⟩ := h.symbols _ _ hSymbol
      exact .node hLater (hGrows.isNonterminal hNonterminal) (hGrows.rules_prefix.subset hRule)
        hRoots ih

/-- What could be derived can still be derived when the table has grown. -/
theorem Extends.derives (h : t.Extends later) {tree : Derivation} (hTree : t.Derives id tree) :
    later.Derives id tree :=
  ⟨h.complete hTree.complete, hTree.root_eq⟩

theorem Extends.derivesWithin (h : t.Extends later) {n : Nat} (hWithin : t.DerivesWithin n id) :
    later.DerivesWithin n id := by
  obtain ⟨tree, hTree, hHeight⟩ := hWithin
  exact ⟨tree, h.derives hTree, hHeight⟩

end SymbolTable

namespace Ranking

variable {t later : SymbolTable} {id : SymbolId} {n : Nat}

/-- A rank is the height of a derivation that exists. -/
theorem derivesWithin_of_rank? (h : (ofTable t).rank? id = some n) : t.DerivesWithin n id :=
  (SymbolTable.derivesWithin_of_least (rank?_ofTable_iff.1 h)).2 (Nat.le_refl n)

/-- In a later table every rank is still there, and none is higher. -/
theorem exists_rank?_le_of_extends (h : t.Extends later) (hRank : (ofTable t).rank? id = some n) :
    ∃ m ≤ n, (ofTable later).rank? id = some m := by
  obtain ⟨m, hLe, hLeast⟩ :=
    SymbolTable.exists_least_height (h.derivesWithin (derivesWithin_of_rank? hRank))
  exact ⟨m, hLe, rank?_ofTable_iff.2 hLeast⟩

/-- Rank zero is that of the terminals. -/
theorem rank?_eq_zero_iff {s : Symbol} (hSymbol : t.symbol? id = some s) :
    (ofTable t).rank? id = some 0 ↔ s.isTerminal = true := by
  have hZero : t.DerivesWithin 0 id ↔ ∃ s, t.symbol? id = some s ∧ s.isTerminal = true :=
    SymbolTable.derivesWithin_zero_iff
  constructor
  · intro hRank
    obtain ⟨s', hSymbol', hTerminal⟩ := hZero.1 (derivesWithin_of_rank? hRank)
    cases hSymbol.symm.trans hSymbol'
    exact hTerminal
  · intro hTerminal
    obtain ⟨m, hLe, hLeast⟩ := SymbolTable.exists_least_height (hZero.2 ⟨s, hSymbol, hTerminal⟩)
    cases Nat.le_zero.1 hLe
    exact rank?_ofTable_iff.2 hLeast

/-- A symbol that has a rank is a terminal later on exactly if it is one already. -/
theorem isTerminal_eq_of_extends (h : t.Extends later) {s s' : Symbol}
    (hRank : (ofTable t).rank? id = some n) (hSymbol : t.symbol? id = some s)
    (hLater : later.symbol? id = some s') : s'.isTerminal = s.isTerminal := by
  obtain ⟨grown, hGrown, hGrows⟩ := h.symbols id s hSymbol
  cases hLater.symm.trans hGrown
  obtain ⟨other, hOther, hKind⟩ := (derivesWithin_of_rank? hRank).symbol
  cases hSymbol.symm.trans hOther
  rcases hKind with hTerminal | hNonterminal
  · rw [hTerminal, hGrows.isTerminal hTerminal]
  · rw [Symbol.not_isTerminal_of_isNonterminal hNonterminal,
      Symbol.not_isTerminal_of_isNonterminal (hGrows.isNonterminal hNonterminal)]

end Ranking

namespace Grammar

variable {g : Grammar}

/-- Whatever edits come later, accepted or refused, each symbol with a rank keeps one that is not
higher. Symbols with a rank that are terminals before or afterwards have rank zero both times. -/
theorem Reachable.rank?_afterAll (h : g.Reachable) (es : List GrammarEdit) {id : SymbolId} {n : Nat}
    (hRank : (Ranking.ofTable g.symbols).rank? id = some n) :
    ∃ m ≤ n, (Ranking.ofTable (g.afterAll es).symbols).rank? id = some m ∧
      ∀ s, g.symbols.symbol? id = some s ∨ (g.afterAll es).symbols.symbol? id = some s →
        s.isTerminal = true → n = 0 ∧ m = 0 := by
  have hExtends := extends_afterAll h.lawful es
  obtain ⟨m, hLe, hLater⟩ := Ranking.exists_rank?_le_of_extends hExtends hRank
  refine ⟨m, hLe, hLater, fun s hSymbol hTerminal => ?_⟩
  obtain ⟨before, hBefore, -⟩ := (Ranking.derivesWithin_of_rank? hRank).symbol
  have hZero : before.isTerminal = true := by
    rcases hSymbol with hSame | hAfter
    · cases hBefore.symm.trans hSame
      exact hTerminal
    · rw [← Ranking.isTerminal_eq_of_extends hExtends hRank hBefore hAfter, hTerminal]
  rw [(Ranking.rank?_eq_zero_iff hBefore).2 hZero] at hRank
  cases hRank
  exact ⟨rfl, Nat.le_zero.1 hLe⟩

/-- A nonterminal that derives a word only through another one. -/
def detour : Grammar := (ofFile ⟨""⟩).afterAll
  [.symbols (.nonterminal "s" 1), .symbols (.nonterminal "t" 1), .symbols (.mention "w" 1),
    .symbols (.rule "s" ["t"] 1), .symbols (.rule "t" ["w"] 2), .symbols (.terminal "w" 3)]

/-- The detour ends when `s` gets the word as an alternative of its own, and the rank of `s`
falls. -/
theorem rank?_afterAll_detour :
    (Ranking.ofTable detour.symbols).rank? ⟨0⟩ = some 2 ∧
      ∃ m ≤ 2, (Ranking.ofTable (detour.afterAll
          [.symbols (.nonterminal "w" 4), .symbols (.rule "s" ["w"] 4)]).symbols).rank? ⟨0⟩ =
            some m ∧
        ∀ s, detour.symbols.symbol? ⟨0⟩ = some s ∨ (detour.afterAll
            [.symbols (.nonterminal "w" 4), .symbols (.rule "s" ["w"] 4)]).symbols.symbol? ⟨0⟩ =
              some s → s.isTerminal = true → 2 = 0 ∧ m = 0 := by
  have hReachable : detour.Reachable := ⟨_, _, rfl⟩
  have hRank : (Ranking.ofTable detour.symbols).rank? ⟨0⟩ = some 2 := by decide +kernel
  exact ⟨hRank, hReachable.rank?_afterAll _ hRank⟩

end Grammar

end GrammarCheck
