import GrammarCheck.Proofs.Ranking.Stage

/-! The ranks of a table are the least heights of derivations. A rank is never above the number of
nonterminals, since each height below it is the rank of some other nonterminal. So there are passes
enough. -/

namespace GrammarCheck.SymbolTable

variable {t : SymbolTable}

/-- Below a least height there is no gap: each height from one on is the least one of some
nonterminal. The induction is on the least height; a lowest derivation of height `n + 1` has a
subtree whose symbol has the least height `n`. -/
theorem exists_nonterminal_of_le {m : Nat} {id : SymbolId} (hLeast : IsLeast (t.heights id) m)
    {n : Nat} (hPos : 0 < n) (hLe : n ≤ m) :
    ∃ id s, (id, s) ∈ t.nonterminals ∧ IsLeast (t.heights id) n := by
  induction m generalizing id with
  | zero => omega
  | succ m ih =>
      obtain ⟨s, hSymbol, hKind⟩ := ((derivesWithin_of_least hLeast).2 (Nat.le_refl _)).symbol
      have hNonterminal : s.isNonterminal = true := by
        rcases hKind with hTerminal | hNonterminal
        · have hZero := derivesWithin_zero_iff.2 ⟨s, hSymbol, hTerminal⟩
          have hLow := (derivesWithin_of_least hLeast).1 hZero
          omega
        · exact hNonterminal
      rcases Nat.lt_or_eq_of_le hLe with hLt | rfl
      · obtain ⟨rule, hMem, hChildren⟩ := (derivesWithin_succ_iff hSymbol hNonterminal).1
          ((derivesWithin_of_least hLeast).2 (Nat.le_refl _))
        have hHigh : ∃ child ∈ rule.symbols, ¬ t.DerivesWithin (m - 1) child := by
          by_contra hNone
          push Not at hNone
          have hWithin := (derivesWithin_succ_iff hSymbol hNonterminal).2 ⟨rule, hMem, hNone⟩
          have hLow := (derivesWithin_of_least hLeast).1 hWithin
          omega
        obtain ⟨child, hChild, hNot⟩ := hHigh
        obtain ⟨k, hK, hChildLeast⟩ := exists_least_height (hChildren child hChild)
        have hEq : k = m := by
          by_contra hNe
          exact hNot ((derivesWithin_of_least hChildLeast).2 (by omega))
        exact ih (hEq ▸ hChildLeast) (by omega)
      · exact ⟨id, s, mem_nonterminals.2 ⟨hSymbol, hNonterminal⟩, hLeast⟩

/-- A lowest derivation is not higher than there are nonterminals. -/
theorem least_height_le_nonterminals {m : Nat} {id : SymbolId}
    (hLeast : IsLeast (t.heights id) m) : m ≤ t.nonterminals.length := by
  let ranks := t.nonterminals.filterMap fun entry => (Ranking.stage t m).rank? entry.1
  have hSubset : List.range' 1 m ⊆ ranks := by
    intro n hMem
    have hBounds := List.mem_range'_1.1 hMem
    obtain ⟨other, s, hNonterminal, hOther⟩ :=
      exists_nonterminal_of_le hLeast (n := n) (by omega) (by omega)
    exact List.mem_filterMap.2 ⟨(other, s), hNonterminal,
      (Ranking.exactTo_stage t m other n).2 ⟨hOther, by omega⟩⟩
  calc
    m = (List.range' 1 m).length := List.length_range'.symm
    _ ≤ ranks.length := (List.subperm_of_subset List.nodup_range' hSubset).length_le
    _ ≤ t.nonterminals.length := List.length_filterMap_le _ _

end GrammarCheck.SymbolTable

namespace GrammarCheck.Ranking

variable {t : SymbolTable}

/-- The rank of a symbol is the least height of a derivation from it. -/
theorem rank?_ofTable_iff {id : SymbolId} {n : Nat} :
    (ofTable t).rank? id = some n ↔ IsLeast (t.heights id) n := by
  rw [ofTable_eq_stage, exactTo_stage]
  constructor
  · exact And.left
  · intro hLeast
    exact ⟨hLeast, SymbolTable.least_height_le_nonterminals hLeast⟩

/-- A symbol is without a rank exactly when nothing can be derived from it. -/
theorem rank?_ofTable_eq_none_iff {id : SymbolId} :
    (ofTable t).rank? id = none ↔ ¬ t.Productive id := by
  constructor
  · rintro hNone ⟨tree, hTree⟩
    obtain ⟨n, -, hLeast⟩ :=
      SymbolTable.exists_least_height ⟨tree, hTree, Nat.le_refl tree.height⟩
    rw [rank?_ofTable_iff.2 hLeast] at hNone
    cases hNone
  · intro hNone
    cases hRank : (ofTable t).rank? id with
    | none => rfl
    | some n =>
        obtain ⟨⟨tree, hTree, -⟩, -⟩ := rank?_ofTable_iff.1 hRank
        exact absurd ⟨tree, hTree⟩ hNone

/-- Productive according to the ranks is what has a finite derivation. -/
theorem isProductive_ofTable_iff {id : SymbolId} :
    (ofTable t).isProductive id = true ↔ t.Productive id := by
  rw [isProductive, Option.isSome_iff_ne_none, ne_eq, rank?_ofTable_eq_none_iff, not_not]

/-- Rankings of one size are told apart by their ranks. -/
theorem eq_of_rank?_eq {r r' : Ranking} (hSize : r.ranks.size = r'.ranks.size)
    (h : ∀ id, r.rank? id = r'.rank? id) : r = r' := by
  rw [mk.injEq]
  apply Array.ext hSize
  intro i hLeft hRight
  simpa [rank?, Array.getElem?_eq_getElem hLeft, Array.getElem?_eq_getElem hRight] using h ⟨i⟩

theorem size_ranks_stage (t : SymbolTable) (n : Nat) :
    (stage t n).ranks.size = t.symbols.size := by
  cases n <;> simp [stage, base, extend]

/-- The passes are never cut short: another one finds nothing new. -/
theorem extend_ofTable (n : Nat) : extend t n (ofTable t) = ofTable t := by
  refine extend_eq_self (n := t.nonterminals.length + 1) ?_ n
  rw [ofTable_eq_stage, ← stage]
  apply eq_of_rank?_eq
  · rw [size_ranks_stage, size_ranks_stage]
  · intro id
    ext m
    rw [exactTo_stage, exactTo_stage]
    constructor
    · rintro ⟨hLeast, -⟩
      exact ⟨hLeast, SymbolTable.least_height_le_nonterminals hLeast⟩
    · rintro ⟨hLeast, hLe⟩
      exact ⟨hLeast, Nat.le_succ_of_le hLe⟩

/-- A symbol has a rank exactly when it has a finite derivation, and its rank is the least height of
one. The rank of an alternative is missing exactly when a symbol in it has no derivation. -/
theorem rank?_eq_least_height (t : SymbolTable) :
    (∀ id n, (ofTable t).rank? id = some n ↔
      (∃ tree, t.Derives id tree ∧ tree.height = n) ∧
        ∀ tree, t.Derives id tree → n ≤ tree.height) ∧
    (∀ id, (ofTable t).rank? id = none ↔ ¬ ∃ tree, t.Derives id tree) ∧
    (∀ n, extend t n (ofTable t) = ofTable t) ∧
    ∀ rule, (ofTable t).ruleRank? rule = none ↔
      ∃ id ∈ rule.symbols, ¬ ∃ tree, t.Derives id tree := by
  refine ⟨?_, fun id => rank?_ofTable_eq_none_iff, extend_ofTable, ?_⟩
  · intro id n
    rw [rank?_ofTable_iff]
    constructor
    · rintro ⟨hMem, hLower⟩
      exact ⟨hMem, fun tree hTree => hLower ⟨tree, hTree, rfl⟩⟩
    · rintro ⟨hMem, hLower⟩
      refine ⟨hMem, ?_⟩
      rintro m ⟨tree, hTree, rfl⟩
      exact hLower tree hTree
  · intro rule
    rw [ruleRank?, highest?_eq_none_iff]
    simp only [rank?_ofTable_eq_none_iff, SymbolTable.Productive]

end GrammarCheck.Ranking
