import GrammarCheck.Proofs.Source.Report

/-! A grammar without its ids and lines: the names of each kind, and the alternatives and the rank
of a name. In a grammar that was read, all of these are told by the text. -/

namespace GrammarCheck

namespace Grammar

def namesOf (g : Grammar) (kind : SymbolKind) : List String :=
  (g.symbols.toList.filter (·.2.kind = kind)).map (·.2.name)

def alternativesOf (g : Grammar) (name : String) : List (List String) :=
  match g.symbols.find? name with
  | some (_, s) => s.rules.map fun rule => rule.symbols.map g.symbols.name
  | none => []

def rankOf? (g : Grammar) (name : String) : Option Nat :=
  (g.symbols.get? name).bind (Ranking.ofTable g.symbols).rank?

end Grammar

/-- The least height of a derivation is the least one that a derivation keeps within. -/
theorem SymbolTable.isLeast_heights_iff {t : SymbolTable} {id : SymbolId} {m : Nat} :
    IsLeast (t.heights id) m ↔ IsLeast {n | t.DerivesWithin n id} m := by
  constructor
  · intro hLeast
    exact ⟨(derivesWithin_of_least hLeast).2 (Nat.le_refl m),
      fun n hWithin => (derivesWithin_of_least hLeast).1 hWithin⟩
  · rintro ⟨hWithin, hLower⟩
    obtain ⟨k, hLe, hLeast⟩ := exists_least_height hWithin
    have hGe : m ≤ k := hLower ((derivesWithin_of_least hLeast).2 (Nat.le_refl k))
    exact Nat.le_antisymm hLe hGe ▸ hLeast

/-- A name in a construct is declared there, heads a rule there, or is used there. -/
theorem Construct.mem_names_idents_iff {c : Construct} {name : String} :
    name ∈ Ident.names c.idents ↔
      name ∈ Ident.names c.tokens ∨ name ∈ Ident.names c.headers ∨ name ∈ Ident.names c.starts ∨
        name ∈ Ident.names c.references := by
  cases c <;> simp [idents, occurrences, tokens, headers, starts, references, Ident.names,
    Function.comp_def]

namespace Source

variable {source : Source} {name : String}

/-- A name derives a string of terminals by a derivation that is not higher than `n`. -/
inductive DerivesWithin (source : Source) : Nat → String → Prop where
  | terminal {n : Nat} {name : String} (hToken : name ∈ Ident.names source.tokens) :
      DerivesWithin source n name
  | rule {n : Nat} {name : String} {a : Alternative}
      (hAlternative : a ∈ source.alternatives name)
      (hSymbols : ∀ symbol ∈ Ident.names a.toList, DerivesWithin source n symbol) :
      DerivesWithin source (n + 1) name

/-- A name stands in a text as a terminal, as a header, as a start symbol or in an alternative. -/
theorem mem_names_idents_iff :
    name ∈ Ident.names source.idents ↔
      name ∈ Ident.names source.tokens ∨ name ∈ Ident.names source.headers ∨
        name ∈ Ident.names source.starts ∨ name ∈ Ident.names source.references := by
  simp only [idents, tokens, headers, starts, references, mem_names_flatMap,
    Construct.mem_names_idents_iff, and_or_left, exists_or]

theorem DerivesWithin.mem_idents {n : Nat} (h : source.DerivesWithin n name) :
    name ∈ Ident.names source.idents := by
  cases h with
  | terminal hToken => exact mem_names_idents_iff.2 (.inl hToken)
  | rule hAlternative _ =>
      exact mem_idents_of_mem_names_headers (mem_headers_of_mem_alternatives hAlternative)

/-- Without a level above the words only declared terminals derive anything. -/
theorem derivesWithin_zero_iff :
    source.DerivesWithin 0 name ↔ name ∈ Ident.names source.tokens := by
  constructor
  · rintro ⟨hToken⟩
    exact hToken
  · exact .terminal

/-- Only a terminal derives something without one of its alternatives. -/
theorem derivesWithin_succ_iff {n : Nat} (hToken : name ∉ Ident.names source.tokens) :
    source.DerivesWithin (n + 1) name ↔
      ∃ a ∈ source.alternatives name, ∀ symbol ∈ Ident.names a.toList,
        source.DerivesWithin n symbol := by
  constructor
  · intro h
    cases h with
    | terminal hMem => exact absurd hMem hToken
    | @rule _ _ a hAlternative hSymbols => exact ⟨a, hAlternative, hSymbols⟩
  · rintro ⟨a, hAlternative, hSymbols⟩
    exact .rule hAlternative hSymbols

namespace Writes

variable {file : FileName} {g : Grammar}

/-- The names of a kind in the grammar are the names of that kind in the text. -/
theorem mem_namesOf_iff (h : source.Writes file g) {kind : SymbolKind} :
    name ∈ g.namesOf kind ↔ name ∈ Ident.names source.idents ∧ source.kind name = kind := by
  rw [Grammar.namesOf, h.toList_eq, List.filter_map, List.map_map, List.mem_map]
  constructor
  · rintro ⟨x, hMem, rfl⟩
    obtain ⟨hFirst, hKind⟩ := List.mem_filter.1 hMem
    exact ⟨mem_idents_of_mem_firsts hFirst, of_decide_eq_true hKind⟩
  · rintro ⟨hKnown, hKind⟩
    obtain ⟨x, hFirst, rfl⟩ := exists_first hKnown
    exact ⟨x, List.mem_filter.2 ⟨hFirst, decide_eq_true hKind⟩, rfl⟩

/-- The alternatives of a name in the grammar are those in the text, in the same order. -/
theorem alternativesOf_eq (h : source.Writes file g) (name : String) :
    g.alternativesOf name = (source.alternatives name).map fun a => Ident.names a.toList := by
  by_cases hKnown : name ∈ Ident.names source.idents
  · obtain ⟨x, hFirst, rfl⟩ := exists_first hKnown
    have hFind : g.symbols.find? x.name = some (source.id x.name, source.symbol x) := by
      simp [SymbolTable.find?, h.get?, hKnown, h.symbol?_id hFirst]
    have hRules : (source.symbol x).rules = source.rules x.name := rfl
    rw [Grammar.alternativesOf, hFind]
    simp only [hRules, rules, List.map_map]
    refine List.map_congr_left fun a hAlternative => ?_
    rw [Function.comp_apply, List.map_map]
    exact List.map_congr_left fun y hMem =>
      h.name_id (mem_idents_of_mem_alternatives hAlternative hMem)
  · have hFind : g.symbols.find? name = none := by
      simp [SymbolTable.find?, h.get?, hKnown]
    have hNone : source.alternatives name = [] := by
      refine List.eq_nil_iff_forall_not_mem.2 fun a hAlternative => hKnown ?_
      exact mem_idents_of_mem_names_headers (mem_headers_of_mem_alternatives hAlternative)
    rw [Grammar.alternativesOf, hFind, hNone]
    rfl

/-- The table derives from a symbol as high as the text derives from its name. The induction is on
the height. -/
theorem derivesWithin_id_iff (h : source.Writes file g) (hClashes : ¬ source.Clashes) {n : Nat}
    (hKnown : name ∈ Ident.names source.idents) :
    g.symbols.DerivesWithin n (source.id name) ↔ source.DerivesWithin n name := by
  induction n generalizing name with
  | zero =>
      obtain ⟨x, hFirst, rfl⟩ := exists_first hKnown
      rw [SymbolTable.derivesWithin_zero_iff, derivesWithin_zero_iff, h.symbol?_id hFirst,
        ← kind_eq_terminal_iff]
      simp [Symbol.isTerminal, symbol]
  | succ n ih =>
      obtain ⟨x, hFirst, rfl⟩ := exists_first hKnown
      have hSymbol := h.symbol?_id hFirst
      by_cases hToken : x.name ∈ Ident.names source.tokens
      · have hLeaf := SymbolTable.Derives.of_terminal hSymbol (isTerminal_symbol hToken)
        exact ⟨fun _ => .terminal hToken, fun _ => ⟨_, hLeaf, Nat.zero_le _⟩⟩
      · have hTerminal : (source.symbol x).isTerminal ≠ true := fun hKind =>
          hToken (kind_eq_terminal_iff.1 (of_decide_eq_true hKind))
        rw [derivesWithin_succ_iff hToken]
        by_cases hOther : (source.symbol x).isNonterminal = true
        · rw [SymbolTable.derivesWithin_succ_iff hSymbol hOther]
          constructor
          · rintro ⟨rule, hRule, hChildren⟩
            obtain ⟨a, hAlternative, rfl⟩ := List.mem_map.1 hRule
            refine ⟨a, hAlternative, List.forall_mem_map.2 fun y hMem => ?_⟩
            exact (ih (mem_idents_of_mem_alternatives hAlternative hMem)).1
              (hChildren _ (List.mem_map_of_mem hMem))
          · rintro ⟨a, hAlternative, hSymbols⟩
            refine ⟨_, List.mem_map_of_mem hAlternative, List.forall_mem_map.2 fun y hMem => ?_⟩
            exact (ih (mem_idents_of_mem_alternatives hAlternative hMem)).2
              (hSymbols _ (List.mem_map_of_mem hMem))
        · -- a name that is only mentioned derives nothing in either
          constructor
          · intro hWithin
            obtain ⟨s, hSome, hKind⟩ := hWithin.symbol
            cases hSymbol.symm.trans hSome
            exact absurd hKind (not_or.2 ⟨hTerminal, hOther⟩)
          · rintro ⟨a, hAlternative, -⟩
            have hHeader := mem_headers_of_mem_alternatives hAlternative
            exact absurd ((isNonterminal_symbol hClashes).2 (.inl hHeader)) hOther

/-- The rank of a name is the least height of a derivation in the text. -/
theorem rankOf?_eq_some_iff (h : source.Writes file g) (hClashes : ¬ source.Clashes) {m : Nat} :
    g.rankOf? name = some m ↔ IsLeast {n | source.DerivesWithin n name} m := by
  by_cases hKnown : name ∈ Ident.names source.idents
  · rw [Grammar.rankOf?, h.get?, if_pos hKnown, Option.bind_some, Ranking.rank?_ofTable_iff,
      SymbolTable.isLeast_heights_iff]
    simp only [h.derivesWithin_id_iff hClashes hKnown]
  · rw [Grammar.rankOf?, h.get?, if_neg hKnown, Option.bind_none]
    exact ⟨fun hNone => (by cases hNone), fun hLeast => absurd hLeast.1.mem_idents hKnown⟩

end Writes

end Source

end GrammarCheck
