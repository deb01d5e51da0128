import GrammarCheck.Proofs.Grammar.Following
import GrammarCheck.Proofs.Grammar.Severity
import GrammarCheck.Proofs.Grammar.Verified
import GrammarCheck.Proofs.Sampler.Depth

/-! Nothing can go wrong inside. Whatever the text, alternatives and definitions are given to
nonterminals only, the index is as large as the table, and every id that is used later on is that of
a symbol. -/

namespace GrammarCheck.Grammar

variable {g : Grammar}

/-- Every id of a grammar is that of a symbol, and there is room for its rank in every pass. -/
structure InBounds (g : Grammar) : Prop where
  index : ∀ name id, g.symbols.get? name = some id → id.index < g.symbols.size
  rules : ∀ id s, g.symbols.symbol? id = some s → ∀ rule ∈ s.rules, ∀ child ∈ rule.symbols,
    child.index < g.symbols.size
  used : ∀ id ∈ g.used, id.index < g.symbols.size
  start : ∀ id, g.start = some id → id.index < g.symbols.size
  extraStarts : ∀ extra ∈ g.extraStarts, extra.symbol.index < g.symbols.size
  ranks : ∀ n id s, (id, s) ∈ g.symbols.toList →
    id.index < (Ranking.stage g.symbols n).ranks.size

/-- In a linked grammar with a lawful table no id points outside. -/
theorem Linked.inBounds (h : g.Linked) (hLawful : g.symbols.Lawful) : g.InBounds where
  index := by
    intro name id hGet
    obtain ⟨s, hSymbol, -⟩ := (h.indexed name id).1 hGet
    exact SymbolTable.lt_size_of_symbol? hSymbol
  rules := fun id s hSymbol => (hLawful.symbols id s hSymbol).inRange
  used := by
    intro id hUsed
    obtain ⟨⟨header, s⟩, hMem, hRules⟩ := List.mem_flatMap.1 hUsed
    obtain ⟨rule, hRule, hId⟩ := List.mem_flatMap.1 hRules
    have hSymbol := (SymbolTable.mem_nonterminals.1 hMem).1
    exact (hLawful.symbols header s hSymbol).inRange rule hRule id hId
  start := by
    intro id hStart
    obtain ⟨s, hSymbol⟩ := h.start id hStart
    exact SymbolTable.lt_size_of_symbol? hSymbol
  extraStarts := by
    intro extra hMem
    obtain ⟨s, hSymbol⟩ := h.extraStarts extra hMem
    exact SymbolTable.lt_size_of_symbol? hSymbol
  ranks := by
    intro n id s hMem
    rw [Ranking.size_ranks_stage]
    exact SymbolTable.lt_size_of_symbol? (SymbolTable.mem_toList.1 hMem)

/-- From any text on, nothing fails inside. Each call that reading makes on the table is allowed at
that moment: alternatives and definitions are for nonterminals, and alternatives are made of ids
that were handed out. Before and after each call the index has an entry for each symbol. All defects
of a text are fatal, and none of a grammar that was read is. All ids of such a grammar are in
bounds, and sampling from it needs no others. -/
theorem ofText_safe (file : FileName) (text : List Char) :
    (∀ before c id after, (Reader.ofText file text).log = before ++ (c, id) :: after →
      ∃ t, SymbolTable.History before t ∧ t.Allows before c ∧ (t.call c).1 = id ∧
        t.index.size = t.size ∧ (t.call c).2.index.size = (t.call c).2.size) ∧
    (Reader.ofText file text).grammar =
      ((ofFile file).takeAll (TokenStream.ofText text).endLine
        (Step.ofLexemes (TokenStream.ofText text).lexemes)).1 ∧
    (∀ defects, ofText file text = .error defects → ∀ d ∈ defects, d.cause.isFatal = true) ∧
    ∀ g, ofText file text = .ok g →
      (Reader.ofText file text).grammar = g ∧ g.InBounds ∧
      (∀ d ∈ g.report.defects, d.cause.isFatal = false) ∧
      ∀ (σ : Type) (maxDepth : Nat) (chooser : Chooser σ) (name : String) (state : σ),
        (g.sampler maxDepth).sampleWithin chooser
            (maxDepth + (Ranking.ofTable g.symbols).maxRank) name state =
          some ((g.sampler maxDepth).sampleFrom chooser name state) := by
  have hSound := Reader.sound_ofText file text
  refine ⟨?_, Reader.grammar_ofText file text, fun _ hError => isFatal_of_ofText hError, ?_⟩
  · intro before c id after hLog
    have hHistory := hSound.history
    rw [hLog] at hHistory
    obtain ⟨t, hBefore, hAllows, hId⟩ := hHistory.allows
    exact ⟨t, hBefore, hAllows, hId, hBefore.remembers.lawful.size_eq,
      (hBefore.call hAllows).remembers.lawful.size_eq⟩
  · intro g hRead
    have hGrammar := Reader.grammar_of_ofText hRead
    have hLawful := hSound.history.remembers.lawful
    rw [hGrammar] at hLawful
    exact ⟨hGrammar, (linked_of_ofText hRead).inBounds hLawful,
      fun d hMem => not_isFatal_of_mem_report hMem,
      fun σ maxDepth chooser name state =>
        Sampler.sampleWithin_eq_sampleFrom hLawful chooser name state⟩

end GrammarCheck.Grammar
