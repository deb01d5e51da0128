import GrammarCheck.Proofs.Sampler.Sentence
import GrammarCheck.Proofs.Source.Report

/-! Grammars that were read from a text and passed the check. They have a start symbol, all their
nonterminals derive sentences, and no sentence of theirs is empty. So sampling from them can only
fail for a name that is none of their nonterminals. -/

namespace GrammarCheck

def Grammar.HasNonterminal (g : Grammar) (name : String) : Prop :=
  ∃ id s, g.symbols.Spells name id s ∧ s.isNonterminal = true

/-- The nonterminal that sentences are asked of: the named one, or else the declared start
symbol. -/
def Grammar.Asked (g : Grammar) (id : SymbolId) : (start : Option String) → Prop
  | some name => ∃ s, g.symbols.Spells name id s ∧ s.isNonterminal = true
  | none => g.start = some id

/-- A sentence of what is asked for, as a list of words: what a complete derivation from that
nonterminal yields. -/
def Grammar.IsSentence (g : Grammar) (start : Option String) (words : List String) : Prop :=
  ∃ id tree, g.Asked id start ∧ g.symbols.Derives id tree ∧ tree.Yields g.symbols words

/-- Where every alternative has a symbol, every sentence has a word. -/
theorem Derivation.Complete.leaves_ne_nil {t : SymbolTable} {tree : Derivation}
    (hTree : tree.Complete t)
    (h : ∀ id s, t.symbol? id = some s → ∀ rule ∈ s.rules, rule.symbols ≠ []) :
    tree.leaves ≠ [] := by
  induction hTree with
  | leaf => exact List.cons_ne_nil _ _
  | @node id s rule children hSymbol _ hRule hRoots _ ih =>
      cases children with
      | nil => exact absurd hRoots.symm (h id s hSymbol rule hRule)
      | cons child children =>
          rw [leaves, leavesOf]
          exact List.append_ne_nil_of_left_ne_nil (ih child (List.mem_cons_self ..)) _

/-- What can be relied on once a grammar has passed the check. -/
structure Grammar.Verified (g : Grammar) : Prop where
  linked : g.Linked
  start : ∃ start s, g.start = some start ∧ g.symbols.symbol? start = some s ∧
    s.isNonterminal = true
  productive : ∀ id s, g.symbols.symbol? id = some s → s.isNonterminal = true →
    g.symbols.Productive id
  nonempty : ∀ id s, g.symbols.symbol? id = some s → ∀ rule ∈ s.rules, rule.symbols ≠ []

namespace Grammar

/-- Edits that are all accepted lead to the same grammar, whichever way they are made. -/
theorem afterAll_of_editAll {g g' : Grammar} {es : List GrammarEdit} (h : g.editAll es = .ok g') :
    g.afterAll es = g' := by
  induction es generalizing g with
  | nil =>
      cases h
      rfl
  | cons e es ih =>
      cases hEdit : g.edit e with
      | error refusal =>
          rw [editAll_cons_of_error hEdit] at h
          cases h
      | ok outcome =>
          rw [editAll_cons_of_ok hEdit] at h
          rw [← ih h, afterAll, List.foldl_cons, after, hEdit]
          rfl

/-- Reading makes nothing but edits. -/
theorem linked_of_ofText {file : FileName} {text : List Char} {g : Grammar}
    (h : ofText file text = .ok g) : g.Linked := by
  obtain ⟨parts, hSpell, -⟩ := exists_parts_of_ofText h
  rcases ofText_of_spell file hSpell with ⟨-, hError⟩ | ⟨-, g', hRead, hEdits⟩
  · rw [hError] at h
    cases h
  · cases h.symm.trans hRead
    rw [← afterAll_of_editAll hEdits]
    exact (linked_ofFile file).afterAll _

end Grammar

namespace Source.Writes

variable {source : Source} {file : FileName} {g : Grammar}

/-- No alternative of a written grammar is empty, since an alternative is written with one symbol at
least. -/
theorem nonempty (h : source.Writes file g) {id : SymbolId} {s : Symbol}
    (hSymbol : g.symbols.symbol? id = some s) : ∀ rule ∈ s.rules, rule.symbols ≠ [] := by
  have hMem := SymbolTable.mem_toList.2 hSymbol
  rw [h.toList_eq] at hMem
  obtain ⟨x, -, hEntry⟩ := List.mem_map.1 hMem
  cases hEntry
  intro rule hRule
  obtain ⟨a, -, rfl⟩ := List.mem_map.1 hRule
  exact List.cons_ne_nil _ _

/-- The start symbol is a nonterminal, since declaring it makes it one. -/
theorem exists_start (h : source.Writes file g) (hClashes : ¬ source.Clashes)
    (hStart : g.start ≠ none) :
    ∃ start s, g.start = some start ∧ g.symbols.symbol? start = some s ∧
      s.isNonterminal = true := by
  rw [h.start] at hStart ⊢
  cases hHead : source.starts.head? with
  | none =>
      rw [hHead] at hStart
      exact (hStart rfl).elim
  | some x =>
      have hName : x.name ∈ Ident.names source.starts :=
        List.mem_map_of_mem (List.mem_of_mem_head? hHead)
      obtain ⟨y, hFirst, hSame⟩ := exists_first (mem_idents_of_mem_names_starts hName)
      refine ⟨source.id x.name, source.symbol y, rfl, ?_, ?_⟩
      · rw [← hSame]
        exact h.symbol?_id hFirst
      · rw [isNonterminal_symbol hClashes, hSame]
        exact .inr hName

end Source.Writes

namespace Grammar

variable {g : Grammar}

/-- A grammar passes the check exactly without a defect, and then the ranks are its own. -/
theorem check_eq_ok_iff {r : Ranking} :
    g.check = .ok r ↔ g.report.defects = [] ∧ r = Ranking.ofTable g.symbols := by
  unfold check
  simp only [List.isEmpty_iff]
  split
  case isTrue hNone =>
    rw [Except.ok.injEq, and_iff_right hNone, eq_comm]
    rfl
  case isFalse hSome => simp [hSome]

/-- A grammar fails the check with all of its defects. -/
theorem check_eq_error_iff {defects : List Defect} :
    g.check = .error defects ↔ defects ≠ [] ∧ defects = g.report.defects := by
  unfold check
  simp only [List.isEmpty_iff]
  split
  case isTrue hNone =>
    rw [hNone]
    constructor
    · intro hError
      cases hError
    · rintro ⟨hSome, hNil⟩
      exact absurd hNil hSome
  case isFalse hSome =>
    rw [Except.error.injEq]
    constructor
    · rintro rfl
      exact ⟨hSome, rfl⟩
    · rintro ⟨-, rfl⟩
      rfl

/-- No alternative of a grammar that was read is empty. -/
theorem nonempty_of_ofText {file : FileName} {text : List Char} (h : ofText file text = .ok g)
    {id : SymbolId} {s : Symbol} (hSymbol : g.symbols.symbol? id = some s) :
    ∀ rule ∈ s.rules, rule.symbols ≠ [] := by
  obtain ⟨parts, -, -, hWrites⟩ := exists_parts_of_ofText h
  exact hWrites.nonempty hSymbol

/-- Passing the check gives all that sampling relies on. -/
theorem verified_of_check {file : FileName} {text : List Char} {r : Ranking}
    (hRead : ofText file text = .ok g) (hCheck : g.check = .ok r) : g.Verified := by
  obtain ⟨parts, -, hClashes, hWrites⟩ := exists_parts_of_ofText hRead
  obtain ⟨hDefects, -⟩ := check_eq_ok_iff.1 hCheck
  simp only [report, List.append_eq_nil_iff] at hDefects
  obtain ⟨⟨hStart, -⟩, hUnproductive⟩ := hDefects
  refine ⟨linked_of_ofText hRead, hWrites.exists_start hClashes ?_, ?_,
    fun id s => hWrites.nonempty⟩
  · intro hNone
    simp [startDefects, hNone] at hStart
  · intro id s hSymbol hNonterminal
    have hRanked := List.filterMap_eq_nil_iff.1 hUnproductive (id, s)
      (SymbolTable.mem_nonterminals.2 ⟨hSymbol, hNonterminal⟩)
    rw [← Ranking.isProductive_ofTable_iff]
    by_contra hNot
    simp [hNot] at hRanked

namespace Verified

variable {σ : Type}

/-- A sentence has a word, since every alternative has a symbol. -/
theorem ne_nil_of_isSentence (h : g.Verified) {start : Option String} {words : List String}
    (hSentence : g.IsSentence start words) : words ≠ [] := by
  obtain ⟨id, tree, -, hDerives, hYields⟩ := hSentence
  have hSome := List.length_pos_iff.2 (hDerives.complete.leaves_ne_nil h.nonempty)
  rw [← hYields.length_eq] at hSome
  exact List.length_pos_iff.1 hSome

/-- Every nonterminal gives a sentence, whatever the limit and however the choices fall. -/
theorem exists_sampleFrom (h : g.Verified) (maxDepth : Nat) (chooser : Chooser σ) {name : String}
    (hName : g.HasNonterminal name) (state : σ) :
    ∃ tree after, (g.sampler maxDepth).sampleFrom chooser name state = .ok (tree, after) ∧
      ∃ id, g.Asked id (some name) ∧ g.symbols.Derives id tree := by
  obtain ⟨id, s, hSpells, hKind⟩ := hName
  obtain ⟨⟨tree, after⟩, hOk⟩ := h.linked.exists_sampleFrom_iff.2
    ⟨id, s, hSpells, hKind, h.productive id s hSpells.1 hKind⟩
  have hAnswers := h.linked.answers_sampleFrom maxDepth chooser name state
  rw [hOk] at hAnswers
  cases hAnswers with
  | sentence hSpells hKind hDerives => exact ⟨tree, after, hOk, _, ⟨_, hSpells, hKind⟩, hDerives⟩

/-- The start symbol gives a sentence, so there is always one. -/
theorem exists_sample (h : g.Verified) (maxDepth : Nat) (chooser : Chooser σ) (state : σ) :
    ∃ tree after, (g.sampler maxDepth).sample chooser state = .ok (tree, after) ∧
      ∃ id, g.Asked id none ∧ g.symbols.Derives id tree := by
  obtain ⟨start, s, hStart, hSymbol, hKind⟩ := h.start
  obtain ⟨s', hSymbol', hSample⟩ : ∃ s, g.symbols.symbol? start = some s ∧
      (g.sampler maxDepth).sample chooser state =
        (g.sampler maxDepth).sampleFrom chooser s.name state :=
    h.linked.sample_eq_sampleFrom hStart
  cases hSymbol.symm.trans hSymbol'
  obtain ⟨tree, after, hOk, id, ⟨s'', hSpells, -⟩, hDerives⟩ :=
    h.exists_sampleFrom maxDepth chooser ⟨start, s, ⟨hSymbol, rfl⟩, hKind⟩ state
  have hSame := h.linked.indexed.id_unique hSpells.1 hSymbol hSpells.2
  rw [hSame] at hDerives
  exact ⟨tree, after, hSample.trans hOk, start, hStart, hDerives⟩

/-- Sampling from the start symbol of a verified grammar never fails. -/
theorem sample_ne_error (h : g.Verified) (maxDepth : Nat) (chooser : Chooser σ) (state : σ)
    (e : SamplingError) : (g.sampler maxDepth).sample chooser state ≠ .error e := by
  obtain ⟨tree, after, hOk, -⟩ := h.exists_sample maxDepth chooser state
  rw [hOk]
  exact fun hError => (by cases hError)

/-- Sampling from a name fails for no other reason than that it is no name of a nonterminal. -/
theorem cause_of_sampleFrom (h : g.Verified) {maxDepth : Nat} {chooser : Chooser σ} {name : String}
    {state : σ} {e : SamplingError}
    (hError : (g.sampler maxDepth).sampleFrom chooser name state = .error e) :
    e.cause = .unknownSymbol name ∨ e.cause = .notNonterminal name := by
  rcases h.linked.sampleFrom_eq_error_iff.1 hError with
    ⟨-, rfl⟩ | ⟨id, s, hSpells, ⟨-, rfl⟩ | ⟨hKind, hUnproductive, -⟩⟩
  · exact .inl rfl
  · exact .inr rfl
  · exact absurd (h.productive id s hSpells.1 hKind) hUnproductive

/-- A name that is no nonterminal cannot be sampled from. -/
theorem exists_error (h : g.Verified) (maxDepth : Nat) (chooser : Chooser σ) {name : String}
    (hName : ¬ g.HasNonterminal name) (state : σ) :
    ∃ e, (g.sampler maxDepth).sampleFrom chooser name state = .error e := by
  cases hSample : (g.sampler maxDepth).sampleFrom chooser name state with
  | error e => exact ⟨e, rfl⟩
  | ok outcome =>
      obtain ⟨id, s, hSpells, hKind, -⟩ := h.linked.exists_sampleFrom_iff.1 ⟨outcome, hSample⟩
      exact absurd ⟨id, s, hSpells, hKind⟩ hName

end Verified

end Grammar

end GrammarCheck
