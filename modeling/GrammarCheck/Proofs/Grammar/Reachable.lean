import GrammarCheck.Grammar.Basic
import GrammarCheck.Proofs.Symbol.Lawful

/-! Grammars that edits lead to. Their table is lawful, and their start symbols are in it. -/

namespace GrammarCheck.Grammar

/-- The grammar after an edit. A refused edit leaves the grammar as it is. -/
def after (g : Grammar) (e : GrammarEdit) : Grammar :=
  match g.edit e with
  | .ok (_, g') => g'
  | .error _ => g

/-- The grammar after some edits in turn, whether each of them is accepted or refused. -/
def afterAll (g : Grammar) (es : List GrammarEdit) : Grammar := es.foldl after g

/-- A grammar that some edits make out of nothing. -/
def Reachable (g : Grammar) : Prop := ∃ file es, g = (ofFile file).afterAll es

/-- The index finds the symbols by their names, and every start symbol is one of them. -/
structure Linked (g : Grammar) : Prop where
  indexed : g.symbols.Indexed
  start : ∀ id, g.start = some id → ∃ s, g.symbols.symbol? id = some s
  extraStarts : ∀ extra ∈ g.extraStarts, ∃ s, g.symbols.symbol? extra.symbol = some s

/-- Nothing has been read, so there is nothing to link. -/
theorem linked_ofFile (file : FileName) : (ofFile file).Linked := by
  refine ⟨SymbolTable.indexed_empty, ?_, ?_⟩
  · intro id hStart
    cases hStart
  · intro extra hMem
    cases hMem

/-- An edit of the table is accepted by the grammar when the table accepts it, and changes nothing
else. -/
theorem edit_symbols_eq_ok_iff {g g' : Grammar} {e : SymbolEdit} {id : SymbolId} :
    g.edit (.symbols e) = .ok (id, g') ↔
      ∃ symbols, g.symbols.edit e = .ok (id, symbols) ∧ g' = { g with symbols } := by
  cases hEdit : g.symbols.edit e with
  | error refusal => simp [edit, hEdit, bind, Except.bind]
  | ok outcome =>
      obtain ⟨id', symbols⟩ := outcome
      simp only [edit, hEdit, bind, Except.bind, pure, Except.pure, Except.ok.injEq, Prod.mk.injEq]
      constructor
      · rintro ⟨rfl, rfl⟩
        exact ⟨symbols, ⟨rfl, rfl⟩, rfl⟩
      · rintro ⟨_, ⟨rfl, rfl⟩, rfl⟩
        exact ⟨rfl, rfl⟩

theorem edit_symbols_of_ok {g : Grammar} {e : SymbolEdit} {id : SymbolId}
    {symbols : SymbolTable} (h : g.symbols.edit e = .ok (id, symbols)) :
    g.edit (.symbols e) = .ok (id, { g with symbols }) :=
  edit_symbols_eq_ok_iff.2 ⟨symbols, h, rfl⟩

theorem edit_symbols_of_error {g : Grammar} {e : SymbolEdit} {refusal : Refusal}
    (h : g.symbols.edit e = .error refusal) : g.edit (.symbols e) = .error refusal := by
  simp [edit, h, bind, Except.bind]

/-- A start symbol can be declared as soon as the name is known. -/
theorem edit_start_eq_ok_iff {g g' : Grammar} (h : g.symbols.Indexed) {name : String} {line : Nat}
    {id : SymbolId} :
    g.edit (.start name line) = .ok (id, g') ↔
      ∃ s, (g.symbols.symbol? id = some s ∧ s.name = name) ∧ g' = g.declareStart id line := by
  cases hLookup : g.symbols.lookup name with
  | error refusal =>
      simp only [edit, hLookup, bind, Except.bind]
      constructor
      · intro hError
        cases hError
      · rintro ⟨s, hSymbol, -⟩
        rw [h.lookup_eq_ok_iff.2 hSymbol] at hLookup
        cases hLookup
  | ok found =>
      obtain ⟨id', s⟩ := found
      simp only [edit, hLookup, bind, Except.bind, pure, Except.pure, Except.ok.injEq,
        Prod.mk.injEq]
      constructor
      · rintro ⟨rfl, rfl⟩
        exact ⟨s, h.lookup_eq_ok_iff.1 hLookup, rfl⟩
      · rintro ⟨s', hSymbol, rfl⟩
        rw [h.lookup_eq_ok_iff.2 hSymbol] at hLookup
        cases hLookup
        exact ⟨rfl, rfl⟩

theorem editAll_cons_of_ok {g g' : Grammar} {e : GrammarEdit} {id : SymbolId}
    (h : g.edit e = .ok (id, g')) (es : List GrammarEdit) : g.editAll (e :: es) = g'.editAll es := by
  simp [editAll, h, bind, Except.bind]

theorem editAll_cons_of_error {g : Grammar} {e : GrammarEdit} {refusal : Refusal}
    (h : g.edit e = .error refusal) (es : List GrammarEdit) :
    g.editAll (e :: es) = .error refusal := by
  simp [editAll, h, bind, Except.bind]

@[simp] theorem file_declareStart (g : Grammar) (id : SymbolId) (line : Nat) :
    (g.declareStart id line).file = g.file := by
  unfold declareStart
  split
  · rfl
  · split <;> rfl

@[simp] theorem symbols_declareStart (g : Grammar) (id : SymbolId) (line : Nat) :
    (g.declareStart id line).symbols = g.symbols := by
  unfold declareStart
  split
  · rfl
  · split <;> rfl

/-- Edits say nothing about the file. -/
theorem file_edit {g g' : Grammar} {e : GrammarEdit} {id : SymbolId}
    (h : g.edit e = .ok (id, g')) : g'.file = g.file := by
  cases e with
  | symbols e =>
      obtain ⟨symbols, -, rfl⟩ := edit_symbols_eq_ok_iff.1 h
      rfl
  | start name line =>
      simp only [edit, bind, Except.bind] at h
      split at h
      case h_1 => cases h
      case h_2 =>
        cases h
        exact file_declareStart g _ line

theorem file_editAll {g g' : Grammar} {es : List GrammarEdit} (h : g.editAll es = .ok g') :
    g'.file = g.file := by
  induction es generalizing g with
  | nil =>
      cases h
      rfl
  | cons e es ih =>
      cases hEdit : g.edit e with
      | error refusal =>
          rw [editAll_cons_of_error hEdit] at h
          cases h
      | ok outcome =>
          rw [editAll_cons_of_ok hEdit] at h
          exact (ih h).trans (file_edit hEdit)

namespace Linked

variable {g : Grammar}

/-- Declaring a start symbol keeps the links, since only symbols of the table are declared. -/
theorem declareStart (h : g.Linked) {id : SymbolId} {s : Symbol}
    (hSymbol : g.symbols.symbol? id = some s) (line : Nat) : (g.declareStart id line).Linked := by
  unfold Grammar.declareStart
  split
  case h_1 =>
    refine ⟨h.indexed, ?_, h.extraStarts⟩
    rintro _ ⟨rfl⟩
    exact ⟨s, hSymbol⟩
  case h_2 =>
    split
    case isTrue => exact h
    case isFalse =>
      refine ⟨h.indexed, h.start, ?_⟩
      intro extra hMem
      rcases List.mem_append.1 hMem with hOld | hNew
      · exact h.extraStarts extra hOld
      · cases List.mem_singleton.1 hNew
        exact ⟨s, hSymbol⟩

theorem edit (h : g.Linked) {e : GrammarEdit} {id : SymbolId} {g' : Grammar}
    (hEdit : g.edit e = .ok (id, g')) : g'.Linked := by
  cases e with
  | symbols e =>
      obtain ⟨symbols, hSymbols, rfl⟩ := edit_symbols_eq_ok_iff.1 hEdit
      refine ⟨h.indexed.edit hSymbols, ?_, ?_⟩
      · intro start hStart
        obtain ⟨s, hSymbol⟩ := h.start start hStart
        exact ⟨_, h.indexed.symbol?_edit hSymbols hSymbol⟩
      · intro extra hMem
        obtain ⟨s, hSymbol⟩ := h.extraStarts extra hMem
        exact ⟨_, h.indexed.symbol?_edit hSymbols hSymbol⟩
  | start name line =>
      obtain ⟨s, ⟨hSymbol, -⟩, rfl⟩ := (edit_start_eq_ok_iff h.indexed).1 hEdit
      exact h.declareStart hSymbol line

theorem after (h : g.Linked) (e : GrammarEdit) : (g.after e).Linked := by
  unfold Grammar.after
  split
  case h_1 hEdit => exact h.edit hEdit
  case h_2 => exact h

/-- Edits keep the links even if some of them are refused. -/
theorem afterAll (h : g.Linked) (es : List GrammarEdit) : (g.afterAll es).Linked := by
  induction es generalizing g with
  | nil => exact h
  | cons e es ih => exact ih (h.after e)

end Linked

/-- Every grammar that edits can make is linked. -/
theorem Reachable.linked {g : Grammar} (h : g.Reachable) : g.Linked := by
  obtain ⟨file, es, rfl⟩ := h
  exact (linked_ofFile file).afterAll es

/-- An accepted edit keeps the table lawful and only extends it. -/
theorem lawful_edit {g g' : Grammar} (h : g.symbols.Lawful) {e : GrammarEdit} {id : SymbolId}
    (hEdit : g.edit e = .ok (id, g')) : g'.symbols.Lawful ∧ g.symbols.Extends g'.symbols := by
  cases e with
  | symbols e =>
      obtain ⟨symbols, hSymbols, rfl⟩ := edit_symbols_eq_ok_iff.1 hEdit
      obtain ⟨hLawful, hExtends, -⟩ := h.edit hSymbols
      exact ⟨hLawful, hExtends⟩
  | start name line =>
      obtain ⟨s, -, rfl⟩ := (edit_start_eq_ok_iff h.indexed).1 hEdit
      rw [symbols_declareStart]
      exact ⟨h, .refl g.symbols⟩

/-- An edit keeps the table lawful and only extends it, also when it is refused. -/
theorem lawful_after {g : Grammar} (h : g.symbols.Lawful) (e : GrammarEdit) :
    (g.after e).symbols.Lawful ∧ g.symbols.Extends (g.after e).symbols := by
  unfold after
  split
  case h_1 hEdit => exact lawful_edit h hEdit
  case h_2 => exact ⟨h, .refl g.symbols⟩

theorem lawful_afterAll {g : Grammar} (h : g.symbols.Lawful) (es : List GrammarEdit) :
    (g.afterAll es).symbols.Lawful := by
  induction es generalizing g with
  | nil => exact h
  | cons e es ih => exact ih (lawful_after h e).1

/-- Edits only extend the table, also where some of them are refused. -/
theorem extends_afterAll {g : Grammar} (h : g.symbols.Lawful) (es : List GrammarEdit) :
    g.symbols.Extends (g.afterAll es).symbols := by
  induction es generalizing g with
  | nil => exact .refl g.symbols
  | cons e es ih =>
      obtain ⟨hLawful, hExtends⟩ := lawful_after h e
      exact hExtends.trans (ih hLawful)

/-- The table of every grammar that edits can make is lawful. -/
theorem Reachable.lawful {g : Grammar} (h : g.Reachable) : g.symbols.Lawful := by
  obtain ⟨file, es, rfl⟩ := h
  exact lawful_afterAll SymbolTable.lawful_empty es

end GrammarCheck.Grammar
