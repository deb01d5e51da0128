import GrammarCheck.Proofs.Grammar.Reachable
import GrammarCheck.Proofs.Symbol.History

/-! What is in a grammar, told from the edits that were made, each of them accepted. -/

namespace GrammarCheck

/-- The uses of another name than the first one. -/
def Ident.extras : List Ident → List Ident
  | [] => []
  | x :: xs => xs.filter (·.name ≠ x.name)

theorem Ident.extras_concat_of_same {x y : Ident} {xs : List Ident} (h : y.name = x.name) :
    extras (x :: xs ++ [y]) = extras (x :: xs) := by
  simp [extras, h]

theorem Ident.extras_concat_of_other {x y : Ident} {xs : List Ident} (h : y.name ≠ x.name) :
    extras (x :: xs ++ [y]) = extras (x :: xs) ++ [y] := by
  simp [extras, h]

/-- An extra start symbol is among those that were declared. -/
theorem Ident.mem_of_mem_extras {x : Ident} {xs : List Ident} (h : x ∈ Ident.extras xs) : x ∈ xs := by
  cases xs with
  | nil => exact h
  | cons y ys => exact List.mem_cons_of_mem y (List.mem_filter.1 h).1

namespace GrammarEdit

def symbols? : GrammarEdit → Option SymbolEdit
  | .symbols e => some e
  | .start _ _ => none

def start? : GrammarEdit → Option Ident
  | .symbols _ => none
  | .start name line => some ⟨name, line⟩

end GrammarEdit

namespace Grammar

variable {g g' : Grammar} {es : List GrammarEdit}

/-- A grammar holds what some edits have made, each of them accepted. -/
structure Records (g : Grammar) (es : List GrammarEdit) : Prop where
  symbols : g.symbols.Records (es.filterMap GrammarEdit.symbols?)
  known : ∀ x ∈ es.filterMap GrammarEdit.start?, g.symbols.get? x.name ≠ none
  start : g.start = (es.filterMap GrammarEdit.start?).head?.bind (g.symbols.get? ·.name)
  startLine : g.startLine = ((es.filterMap GrammarEdit.start?).head?.map (·.line)).getD 0
  extraStarts : g.extraStarts = (Ident.extras (es.filterMap GrammarEdit.start?)).filterMap
    fun x => (g.symbols.get? x.name).map fun id => ⟨id, x.line⟩

/-- Before the first edit there is nothing to hold. -/
theorem records_ofFile (file : FileName) : (ofFile file).Records [] := by
  refine ⟨SymbolTable.records_empty, ?_, rfl, rfl, rfl⟩
  intro x hMem
  cases hMem

namespace Records

/-- An accepted edit of the table adds itself to what the grammar holds. -/
theorem edit_symbols (h : g.Records es) {e : SymbolEdit} {id : SymbolId} {symbols : SymbolTable}
    (hEdit : g.symbols.edit e = .ok (id, symbols)) :
    ({ g with symbols } : Grammar).Records (es ++ [.symbols e]) := by
  have hStable {x : Ident} (hMem : x ∈ es.filterMap GrammarEdit.start?) :
      symbols.get? x.name = g.symbols.get? x.name :=
    h.symbols.indexed.get?_edit hEdit (h.known x hMem)
  have hStarts : (es ++ [GrammarEdit.symbols e]).filterMap GrammarEdit.start? =
      es.filterMap GrammarEdit.start? := by
    rw [List.filterMap_append, List.filterMap_cons_none rfl, List.filterMap_nil, List.append_nil]
  refine ⟨?_, ?_, ?_, ?_, ?_⟩
  · rw [List.filterMap_append]
    exact h.symbols.edit hEdit
  · rw [hStarts]
    intro x hMem
    rw [hStable hMem]
    exact h.known x hMem
  · rw [hStarts]
    apply h.start.trans
    cases hHead : (es.filterMap GrammarEdit.start?).head? with
    | none => rfl
    | some x =>
        rw [Option.bind_some, Option.bind_some, hStable (List.mem_of_mem_head? hHead)]
  · rw [hStarts]
    exact h.startLine
  · rw [hStarts]
    refine h.extraStarts.trans (List.filterMap_congr fun x hMem => ?_)
    rw [hStable (Ident.mem_of_mem_extras hMem)]

theorem filterMap_symbols_concat_start (es : List GrammarEdit) (name : String) (line : Nat) :
    (es ++ [GrammarEdit.start name line]).filterMap GrammarEdit.symbols? =
      es.filterMap GrammarEdit.symbols? := by
  rw [List.filterMap_append, List.filterMap_cons_none rfl, List.filterMap_nil, List.append_nil]

theorem filterMap_start_concat_start (es : List GrammarEdit) (name : String) (line : Nat) :
    (es ++ [GrammarEdit.start name line]).filterMap GrammarEdit.start? =
      es.filterMap GrammarEdit.start? ++ [⟨name, line⟩] :=
  List.filterMap_append

/-- A declaration of a start symbol is recorded. Only the first one and those that name another
symbol are kept, and two names have the same id only if they are the same. -/
theorem declareStart (h : g.Records es) {name : String} {id : SymbolId}
    (hGet : g.symbols.get? name = some id) (line : Nat) :
    (g.declareStart id line).Records (es ++ [.start name line]) := by
  have hStarts := filterMap_start_concat_start es name line
  have hTable := h.symbols
  have hKnown : ∀ x ∈ (es ++ [GrammarEdit.start name line]).filterMap GrammarEdit.start?,
      g.symbols.get? x.name ≠ none := by
    rw [hStarts]
    intro x hMem
    rcases List.mem_append.1 hMem with hOld | hNew
    · exact h.known x hOld
    · cases List.mem_singleton.1 hNew
      rw [hGet]
      exact Option.some_ne_none id
  have hStart := h.start
  have hLine := h.startLine
  have hExtra := h.extraStarts
  rw [← filterMap_symbols_concat_start es name line] at hTable
  cases hFirst : es.filterMap GrammarEdit.start? with
  | nil =>
      rw [hFirst] at hStart hExtra hStarts
      simp only [Grammar.declareStart, hStart, List.head?_nil, Option.bind_none]
      refine ⟨hTable, hKnown, ?_, ?_, ?_⟩
      · rw [hStarts]
        exact hGet.symm
      · rw [hStarts]
        rfl
      · rw [hStarts]
        exact hExtra
  | cons x xs =>
      rw [hFirst] at hStart hLine hExtra hStarts
      have hMem : x ∈ es.filterMap GrammarEdit.start? := by
        rw [hFirst]
        exact List.mem_cons_self ..
      obtain ⟨first, hFound⟩ := Option.ne_none_iff_exists'.1 (h.known x hMem)
      have hSome : g.start = some first := hStart.trans hFound
      have hSame := hTable.indexed.name_eq_iff hFound hGet
      simp only [Grammar.declareStart, hSome]
      by_cases hId : first = id
      · rw [if_pos hId]
        refine ⟨hTable, hKnown, ?_, ?_, ?_⟩
        · rw [hStarts]
          exact hStart
        · rw [hStarts]
          exact hLine
        · rw [hStarts, Ident.extras_concat_of_same (y := ⟨name, line⟩) (hSame.2 hId).symm]
          exact hExtra
      · rw [if_neg hId]
        have hOther : name ≠ x.name := fun hName => hId (hSame.1 hName.symm)
        refine ⟨hTable, hKnown, ?_, ?_, ?_⟩
        · rw [hStarts]
          exact hSome.symm.trans hStart
        · rw [hStarts]
          exact hLine
        · rw [hStarts, Ident.extras_concat_of_other (y := ⟨name, line⟩) hOther,
            List.filterMap_append, ← hExtra]
          simp [hGet]

/-- Accepted edits are recorded one after the other. -/
theorem editAll {es' : List GrammarEdit} (h : g.Records es) (hEdits : g.editAll es' = .ok g') :
    g'.Records (es ++ es') := by
  induction es' generalizing g es with
  | nil =>
      cases hEdits
      rwa [List.append_nil]
  | cons e es' ih =>
      cases hEdit : g.edit e with
      | error refusal =>
          rw [editAll_cons_of_error hEdit] at hEdits
          cases hEdits
      | ok outcome =>
          obtain ⟨id, now⟩ := outcome
          rw [editAll_cons_of_ok hEdit] at hEdits
          have hNow : now.Records (es ++ [e]) := by
            cases e with
            | symbols e =>
                obtain ⟨symbols, hSymbols, rfl⟩ := edit_symbols_eq_ok_iff.1 hEdit
                exact h.edit_symbols hSymbols
            | start name line =>
                obtain ⟨s, hSymbol, rfl⟩ :=
                  (edit_start_eq_ok_iff h.symbols.indexed).1 hEdit
                exact h.declareStart ((h.symbols.indexed name id).2 ⟨s, hSymbol⟩) line
          have hAll := ih hNow hEdits
          rwa [List.append_assoc] at hAll

end Records

end Grammar

end GrammarCheck
