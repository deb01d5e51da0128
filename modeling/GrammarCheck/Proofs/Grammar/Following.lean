import GrammarCheck.Proofs.Grammar.Reader
import Mathlib.Data.List.Forall2

/-! A reader comes to the grammar that is read. What it keeps of a rule under way are the ids of the
names read, whatever else has been entered since; so it completes the rule as the names would, or
leaves the grammar as it is if the header was refused. -/

namespace GrammarCheck

theorem SymbolTable.find?_of_get? {t : SymbolTable} {name : String} {id : SymbolId} {s : Symbol}
    (hGet : t.get? name = some id) (hSymbol : t.symbol? id = some s) :
    t.find? name = some (id, s) := by
  simp [find?, hGet, hSymbol]

structure Use.Of (t : SymbolTable) (x : Ident) (use : Use) : Prop where
  get?_eq : t.get? x.name = some use.id
  line_eq : use.line = x.line

/-- The ids kept of a rule are those of its names. A header for which none was handed out is a
terminal. -/
structure Draft.Kept (t : SymbolTable) (d : Draft Ident) (kept : Draft Use) : Prop where
  header : ∀ x, d.header = some x →
    (∃ use, kept.header = some use ∧ Use.Of t x use ∧
        ∃ s, t.symbol? use.id = some s ∧ s.kind = .nonterminal) ∨
      kept.header = none ∧ ∃ id s, t.get? x.name = some id ∧ t.symbol? id = some s ∧
        s.kind = .terminal
  finished : List.Forall₂ (List.Forall₂ (Use.Of t)) d.finished kept.finished
  current : List.Forall₂ (Use.Of t) d.current kept.current

variable {t later : SymbolTable} {d : Draft Ident} {kept : Draft Use}

/-- An id stays that of its name while the table grows. -/
theorem Use.Of.mono {x : Ident} {use : Use} (h : Use.Of t x use) (hExtends : t.Extends later) :
    Use.Of later x use :=
  ⟨hExtends.get?_eq x.name use.id h.get?_eq, h.line_eq⟩

/-- An alternative made of the ids is the one that its names make. -/
theorem Use.rule_eq {a : Alternative} {row : List Use} (h : List.Forall₂ (Use.Of t) a.toList row) :
    Use.rule row = ⟨(a.toList.map (·.name)).filterMap t.get?, a.first.line⟩ := by
  have hIds : ∀ {xs : List Ident} {row : List Use}, List.Forall₂ (Use.Of t) xs row →
      (xs.map (·.name)).filterMap t.get? = row.map (·.id) := by
    intro xs row hRow
    induction hRow with
    | nil => rfl
    | cons hFirst _ ih =>
        rw [List.map_cons, List.filterMap_cons_some hFirst.get?_eq, ih, List.map_cons]
  rw [hIds h]
  cases h with
  | cons hFirst _ => simp [Use.rule, hFirst.line_eq]

theorem Use.get?_ne_none {xs : List Ident} {row : List Use} (h : List.Forall₂ (Use.Of t) xs row) :
    ∀ x ∈ xs, t.get? x.name ≠ none := by
  induction h with
  | nil => simp
  | cons hFirst _ ih => exact List.forall_mem_cons.2 ⟨by simp [hFirst.get?_eq], ih⟩

namespace Draft.Kept

/-- What is kept of a rule stays true of a later table. -/
theorem mono (h : d.Kept t kept) (hExtends : t.Extends later) : d.Kept later kept where
  header := by
    intro x hHeader
    rcases h.header x hHeader with
      ⟨use, hUse, hOf, s, hSymbol, hKind⟩ | ⟨hNone, id, s, hGet, hSymbol, hKind⟩
    · exact .inl ⟨use, hUse, hOf.mono hExtends, hExtends.nonterminal hSymbol hKind⟩
    · obtain ⟨s', hLater, hGrows⟩ := hExtends.symbols id s hSymbol
      refine .inr ⟨hNone, id, s', hExtends.get?_eq x.name id hGet, hLater, ?_⟩
      rw [hGrows.kind_eq (by simp [hKind]), hKind]
  finished := h.finished.imp fun _ _ hRow => hRow.imp fun _ _ hOf => hOf.mono hExtends
  current := h.current.imp fun _ _ hOf => hOf.mono hExtends

/-- Row by row, the ids kept are those of the names. -/
theorem rows (h : d.Kept t kept) : List.Forall₂ (List.Forall₂ (Use.Of t)) d.rows kept.rows :=
  List.rel_append h.finished (.cons h.current .nil)

theorem add (h : d.Kept t kept) {x : Ident} {use : Use} (hOf : Use.Of t x use) :
    (d.add x).Kept t (kept.add use) where
  header := h.header
  finished := h.finished
  current := List.rel_append h.current (.cons hOf .nil)

theorem pipe (h : d.Kept t kept) : d.pipe.Kept t kept.pipe where
  header := h.header
  finished := h.rows
  current := .nil

end Draft.Kept

namespace Grammar

variable {g after : Grammar} {step : Step}

/-- A step with a single edit is that edit, whether it is accepted or not. -/
theorem take_of_single {e : GrammarEdit} (h : step.edits = [e]) (endLine : Nat) :
    (g.take endLine step).1 = g.after e := by
  unfold Grammar.after
  split
  case h_1 hEdit => exact fst_take_of_ok (by rw [h, editAll_cons_of_ok hEdit, editAll]) endLine
  case h_2 hEdit => rw [take_of_error (by rw [h, editAll_cons_of_error hEdit]) endLine]

end Grammar

namespace Reader

variable {r : Reader}

/-- Calls are only ever added. -/
theorem log_attachAll (r : Reader) (id : SymbolId) (rows : List (List Use)) :
    r.log <+: (r.attachAll id rows).log := by
  induction rows generalizing r with
  | nil => exact List.prefix_rfl
  | cons row rows ih => exact (List.prefix_append r.log _).trans (ih (r.call _))

theorem log_take (r : Reader) (step : Step) : r.log <+: (r.take step).log := by
  have hCall (c : TableCall) : r.log <+: (r.call c).log := List.prefix_append r.log _
  cases step with
  | mention x => exact hCall _
  | header x => exact hCall _
  | terminal x => exact hCall _
  | start x =>
      simp only [take]
      cases r.handed (.nonterminal x.name x.line) <;> exact hCall _
  | shift l =>
      obtain ⟨token, line⟩ := l
      cases token <;> exact List.prefix_rfl
  | complete construct =>
      cases construct with
      | rule header alternatives =>
          simp only [take, complete]
          split
          case h_1 => exact (r.log_attachAll _ _).trans (List.prefix_append _ _)
          case h_2 => exact List.prefix_rfl
      | _ => exact List.prefix_rfl
  | reject expected found => exact List.prefix_rfl

/-- Every table extends the ones before it. -/
theorem Sound.extends_take (h : r.Sound) (step : Step) :
    r.grammar.symbols.Extends (r.take step).grammar.symbols := by
  obtain ⟨more, hLog⟩ := r.log_take step
  have hTake := (h.take step).history
  rw [← hLog] at hTake
  exact h.history.extends_append hTake

/-- Giving a nonterminal alternatives by their ids is giving them by their names. The induction is
on the alternatives; none of them changes what a name stands for. -/
theorem Sound.editAll_alternatives (h : r.Sound) {x : Ident} {header : Use}
    (hHeader : Use.Of r.grammar.symbols x header)
    (hKind : ∃ s, r.grammar.symbols.symbol? header.id = some s ∧ s.kind = .nonterminal)
    {alternatives : List Alternative} {rows : List (List Use)}
    (hRows : List.Forall₂
      (fun a row => List.Forall₂ (Use.Of r.grammar.symbols) a.toList row) alternatives rows)
    (hUses : ∀ row ∈ rows, ∀ use ∈ row, ∃ c, (c, some use.id) ∈ r.log) :
    r.grammar.editAll (alternatives.map x.alternative ++ [x.define]) =
      .ok ((r.attachAll header.id rows).call (.define header.id header.line)).grammar := by
  induction rows generalizing r alternatives with
  | nil =>
      cases hRows
      have hIndexed := h.history.remembers.lawful.indexed
      obtain ⟨s, hSymbol, hKind⟩ := hKind
      have hFind := SymbolTable.find?_of_get? hHeader.get?_eq hSymbol
      have hDefine : r.grammar.edit x.define =
          .ok (header.id, (r.call (.define header.id header.line)).grammar) := by
        refine Grammar.edit_symbols_eq_ok_iff.2
          ⟨_, hIndexed.edit_eq_ok_iff.2 ⟨s, hFind, hKind, rfl⟩, ?_⟩
        rw [hHeader.line_eq]
        rfl
      exact Grammar.editAll_cons_of_ok hDefine []
  | cons row rows ih =>
      obtain _ | ⟨hFirst, hOthers⟩ := hRows
      rename_i a alternatives
      rw [List.forall_mem_cons] at hUses
      obtain ⟨hSound, hStill⟩ := h.attachAll hKind [row] (List.forall_mem_singleton.2 hUses.1)
      have hEdit : r.grammar.edit (x.alternative a) =
          .ok (header.id, (r.call (.attach header.id (Use.rule row))).grammar) := by
        obtain ⟨s, hSymbol, hKind⟩ := hKind
        have hFind := SymbolTable.find?_of_get? hHeader.get?_eq hSymbol
        refine Grammar.edit_symbols_eq_ok_iff.2 ⟨_,
          (h.history.remembers.lawful.indexed.edit_rule_eq_ok_iff hFind).2 ⟨⟨hKind, ?_⟩, rfl⟩, ?_⟩
        · intro name hMem
          obtain ⟨y, hY, rfl⟩ := List.mem_map.1 hMem
          exact Use.get?_ne_none hFirst y hY
        · rw [Use.rule_eq hFirst]
          rfl
      have hExtends : r.grammar.symbols.Extends
          (r.call (.attach header.id (Use.rule row))).grammar.symbols := by
        obtain ⟨more, hLog⟩ := r.log_attachAll header.id [row]
        have hHistory := hSound.history
        rw [← hLog] at hHistory
        exact h.history.extends_append hHistory
      rw [List.map_cons, List.cons_append, Grammar.editAll_cons_of_ok hEdit]
      apply ih hSound (hHeader.mono hExtends) hStill
      · exact hOthers.imp fun _ _ hRow => hRow.imp fun _ _ hOf => hOf.mono hExtends
      · intro other hOther use hUse
        obtain ⟨earlier, hMem⟩ := hUses.2 other hOther use hUse
        exact ⟨earlier, List.mem_append_left _ hMem⟩

/-- A call that is an edit makes the grammar after it. -/
theorem grammar_call {c : TableCall} {e : SymbolEdit}
    (outcome : Except KindConflict (SymbolId × SymbolTable))
    (hCall : r.grammar.symbols.call c = r.grammar.symbols.handOut outcome)
    (hEdit : r.grammar.symbols.edit e = outcome.mapError .conflict) :
    (r.call c).grammar = r.grammar.after (.symbols e) := by
  cases outcome with
  | ok found =>
      rw [Grammar.after, Grammar.edit_symbols_of_ok hEdit, Reader.call, hCall]
      rfl
  | error conflict =>
      rw [Grammar.after, Grammar.edit_symbols_of_error hEdit, Reader.call, hCall]
      rfl

/-- The header that a reader keeps is that of the name, and a name that is refused is a terminal. -/
theorem Sound.kept_begin (h : r.Sound) (x : Ident) :
    (Draft.begin (some x)).Kept (r.take (.header x)).grammar.symbols
      (r.take (.header x)).draft := by
  refine ⟨?_, .nil, .nil⟩
  rintro _ ⟨rfl⟩
  have hLawful := h.history.remembers.lawful
  cases hHanded : r.handed (.nonterminal x.name x.line) with
  | some id =>
      have hBegin := (h.begin x).header ⟨id, x.line⟩ (by simp [hHanded, Draft.begin])
      obtain ⟨name, hName, hGet⟩ := hLawful.get?_call hHanded
      cases hName
      exact .inl ⟨⟨id, x.line⟩, by simp [Reader.take, hHanded, Draft.begin], ⟨hGet, rfl⟩, hBegin⟩
  | none =>
      refine .inr ⟨by simp [Reader.take, hHanded, Draft.begin], ?_⟩
      simp only [Reader.handed, SymbolTable.call] at hHanded
      simp only [Reader.take, Reader.call, SymbolTable.call]
      cases hDeclare : r.grammar.symbols.declareNonterminal x.name x.line with
      | ok found => simp [SymbolTable.handOut, hDeclare] at hHanded
      | error conflict =>
          simp only [SymbolTable.declareNonterminal, SymbolTable.settle] at hDeclare
          split at hDeclare
          case h_1 => cases hDeclare
          case h_2 id s hFind =>
            obtain ⟨hSymbol, hName⟩ := hLawful.indexed.find?_eq_some_iff.1 hFind
            refine ⟨id, s, (hLawful.indexed x.name id).2 ⟨s, hSymbol, hName⟩, hSymbol, ?_⟩
            cases hKind : s.kind with
            | terminal => rfl
            | nonterminal => simp [hKind] at hDeclare
            | unresolved => simp [hKind] at hDeclare

/-- A declared start symbol is declared under the id that was handed out for it. -/
theorem Sound.take_start (h : r.Sound) (x : Ident) (endLine : Nat) :
    (r.take (.start x)).grammar = (r.grammar.take endLine (.start x)).1 := by
  cases hDeclare : r.grammar.symbols.declareNonterminal x.name x.line with
  | error conflict =>
      have hEdit : r.grammar.symbols.edit (.nonterminal x.name x.line) =
          .error (.conflict conflict) := by
        rw [SymbolTable.edit, hDeclare]
        rfl
      have hRefused := Grammar.editAll_cons_of_error (Grammar.edit_symbols_of_error hEdit) [x.start]
      rw [Grammar.take_of_error hRefused]
      simp [Reader.take, Reader.handed, Reader.call, SymbolTable.call, SymbolTable.handOut,
        hDeclare]
  | ok found =>
      obtain ⟨id, later⟩ := found
      have hEdit : r.grammar.symbols.edit (.nonterminal x.name x.line) = .ok (id, later) := by
        rw [SymbolTable.edit, hDeclare]
        rfl
      obtain ⟨hLater, -, hGet⟩ := h.history.remembers.lawful.edit hEdit
      have hStart : ({ r.grammar with symbols := later } : Grammar).edit x.start = .ok (id, _) :=
        (Grammar.edit_start_eq_ok_iff hLater.indexed).2
          ⟨_, ((hLater.indexed x.name id).1 hGet).choose_spec, rfl⟩
      have hFirst := Grammar.editAll_cons_of_ok (Grammar.edit_symbols_of_ok hEdit) [x.start]
      rw [Grammar.fst_take_of_ok (hFirst.trans (Grammar.editAll_cons_of_ok hStart []))]
      simp [Reader.take, Reader.handed, Reader.call, SymbolTable.call, SymbolTable.handOut,
        hDeclare]

/-- A completed rule is attached under the id of its header, or not at all. -/
theorem Sound.take_rule (h : r.Sound) {d : Draft Ident} (hKept : d.Kept r.grammar.symbols r.draft)
    {x : Ident} {alternatives : OneOrMore Alternative} (hHeader : d.header = some x)
    (hRows : d.rows = alternatives.toList.map OneOrMore.toList) (endLine : Nat) :
    (r.take (.complete (.rule x alternatives))).grammar =
      (r.grammar.take endLine (.complete (.rule x alternatives))).1 := by
  simp only [Reader.take, Reader.complete]
  rcases hKept.header x hHeader with
    ⟨header, hSome, hOf, s, hSymbol, hKind⟩ | ⟨hNone, id, s, hGet, hSymbol, hKind⟩
  · have hAlternatives := hKept.rows
    rw [hRows, List.forall₂_map_left_iff] at hAlternatives
    have hAgain : r.grammar.edit x.nonterminal = .ok (header.id, r.grammar) := by
      refine Grammar.edit_symbols_of_ok ?_
      simp [SymbolTable.edit, SymbolTable.declareNonterminal, SymbolTable.settle,
        SymbolTable.find?_of_get? hOf.get?_eq hSymbol, hKind, Except.mapError]
    rw [hSome, Grammar.fst_take_of_ok ((Grammar.editAll_cons_of_ok hAgain _).trans
      (h.editAll_alternatives hOf ⟨s, hSymbol, hKind⟩ hAlternatives h.uses))]
  · have hRefused : r.grammar.edit x.nonterminal =
        .error (.conflict ⟨x.name, .terminal, .nonterminal⟩) := by
      refine Grammar.edit_symbols_of_error ?_
      simp [SymbolTable.edit, SymbolTable.declareNonterminal, SymbolTable.settle,
        SymbolTable.find?_of_get? hGet hSymbol, hKind, Except.mapError]
    rw [hNone, Grammar.take_of_error (Grammar.editAll_cons_of_error hRefused _)]

/-- A reader takes a step as the grammar does. -/
theorem Sound.grammar_take (h : r.Sound) {d : Draft Ident}
    (hKept : d.Kept r.grammar.symbols r.draft) {step : Step} (hAdmits : d.Admits step)
    (endLine : Nat) : (r.take step).grammar = (r.grammar.take endLine step).1 := by
  have hIdle (hEdits : step.edits = []) : (r.grammar.take endLine step).1 = r.grammar :=
    Grammar.fst_take_of_ok (by rw [hEdits, Grammar.editAll]) endLine
  cases step with
  | mention x =>
      exact (grammar_call (.ok (r.grammar.symbols.mention x.name x.line)) rfl rfl).trans
        (Grammar.take_of_single rfl endLine).symm
  | header x => exact (grammar_call _ rfl rfl).trans (Grammar.take_of_single rfl endLine).symm
  | terminal x => exact (grammar_call _ rfl rfl).trans (Grammar.take_of_single rfl endLine).symm
  | start x => exact h.take_start x endLine
  | shift l =>
      rw [hIdle rfl]
      obtain ⟨token, line⟩ := l
      cases token <;> rfl
  | complete construct =>
      cases construct with
      | rule x alternatives =>
          obtain ⟨hHeader, hRows⟩ := hAdmits x alternatives rfl
          exact h.take_rule hKept hHeader hRows endLine
      | terminals names =>
          rw [hIdle rfl]
          rfl
      | start symbol =>
          rw [hIdle rfl]
          rfl
  | reject expected found =>
      rw [hIdle rfl]
      rfl

theorem draft_attachAll (r : Reader) (id : SymbolId) (rows : List (List Use)) :
    (r.attachAll id rows).draft = r.draft := by
  induction rows generalizing r with
  | nil => rfl
  | cons row rows ih => exact ih (r.call _)

theorem draft_complete (r : Reader) : r.complete.draft = r.draft := by
  unfold complete
  split
  case h_1 => exact r.draft_attachAll _ _
  case h_2 => rfl

/-- What is kept of a rule goes with what is read of it. -/
theorem Sound.kept_take (h : r.Sound) {d : Draft Ident} (hKept : d.Kept r.grammar.symbols r.draft)
    (step : Step) : (d.take step).Kept (r.take step).grammar.symbols (r.take step).draft := by
  have hStill := hKept.mono (h.extends_take step)
  cases step with
  | mention x =>
      have hHanded : r.handed (.mention x.name x.line) =
          some (r.grammar.symbols.mention x.name x.line).1 := rfl
      obtain ⟨name, hName, hGet⟩ := h.history.remembers.lawful.get?_call hHanded
      cases hName
      exact hStill.add ⟨hGet, rfl⟩
  | header x => exact h.kept_begin x
  | terminal x => exact hStill
  | start x =>
      simp only [Reader.take] at hStill ⊢
      cases hHanded : r.handed (.nonterminal x.name x.line) with
      | none =>
          rw [hHanded] at hStill
          exact hStill
      | some id =>
          rw [hHanded] at hStill
          exact hStill
  | shift l =>
      obtain ⟨token, line⟩ := l
      cases token with
      | pipe => exact hStill.pipe
      | _ => exact hStill
  | complete construct =>
      cases construct with
      | rule x alternatives =>
          show d.Kept r.complete.grammar.symbols r.complete.draft
          rw [draft_complete]
          exact hStill
      | terminals names => exact hStill
      | start symbol => exact hStill
  | reject expected found => exact hStill

/-- A reader takes steps as the grammar does, as long as every rule that they complete is the one
under way. The induction is on the steps. -/
theorem Sound.grammar_takeAll (h : r.Sound) {d : Draft Ident}
    (hKept : d.Kept r.grammar.symbols r.draft) {steps : List Step} (hCovers : d.Covers steps)
    (endLine : Nat) : (r.takeAll steps).grammar = (r.grammar.takeAll endLine steps).1 := by
  induction steps generalizing r d with
  | nil => rfl
  | cons step steps ih =>
      rw [Grammar.takeAll, ← h.grammar_take hKept hCovers.1 endLine]
      exact ih (h.take step) (h.kept_take hKept step) hCovers.2

def ofText (file : FileName) (text : List Char) : Reader :=
  (ofFile file).takeAll (Step.ofLexemes (TokenStream.ofText text).lexemes)

/-- A reader can rely on its ids throughout a text, a malformed one included. -/
theorem sound_ofText (file : FileName) (text : List Char) : (ofText file text).Sound :=
  (sound_ofFile file).takeAll _

/-- The reader of a text comes to the grammar that its steps make. -/
theorem grammar_ofText (file : FileName) (text : List Char) :
    (ofText file text).grammar =
      ((Grammar.ofFile file).takeAll (TokenStream.ofText text).endLine
        (Step.ofLexemes (TokenStream.ofText text).lexemes)).1 := by
  have hKept : (Draft.begin none).Kept (ofFile file).grammar.symbols (ofFile file).draft := by
    refine ⟨?_, .nil, .nil⟩
    intro x hHeader
    cases hHeader
  exact (sound_ofFile file).grammar_takeAll hKept (Draft.covers_ofLexemes _ _) _

/-- The reader that calls by ids builds the grammar that a text spells. -/
theorem grammar_of_ofText {file : FileName} {text : List Char} {g : Grammar}
    (h : Grammar.ofText file text = .ok g) : (ofText file text).grammar = g := by
  rw [grammar_ofText]
  simp only [Grammar.ofText, Grammar.ofStream] at h
  split at h
  case isTrue =>
    cases h
    rfl
  case isFalse => cases h

end Reader

end GrammarCheck
