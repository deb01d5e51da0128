import GrammarCheck.Grammar.Reading
import GrammarCheck.Proofs.Grammar.Reachable
import GrammarCheck.Proofs.Step.Draft
import GrammarCheck.Proofs.Symbol.Calls

/-! Reading by calls on a symbol table. A reader asks for the id of each name where it reads the
name, and keeps the ids of a rule until the rule is completed. It never looks at a name again, and
comes to the same grammar as the edits do. -/

namespace GrammarCheck

/-- An id that was handed out for a name at some line. -/
structure Use where
  id : SymbolId
  line : Nat

/-- The alternative made of some ids. It counts as written where it begins. -/
def Use.rule (uses : List Use) : Rule := ⟨uses.map (·.id), (uses.head?.map (·.line)).getD 0⟩

/-- A reader: the grammar so far, the calls that were made on its table, and the ids of the rule
under way. The header has no id if its name was refused. -/
structure Reader where
  grammar : Grammar
  log : SymbolTable.CallLog
  draft : Draft Use

namespace Reader

def ofFile (file : FileName) : Reader := ⟨.ofFile file, [], .begin none⟩

def handed (r : Reader) (c : TableCall) : Option SymbolId := (r.grammar.symbols.call c).1

def call (r : Reader) (c : TableCall) : Reader :=
  { r with
    grammar := { r.grammar with symbols := (r.grammar.symbols.call c).2 }
    log := r.log ++ [(c, r.handed c)] }

def attachAll (r : Reader) (id : SymbolId) (rows : List (List Use)) : Reader :=
  rows.foldl (fun r row => r.call (.attach id (Use.rule row))) r

/-- Gives the header of the rule under way its alternatives, and defines it. -/
def complete (r : Reader) : Reader :=
  match r.draft.header with
  | some header => (r.attachAll header.id r.draft.rows).call (.define header.id header.line)
  | none => r

def take (r : Reader) : Step → Reader
  | .mention x =>
      let c := .mention x.name x.line
      { r.call c with draft := (r.handed c).elim r.draft fun id => r.draft.add ⟨id, x.line⟩ }
  | .header x =>
      let c := .nonterminal x.name x.line
      { r.call c with draft := .begin ((r.handed c).map fun id => ⟨id, x.line⟩) }
  | .terminal x => r.call (.terminal x.name x.line)
  | .start x =>
      let c := .nonterminal x.name x.line
      (r.handed c).elim (r.call c) fun id =>
        { r.call c with grammar := (r.call c).grammar.declareStart id x.line }
  | .shift ⟨.pipe, _⟩ => { r with draft := r.draft.pipe }
  | .complete (.rule _ _) => r.complete
  | _ => r

def takeAll (r : Reader) (steps : List Step) : Reader := steps.foldl take r

/-- What a reader can rely on. All its calls were allowed, its header is a nonterminal, and the
other ids it keeps were handed out to it. -/
structure Sound (r : Reader) : Prop where
  history : SymbolTable.History r.log r.grammar.symbols
  header : ∀ use, r.draft.header = some use →
    ∃ s, r.grammar.symbols.symbol? use.id = some s ∧ s.kind = .nonterminal
  uses : ∀ row ∈ r.draft.rows, ∀ use ∈ row, ∃ c, (c, some use.id) ∈ r.log

/-- Before the first call there is nothing to rely on. -/
theorem sound_ofFile (file : FileName) : (ofFile file).Sound where
  history := .nil
  header := by
    intro use hHeader
    cases hHeader
  uses := by simp [ofFile, Draft.begin, Draft.rows]

end Reader

namespace SymbolTable

variable {t later : SymbolTable}

theorem Extends.nonterminal (h : t.Extends later) {id : SymbolId} {s : Symbol}
    (hSymbol : t.symbol? id = some s) (hKind : s.kind = .nonterminal) :
    ∃ s, later.symbol? id = some s ∧ s.kind = .nonterminal := by
  obtain ⟨s', hLater, hGrows⟩ := h.symbols id s hSymbol
  refine ⟨s', hLater, ?_⟩
  rw [hGrows.kind_eq (by simp [hKind]), hKind]

/-- The name that is accepted as a nonterminal is one. -/
theorem Lawful.nonterminal_of_declareNonterminal (h : t.Lawful) {name : String} {line : Nat}
    {id : SymbolId} (hDeclare : t.declareNonterminal name line = .ok (id, later)) :
    ∃ s, later.symbol? id = some s ∧ s.kind = .nonterminal := by
  have hEdit : t.edit (.nonterminal name line) = .ok (id, later) := by
    rw [SymbolTable.edit, hDeclare]
    rfl
  obtain ⟨s, hFind, -, rfl⟩ := h.indexed.edit_eq_ok_iff.1 hEdit
  obtain ⟨hSymbol, -⟩ := (h.enter _).1.indexed.find?_eq_some_iff.1 hFind
  refine ⟨(SymbolEdit.nonterminal name line).change t s, ?_, rfl⟩
  rw [symbol?_modify, if_pos rfl, hSymbol, Option.map_some]

/-- What was called before the last calls is a history as well. -/
theorem History.of_append {log more : CallLog} (h : History (log ++ more) t) :
    ∃ earlier, History log earlier := by
  induction more using List.reverseRecOn generalizing t with
  | nil => exact ⟨t, by rwa [List.append_nil] at h⟩
  | append_singleton more entry ih =>
      generalize hLog : log ++ (more ++ [entry]) = whole at h
      cases h with
      | nil => simp at hLog
      | call before hAllows =>
          rw [← List.append_assoc] at hLog
          obtain ⟨rfl, -⟩ := List.append_inj' hLog rfl
          exact ih before

/-- Each call of a history was allowed when it was made. -/
theorem History.allows {log more : CallLog} {c : TableCall} {outcome : Option SymbolId}
    (h : History (log ++ (c, outcome) :: more) t) :
    ∃ earlier, History log earlier ∧ earlier.Allows log c ∧ (earlier.call c).1 = outcome := by
  rw [List.append_cons] at h
  obtain ⟨now, hNow⟩ := h.of_append
  generalize hLog : log ++ [(c, outcome)] = whole at hNow
  cases hNow with
  | nil => simp at hLog
  | @call _ earlier _ before hAllows =>
      obtain ⟨rfl, hEntry⟩ := List.append_inj' hLog rfl
      cases hEntry
      exact ⟨earlier, before, hAllows, rfl⟩

end SymbolTable

namespace Reader

variable {r : Reader} {c : TableCall}

/-- A call that is allowed leaves everything that the reader keeps in force. -/
theorem Sound.call (h : r.Sound) (hAllows : r.grammar.symbols.Allows r.log c) :
    (r.call c).Sound where
  history := h.history.call hAllows
  header := by
    intro use hHeader
    obtain ⟨s, hSymbol, hKind⟩ := h.header use hHeader
    have hExtends := (h.history.remembers.lawful.call hAllows
      fun earlier other => h.history.remembers.lt_size).2
    exact hExtends.nonterminal hSymbol hKind
  uses := by
    intro row hRow use hUse
    obtain ⟨earlier, hMem⟩ := h.uses row hRow use hUse
    exact ⟨earlier, List.mem_append_left _ hMem⟩

/-- The id that a call hands out is logged. -/
theorem mem_log_call {id : SymbolId} (h : r.handed c = some id) :
    (c, some id) ∈ (r.call c).log := by
  rw [← h]
  exact List.mem_append_right _ List.mem_cons_self

/-- Alternatives made of ids that were handed out can be attached one after the other. -/
theorem Sound.attachAll (h : r.Sound) {id : SymbolId}
    (hKind : ∃ s, r.grammar.symbols.symbol? id = some s ∧ s.kind = .nonterminal)
    (rows : List (List Use)) (hRows : ∀ row ∈ rows, ∀ use ∈ row, ∃ c, (c, some use.id) ∈ r.log) :
    (r.attachAll id rows).Sound ∧
      ∃ s, (r.attachAll id rows).grammar.symbols.symbol? id = some s ∧ s.kind = .nonterminal := by
  induction rows generalizing r with
  | nil => exact ⟨h, hKind⟩
  | cons row rows ih =>
      rw [List.forall_mem_cons] at hRows
      have hAllows : r.grammar.symbols.Allows r.log (.attach id (Use.rule row)) := by
        refine ⟨hKind, fun other hOther => ?_⟩
        obtain ⟨use, hUse, rfl⟩ := List.mem_map.1 hOther
        exact hRows.1 use hUse
      have hExtends := (h.history.remembers.lawful.call hAllows
        fun earlier other => h.history.remembers.lt_size).2
      obtain ⟨s, hSymbol, hNonterminal⟩ := hKind
      refine ih (h.call hAllows) (hExtends.nonterminal hSymbol hNonterminal) ?_
      intro other hOther use hUse
      obtain ⟨earlier, hMem⟩ := hRows.2 other hOther use hUse
      exact ⟨earlier, List.mem_append_left _ hMem⟩

/-- Completing the rule under way is allowed: its header is a nonterminal, and its symbols were
met. -/
theorem Sound.complete (h : r.Sound) : r.complete.Sound := by
  unfold Reader.complete
  split
  case h_1 header hHeader =>
    obtain ⟨hSound, hKind⟩ := h.attachAll (h.header header hHeader) r.draft.rows h.uses
    exact hSound.call hKind
  case h_2 => exact h

/-- Declaring a start symbol is no call. -/
theorem Sound.declareStart (h : r.Sound) (id : SymbolId) (line : Nat) :
    Sound { r with grammar := r.grammar.declareStart id line } := by
  have hSame := Grammar.symbols_declareStart r.grammar id line
  refine ⟨?_, ?_, h.uses⟩
  · show SymbolTable.History r.log (r.grammar.declareStart id line).symbols
    rw [hSame]
    exact h.history
  · intro use hHeader
    show ∃ s, (r.grammar.declareStart id line).symbols.symbol? use.id = some s ∧ _
    rw [hSame]
    exact h.header use hHeader

/-- One more symbol of the rule under way has an id that was handed out. -/
theorem Sound.add (h : r.Sound) {use : Use} (hUse : ∃ c, (c, some use.id) ∈ r.log) :
    Sound { r with draft := r.draft.add use } := by
  refine ⟨h.history, h.header, ?_⟩
  intro row hRow other hOther
  rcases List.mem_append.1 hRow with hFinished | hLast
  · exact h.uses row (List.mem_append_left _ hFinished) other hOther
  · rw [List.mem_singleton.1 hLast] at hOther
    rcases List.mem_append.1 hOther with hOld | hNew
    · exact h.uses r.draft.current (List.mem_append_right _ List.mem_cons_self) other hOld
    · rwa [List.mem_singleton.1 hNew]

theorem Sound.pipe (h : r.Sound) : Sound { r with draft := r.draft.pipe } := by
  refine ⟨h.history, h.header, ?_⟩
  intro row hRow use hUse
  rcases List.mem_append.1 hRow with hFinished | hLast
  · exact h.uses row hFinished use hUse
  · rw [List.mem_singleton.1 hLast] at hUse
    cases hUse

/-- The header that a call hands out is a nonterminal. -/
theorem Sound.begin (h : r.Sound) (x : Ident) :
    Sound { r.call (.nonterminal x.name x.line) with
      draft := .begin ((r.handed (.nonterminal x.name x.line)).map fun id => ⟨id, x.line⟩) } := by
  have hCall : (r.call (.nonterminal x.name x.line)).Sound := h.call trivial
  refine ⟨hCall.history, ?_, by simp [Draft.begin, Draft.rows]⟩
  intro use hHeader
  obtain ⟨id, hHanded, rfl⟩ := Option.map_eq_some_iff.1 hHeader
  cases hDeclare : r.grammar.symbols.declareNonterminal x.name x.line with
  | error conflict => simp [handed, SymbolTable.call, SymbolTable.handOut, hDeclare] at hHanded
  | ok found =>
      have hKind := h.history.remembers.lawful.nonterminal_of_declareNonterminal hDeclare
      simp only [handed, SymbolTable.call, SymbolTable.handOut, hDeclare,
        Option.some.injEq] at hHanded
      subst hHanded
      simpa [Reader.call, SymbolTable.call, SymbolTable.handOut, hDeclare] using hKind

/-- Whatever step is taken, all calls that it makes are allowed. -/
theorem Sound.take (h : r.Sound) (step : Step) : (r.take step).Sound := by
  cases step with
  | mention x =>
      have hCall : (r.call (.mention x.name x.line)).Sound := h.call trivial
      simp only [Reader.take]
      cases hHanded : r.handed (.mention x.name x.line) with
      | none => exact hCall
      | some id => exact hCall.add ⟨_, mem_log_call hHanded⟩
  | header x => exact h.begin x
  | terminal x => exact h.call trivial
  | start x =>
      have hCall : (r.call (.nonterminal x.name x.line)).Sound := h.call trivial
      simp only [Reader.take]
      cases r.handed (.nonterminal x.name x.line) with
      | none => exact hCall
      | some id => exact hCall.declareStart id x.line
  | shift l =>
      obtain ⟨token, line⟩ := l
      cases token with
      | pipe => exact h.pipe
      | _ => exact h
  | complete construct =>
      cases construct with
      | rule header alternatives => exact h.complete
      | _ => exact h
  | reject expected found => exact h

/-- What a reader relies on holds after every step, by induction on the steps. -/
theorem Sound.takeAll (h : r.Sound) (steps : List Step) : (r.takeAll steps).Sound := by
  induction steps generalizing r with
  | nil => exact h
  | cons step steps ih => exact ih (h.take step)

end Reader

end GrammarCheck
