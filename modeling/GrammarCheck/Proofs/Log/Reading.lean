import GrammarCheck.Log
import GrammarCheck.Proofs.Grammar.Verified
import GrammarCheck.Proofs.Step.Shifted

/-! A log against what is read. The log of a text tells all of its tokens, every symbol of its
table and each of its defects, once and in order, whether or not the text is well-formed. -/

namespace GrammarCheck

namespace TokenStream

/-- The next tokens of those ahead, with the end of the text once there are no more. -/
def upcoming (endLine : Nat) (ahead : List (Option Token × Nat)) (n : Nat) :
    List (Option Token × Nat) :=
  ahead.take n ++ List.replicate (n - ahead.length) (none, endLine)

theorem pull_eq_upcoming (stream : TokenStream) (n : Nat) :
    stream.pull n = upcoming stream.endLine stream.tokens n := by
  simp [pull, upcoming, tokens]

variable (endLine : Nat) (ahead : List (Option Token × Nat))

/-- The next token comes first; behind the last one the end comes again and again. -/
theorem upcoming_succ (n : Nat) :
    upcoming endLine ahead (n + 1) =
      ahead.headD (none, endLine) :: upcoming endLine ahead.tail n := by
  cases ahead with
  | nil => simp [upcoming, List.replicate_succ]
  | cons token ahead => simp [upcoming]

/-- What comes next is what comes first, and then what is ahead of the rest. -/
theorem upcoming_add (m n : Nat) :
    upcoming endLine ahead (m + n) =
      upcoming endLine ahead m ++ upcoming endLine (ahead.drop m) n := by
  induction m generalizing ahead with
  | zero => simp [upcoming]
  | succ m ih =>
      rw [Nat.add_right_comm, upcoming_succ, upcoming_succ, ih, List.drop_tail, List.cons_append]

end TokenStream

namespace SymbolTable

/-- The names of a table with their ids. Unlike the symbols themselves they never change. -/
def entries (t : SymbolTable) : List (SymbolId × String) := t.toList.map fun (id, s) => (id, s.name)

theorem length_entries (t : SymbolTable) : t.entries.length = t.size := by
  simp [entries, toList, size]

theorem getElem?_entries (t : SymbolTable) (i : Nat) :
    t.entries[i]? = (t.symbol? ⟨i⟩).map fun s => (⟨i⟩, s.name) := by
  simp [entries, toList, symbol?, List.getElem?_zipIdx, Function.comp_def]

/-- A later table has more entries, behind those that there were. -/
theorem Extends.entries_prefix {t later : SymbolTable} (h : t.Extends later) :
    t.entries <+: later.entries := by
  rw [List.prefix_iff_getElem?]
  intro i hBound
  have hEntry := List.getElem?_eq_getElem hBound
  rw [← hEntry]
  rw [getElem?_entries] at hEntry
  obtain ⟨s, hSymbol, -⟩ := Option.map_eq_some_iff.1 hEntry
  obtain ⟨s', hLater, hGrows⟩ := h.symbols ⟨i⟩ s hSymbol
  simp [getElem?_entries, hSymbol, hLater, hGrows.name_eq]

end SymbolTable

namespace Grammar

variable {g : Grammar}

/-- A step keeps the table lawful and only extends it, whatever comes of the step. -/
theorem lawful_take (h : g.symbols.Lawful) (endLine : Nat) (step : Step) :
    (g.take endLine step).1.symbols.Lawful ∧
      g.symbols.Extends (g.take endLine step).1.symbols := by
  cases hEdits : g.editAll step.edits with
  | ok after =>
      rw [fst_take_of_ok hEdits, ← afterAll_of_editAll hEdits]
      exact ⟨lawful_afterAll h _, extends_afterAll h _⟩
  | error refusal =>
      rw [take_of_error hEdits]
      exact ⟨h, .refl g.symbols⟩

end Grammar

namespace Log

namespace Event

def seen? : Event → Option (Option Token × Nat)
  | .token found line => some (found, line)
  | _ => none

/-- The name that an event enters into the table, with its id. -/
def entered? : Event → Option (SymbolId × String)
  | .newSymbol id s => some (id, s.name)
  | _ => none

def fault? : Event → Option Fault
  | .conflict fault => some fault
  | .rejection defect => some defect.cause
  | _ => none

end Event

/-- The tokens that a log mentions, all but the blank lines. -/
def visible (tokens : List (Option Token × Nat)) : List (Option Token × Nat) :=
  tokens.filter fun token => token.1 != some .blankLine

section

variable {α : Type} {ask : Event → Option α}

/-- A question that no token answers. -/
theorem filterMap_ofToken (hToken : ∀ found line, ask (.token found line) = none)
    (token : Option Token × Nat) : (ofToken token).filterMap ask = [] := by
  fun_cases ofToken token with
  | case1 => rfl
  | case2 found line => rw [List.filterMap_cons_none (hToken found line), List.filterMap_nil]

theorem filterMap_flatMap_ofToken (hToken : ∀ found line, ask (.token found line) = none)
    (tokens : List (Option Token × Nat)) : (tokens.flatMap ofToken).filterMap ask = [] := by
  rw [List.filterMap_flatMap, List.flatMap_eq_nil_iff]
  exact fun token _ => filterMap_ofToken hToken token

/-- A question that only reading answers. -/
theorem filterMap_examination
    (hRead : ∀ terminals nonterminals, ask (.grammarRead terminals nonterminals) = none)
    (hPass : ∀ number proven, ask (.pass number proven) = none)
    (hExamined : ∀ productive nonterminals defects,
      ask (.examined productive nonterminals defects) = none)
    (read : Except (List Defect) Grammar) : (examination read).filterMap ask = [] := by
  cases read with
  | error defects => rfl
  | ok g => simp [examination, ofReport, ofRanking, hRead, hPass, hExamined]

end

theorem seen_ofToken (token : Option Token × Nat) :
    (ofToken token).filterMap Event.seen? = visible [token] := by
  fun_cases ofToken token with
  | case1 => rfl
  | case2 found line hBlank =>
      have hVisible : (found != some .blankLine) = true := by simpa using hBlank
      simp [visible, hVisible, Event.seen?]

section

variable (before after : Grammar)

theorem seen_ofTables : (ofTables before after).filterMap Event.seen? = [] := by
  rw [ofTables, List.filterMap_map]
  exact List.filterMap_eq_nil_iff.2 fun _ _ => rfl

/-- A step tells exactly the entries that were not there before. -/
theorem entered_ofTables :
    (ofTables before after).filterMap Event.entered? =
      after.symbols.entries.drop before.symbols.size := by
  rw [ofTables, List.filterMap_map, SymbolTable.entries, ← List.map_drop]
  exact congrFun List.filterMap_eq_map _

theorem faults_ofTables : (ofTables before after).filterMap Event.fault? = [] := by
  rw [ofTables, List.filterMap_map]
  exact List.filterMap_eq_nil_iff.2 fun _ _ => rfl

end

section

variable (step : Step) (defects : List Defect)

theorem seen_outcome : (outcome step defects).filterMap Event.seen? = [] := by
  fun_cases outcome step defects <;> simp [Event.seen?]

theorem entered_outcome : (outcome step defects).filterMap Event.entered? = [] := by
  fun_cases outcome step defects <;> simp [Event.entered?]

/-- What comes of a step tells each of its defects, as a rejection or as a conflict. -/
theorem faults_outcome :
    (outcome step defects).filterMap Event.fault? = defects.map (·.cause) := by
  fun_cases outcome step defects with
  | case1 =>
      rw [List.filterMap_map]
      exact congrFun List.filterMap_eq_map _
  | case2 =>
      rw [List.filterMap_map]
      exact congrFun List.filterMap_eq_map _
  | _ => rfl

end

variable (endLine : Nat)

theorem visible_append (tokens others : List (Option Token × Nat)) :
    visible (tokens ++ others) = visible tokens ++ visible others :=
  List.filter_append tokens others

theorem seen_flatMap_ofToken (tokens : List (Option Token × Nat)) :
    (tokens.flatMap ofToken).filterMap Event.seen? = visible tokens := by
  induction tokens with
  | nil => rfl
  | cons token tokens ih =>
      rw [List.flatMap_cons, List.filterMap_append, seen_ofToken, ih, ← visible_append]
      rfl

/-- Each lexeme left behind brings on one more token. -/
theorem seen_ofSteps (g : Grammar) (ahead : List (Option Token × Nat)) (steps : List Step) :
    (ofSteps g endLine ahead steps).filterMap Event.seen? =
      visible (TokenStream.upcoming endLine ahead (Step.shifted steps).length) := by
  fun_induction ofSteps g endLine ahead steps with
  | case1 g ahead => simp [TokenStream.upcoming, Step.shifted, visible]
  | case2 g ahead l steps ih =>
      have hShifted : Step.shifted (.shift l :: steps) = l :: Step.shifted steps := rfl
      rw [List.filterMap_append, seen_ofToken, ih, hShifted, List.length_cons,
        TokenStream.upcoming_succ, ← visible_append]
      rfl
  | case3 g ahead step steps hStep now ih =>
      have hShifted : Step.shifted (step :: steps) = Step.shifted steps := by
        cases step with
        | shift l => exact (hStep l rfl).elim
        | _ => rfl
      rw [List.filterMap_append, List.filterMap_append, seen_ofTables, seen_outcome, ih, hShifted]
      rfl

/-- Steps only add to the table, and the log tells what they add. The induction is on the steps; a
table that is lawful stays so. -/
theorem entered_ofSteps {g : Grammar} (h : g.symbols.Lawful) (ahead : List (Option Token × Nat))
    (steps : List Step) :
    g.symbols.entries ++ (ofSteps g endLine ahead steps).filterMap Event.entered? =
      (g.takeAll endLine steps).1.symbols.entries := by
  fun_induction ofSteps g endLine ahead steps with
  | case1 g ahead => simp [Grammar.takeAll]
  | case2 g ahead l steps ih =>
      rw [List.filterMap_append, filterMap_ofToken fun _ _ => rfl]
      exact ih h
  | case3 g ahead step steps _ now ih =>
      obtain ⟨hLawful, hExtends⟩ := Grammar.lawful_take h endLine step
      have hNow := List.prefix_iff_eq_append.1 hExtends.entries_prefix
      rw [SymbolTable.length_entries] at hNow
      rw [List.filterMap_append, List.filterMap_append, entered_ofTables, entered_outcome,
        List.append_nil, ← List.append_assoc, hNow]
      exact ih hLawful

/-- The defects of each step are told where it is taken. -/
theorem faults_ofSteps (g : Grammar) (ahead : List (Option Token × Nat)) (steps : List Step) :
    (ofSteps g endLine ahead steps).filterMap Event.fault? =
      (g.takeAll endLine steps).2.map (·.cause) := by
  fun_induction ofSteps g endLine ahead steps with
  | case1 g ahead => rfl
  | case2 g ahead l steps ih =>
      rw [List.filterMap_append, filterMap_ofToken fun _ _ => rfl]
      exact ih
  | case3 g ahead step steps _ now ih =>
      rw [List.filterMap_append, List.filterMap_append, faults_ofTables, faults_outcome, ih,
        Grammar.takeAll, List.map_append]
      rfl

section

variable (file : FileName) (stream : TokenStream)

/-- All names of the final table have been entered, in the order of their ids. -/
theorem entered_ofStream :
    (ofStream file stream).filterMap Event.entered? =
      ((Grammar.ofFile file).takeAll stream.endLine
        (Step.ofLexemes stream.lexemes)).1.symbols.entries := by
  have hEmpty : (Grammar.ofFile file).symbols.Lawful := SymbolTable.lawful_empty
  rw [ofStream, List.filterMap_append, List.filterMap_append,
    filterMap_flatMap_ofToken (fun _ _ => rfl),
    filterMap_examination (fun _ _ => rfl) (fun _ _ => rfl) (fun _ _ _ => rfl), List.append_nil]
  exact entered_ofSteps stream.endLine hEmpty _ _

/-- All defects of the text have been told, in order. -/
theorem faults_ofStream :
    (ofStream file stream).filterMap Event.fault? =
      ((Grammar.ofFile file).takeAll stream.endLine
        (Step.ofLexemes stream.lexemes)).2.map (·.cause) := by
  rw [ofStream, List.filterMap_append, List.filterMap_append,
    filterMap_flatMap_ofToken (fun _ _ => rfl), faults_ofSteps,
    filterMap_examination (fun _ _ => rfl) (fun _ _ => rfl) (fun _ _ _ => rfl), List.append_nil]
  rfl

/-- All tokens up to the end of the text come into view. Two of them are ahead from the start, so
the end does a second time when the last lexeme is left behind. -/
theorem seen_ofStream :
    (ofStream file stream).filterMap Event.seen? =
      visible (stream.pull (stream.lexemes.length + 2)) := by
  rw [ofStream, List.filterMap_append, List.filterMap_append, seen_flatMap_ofToken, seen_ofSteps,
    Step.shifted_ofLexemes,
    filterMap_examination (fun _ _ => rfl) (fun _ _ => rfl) (fun _ _ _ => rfl), List.append_nil,
    ← visible_append, TokenStream.pull_eq_upcoming, TokenStream.pull_eq_upcoming, Nat.add_comm,
    TokenStream.upcoming_add]

/-- A log of what matters more than single tokens leaves out no fault. -/
theorem faults_atLeast (events : List Event) :
    (atLeast .debug events).filterMap Event.fault? = events.filterMap Event.fault? := by
  rw [atLeast, List.filterMap_filter]
  apply List.filterMap_congr
  intro event _
  cases event <;> rfl

/-- What the log of a text tells: its tokens, but for blank lines; if it is well-formed, the names
of its table in the order of their ids, and nothing at fault; and if not, what is at fault in each
of its defects. -/
theorem ofStream_exact :
    (ofStream file stream).filterMap Event.seen? =
        visible (stream.pull (stream.lexemes.length + 2)) ∧
      (∀ g, Grammar.ofStream file stream = .ok g →
        (ofStream file stream).filterMap Event.entered? = g.symbols.entries ∧
          (ofStream file stream).filterMap Event.fault? = []) ∧
      ∀ defects, Grammar.ofStream file stream = .error defects →
        (ofStream file stream).filterMap Event.fault? = defects.map (·.cause) := by
  rw [entered_ofStream, faults_ofStream, Grammar.ofStream]
  refine ⟨seen_ofStream file stream, ?_, ?_⟩
  · intro g hOk
    split at hOk
    case isTrue hNone =>
      cases hOk
      exact ⟨rfl, by rw [List.isEmpty_iff.1 hNone, List.map_nil]⟩
    case isFalse => cases hOk
  · intro defects hError
    split at hError
    case isTrue => cases hError
    case isFalse =>
      cases hError
      rfl

end

end Log

end GrammarCheck
