import GrammarCheck.Proofs.Symbol.Lawful
import Mathlib.Data.List.Induction

/-! Histories of a symbol table. Names are handed in and ids handed out; alternatives and
definitions are given to ids. Along every history the table is lawful and only grows, and a name has
one id. -/

namespace GrammarCheck

inductive TableCall where
  | mention (name : String) (line : Nat)
  | terminal (name : String) (line : Nat)
  | nonterminal (name : String) (line : Nat)
  | attach (id : SymbolId) (rule : Rule)
  | define (id : SymbolId) (line : Nat)
  deriving DecidableEq

def TableCall.name? : TableCall → Option String
  | .mention name _ => some name
  | .terminal name _ => some name
  | .nonterminal name _ => some name
  | .attach _ _ => none
  | .define _ _ => none

namespace SymbolTable

/-- The id that is handed out with a new table, or none and the table as it was. -/
def handOut (t : SymbolTable) :
    Except KindConflict (SymbolId × SymbolTable) → Option SymbolId × SymbolTable
  | .ok (id, later) => (some id, later)
  | .error _ => (none, t)

def call (t : SymbolTable) : TableCall → Option SymbolId × SymbolTable
  | .mention name line => t.handOut (.ok (t.mention name line))
  | .terminal name line => t.handOut (t.declareTerminal name line)
  | .nonterminal name line => t.handOut (t.declareNonterminal name line)
  | .attach id rule => (none, t.modify id (·.attach rule))
  | .define id line => (none, t.modify id (·.define line))

/-- The calls that were made, each with the id that it handed out. -/
abbrev CallLog := List (TableCall × Option SymbolId)

/-- What a caller may do. Only nonterminals are given alternatives and definitions, and alternatives
are made of ids that have been handed out. -/
def Allows (log : CallLog) (t : SymbolTable) : TableCall → Prop
  | .attach id rule => (∃ s, t.symbol? id = some s ∧ s.kind = .nonterminal) ∧
      ∀ other ∈ rule.symbols, ∃ c, (c, some other) ∈ log
  | .define id _ => ∃ s, t.symbol? id = some s ∧ s.kind = .nonterminal
  | _ => True

/-- A sequence of calls from the empty table on, and the table that it leads to. -/
inductive History : CallLog → SymbolTable → Prop where
  | nil : History [] .empty
  | call {log : CallLog} {t : SymbolTable} {c : TableCall} (before : History log t)
      (hAllows : t.Allows log c) : History (log ++ [(c, (t.call c).1)]) (t.call c).2

variable {t later : SymbolTable} {log : CallLog} {c : TableCall} {id : SymbolId} {name : String}

/-- Either an id is handed out together with a new table, or the table stays as it was. -/
theorem handOut_cases (t : SymbolTable) (outcome : Except KindConflict (SymbolId × SymbolTable)) :
    (∃ id later, outcome.mapError Refusal.conflict = .ok (id, later) ∧
        t.handOut outcome = (some id, later)) ∨
      t.handOut outcome = (none, t) := by
  cases outcome with
  | ok found => exact .inl ⟨_, _, rfl, rfl⟩
  | error conflict => exact .inr rfl

/-- A call for a name is an edit of the table, and a refused one leaves the table as it is. -/
theorem exists_edit_of_name? (t : SymbolTable) (h : c.name? = some name) :
    ∃ e : SymbolEdit, e.name = name ∧
      ((∃ id later, t.edit e = .ok (id, later) ∧ t.call c = (some id, later)) ∨
        t.call c = (none, t)) := by
  cases c with
  | mention other line =>
      exact ⟨.mention other line, Option.some.inj h, t.handOut_cases (.ok (t.mention other line))⟩
  | terminal other line =>
      exact ⟨.terminal other line, Option.some.inj h, t.handOut_cases _⟩
  | nonterminal other line =>
      exact ⟨.nonterminal other line, Option.some.inj h, t.handOut_cases _⟩
  | attach => cases h
  | define => cases h

/-- A call keeps the table lawful and only extends it, as far as alternatives are made of symbols
that are there. -/
theorem Lawful.call (h : t.Lawful) (hAllows : t.Allows log c)
    (hLog : ∀ c other, (c, some other) ∈ log → other.index < t.size) :
    (t.call c).2.Lawful ∧ t.Extends (t.call c).2 := by
  cases hName : c.name? with
  | some name =>
      obtain ⟨e, -, ⟨id, later, hEdit, hCall⟩ | hRefused⟩ := exists_edit_of_name? t hName
      · obtain ⟨hLawful, hExtends, -⟩ := h.edit hEdit
        rw [hCall]
        exact ⟨hLawful, hExtends⟩
      · rw [hRefused]
        exact ⟨h, .refl t⟩
  | none =>
      cases c with
      | attach id rule =>
          obtain ⟨⟨s, hSymbol, hKind⟩, hIds⟩ := hAllows
          have hRange : ∀ other ∈ rule.symbols, other.index < t.size := by
            intro other hMem
            obtain ⟨earlier, hLogged⟩ := hIds other hMem
            exact hLog earlier other hLogged
          exact ⟨h.modify hSymbol (fun _ => rfl) ((h.symbols id s hSymbol).attach hKind hRange),
            extends_modify hSymbol (Symbol.grows_attach s rule)⟩
      | define id line =>
          obtain ⟨s, hSymbol, hKind⟩ := hAllows
          exact ⟨h.modify hSymbol (fun _ => rfl) ((h.symbols id s hSymbol).define hKind line),
            extends_modify hSymbol (Symbol.grows_define s line)⟩
      | _ => cases hName

/-- An id that is handed out is that of the name asked for. -/
theorem Lawful.get?_call (h : t.Lawful) (hCall : (t.call c).1 = some id) :
    ∃ name, c.name? = some name ∧ (t.call c).2.get? name = some id := by
  cases hName : c.name? with
  | some name =>
      obtain ⟨e, rfl, ⟨id', later, hEdit, hSame⟩ | hRefused⟩ := exists_edit_of_name? t hName
      · obtain ⟨-, -, hGet⟩ := h.edit hEdit
        rw [hSame] at hCall ⊢
        cases hCall
        exact ⟨_, rfl, hGet⟩
      · rw [hRefused] at hCall
        cases hCall
  | none =>
      cases c with
      | attach => cases hCall
      | define => cases hCall
      | _ => cases hName

/-- The ids that were handed out are those of their names. -/
structure Remembers (t : SymbolTable) (log : CallLog) : Prop where
  lawful : t.Lawful
  get?_eq : ∀ c id, (c, some id) ∈ log → ∃ name, c.name? = some name ∧ t.get? name = some id

/-- An id that was handed out is one of the table. -/
theorem Remembers.lt_size (h : t.Remembers log) (hMem : (c, some id) ∈ log) :
    id.index < t.size := by
  obtain ⟨name, -, hGet⟩ := h.get?_eq c id hMem
  obtain ⟨s, hSymbol, -⟩ := (h.lawful.indexed name id).1 hGet
  exact lt_size_of_symbol? hSymbol

/-- A call that is allowed is remembered with its id. -/
theorem Remembers.call (h : t.Remembers log) (hAllows : t.Allows log c) :
    (t.call c).2.Remembers (log ++ [(c, (t.call c).1)]) := by
  obtain ⟨hLawful, hExtends⟩ := h.lawful.call hAllows fun earlier other => h.lt_size
  refine ⟨hLawful, fun c' id hMem => ?_⟩
  rcases List.mem_append.1 hMem with hBefore | hNow
  · obtain ⟨name, hName, hGet⟩ := h.get?_eq c' id hBefore
    exact ⟨name, hName, hExtends.get?_eq name id hGet⟩
  · obtain ⟨rfl, hId⟩ := Prod.mk.inj (List.mem_singleton.1 hNow)
    exact h.lawful.get?_call hId.symm

namespace History

/-- All calls of a history are remembered, by induction on the calls. -/
theorem remembers (h : History log t) : t.Remembers log := by
  induction h with
  | nil => exact ⟨lawful_empty, by simp⟩
  | call before hAllows ih => exact ih.call hAllows

/-- The calls alone make the table. -/
theorem eq_foldl (h : History log t) :
    t = log.foldl (fun t entry => (t.call entry.1).2) .empty := by
  induction h with
  | nil => rfl
  | call before hAllows ih => rw [List.foldl_append, ← ih, List.foldl_cons, List.foldl_nil]

/-- The table after more calls extends the table before them. The induction is on the later calls,
and the last of them extends the table that it was made on. -/
theorem extends_append {more : CallLog} (h : History log t) (hMore : History (log ++ more) later) :
    t.Extends later := by
  induction more using List.reverseRecOn generalizing later with
  | nil =>
      rw [List.append_nil] at hMore
      rw [h.eq_foldl, ← hMore.eq_foldl]
      exact .refl later
  | append_singleton more entry ih =>
      generalize hLog : log ++ (more ++ [entry]) = whole at hMore
      cases hMore with
      | nil => simp at hLog
      | @call earlier before c hBefore hAllows =>
          rw [← List.append_assoc] at hLog
          obtain ⟨rfl, -⟩ := List.append_inj' hLog rfl
          have hRemembers := hBefore.remembers
          exact (ih hBefore).trans
            (hRemembers.lawful.call hAllows fun earlier other => hRemembers.lt_size).2

end History

/-- Along every history the table is lawful, each later table extends it, and a name is given the
same id by every call that is not refused. -/
theorem lawful_of_history {log : CallLog} {t : SymbolTable} (h : History log t) :
    t.Lawful ∧ (∀ more later, History (log ++ more) later → t.Extends later) ∧
      ∀ name c c' id id', c.name? = some name → c'.name? = some name →
        (c, some id) ∈ log → (c', some id') ∈ log → id = id' := by
  refine ⟨h.remembers.lawful, fun more later hMore => h.extends_append hMore, ?_⟩
  intro name c c' id id' hName hName' hMem hMem'
  obtain ⟨first, hFirst, hGet⟩ := h.remembers.get?_eq c id hMem
  obtain ⟨second, hSecond, hGet'⟩ := h.remembers.get?_eq c' id' hMem'
  cases hName.symm.trans hFirst
  cases hName'.symm.trans hSecond
  exact Option.some.inj (hGet.symm.trans hGet')

/-- A history in which a rule uses its own header and a name whose kind is still open, and a
declaration is refused. -/
def pairLog : CallLog :=
  [(.nonterminal "s" 1, some ⟨0⟩), (.mention "a" 1, some ⟨1⟩),
    (.attach ⟨0⟩ ⟨[⟨1⟩, ⟨0⟩], 1⟩, none), (.terminal "s" 2, none), (.define ⟨0⟩ 1, none),
    (.terminal "a" 3, some ⟨1⟩)]

/-- The history of the pair leads to a lawful table, the refused call included. -/
theorem lawful_of_history_pair :
    ∃ t, History pairLog t ∧ t.Lawful ∧
      (∀ more later, History (pairLog ++ more) later → t.Extends later) ∧
      ∀ name c c' id id', c.name? = some name → c'.name? = some name →
        (c, some id) ∈ pairLog → (c', some id') ∈ pairLog → id = id' := by
  have hFirst : History (pairLog.take 1) _ := History.nil.call (c := .nonterminal "s" 1) trivial
  have hNames : History (pairLog.take 2) _ := hFirst.call (c := .mention "a" 1) trivial
  have hAttach : History (pairLog.take 3) _ :=
    hNames.call (c := .attach ⟨0⟩ ⟨[⟨1⟩, ⟨0⟩], 1⟩) ⟨⟨_, rfl, rfl⟩, by simp [pairLog]⟩
  have hRefused : History (pairLog.take 4) _ := hAttach.call (c := .terminal "s" 2) trivial
  have hDefine : History (pairLog.take 5) _ := hRefused.call (c := .define ⟨0⟩ 1) ⟨_, rfl, rfl⟩
  have hEnd : History pairLog _ := hDefine.call (c := .terminal "a" 3) trivial
  exact ⟨_, hEnd, lawful_of_history hEnd⟩

end SymbolTable

end GrammarCheck
