import GrammarCheck.Proofs.Symbol.Calls

/-! Calls that write to a symbol table in place. A name is entered and its kind is settled before
the kinds are compared, so a call has written to the table by the time it is refused. It has then
written only what was there already, and every call comes to what it would if it were checked
first. -/

namespace GrammarCheck

namespace Symbol

/-- The symbol with its kind settled, unless it was settled before. -/
def upgrade (s : Symbol) (kind : SymbolKind) : Symbol :=
  if s.kind = .unresolved then { s with kind := kind } else s

/-- An open kind, or the same kind, is settled without a conflict. -/
theorem upgrade_of_admitted {s : Symbol} {kind : SymbolKind}
    (h : s.kind = .unresolved ∨ s.kind = kind) : s.upgrade kind = { s with kind := kind } := by
  unfold upgrade
  split
  case isTrue => rfl
  case isFalse hSettled => rw [← h.resolve_left hSettled]

theorem upgrade_of_settled {s : Symbol} (h : s.kind ≠ .unresolved) (kind : SymbolKind) :
    s.upgrade kind = s :=
  if_neg h

end Symbol

/-- What a call gives its caller. Only calls for names give an id. -/
abbrev TableOutcome := Except KindConflict (Option SymbolId)

def TableCall.demand? : TableCall → Option (String × SymbolKind)
  | .terminal name _ => some (name, .terminal)
  | .nonterminal name _ => some (name, .nonterminal)
  | _ => none

namespace SymbolTable

/-- The id of a name. A new name is entered with the given kind. -/
def enter (t : SymbolTable) (name : String) (line : Nat) (kind : SymbolKind) :
    SymbolId × SymbolTable :=
  match t.get? name with
  | some id => (id, t)
  | none => t.add name line kind

/-- Settles the kind of a name, or finds out that it is settled as the other one. The table is the
one written to in either case. An id without a symbol would be a failure, which has no result. -/
def commit (t : SymbolTable) (name : String) (line : Nat) (kind : SymbolKind) :
    Option (Except KindConflict SymbolId × SymbolTable) := do
  let (id, entered) := t.enter name line kind
  let written := entered.modify id (·.upgrade kind)
  let s ← written.symbol? id
  if s.kind = kind then return (.ok id, written)
  else return (.error ⟨name, s.kind, kind⟩, written)

/-- Settles a name as a terminal and writes down where that is defined. -/
def commitTerminal (t : SymbolTable) (name : String) (line : Nat) :
    Option (Except KindConflict SymbolId × SymbolTable) := do
  let (outcome, written) ← t.commit name line .terminal
  match outcome with
  | .error conflict => return (.error conflict, written)
  | .ok id => return (.ok id, written.modify id (·.define line))

/-- Changes a nonterminal. For any other id there is no result. -/
def change (t : SymbolTable) (id : SymbolId) (f : Symbol → Symbol) : Option SymbolTable := do
  let s ← t.symbol? id
  if s.isNonterminal then return t.modify id f else none

/-- Makes a call. Gives its outcome and the table as it was written to. -/
def perform (t : SymbolTable) : TableCall → Option (TableOutcome × SymbolTable)
  | .mention name line =>
      let (id, later) := t.enter name line .unresolved
      some (.ok (some id), later)
  | .terminal name line => do
      let (outcome, later) ← t.commitTerminal name line
      return (outcome.map some, later)
  | .nonterminal name line => do
      let (outcome, later) ← t.commit name line .nonterminal
      return (outcome.map some, later)
  | .attach id rule => (t.change id (·.attach rule)).map (.ok none, ·)
  | .define id line => (t.change id (·.define line)).map (.ok none, ·)

/-- The outcome of a declaration with the table behind it, which is the old one after a conflict. -/
def behind (t : SymbolTable) :
    Except KindConflict (SymbolId × SymbolTable) → Except KindConflict SymbolId × SymbolTable
  | .ok (id, later) => (.ok id, later)
  | .error conflict => (.error conflict, t)

variable {t : SymbolTable} {id : SymbolId} {s : Symbol} {name : String} {line : Nat}

theorem Indexed.enter_of_find? (h : t.Indexed) (hFind : t.find? name = some (id, s)) (line : Nat)
    (kind : SymbolKind) : t.enter name line kind = (id, t) := by
  have hGet := (h name id).2 ⟨s, h.find?_eq_some_iff.1 hFind⟩
  simp [SymbolTable.enter, hGet]

theorem Indexed.enter_of_new (h : t.Indexed) (hFind : t.find? name = none) (line : Nat)
    (kind : SymbolKind) : t.enter name line kind = t.add name line kind := by
  have hGet := h.get?_eq_none_iff.2 hFind
  simp [SymbolTable.enter, hGet]

/-- Changes that agree on the symbol at an id lead to one table. -/
theorem modify_congr {f g : Symbol → Symbol} (h : ∀ s, t.symbol? id = some s → f s = g s) :
    t.modify id f = t.modify id g := by
  refine eq_of_symbol?_eq rfl fun other => ?_
  rw [symbol?_modify, symbol?_modify]
  split
  case isTrue hSame => exact Option.map_congr fun s hSymbol => h s (hSame ▸ hSymbol)
  case isFalse => rfl

theorem symbol?_fst_add (t : SymbolTable) (name : String) (line : Nat) (kind : SymbolKind) :
    (t.add name line kind).2.symbol? (t.add name line kind).1 =
      some ⟨name, kind, [], line, none⟩ := by
  rw [symbol?_add]
  exact if_pos rfl

/-- Writing before the kinds are compared comes to the same as comparing them first. -/
theorem Indexed.commit_eq (h : t.Indexed) (name : String) (line : Nat) (kind : SymbolKind) :
    t.commit name line kind = some (t.behind (t.settle name line kind)) := by
  cases hFind : t.find? name with
  | none =>
      have hNew := t.symbol?_fst_add name line kind
      have hWritten : (t.add name line kind).2.modify (t.add name line kind).1 (·.upgrade kind) =
          (t.add name line kind).2 := by
        refine modify_eq_self fun s hSymbol => ?_
        cases hNew.symm.trans hSymbol
        exact Symbol.upgrade_of_admitted (.inr rfl)
      simp [commit, h.enter_of_new hFind, hWritten, hNew, settle, hFind, behind]
  | some found =>
      obtain ⟨id, s⟩ := found
      have hSymbol := (h.find?_eq_some_iff.1 hFind).1
      have hEnter : t.mention name line = (id, t) := h.enter_of_find? hFind line .unresolved
      have hMention : (t.mention name line).2.find? name = some (id, s) := by rwa [hEnter]
      rw [h.settle_eq hMention, hEnter]
      simp only [commit, h.enter_of_find? hFind, symbol?_modify, hSymbol, if_pos, Option.map_some,
        Option.bind_eq_bind, Option.bind_some]
      by_cases hAdmitted : s.kind = .unresolved ∨ s.kind = kind
      · rw [if_pos hAdmitted, Symbol.upgrade_of_admitted hAdmitted, if_pos rfl]
        have hWritten : t.modify id (·.upgrade kind) =
            t.modify id fun s => { s with kind := kind } := by
          refine modify_congr fun other hOther => ?_
          cases hOther.symm.trans hSymbol
          exact Symbol.upgrade_of_admitted hAdmitted
        rw [hWritten]
        rfl
      · obtain ⟨hSettled, hOther⟩ := not_or.1 hAdmitted
        -- a kind that was settled before is not written over, so the table has stayed the same
        rw [if_neg hAdmitted, Symbol.upgrade_of_settled hSettled, if_neg hOther]
        have hWritten : t.modify id (·.upgrade kind) = t := by
          refine modify_eq_self fun other hOther => ?_
          cases hOther.symm.trans hSymbol
          exact Symbol.upgrade_of_settled hSettled kind
        rw [hWritten]
        rfl

/-- Settling a terminal in place is declaring it, with the old table behind a conflict. -/
theorem Indexed.commitTerminal_eq (h : t.Indexed) (name : String) (line : Nat) :
    t.commitTerminal name line = some (t.behind (t.declareTerminal name line)) := by
  rw [commitTerminal, h.commit_eq, declareTerminal]
  cases t.settle name line .terminal <;> rfl

def settled? (t : SymbolTable) (name : String) : Option SymbolKind :=
  ((t.find? name).map (·.2.kind)).filter (· ≠ .unresolved)

/-- What a call does to the kinds of names. It keeps them all, or it settles one that was open or
settled the same way, or it runs into one that was settled the other way and leaves the table as it
was. -/
inductive Effect (t : SymbolTable) (c : TableCall) : TableOutcome → SymbolTable → Prop where
  | keep {id : Option SymbolId} {later : SymbolTable} (hDemand : c.demand? = none)
      (hSettled : ∀ name, later.settled? name = t.settled? name) : Effect t c (.ok id) later
  | settle {id : Option SymbolId} {later : SymbolTable} {name : String} {kind : SymbolKind}
      (hDemand : c.demand? = some (name, kind))
      (hSame : ∀ existing, t.settled? name = some existing → existing = kind)
      (hSettled : ∀ other, later.settled? other =
        if other = name then some kind else t.settled? other) : Effect t c (.ok id) later
  | refuse {conflict : KindConflict}
      (hDemand : c.demand? = some (conflict.name, conflict.requested))
      (hExisting : t.settled? conflict.name = some conflict.existing)
      (hOther : conflict.existing ≠ conflict.requested) : Effect t c (.error conflict) t

variable {c : TableCall} {outcome : TableOutcome} {later : SymbolTable}

theorem settled?_eq_of_find? (hFind : t.find? name = some (id, s)) :
    t.settled? name = if s.kind = .unresolved then none else some s.kind := by
  by_cases hKind : s.kind = .unresolved <;> simp [settled?, hFind, hKind]

theorem Indexed.settled?_mention (h : t.Indexed) (name : String) (line : Nat) (other : String) :
    (t.mention name line).2.settled? other = t.settled? other := by
  by_cases hOther : other = name
  · obtain ⟨id, s, hFind, -, hKnown | ⟨hNew, -, rfl⟩⟩ := h.exists_find?_mention name line
    · rw [hOther, settled?_eq_of_find? hFind, settled?_eq_of_find? hKnown]
    · simp [hOther, settled?, hFind, hNew]
  · have hFind : (t.mention name line).2.find? other = t.find? other :=
      h.find?_enter (.mention name line) hOther
    rw [settled?, settled?, hFind]

/-- Changing what a symbol has besides its name and its kind settles nothing. -/
theorem Indexed.settled?_modify (h : t.Indexed) (hSymbol : t.symbol? id = some s)
    {change : Symbol → Symbol} (hName : ∀ s, (change s).name = s.name)
    (hKind : ∀ s, (change s).kind = s.kind) (other : String) :
    (t.modify id change).settled? other = t.settled? other := by
  have hFind := h.find?_eq_some_iff.2 ⟨hSymbol, rfl⟩
  rw [settled?, h.find?_modify hFind hName]
  split
  case isTrue hSame => simp [settled?, hSame, hFind, hKind]
  case isFalse => rfl

/-- A call that settles a kind is an edit of the table, and a refused one leaves the table as it
is. -/
theorem Indexed.exists_edit_of_demand? (h : t.Indexed) {kind : SymbolKind}
    (hDemand : c.demand? = some (name, kind)) :
    ∃ e : SymbolEdit, e.name = name ∧ e.kind? = some kind ∧
      ((∃ id later, t.edit e = .ok (id, later) ∧ t.perform c = some (.ok (some id), later)) ∨
        ∃ conflict, t.edit e = .error (.conflict conflict) ∧
          t.perform c = some (.error conflict, t)) := by
  cases c with
  | terminal other line =>
      cases hDemand
      refine ⟨.terminal name line, rfl, rfl, ?_⟩
      rw [SymbolTable.edit, perform, h.commitTerminal_eq]
      cases t.declareTerminal name line with
      | ok found => exact .inl ⟨_, _, rfl, rfl⟩
      | error conflict => exact .inr ⟨_, rfl, rfl⟩
  | nonterminal other line =>
      cases hDemand
      refine ⟨.nonterminal name line, rfl, rfl, ?_⟩
      rw [SymbolTable.edit, perform, h.commit_eq, declareNonterminal]
      cases t.settle name line .nonterminal with
      | ok found => exact .inl ⟨_, _, rfl, rfl⟩
      | error conflict => exact .inr ⟨_, rfl, rfl⟩
  | _ => cases hDemand

/-- An edit that settles a kind finds a symbol for its name, which tells how the name has been
settled before. -/
theorem Indexed.exists_entered (h : t.Indexed) {e : SymbolEdit} {kind : SymbolKind}
    (hKind : e.kind? = some kind) :
    ∃ id s, (e.enter t).find? e.name = some (id, s) ∧
      t.settled? e.name = if s.kind = .unresolved then none else some s.kind := by
  have hMention (name : String) (line : Nat) :
      ∃ id s, (t.mention name line).2.find? name = some (id, s) ∧
        t.settled? name = if s.kind = .unresolved then none else some s.kind := by
    obtain ⟨id, s, hFind, -⟩ := h.exists_find?_mention name line
    exact ⟨id, s, hFind, by rw [← h.settled?_mention name line, settled?_eq_of_find? hFind]⟩
  cases e with
  | terminal name line => exact hMention name line
  | nonterminal name line => exact hMention name line
  | _ => cases hKind

/-- An edit settles the kind of its own name and no other. -/
theorem Indexed.settled?_edit (h : t.Indexed) {e : SymbolEdit} {kind : SymbolKind}
    (hKind : e.kind? = some kind) (hFind : (e.enter t).find? e.name = some (id, s))
    (other : String) :
    ((e.enter t).modify id (e.change t)).settled? other =
      if other = e.name then some kind else t.settled? other := by
  have hSettled : kind ≠ .unresolved := fun hOpen => e.kind?_ne_unresolved (hOpen ▸ hKind)
  rw [settled?, h.find?_edit hFind]
  split
  case isTrue => simp [e.kind_change hKind, hSettled]
  case isFalse => rfl

/-- A call that settles a kind does so or is refused. -/
theorem Indexed.effect_of_demand? (h : t.Indexed) {kind : SymbolKind}
    (hDemand : c.demand? = some (name, kind)) :
    ∃ outcome later, t.perform c = some (outcome, later) ∧ later.Indexed ∧
      t.Effect c outcome later := by
  obtain ⟨e, rfl, hKind, hPerform⟩ := h.exists_edit_of_demand? hDemand
  obtain ⟨id, s, hFind, hExisting⟩ := h.exists_entered hKind
  have hEdit := h.edit_eq_of_kind? hKind hFind
  split at hEdit
  case isTrue hAdmitted =>
    obtain ⟨id', later, hOk, hPerform⟩ | ⟨conflict, hError, -⟩ := hPerform
    · cases hEdit.symm.trans hOk
      refine ⟨_, _, hPerform, h.edit hEdit, .settle hDemand ?_ (h.settled?_edit hKind hFind)⟩
      intro existing hSettled
      rw [hExisting] at hSettled
      split at hSettled
      case isTrue => cases hSettled
      case isFalse hOpen => exact Option.some.inj hSettled ▸ hAdmitted.resolve_left hOpen
    · cases hEdit.symm.trans hError
  case isFalse hRefused =>
    obtain ⟨hOpen, hOther⟩ := not_or.1 hRefused
    obtain ⟨id', later, hOk, -⟩ | ⟨conflict, hError, hPerform⟩ := hPerform
    · cases hEdit.symm.trans hOk
    · cases hEdit.symm.trans hError
      rw [if_neg hOpen] at hExisting
      exact ⟨_, _, hPerform, h, .refuse hDemand hExisting hOther⟩

/-- Alternatives and definitions are given to nonterminals. -/
def Permits (t : SymbolTable) : TableCall → Prop
  | .attach id _ => ∃ s, t.symbol? id = some s ∧ s.kind = .nonterminal
  | .define id _ => ∃ s, t.symbol? id = some s ∧ s.kind = .nonterminal
  | _ => True

/-- A change to what a nonterminal has besides its name and its kind keeps all kinds. -/
theorem Indexed.effect_of_change (h : t.Indexed) (hSymbol : t.symbol? id = some s)
    (hNonterminal : s.kind = .nonterminal) (hDemand : c.demand? = none) {f : Symbol → Symbol}
    (hName : ∀ s, (f s).name = s.name) (hKind : ∀ s, (f s).kind = s.kind) :
    ∃ later, t.change id f = some later ∧ later.Indexed ∧ t.Effect c (.ok none) later := by
  have hSettled := h.settled?_modify hSymbol hName hKind
  refine ⟨t.modify id f, ?_, h.modify hName, .keep hDemand hSettled⟩
  simp [change, hSymbol, Symbol.isNonterminal, hNonterminal]

/-- Every call that is permitted has an outcome. -/
theorem Indexed.exists_effect (h : t.Indexed) (hPermits : t.Permits c) :
    ∃ outcome later, t.perform c = some (outcome, later) ∧ later.Indexed ∧
      t.Effect c outcome later := by
  cases hDemand : c.demand? with
  | some demand => exact h.effect_of_demand? hDemand
  | none =>
      cases c with
      | mention name line =>
          exact ⟨_, _, rfl, h.mention name line, .keep hDemand (h.settled?_mention name line)⟩
      | attach id rule =>
          obtain ⟨s, hSymbol, hKind⟩ := hPermits
          obtain ⟨later, hChange, hLater⟩ := h.effect_of_change (f := (·.attach rule)) hSymbol hKind
            hDemand (fun _ => rfl) fun _ => rfl
          exact ⟨.ok none, later, congrArg (Option.map _) hChange, hLater⟩
      | define id line =>
          obtain ⟨s, hSymbol, hKind⟩ := hPermits
          obtain ⟨later, hChange, hLater⟩ := h.effect_of_change (f := (·.define line)) hSymbol hKind
            hDemand (fun _ => rfl) fun _ => rfl
          exact ⟨.ok none, later, congrArg (Option.map _) hChange, hLater⟩
      | _ => cases hDemand

/-- What a call has done that had an outcome. -/
theorem Indexed.effect (h : t.Indexed) (hPermits : t.Permits c)
    (hPerform : t.perform c = some (outcome, later)) :
    later.Indexed ∧ t.Effect c outcome later := by
  obtain ⟨outcome', later', hPerform', hLater⟩ := h.exists_effect hPermits
  cases hPerform.symm.trans hPerform'
  exact hLater

end SymbolTable

end GrammarCheck
