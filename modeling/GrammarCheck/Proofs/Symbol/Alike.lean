import GrammarCheck.Proofs.Symbol.InPlace

/-! Tables that compare equal. Only the symbols are compared, while every name is looked up in the
index. In a table that calls have led to, the index is right and so follows from the symbols. Two
such tables with the same symbols find the same, and they go through all further calls alike. -/

namespace GrammarCheck

namespace SymbolTable

/-- Makes a call. A call that fails has no outcome and leaves the table as it was. -/
def attempt (t : SymbolTable) (c : TableCall) : Option TableOutcome × SymbolTable :=
  match t.perform c with
  | some (outcome, later) => (some outcome, later)
  | none => (none, t)

/-- Makes calls one after the other. Gives what came of each of them, and the table in the end. -/
def attemptAll (t : SymbolTable) : List TableCall → List (Option TableOutcome) × SymbolTable
  | [] => ([], t)
  | c :: cs =>
      let first := t.attempt c
      let others := first.2.attemptAll cs
      (first.1 :: others.1, others.2)

/-- A table that some calls lead to from the empty one on. -/
def Reached (t : SymbolTable) : Prop := ∃ cs, (empty.attemptAll cs).2 = t

/-- Tables with the same symbols that find the same ids. Their indexes need not be the same. -/
structure Alike (t t' : SymbolTable) : Prop where
  symbols_eq : t.symbols = t'.symbols
  get?_eq : ∀ name, t.get? name = t'.get? name

/-- Two ends of a call that look the same: both have failed, or the outcome is the same and the
tables behind it are alike. -/
inductive SameEnd {α : Type} : Option (α × SymbolTable) → Option (α × SymbolTable) → Prop where
  | failed : SameEnd none none
  | done {outcome : α} {t t' : SymbolTable} (hAlike : t.Alike t') :
      SameEnd (some (outcome, t)) (some (outcome, t'))

variable {t t' : SymbolTable} {c : TableCall}

/-- Tables compare equal when their symbols do; their indexes are not looked at. -/
theorem beq_iff : (t == t') = true ↔ t.symbols = t'.symbols := by
  show (t.symbols == t'.symbols) = true ↔ t.symbols = t'.symbols
  exact beq_iff_eq

/-- What is done next ends the same if it does so from all tables that are alike. -/
theorem SameEnd.bind {α β : Type} {first first' : Option (α × SymbolTable)}
    {next : α × SymbolTable → Option (β × SymbolTable)} (h : SameEnd first first')
    (hNext : ∀ outcome {t t' : SymbolTable}, t.Alike t' →
      SameEnd (next (outcome, t)) (next (outcome, t'))) :
    SameEnd (first >>= next) (first' >>= next) := by
  cases h with
  | failed => exact .failed
  | done hAlike => exact hNext _ hAlike

namespace Alike

theorem symbol?_eq (h : t.Alike t') (id : SymbolId) : t.symbol? id = t'.symbol? id :=
  congrArg (·[id.index]?) h.symbols_eq

theorem size_eq (h : t.Alike t') : t.size = t'.size := congrArg Array.size h.symbols_eq

theorem modify (h : t.Alike t') (id : SymbolId) (change : Symbol → Symbol) :
    (t.modify id change).Alike (t'.modify id change) where
  symbols_eq := congrArg (·.modify id.index change) h.symbols_eq
  get?_eq := h.get?_eq

/-- Adding one symbol keeps tables alike, since both give it the same id. -/
theorem add (h : t.Alike t') (name : String) (line : Nat) (kind : SymbolKind) :
    (t.add name line kind).2.Alike (t'.add name line kind).2 where
  symbols_eq := congrArg (·.push ⟨name, kind, [], line, none⟩) h.symbols_eq
  get?_eq := fun other => by rw [get?_add, get?_add, h.size_eq, h.get?_eq]

/-- A name has or gets the same id in both; a new one does since there are as many symbols. -/
theorem enter (h : t.Alike t') (name : String) (line : Nat) (kind : SymbolKind) :
    ∃ id entered entered', t.enter name line kind = (id, entered) ∧
      t'.enter name line kind = (id, entered') ∧ entered.Alike entered' := by
  unfold SymbolTable.enter
  rw [← h.get?_eq name]
  cases t.get? name with
  | some id => exact ⟨id, t, t', rfl, rfl, h⟩
  | none => exact ⟨⟨t.size⟩, _, _, rfl, by rw [h.size_eq]; rfl, h.add name line kind⟩

/-- Settling a kind ends the same way in tables that are alike. -/
theorem commit (h : t.Alike t') (name : String) (line : Nat) (kind : SymbolKind) :
    SameEnd (t.commit name line kind) (t'.commit name line kind) := by
  obtain ⟨id, entered, entered', hEnter, hEnter', hEntered⟩ := h.enter name line kind
  have hWritten := hEntered.modify id (·.upgrade kind)
  simp only [SymbolTable.commit, hEnter, hEnter', ← hWritten.symbol?_eq id, Option.bind_eq_bind]
  cases (entered.modify id (·.upgrade kind)).symbol? id with
  | none => exact .failed
  | some s =>
      rw [Option.bind_some, Option.bind_some]
      split
      case isTrue => exact .done hWritten
      case isFalse => exact .done hWritten

theorem commitTerminal (h : t.Alike t') (name : String) (line : Nat) :
    SameEnd (t.commitTerminal name line) (t'.commitTerminal name line) := by
  refine (h.commit name line .terminal).bind fun outcome t t' hWritten => ?_
  cases outcome with
  | error conflict => exact .done hWritten
  | ok id => exact .done (hWritten.modify id (·.define line))

theorem change (h : t.Alike t') (id : SymbolId) (f : Symbol → Symbol) (outcome : TableOutcome) :
    SameEnd ((t.change id f).map (outcome, ·)) ((t'.change id f).map (outcome, ·)) := by
  unfold SymbolTable.change
  rw [← h.symbol?_eq id]
  cases t.symbol? id with
  | none => exact .failed
  | some s =>
      rw [Option.bind_eq_bind, Option.bind_some, Option.bind_some]
      split
      case isTrue => exact .done (h.modify id f)
      case isFalse => exact .failed

/-- Tables that are alike give the same outcome to a call and stay alike. -/
theorem perform (h : t.Alike t') (c : TableCall) : SameEnd (t.perform c) (t'.perform c) := by
  cases c with
  | mention name line =>
      obtain ⟨id, entered, entered', hEnter, hEnter', hEntered⟩ := h.enter name line .unresolved
      simp only [SymbolTable.perform, hEnter, hEnter']
      exact .done hEntered
  | terminal name line =>
      exact (h.commitTerminal name line).bind fun _ _ _ hLater => .done hLater
  | nonterminal name line =>
      exact (h.commit name line .nonterminal).bind fun _ _ _ hLater => .done hLater
  | attach id rule => exact h.change id (·.attach rule) (.ok none)
  | define id line => exact h.change id (·.define line) (.ok none)

/-- A call cannot tell tables apart that are alike. -/
theorem attempt (h : t.Alike t') (c : TableCall) :
    (t.attempt c).1 = (t'.attempt c).1 ∧ (t.attempt c).2.Alike (t'.attempt c).2 := by
  have hPerform := h.perform c
  unfold SymbolTable.attempt
  generalize t.perform c = ended at hPerform ⊢
  generalize t'.perform c = ended' at hPerform ⊢
  cases hPerform with
  | failed => exact ⟨rfl, h⟩
  | done hLater => exact ⟨rfl, hLater⟩

/-- Two tables that are alike go through any calls side by side. The induction is on the calls, for
all tables that are alike. -/
theorem attemptAll (h : t.Alike t') (cs : List TableCall) :
    (t.attemptAll cs).1 = (t'.attemptAll cs).1 ∧
      (t.attemptAll cs).2.Alike (t'.attemptAll cs).2 := by
  induction cs generalizing t t' with
  | nil => exact ⟨rfl, h⟩
  | cons c cs ih =>
      obtain ⟨hFirst, hLater⟩ := h.attempt c
      obtain ⟨hOthers, hLast⟩ := ih hLater
      exact ⟨List.cons_eq_cons.2 ⟨hFirst, hOthers⟩, hLast⟩

end Alike

/-- Only calls that are permitted have an outcome. -/
theorem permits_of_perform {r : TableOutcome × SymbolTable} (h : t.perform c = some r) :
    t.Permits c := by
  have hChange {id : SymbolId} {f : Symbol → Symbol}
      (hSome : (t.change id f).map (Except.ok none, ·) = some r) :
      ∃ s, t.symbol? id = some s ∧ s.kind = .nonterminal := by
    unfold SymbolTable.change at hSome
    cases hSymbol : t.symbol? id with
    | none => simp [hSymbol] at hSome
    | some s =>
        refine ⟨s, rfl, ?_⟩
        by_contra hKind
        simp [hSymbol, Symbol.isNonterminal, hKind] at hSome
  cases c with
  | attach id rule => exact hChange h
  | define id line => exact hChange h
  | _ => trivial

/-- No call spoils the index, not even one that fails. -/
theorem Indexed.attempt (h : t.Indexed) (c : TableCall) : (t.attempt c).2.Indexed := by
  unfold SymbolTable.attempt
  split
  case h_1 hPerform => exact (h.effect (permits_of_perform hPerform) hPerform).1
  case h_2 => exact h

theorem Indexed.attemptAll (h : t.Indexed) (cs : List TableCall) : (t.attemptAll cs).2.Indexed := by
  induction cs generalizing t with
  | nil => exact h
  | cons c cs ih => exact ih (h.attempt c)

/-- The index of every table that calls lead to is right. -/
theorem Reached.indexed (h : t.Reached) : t.Indexed := by
  obtain ⟨cs, rfl⟩ := h
  exact indexed_empty.attemptAll cs

/-- A right index finds what the symbols say, so tables with the same symbols find the same. -/
theorem Indexed.alike (h : t.Indexed) (h' : t'.Indexed) (hSymbols : t.symbols = t'.symbols) :
    t.Alike t' where
  symbols_eq := hSymbols
  get?_eq := by
    intro name
    refine Option.ext fun id => ?_
    rw [h name id, h' name id, symbol?, symbol?, hSymbols]

/-- Tables that compare equal cannot be told apart, though the comparison looks at no index.
Whatever calls have led to each of them, refused and failed ones included, they find the same id for
every name, and any further calls have the same outcomes one by one on both and lead to tables that
compare equal again. -/
theorem Reached.attemptAll_of_beq (h : t.Reached) (h' : t'.Reached) (hEq : (t == t') = true) :
    (∀ name, t.get? name = t'.get? name) ∧
      ∀ cs, (t.attemptAll cs).1 = (t'.attemptAll cs).1 ∧
        ((t.attemptAll cs).2 == (t'.attemptAll cs).2) = true := by
  have hAlike := h.indexed.alike h'.indexed (beq_iff.1 hEq)
  refine ⟨hAlike.get?_eq, fun cs => ?_⟩
  obtain ⟨hOutcomes, hLast⟩ := hAlike.attemptAll cs
  exact ⟨hOutcomes, beq_iff.2 hLast.symbols_eq⟩

def wordUsedFirst : List TableCall :=
  [.mention "w" 1, .terminal "w" 1, .nonterminal "s" 2, .attach ⟨1⟩ ⟨[⟨0⟩, ⟨1⟩], 2⟩]

/-- Other calls for the same symbols. One of them fails, since `w` is not a nonterminal, and one is
refused. -/
def wordDeclaredFirst : List TableCall :=
  [.terminal "w" 1, .attach ⟨0⟩ ⟨[], 1⟩, .mention "s" 2, .nonterminal "s" 3,
    .attach ⟨1⟩ ⟨[⟨0⟩, ⟨1⟩], 2⟩, .nonterminal "w" 4]

/-- Two histories of one terminal end in tables that compare equal, and so nothing tells them
apart. -/
theorem attemptAll_of_beq_word :
    ((empty.attemptAll wordUsedFirst).2 == (empty.attemptAll wordDeclaredFirst).2) = true ∧
      (∀ name, (empty.attemptAll wordUsedFirst).2.get? name =
        (empty.attemptAll wordDeclaredFirst).2.get? name) ∧
      ∀ cs, ((empty.attemptAll wordUsedFirst).2.attemptAll cs).1 =
          ((empty.attemptAll wordDeclaredFirst).2.attemptAll cs).1 ∧
        (((empty.attemptAll wordUsedFirst).2.attemptAll cs).2 ==
          ((empty.attemptAll wordDeclaredFirst).2.attemptAll cs).2) = true := by
  have hEq : ((empty.attemptAll wordUsedFirst).2 == (empty.attemptAll wordDeclaredFirst).2) =
      true := by decide +kernel
  exact ⟨hEq, Reached.attemptAll_of_beq ⟨_, rfl⟩ ⟨_, rfl⟩ hEq⟩

/-- A table without its index still compares equal, but no call leads to it. -/
example :
    let t := (empty.add "w" 1 .terminal).2
    ({ t with index := .empty } == t) = true ∧ t.get? "w" = some ⟨0⟩ ∧
      SymbolTable.get? { t with index := .empty } "w" = none := by
  decide +kernel

end SymbolTable

end GrammarCheck
