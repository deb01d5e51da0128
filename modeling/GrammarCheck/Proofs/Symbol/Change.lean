import GrammarCheck.Proofs.Symbol.Indexed

/-! What an edit does. It makes sure that its name has a symbol, looks whether that symbol admits
it, and then changes that symbol and no other. -/

namespace GrammarCheck

namespace SymbolEdit

def name : SymbolEdit → String
  | .mention name _ => name
  | .terminal name _ => name
  | .nonterminal name _ => name
  | .rule name _ _ => name
  | .define name _ => name

def kind? : SymbolEdit → Option SymbolKind
  | .terminal _ _ => some .terminal
  | .nonterminal _ _ => some .nonterminal
  | _ => none

/-- The table in which an edit makes its change: the name of a use gets a symbol, and whatever else
there is to say about a name needs one that is there already. -/
def enter (t : SymbolTable) : SymbolEdit → SymbolTable
  | .mention name line => (t.mention name line).2
  | .terminal name line => (t.mention name line).2
  | .nonterminal name line => (t.mention name line).2
  | .rule _ _ _ => t
  | .define _ _ => t

def Admits (t : SymbolTable) (s : Symbol) : SymbolEdit → Prop
  | .mention _ _ => True
  | .terminal _ _ => s.kind = .unresolved ∨ s.kind = .terminal
  | .nonterminal _ _ => s.kind = .unresolved ∨ s.kind = .nonterminal
  | .rule _ symbols _ => s.kind = .nonterminal ∧ ∀ name ∈ symbols, t.get? name ≠ none
  | .define _ _ => s.kind = .nonterminal

/-- What an edit changes about the symbol of its name. -/
def change (t : SymbolTable) : SymbolEdit → Symbol → Symbol
  | .mention _ _, s => s
  | .terminal _ line, s => { s with kind := .terminal }.define line
  | .nonterminal _ _, s => { s with kind := .nonterminal }
  | .rule _ symbols line, s => s.attach ⟨symbols.filterMap t.get?, line⟩
  | .define _ line, s => s.define line

@[simp] theorem name_change (t : SymbolTable) (e : SymbolEdit) (s : Symbol) :
    (e.change t s).name = s.name := by
  cases e <;> rfl

/-- An edit that settles a kind leaves the symbol with that kind. -/
theorem kind_change {e : SymbolEdit} {kind : SymbolKind} (h : e.kind? = some kind)
    (t : SymbolTable) (s : Symbol) : (e.change t s).kind = kind := by
  cases e with
  | terminal name line => exact Option.some.inj h
  | nonterminal name line => exact Option.some.inj h
  | _ => cases h

theorem kind?_ne_unresolved (e : SymbolEdit) : e.kind? ≠ some .unresolved := by
  cases e <;> simp [kind?]

end SymbolEdit

namespace SymbolTable

variable {t t' : SymbolTable}

namespace Indexed

theorem lookup_eq_ok_iff (h : t.Indexed) {name : String} {id : SymbolId} {s : Symbol} :
    t.lookup name = .ok (id, s) ↔ t.symbol? id = some s ∧ s.name = name := by
  rw [← h.find?_eq_some_iff, lookup]
  cases t.find? name <;> simp

/-- Several names are found when each of them has a symbol. -/
theorem lookupAll_eq_ok_iff (h : t.Indexed) {names : List String} {ids : List SymbolId} :
    t.lookupAll names = .ok ids ↔
      (∀ name ∈ names, t.get? name ≠ none) ∧ ids = names.filterMap t.get? := by
  induction names generalizing ids with
  | nil => simp [lookupAll, eq_comm]
  | cons name names ih =>
      cases hFind : t.find? name with
      | none =>
          have hNone := h.get?_eq_none_iff.2 hFind
          simp [lookupAll, lookup, hFind, hNone, bind, Except.bind]
      | some found =>
          obtain ⟨id, s⟩ := found
          have hGet := (h name id).2 ⟨s, h.find?_eq_some_iff.1 hFind⟩
          cases hRest : t.lookupAll names with
          | error refusal =>
              have hNot : ¬ ∀ other ∈ names, t.get? other ≠ none := by
                intro hAll
                rw [ih.2 ⟨hAll, rfl⟩] at hRest
                cases hRest
              simp only [lookupAll, lookup, hFind, hRest, bind, Except.bind]
              constructor
              · intro hError
                cases hError
              · rintro ⟨hAll, -⟩
                exact absurd (fun other hMem => hAll other (List.mem_cons_of_mem name hMem)) hNot
          | ok others =>
              obtain ⟨hAll, hIds⟩ := ih.1 hRest
              simp only [lookupAll, lookup, hFind, hRest, bind, Except.bind, pure, Except.pure,
                Except.ok.injEq, List.filterMap_cons, hGet, ← hIds]
              constructor
              · rintro rfl
                refine ⟨?_, rfl⟩
                intro other hMem
                rcases List.mem_cons.1 hMem with rfl | hMem
                · simp [hGet]
                · exact hAll other hMem
              · rintro ⟨-, rfl⟩
                rfl

/-- After a use the name has a symbol, and a new symbol is blank. -/
theorem exists_find?_mention (h : t.Indexed) (name : String) (line : Nat) :
    ∃ id s, (t.mention name line).2.find? name = some (id, s) ∧
      (t.mention name line).1 = id ∧
      (t.find? name = some (id, s) ∨
        t.find? name = none ∧ id = ⟨t.size⟩ ∧ s = ⟨name, .unresolved, [], line, none⟩) := by
  cases hGet : t.get? name with
  | some id =>
      obtain ⟨s, hSymbol, hName⟩ := (h name id).1 hGet
      have hFind := h.find?_eq_some_iff.2 ⟨hSymbol, hName⟩
      exact ⟨id, s, by simpa [SymbolTable.mention, hGet] using hFind,
        by simp [SymbolTable.mention, hGet], .inl hFind⟩
  | none =>
      refine ⟨⟨t.size⟩, ⟨name, .unresolved, [], line, none⟩, ?_, ?_,
        .inr ⟨h.get?_eq_none_iff.1 hGet, rfl, rfl⟩⟩
      · rw [(h.mention name line).find?_eq_some_iff]
        simp [SymbolTable.mention, hGet]
      · simp [SymbolTable.mention, hGet, SymbolTable.add]

/-- Settling a kind in terms of the symbol that the name has after its use. -/
theorem settle_eq (h : t.Indexed) {name : String} {line : Nat} {id : SymbolId} {s : Symbol}
    (hFind : (t.mention name line).2.find? name = some (id, s)) (kind : SymbolKind) :
    t.settle name line kind =
      if s.kind = .unresolved ∨ s.kind = kind then
        .ok (id, (t.mention name line).2.modify id fun s => { s with kind := kind })
      else .error ⟨name, s.kind, kind⟩ := by
  obtain ⟨id', s', hFind', -, hBefore⟩ := h.exists_find?_mention name line
  cases hFind.symm.trans hFind'
  rcases hBefore with hKnown | ⟨hNew, rfl, rfl⟩
  · have hGet := (h name id).2 ⟨s, h.find?_eq_some_iff.1 hKnown⟩
    have hSame : (t.mention name line).2 = t := by simp [SymbolTable.mention, hGet]
    rw [hSame]
    simp only [settle, hKnown]
    by_cases hKind : s.kind = kind
    · have hModify : t.modify id (fun s => { s with kind := kind }) = t := by
        apply modify_eq_self
        intro other hOther
        cases hOther.symm.trans (h.find?_eq_some_iff.1 hKnown).1
        simp [← hKind]
      simp [hKind, hModify]
    · simp [hKind]
  · have hGet := h.get?_eq_none_iff.2 hNew
    have hMention : (t.mention name line).2 = (t.add name line .unresolved).2 := by
      simp [SymbolTable.mention, hGet]
    rw [hMention, modify_add]
    simp [settle, hNew, SymbolTable.add]

end Indexed

theorem ite_eq_ok_iff {ε α : Type} {condition : Prop} [Decidable condition] {a b : α} {e : ε} :
    (if condition then Except.ok a else .error e) = .ok b ↔ condition ∧ a = b := by
  split <;> simp [*]

/-- The symbol that an edit finds is the only one to ask. -/
theorem exists_entered_iff {e : SymbolEdit} {id id' : SymbolId} {s : Symbol}
    (hFind : (e.enter t).find? e.name = some (id, s)) :
    (∃ s, (e.enter t).find? e.name = some (id', s) ∧ e.Admits t s ∧
      t' = (e.enter t).modify id' (e.change t)) ↔
      e.Admits t s ∧ (id, (e.enter t).modify id (e.change t)) = (id', t') := by
  constructor
  · rintro ⟨s', hFind', hAdmits, rfl⟩
    cases hFind.symm.trans hFind'
    exact ⟨hAdmits, rfl⟩
  · rintro ⟨hAdmits, hEq⟩
    cases hEq
    exact ⟨s, hFind, hAdmits, rfl⟩

namespace Indexed

/-- Declaring a terminal is refused to a nonterminal only. -/
theorem edit_terminal_eq (h : t.Indexed) {name : String} {line : Nat} {id : SymbolId} {s : Symbol}
    (hFind : (t.mention name line).2.find? name = some (id, s)) :
    t.edit (.terminal name line) =
      if s.kind = .unresolved ∨ s.kind = .terminal then
        .ok (id, (t.mention name line).2.modify id ((SymbolEdit.terminal name line).change t))
      else .error (.conflict ⟨name, s.kind, .terminal⟩) := by
  simp only [edit, declareTerminal, h.settle_eq hFind]
  split
  case isTrue => exact congrArg (fun table => Except.ok (id, table)) (modify_modify id _ _)
  case isFalse => rfl

/-- Declaring a nonterminal is refused to a terminal only. -/
theorem edit_nonterminal_eq (h : t.Indexed) {name : String} {line : Nat} {id : SymbolId}
    {s : Symbol} (hFind : (t.mention name line).2.find? name = some (id, s)) :
    t.edit (.nonterminal name line) =
      if s.kind = .unresolved ∨ s.kind = .nonterminal then
        .ok (id, (t.mention name line).2.modify id ((SymbolEdit.nonterminal name line).change t))
      else .error (.conflict ⟨name, s.kind, .nonterminal⟩) := by
  simp only [edit, declareNonterminal, h.settle_eq hFind]
  split <;> rfl

/-- An alternative is attached to a nonterminal, and its names have to be known. -/
theorem edit_rule_eq_ok_iff (h : t.Indexed) {name : String} {symbols : List String} {line : Nat}
    {id : SymbolId} {s : Symbol} (hFind : t.find? name = some (id, s)) {outcome} :
    t.edit (.rule name symbols line) = .ok outcome ↔
      (s.kind = .nonterminal ∧ ∀ name ∈ symbols, t.get? name ≠ none) ∧
        (id, t.modify id ((SymbolEdit.rule name symbols line).change t)) = outcome := by
  simp only [edit, lookup, hFind, bind, Except.bind]
  cases hAll : t.lookupAll symbols with
  | error refusal =>
      have hNot : ¬ ∀ name ∈ symbols, t.get? name ≠ none := by
        intro hKnown
        rw [h.lookupAll_eq_ok_iff.2 ⟨hKnown, rfl⟩] at hAll
        cases hAll
      simp [hNot]
  | ok ids =>
      obtain ⟨hKnown, rfl⟩ := h.lookupAll_eq_ok_iff.1 hAll
      simp only [ifNonterminal, ite_eq_ok_iff, Symbol.isNonterminal, decide_eq_true_eq]
      rw [and_iff_left hKnown]
      rfl

/-- An edit is accepted when the symbol of its name admits it, and then it changes that symbol. -/
theorem edit_eq_ok_iff (h : t.Indexed) {e : SymbolEdit} {id : SymbolId} :
    t.edit e = .ok (id, t') ↔ ∃ s, (e.enter t).find? e.name = some (id, s) ∧ e.Admits t s ∧
      t' = (e.enter t).modify id (e.change t) := by
  cases e with
  | mention name line =>
      obtain ⟨_, s, hFind, rfl, -⟩ := h.exists_find?_mention name line
      rw [exists_entered_iff (e := .mention name line) hFind]
      have hModify : (t.mention name line).2.modify (t.mention name line).1
          ((SymbolEdit.mention name line).change t) = (t.mention name line).2 :=
        modify_eq_self fun _ _ => rfl
      simp only [SymbolEdit.Admits, true_and, edit, Except.ok.injEq, SymbolEdit.enter]
      rw [hModify]
  | terminal name line =>
      obtain ⟨id', s, hFind, -, -⟩ := h.exists_find?_mention name line
      rw [exists_entered_iff (e := .terminal name line) hFind, h.edit_terminal_eq hFind, ite_eq_ok_iff]
      rfl
  | nonterminal name line =>
      obtain ⟨id', s, hFind, -, -⟩ := h.exists_find?_mention name line
      rw [exists_entered_iff (e := .nonterminal name line) hFind, h.edit_nonterminal_eq hFind, ite_eq_ok_iff]
      rfl
  | rule name symbols line =>
      cases hFind : t.find? name with
      | none => simp [edit, lookup, SymbolEdit.enter, SymbolEdit.name, hFind, bind, Except.bind]
      | some found =>
          obtain ⟨id', s⟩ := found
          rw [exists_entered_iff (e := .rule name symbols line) hFind, h.edit_rule_eq_ok_iff hFind]
          rfl
  | define name line =>
      cases hFind : t.find? name with
      | none => simp [edit, lookup, SymbolEdit.enter, SymbolEdit.name, hFind, bind, Except.bind]
      | some found =>
          obtain ⟨id', s⟩ := found
          rw [exists_entered_iff (e := .define name line) hFind]
          simp only [edit, lookup, hFind, bind, Except.bind, ifNonterminal, ite_eq_ok_iff,
            Symbol.isNonterminal, decide_eq_true_eq]
          rfl

/-- Making room for an edit keeps the index right. -/
theorem enter (h : t.Indexed) (e : SymbolEdit) : (e.enter t).Indexed := by
  cases e with
  | mention name line => exact h.mention name line
  | terminal name line => exact h.mention name line
  | nonterminal name line => exact h.mention name line
  | rule => exact h
  | define => exact h

/-- Edits keep the index right. -/
theorem edit (h : t.Indexed) {e : SymbolEdit} {id : SymbolId} (hEdit : t.edit e = .ok (id, t')) :
    t'.Indexed := by
  obtain ⟨s, -, -, rfl⟩ := h.edit_eq_ok_iff.1 hEdit
  exact (h.enter e).modify fun s => e.name_change t s

end Indexed

/-- A symbol that is there stays as it is when a name is entered. -/
theorem symbol?_enter {e : SymbolEdit} {id : SymbolId} {s : Symbol} (hSymbol : t.symbol? id = some s) :
    (e.enter t).symbol? id = some s := by
  have hMention (name : String) (line : Nat) : (t.mention name line).2.symbol? id = some s := by
    unfold mention
    split
    case h_1 => exact hSymbol
    case h_2 =>
      rw [symbol?_add, if_neg (Nat.ne_of_lt (lt_size_of_symbol? hSymbol)), hSymbol]
  cases e with
  | mention name line => exact hMention name line
  | terminal name line => exact hMention name line
  | nonterminal name line => exact hMention name line
  | rule => exact hSymbol
  | define => exact hSymbol

/-- An accepted edit changes the symbol it is about, if that was there before, and keeps the
others. -/
theorem Indexed.symbol?_edit (h : t.Indexed) {e : SymbolEdit} {id other : SymbolId}
    (hEdit : t.edit e = .ok (id, t')) {s : Symbol} (hSymbol : t.symbol? other = some s) :
    t'.symbol? other = some (if other = id then e.change t s else s) := by
  obtain ⟨-, -, -, rfl⟩ := h.edit_eq_ok_iff.1 hEdit
  rw [symbol?_modify, symbol?_enter hSymbol]
  split <;> rfl

namespace Indexed

/-- Changing the symbol of one name changes nothing for the other names. -/
theorem find?_modify (h : t.Indexed) {name : String} {id : SymbolId} {s : Symbol}
    (hFind : t.find? name = some (id, s)) {change : Symbol → Symbol}
    (hName : ∀ s, (change s).name = s.name) (other : String) :
    (t.modify id change).find? other =
      if other = name then some (id, change s) else t.find? other := by
  obtain ⟨hSymbol, hSame⟩ := h.find?_eq_some_iff.1 hFind
  split
  case isTrue hOther =>
    rw [(h.modify hName).find?_eq_some_iff, symbol?_modify, if_pos rfl, hSymbol, hName, hSame]
    exact ⟨rfl, hOther.symm⟩
  case isFalse hOther =>
    cases hFound : t.find? other with
    | none =>
        rw [(h.modify hName).find?_eq_none_iff]
        intro id' s' hSymbol'
        rw [symbol?_modify] at hSymbol'
        split at hSymbol'
        case isTrue hId =>
          rw [hId, hSymbol] at hSymbol'
          cases hSymbol'
          rw [hName, hSame]
          exact Ne.symm hOther
        case isFalse => exact h.find?_eq_none_iff.1 hFound id' s' hSymbol'
    | some found =>
        obtain ⟨id', s'⟩ := found
        obtain ⟨hSymbol', hSame'⟩ := h.find?_eq_some_iff.1 hFound
        have hId : id' ≠ id := by
          rintro rfl
          cases hSymbol.symm.trans hSymbol'
          exact hOther (hSame'.symm.trans hSame)
        rw [(h.modify hName).find?_eq_some_iff, symbol?_modify, if_neg hId]
        exact ⟨hSymbol', hSame'⟩

/-- Entering a name changes nothing for the other names. -/
theorem find?_enter (h : t.Indexed) (e : SymbolEdit) {other : String} (hOther : other ≠ e.name) :
    (e.enter t).find? other = t.find? other := by
  have hMention (name : String) (line : Nat) (hOther : other ≠ name) :
      (t.mention name line).2.find? other = t.find? other := by
    unfold SymbolTable.mention
    split
    case h_1 => rfl
    case h_2 =>
      rw [find?, get?_add, if_neg hOther, find?]
      cases hGet : t.get? other with
      | none => rfl
      | some id =>
          obtain ⟨s, hSymbol, -⟩ := (h other id).1 hGet
          have hLast := Nat.ne_of_lt (lt_size_of_symbol? hSymbol)
          simp [hLast]
  cases e with
  | mention name line => exact hMention name line hOther
  | terminal name line => exact hMention name line hOther
  | nonterminal name line => exact hMention name line hOther
  | rule => rfl
  | define => rfl

/-- An accepted edit changes what is known about its name and nothing else. -/
theorem find?_edit (h : t.Indexed) {e : SymbolEdit} {id : SymbolId} {s : Symbol}
    (hFind : (e.enter t).find? e.name = some (id, s)) (other : String) :
    ((e.enter t).modify id (e.change t)).find? other =
      if other = e.name then some (id, e.change t s) else t.find? other := by
  rw [(h.enter e).find?_modify hFind fun s => e.name_change t s]
  split
  case isTrue => rfl
  case isFalse hOther => exact h.find?_enter e hOther

/-- An edit that settles a kind is refused exactly when its name is settled as the other kind. -/
theorem edit_eq_of_kind? (h : t.Indexed) {e : SymbolEdit} {kind : SymbolKind}
    (hKind : e.kind? = some kind) {id : SymbolId} {s : Symbol}
    (hFind : (e.enter t).find? e.name = some (id, s)) :
    t.edit e = if s.kind = .unresolved ∨ s.kind = kind then
        .ok (id, (e.enter t).modify id (e.change t))
      else .error (.conflict ⟨e.name, s.kind, kind⟩) := by
  cases e with
  | terminal name line =>
      cases hKind
      exact h.edit_terminal_eq hFind
  | nonterminal name line =>
      cases hKind
      exact h.edit_nonterminal_eq hFind
  | _ => cases hKind

end Indexed

end SymbolTable

end GrammarCheck
