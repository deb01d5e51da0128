import GrammarCheck.Proofs.Symbol.Change

/-! What a symbol table looks like at any time, and how it grows. Symbols and index agree, what a
symbol says fits its kind, and a later table says all that an earlier one did. Two steps are enough
to see this: a new symbol, and a change to one symbol. -/

namespace GrammarCheck

namespace Symbol

/-- A symbol says only what fits its kind, in a table of the given size. -/
structure Lawful (size : Nat) (s : Symbol) : Prop where
  inRange : ∀ rule ∈ s.rules, ∀ id ∈ rule.symbols, id.index < size
  ofTerminal : s.kind = .terminal → s.definedAt ≠ none ∧ s.rules = []
  ofUnresolved : s.kind = .unresolved → s.definedAt = none ∧ s.rules = []

/-- A symbol later on. An open kind may be settled, a missing definition may be given, and there may
be more alternatives behind those that there were. -/
structure Grows (s later : Symbol) : Prop where
  name_eq : later.name = s.name
  firstSeen_eq : later.firstSeen = s.firstSeen
  kind_eq : s.kind ≠ .unresolved → later.kind = s.kind
  definedAt_eq : s.definedAt ≠ none → later.definedAt = s.definedAt
  rules_prefix : s.rules <+: later.rules

variable {s later last : Symbol} {size other : Nat}

/-- What is lawful in a table is so in a larger one. -/
theorem Lawful.mono (h : s.Lawful size) (hSize : size ≤ other) : s.Lawful other where
  inRange := fun rule hRule id hId => Nat.lt_of_lt_of_le (h.inRange rule hRule id hId) hSize
  ofTerminal := h.ofTerminal
  ofUnresolved := h.ofUnresolved

/-- A new symbol of an open kind. -/
theorem lawful_new (name : String) (line size : Nat) :
    Lawful size ⟨name, .unresolved, [], line, none⟩ where
  inRange := by simp
  ofTerminal := by simp
  ofUnresolved := by simp

/-- A nonterminal can be given alternatives of symbols that are there. -/
theorem Lawful.attach (h : s.Lawful size) (hKind : s.kind = .nonterminal) {rule : Rule}
    (hRule : ∀ id ∈ rule.symbols, id.index < size) : (s.attach rule).Lawful size where
  inRange := by
    intro other hMem
    rcases List.mem_append.1 hMem with hOld | hNew
    · exact h.inRange other hOld
    · rwa [List.mem_singleton.1 hNew]
  ofTerminal := by simp [Symbol.attach, hKind]
  ofUnresolved := by simp [Symbol.attach, hKind]

theorem Lawful.define (h : s.Lawful size) (hKind : s.kind = .nonterminal) (line : Nat) :
    (s.define line).Lawful size where
  inRange := h.inRange
  ofTerminal := by simp [Symbol.define, hKind]
  ofUnresolved := by simp [Symbol.define, hKind]

/-- A terminal never has alternatives, since no symbol of an open kind has any. -/
theorem Lawful.terminal (h : s.Lawful size) (hKind : s.kind = .unresolved ∨ s.kind = .terminal)
    (line : Nat) : ({ s with kind := .terminal }.define line).Lawful size where
  inRange := h.inRange
  ofTerminal := by
    have hRules : s.rules = [] := hKind.elim (fun hOpen => (h.ofUnresolved hOpen).2)
      fun hTerminal => (h.ofTerminal hTerminal).2
    simp [Symbol.define, hRules]
  ofUnresolved := by simp [Symbol.define]

/-- A symbol can become a nonterminal without more ado, for nothing is asked of one. -/
theorem Lawful.nonterminal (h : s.Lawful size) : Lawful size { s with kind := .nonterminal } where
  inRange := h.inRange
  ofTerminal := by simp
  ofUnresolved := by simp

theorem Grows.refl (s : Symbol) : s.Grows s where
  name_eq := rfl
  firstSeen_eq := rfl
  kind_eq := fun _ => rfl
  definedAt_eq := fun _ => rfl
  rules_prefix := List.prefix_rfl

theorem Grows.trans (h : s.Grows later) (hLast : later.Grows last) : s.Grows last where
  name_eq := hLast.name_eq.trans h.name_eq
  firstSeen_eq := hLast.firstSeen_eq.trans h.firstSeen_eq
  kind_eq := by
    intro hKind
    have hSame := h.kind_eq hKind
    rw [hLast.kind_eq (hSame ▸ hKind), hSame]
  definedAt_eq := by
    intro hDefined
    have hSame := h.definedAt_eq hDefined
    rw [hLast.definedAt_eq (hSame ▸ hDefined), hSame]
  rules_prefix := h.rules_prefix.trans hLast.rules_prefix

theorem grows_attach (s : Symbol) (rule : Rule) : s.Grows (s.attach rule) :=
  { Grows.refl s with rules_prefix := List.prefix_append s.rules [rule] }

theorem grows_define (s : Symbol) (line : Nat) : s.Grows (s.define line) :=
  { Grows.refl s with
    definedAt_eq := by
      intro hDefined
      obtain ⟨first, hFirst⟩ := Option.ne_none_iff_exists'.1 hDefined
      simp [Symbol.define, hFirst] }

/-- Settling an open kind, or the same one, is growing. -/
theorem grows_settle {kind : SymbolKind} (h : s.kind = .unresolved ∨ s.kind = kind) :
    s.Grows { s with kind := kind } :=
  { Grows.refl s with kind_eq := fun hKind => (h.resolve_left hKind).symm }

end Symbol

/-- A key that had no value gets an entry of its own. -/
theorem Dictionary.size_insert_of_new {κ α : Type} [DecidableEq κ] {dictionary : Dictionary κ α}
    {key : κ} (hNew : dictionary.get? key = none) (value : α) :
    (dictionary.insert key value).2.size = dictionary.size + 1 := by
  have hKey : key ∉ dictionary.entries.map Prod.fst := by
    intro hMem
    obtain ⟨entry, hEntry, rfl⟩ := List.mem_map.1 hMem
    simpa using List.lookup_eq_none_iff.1 hNew entry hEntry
  rw [insert, dif_neg hKey]
  rfl

namespace SymbolTable

/-- What holds of every table that calls lead to. -/
structure Lawful (t : SymbolTable) : Prop where
  names_nodup : (t.symbols.toList.map (·.name)).Nodup
  indexed : t.Indexed
  size_eq : t.index.size = t.size
  symbols : ∀ id s, t.symbol? id = some s → s.Lawful t.size

/-- A later table. Every name keeps its id, and the symbol with that id only grows. -/
structure Extends (t later : SymbolTable) : Prop where
  get?_eq : ∀ name id, t.get? name = some id → later.get? name = some id
  symbols : ∀ id s, t.symbol? id = some s → ∃ s', later.symbol? id = some s' ∧ s.Grows s'

variable {t later last : SymbolTable}

theorem Extends.refl (t : SymbolTable) : t.Extends t where
  get?_eq := fun _ _ hGet => hGet
  symbols := fun _ s hSymbol => ⟨s, hSymbol, .refl s⟩

theorem Extends.trans (h : t.Extends later) (hLast : later.Extends last) : t.Extends last where
  get?_eq := fun name id hGet => hLast.get?_eq name id (h.get?_eq name id hGet)
  symbols := by
    intro id s hSymbol
    obtain ⟨s', hLater, hGrows⟩ := h.symbols id s hSymbol
    obtain ⟨s'', hSymbol'', hGrows'⟩ := hLast.symbols id s' hLater
    exact ⟨s'', hSymbol'', hGrows.trans hGrows'⟩

/-- A right index leaves each name to one symbol. -/
theorem Indexed.names_nodup (h : t.Indexed) : (t.symbols.toList.map (·.name)).Nodup := by
  rw [List.Nodup, List.pairwise_map, List.pairwise_iff_getElem]
  intro i j hi hj hij hSame
  rw [Array.length_toList] at hi hj
  rw [Array.getElem_toList, Array.getElem_toList] at hSame
  have hSymbol (k : Nat) (hk : k < t.symbols.size) : t.symbol? ⟨k⟩ = some t.symbols[k] :=
    Array.getElem?_eq_getElem hk
  have hId := h.id_unique (hSymbol i hi) (hSymbol j hj) hSame
  exact Nat.ne_of_lt hij (congrArg SymbolId.index hId)

theorem lawful_empty : empty.Lawful where
  names_nodup := indexed_empty.names_nodup
  indexed := indexed_empty
  size_eq := rfl
  symbols := by
    intro id s hSymbol
    cases hSymbol

theorem size_add (name : String) (line : Nat) (kind : SymbolKind) :
    (t.add name line kind).2.size = t.size + 1 :=
  Array.size_push ..

theorem Lawful.add (h : t.Lawful) {name : String} (hNew : t.get? name = none) (line : Nat) :
    (t.add name line .unresolved).2.Lawful where
  names_nodup := (h.indexed.add hNew line .unresolved).names_nodup
  indexed := h.indexed.add hNew line .unresolved
  size_eq := by
    rw [size_add, ← h.size_eq]
    exact Dictionary.size_insert_of_new hNew ⟨t.size⟩
  symbols := by
    intro id s hSymbol
    rw [size_add]
    rw [symbol?_add] at hSymbol
    split at hSymbol
    case isTrue =>
      cases hSymbol
      exact Symbol.lawful_new name line (t.size + 1)
    case isFalse => exact (h.symbols id s hSymbol).mono (Nat.le_succ t.size)

/-- A table with a new name extends the one without it. -/
theorem extends_add {name : String} (hNew : t.get? name = none) (line : Nat) (kind : SymbolKind) :
    t.Extends (t.add name line kind).2 where
  get?_eq := by
    intro other id hGet
    have hOther : other ≠ name := by
      rintro rfl
      rw [hNew] at hGet
      cases hGet
    rw [get?_add, if_neg hOther, hGet]
  symbols := by
    intro id s hSymbol
    refine ⟨s, ?_, .refl s⟩
    rw [symbol?_add, if_neg (Nat.ne_of_lt (lt_size_of_symbol? hSymbol)), hSymbol]

/-- A change to one symbol is to be looked at there only. -/
theorem Lawful.modify (h : t.Lawful) {id : SymbolId} {s : Symbol} (hSymbol : t.symbol? id = some s)
    {change : Symbol → Symbol} (hName : ∀ s, (change s).name = s.name)
    (hChange : (change s).Lawful t.size) : (t.modify id change).Lawful where
  names_nodup := (h.indexed.modify hName).names_nodup
  indexed := h.indexed.modify hName
  size_eq := h.size_eq.trans (Array.size_modify ..).symm
  symbols := by
    intro other s' hOther
    have hSize : (t.modify id change).size = t.size := Array.size_modify ..
    rw [hSize]
    rw [symbol?_modify] at hOther
    split at hOther
    case isTrue hSame =>
      rw [hSame, hSymbol] at hOther
      cases hOther
      exact hChange
    case isFalse => exact h.symbols other s' hOther

/-- A table in which one symbol has grown extends the one before. -/
theorem extends_modify {id : SymbolId} {s : Symbol} (hSymbol : t.symbol? id = some s)
    {change : Symbol → Symbol} (hGrows : s.Grows (change s)) : t.Extends (t.modify id change) where
  get?_eq := fun _ _ hGet => hGet
  symbols := by
    intro other s' hOther
    rw [symbol?_modify]
    split
    case isTrue hSame =>
      rw [hSame, hSymbol] at hOther
      cases hOther
      exact ⟨change s, by rw [hSame, hSymbol, Option.map_some], hGrows⟩
    case isFalse => exact ⟨s', hOther, .refl s'⟩

/-- Mentioning a name keeps the law, and what it leads to extends the table. -/
theorem Lawful.mention (h : t.Lawful) (name : String) (line : Nat) :
    (t.mention name line).2.Lawful ∧ t.Extends (t.mention name line).2 := by
  unfold SymbolTable.mention
  split
  case h_1 => exact ⟨h, .refl t⟩
  case h_2 hNew => exact ⟨h.add hNew line, extends_add hNew line .unresolved⟩

theorem Lawful.enter (h : t.Lawful) (e : SymbolEdit) :
    (e.enter t).Lawful ∧ t.Extends (e.enter t) := by
  cases e with
  | mention name line => exact h.mention name line
  | terminal name line => exact h.mention name line
  | nonterminal name line => exact h.mention name line
  | rule => exact ⟨h, .refl t⟩
  | define => exact ⟨h, .refl t⟩

/-- What an edit makes of a symbol that admits it. -/
theorem Lawful.change (h : t.Lawful) {e : SymbolEdit} {id : SymbolId} {s : Symbol}
    (hSymbol : (e.enter t).symbol? id = some s) (hAdmits : e.Admits t s) :
    (e.change t s).Lawful (e.enter t).size ∧ s.Grows (e.change t s) := by
  have hLawful := (h.enter e).1.symbols id s hSymbol
  cases e with
  | mention name line => exact ⟨hLawful, .refl s⟩
  | terminal name line =>
      exact ⟨hLawful.terminal hAdmits line,
        (Symbol.grows_settle hAdmits).trans (Symbol.grows_define _ line)⟩
  | nonterminal name line => exact ⟨hLawful.nonterminal, Symbol.grows_settle hAdmits⟩
  | rule name symbols line =>
      refine ⟨hLawful.attach hAdmits.1 fun other hOther => ?_, Symbol.grows_attach s _⟩
      obtain ⟨member, -, hGet⟩ := List.mem_filterMap.1 hOther
      obtain ⟨s', hSymbol', -⟩ := (h.indexed member other).1 hGet
      exact lt_size_of_symbol? hSymbol'
  | define name line => exact ⟨hLawful.define hAdmits line, Symbol.grows_define s line⟩

/-- An accepted edit keeps the table lawful and only extends it, and its name has the id that it
gives. -/
theorem Lawful.edit (h : t.Lawful) {e : SymbolEdit} {id : SymbolId}
    (hEdit : t.edit e = .ok (id, later)) :
    later.Lawful ∧ t.Extends later ∧ later.get? e.name = some id := by
  obtain ⟨s, hFind, hAdmits, rfl⟩ := h.indexed.edit_eq_ok_iff.1 hEdit
  obtain ⟨hEntered, hExtends⟩ := h.enter e
  obtain ⟨hSymbol, hName⟩ := hEntered.indexed.find?_eq_some_iff.1 hFind
  obtain ⟨hLawful, hGrows⟩ := h.change hSymbol hAdmits
  exact ⟨hEntered.modify hSymbol (e.name_change t) hLawful,
    hExtends.trans (extends_modify hSymbol hGrows),
    (hEntered.indexed e.name id).2 ⟨s, hSymbol, hName⟩⟩

end SymbolTable

end GrammarCheck
