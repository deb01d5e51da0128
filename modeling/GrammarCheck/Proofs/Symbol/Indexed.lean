import GrammarCheck.Symbol.Edit
import Mathlib.Data.List.Basic

/-! The index of a symbol table. In every table that edits lead to, the index finds each symbol by
its name and finds nothing else, so no two symbols share a name. An accepted edit makes sure that
its name has a symbol and changes that symbol alone. -/

namespace GrammarCheck

namespace Dictionary

variable {κ α : Type} [DecidableEq κ]

/-- Exchanging the value of one key leaves the others alone. -/
theorem lookup_replaced (key other : κ) (value : α) (entries : List (κ × α)) :
    (replaced key value entries).lookup other =
      if other = key then (entries.lookup other).map fun _ => value else entries.lookup other := by
  induction entries with
  | nil => simp [replaced]
  | cons entry entries ih =>
      obtain ⟨first, old⟩ := entry
      simp only [replaced] at ih
      by_cases hFirst : first = key
      · subst hFirst
        by_cases hOther : other = first
        · simp [replaced, hOther]
        · simp [replaced, List.lookup_cons, ih, hOther, beq_eq_false_iff_ne.2 hOther]
      · by_cases hOther : other = first
        · subst hOther
          simp [replaced, hFirst]
        · simp [replaced, List.lookup_cons, hFirst, ih, beq_eq_false_iff_ne.2 hOther]

/-- A value put under a key is found there, and every other key as before. -/
theorem get?_insert (dictionary : Dictionary κ α) (key other : κ) (value : α) :
    (dictionary.insert key value).2.get? other =
      if other = key then some value else dictionary.get? other := by
  unfold insert
  split
  case isTrue hKey =>
    rw [get?, lookup_replaced]
    by_cases hOther : other = key
    · subst hOther
      have hSome : (dictionary.entries.lookup other).isSome = true := by
        rw [List.lookup_isSome_iff]
        obtain ⟨entry, hMem, rfl⟩ := List.mem_map.1 hKey
        exact ⟨entry, hMem, beq_self_eq_true entry.1⟩
      obtain ⟨old, hOld⟩ := Option.isSome_iff_exists.1 hSome
      simp [hOld]
    · rw [if_neg hOther, if_neg hOther]
      rfl
  case isFalse =>
    by_cases hOther : other = key
    · simp [get?, hOther]
    · simp [get?, List.lookup_cons, hOther, beq_eq_false_iff_ne.2 hOther]

end Dictionary

namespace SymbolTable

variable {t t' : SymbolTable}

@[simp] theorem symbol?_add (name : String) (line : Nat) (kind : SymbolKind) (id : SymbolId) :
    (t.add name line kind).2.symbol? id =
      if id.index = t.size then some ⟨name, kind, [], line, none⟩ else t.symbol? id := by
  rw [symbol?, add, Array.getElem?_push]
  rfl

@[simp] theorem get?_add (name other : String) (line : Nat) (kind : SymbolKind) :
    (t.add name line kind).2.get? other =
      if other = name then some ⟨t.size⟩ else t.get? other :=
  Dictionary.get?_insert t.index name other ⟨t.size⟩

@[simp] theorem symbol?_modify (id other : SymbolId) (change : Symbol → Symbol) :
    (t.modify id change).symbol? other =
      if other = id then (t.symbol? other).map change else t.symbol? other := by
  obtain ⟨i⟩ := id
  obtain ⟨j⟩ := other
  rw [symbol?, modify, Array.getElem?_modify]
  simp only [SymbolId.mk.injEq, eq_comm, symbol?]

@[simp] theorem get?_modify (id : SymbolId) (change : Symbol → Symbol) (name : String) :
    (t.modify id change).get? name = t.get? name := rfl

theorem lt_size_of_symbol? {id : SymbolId} {s : Symbol} (h : t.symbol? id = some s) :
    id.index < t.size := by
  obtain ⟨hLt, -⟩ := Array.getElem?_eq_some_iff.1 h
  exact hLt

/-- Tables with one index are told apart by their symbols. -/
theorem eq_of_symbol?_eq (hIndex : t.index = t'.index) (h : ∀ id, t.symbol? id = t'.symbol? id) :
    t = t' := by
  rw [mk.injEq]
  exact ⟨Array.ext_getElem? fun i => h ⟨i⟩, hIndex⟩

/-- Changing nothing about a symbol leaves the table as it is. -/
theorem modify_eq_self {id : SymbolId} {change : Symbol → Symbol}
    (h : ∀ s, t.symbol? id = some s → change s = s) : t.modify id change = t := by
  refine eq_of_symbol?_eq rfl fun other => ?_
  rw [symbol?_modify]
  split
  case isFalse => rfl
  case isTrue hSame =>
    subst hSame
    cases hSymbol : t.symbol? other with
    | none => rfl
    | some s => rw [Option.map_some, h s hSymbol]

theorem modify_modify (id : SymbolId) (first second : Symbol → Symbol) :
    (t.modify id first).modify id second = t.modify id fun s => second (first s) := by
  refine eq_of_symbol?_eq rfl fun other => ?_
  by_cases hSame : other = id
  · simp [hSame, Function.comp_def]
  · simp [hSame]

/-- A new symbol can as well be entered with its kind open and settled at once. -/
theorem modify_add (name : String) (line : Nat) (kind : SymbolKind) :
    (t.add name line .unresolved).2.modify ⟨t.size⟩ (fun s => { s with kind := kind }) =
      (t.add name line kind).2 := by
  refine eq_of_symbol?_eq rfl fun other => ?_
  obtain ⟨i⟩ := other
  by_cases hLast : i = t.size
  · simp [hLast]
  · simp [hLast]

/-- The index finds every symbol by its name, and it finds nothing else. -/
def Indexed (t : SymbolTable) : Prop :=
  ∀ name id, t.get? name = some id ↔ ∃ s, t.symbol? id = some s ∧ s.name = name

theorem indexed_empty : empty.Indexed := by
  intro name id
  simp [empty, get?, symbol?, Dictionary.get?, Dictionary.empty]

namespace Indexed

/-- No two symbols share a name. -/
theorem id_unique (h : t.Indexed) {id id' : SymbolId} {s s' : Symbol}
    (hSymbol : t.symbol? id = some s) (hSymbol' : t.symbol? id' = some s')
    (hName : s.name = s'.name) : id = id' := by
  have hLeft := (h s.name id).2 ⟨s, hSymbol, rfl⟩
  have hRight := (h s.name id').2 ⟨s', hSymbol', hName.symm⟩
  rw [hLeft] at hRight
  exact Option.some.inj hRight

/-- Two names have the same id only if they are the same. -/
theorem name_eq_iff (h : t.Indexed) {name other : String} {id id' : SymbolId}
    (hGet : t.get? name = some id) (hOther : t.get? other = some id') : name = other ↔ id = id' := by
  constructor
  · rintro rfl
    exact Option.some.inj (hGet.symm.trans hOther)
  · rintro rfl
    obtain ⟨s, hSymbol, hName⟩ := (h name id).1 hGet
    obtain ⟨s', hSymbol', hName'⟩ := (h other id).1 hOther
    cases hSymbol.symm.trans hSymbol'
    exact hName.symm.trans hName'

/-- Finding a name is finding the symbol that has it. -/
theorem find?_eq_some_iff (h : t.Indexed) {name : String} {id : SymbolId} {s : Symbol} :
    t.find? name = some (id, s) ↔ t.symbol? id = some s ∧ s.name = name := by
  constructor
  · intro hFind
    simp only [find?, Option.bind_eq_bind, Option.pure_def, Option.bind_eq_some_iff,
      Option.some.injEq, Prod.mk.injEq] at hFind
    obtain ⟨id', hGet, s', hSymbol, rfl, rfl⟩ := hFind
    obtain ⟨s, hSymbol', hName⟩ := (h name id').1 hGet
    cases hSymbol.symm.trans hSymbol'
    exact ⟨hSymbol, hName⟩
  · rintro ⟨hSymbol, hName⟩
    have hGet := (h name id).2 ⟨s, hSymbol, hName⟩
    simp [find?, hGet, hSymbol]

theorem find?_eq_none_iff (h : t.Indexed) {name : String} :
    t.find? name = none ↔ ∀ id s, t.symbol? id = some s → s.name ≠ name := by
  constructor
  · intro hNone id s hSymbol hName
    rw [(h.find?_eq_some_iff).2 ⟨hSymbol, hName⟩] at hNone
    cases hNone
  · intro hAll
    cases hFind : t.find? name with
    | none => rfl
    | some found =>
        obtain ⟨hSymbol, hName⟩ := h.find?_eq_some_iff.1 hFind
        exact absurd hName (hAll _ _ hSymbol)

theorem get?_eq_none_iff (h : t.Indexed) {name : String} :
    t.get? name = none ↔ t.find? name = none := by
  rw [h.find?_eq_none_iff]
  constructor
  · intro hNone id s hSymbol hName
    rw [(h name id).2 ⟨s, hSymbol, hName⟩] at hNone
    cases hNone
  · intro hAll
    cases hGet : t.get? name with
    | none => rfl
    | some id =>
        obtain ⟨s, hSymbol, hName⟩ := (h name id).1 hGet
        exact absurd hName (hAll id s hSymbol)

theorem add (h : t.Indexed) {name : String} (hNew : t.get? name = none) (line : Nat)
    (kind : SymbolKind) : (t.add name line kind).2.Indexed := by
  intro other id
  rw [get?_add, symbol?_add]
  have hAbsent := h.find?_eq_none_iff.1 (h.get?_eq_none_iff.1 hNew)
  by_cases hOther : other = name
  · subst hOther
    rw [if_pos rfl]
    constructor
    · rintro ⟨⟩
      exact ⟨_, if_pos rfl, rfl⟩
    · rintro ⟨s, hSymbol, hName⟩
      split at hSymbol
      case isTrue hLast => exact congrArg some (congrArg SymbolId.mk hLast.symm)
      case isFalse => exact absurd hName (hAbsent id s hSymbol)
  · rw [if_neg hOther, h other id]
    constructor
    · rintro ⟨s, hSymbol, hName⟩
      refine ⟨s, ?_, hName⟩
      rw [if_neg (Nat.ne_of_lt (lt_size_of_symbol? hSymbol)), hSymbol]
    · rintro ⟨s, hSymbol, hName⟩
      split at hSymbol
      case isTrue =>
        cases hSymbol
        exact absurd hName.symm hOther
      case isFalse => exact ⟨s, hSymbol, hName⟩

/-- A symbol can be changed as long as its name stays. -/
theorem modify (h : t.Indexed) {id : SymbolId} {change : Symbol → Symbol}
    (hName : ∀ s, (change s).name = s.name) : (t.modify id change).Indexed := by
  intro name other
  rw [get?_modify, h name other, symbol?_modify]
  split
  case isFalse => exact Iff.rfl
  case isTrue =>
    cases t.symbol? other with
    | none => simp
    | some s => simp [hName]

theorem mention (h : t.Indexed) (name : String) (line : Nat) : (t.mention name line).2.Indexed := by
  unfold SymbolTable.mention
  split
  case h_1 => exact h
  case h_2 hNew => exact h.add hNew line .unresolved

end Indexed

end SymbolTable

end GrammarCheck
