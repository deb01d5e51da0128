import GrammarCheck.Grammar.Basic
import Mathlib.Data.List.Nodup
import Mathlib.Logic.Embedding.Basic

/-! Other names for the symbols of a grammar. Names are only ever compared, so every edit does the
same under other names, as long as different names stay different. -/

namespace GrammarCheck

/-- An outcome with its result changed, or else its error. -/
def mapBoth {ε α : Type} (onError : ε → ε) (onOk : α → α) : Except ε α → Except ε α
  | .ok a => .ok (onOk a)
  | .error e => .error (onError e)

/-- Renaming passes through one step of an outcome after the other. -/
theorem mapBoth_bind {ε α β : Type} {onError : ε → ε} {onOk : α → α} {onLater : β → β}
    {x : Except ε α} {next renamed : α → Except ε β}
    (h : ∀ a, renamed (onOk a) = mapBoth onError onLater (next a)) :
    (mapBoth onError onOk x).bind renamed = mapBoth onError onLater (x.bind next) := by
  cases x with
  | error e => rfl
  | ok a => exact h a

namespace Dictionary

variable {κ κ' α : Type} [DecidableEq κ] [DecidableEq κ']

/-- The same values under other keys. -/
def mapKeys (f : κ ↪ κ') (dictionary : Dictionary κ α) : Dictionary κ' α :=
  ⟨dictionary.entries.map (Prod.map f id), by
    rw [List.map_map, Prod.map_fst', ← List.map_map]
    exact List.Nodup.map f.injective dictionary.keys_nodup⟩

/-- A key is found under its new name as it was under the old one. This takes that no two keys get
the same. -/
theorem lookup_map (f : κ ↪ κ') (key : κ) (entries : List (κ × α)) :
    (entries.map (Prod.map f id)).lookup (f key) = entries.lookup key := by
  induction entries with
  | nil => rfl
  | cons entry entries ih =>
      obtain ⟨first, value⟩ := entry
      rw [List.map_cons, Prod.map_apply, List.lookup_cons, List.lookup_cons, ih]
      by_cases hKey : key = first
      · simp [hKey]
      · rw [beq_eq_false_iff_ne.2 hKey, beq_eq_false_iff_ne.2 (f.injective.ne hKey)]

@[simp] theorem get?_mapKeys (f : κ ↪ κ') (dictionary : Dictionary κ α) (key : κ) :
    (dictionary.mapKeys f).get? (f key) = dictionary.get? key :=
  lookup_map f key dictionary.entries

omit [DecidableEq κ] [DecidableEq κ'] in
theorem mem_keys_mapKeys (f : κ ↪ κ') (dictionary : Dictionary κ α) (key : κ) :
    f key ∈ (dictionary.mapKeys f).entries.map Prod.fst ↔
      key ∈ dictionary.entries.map Prod.fst := by
  rw [mapKeys, List.map_map, Prod.map_fst', ← List.map_map, List.mem_map]
  simp only [f.injective.eq_iff, exists_eq_right]

theorem replaced_map (f : κ ↪ κ') (key : κ) (value : α) (entries : List (κ × α)) :
    replaced (f key) value (entries.map (Prod.map f id)) =
      (replaced key value entries).map (Prod.map f id) := by
  simp only [replaced, List.map_map]
  refine List.map_congr_left fun entry _ => ?_
  simp only [Function.comp_apply, Prod.map_fst, f.injective.eq_iff]
  split <;> rfl

/-- Putting a value under a key commutes with renaming. -/
theorem mapKeys_insert (f : κ ↪ κ') (dictionary : Dictionary κ α) (key : κ) (value : α) :
    ((dictionary.mapKeys f).insert (f key) value).2 =
      (dictionary.insert key value).2.mapKeys f := by
  by_cases hKey : key ∈ dictionary.entries.map Prod.fst
  · have hMapped := (mem_keys_mapKeys f dictionary key).2 hKey
    rw [insert, insert, dif_pos hKey, dif_pos hMapped]
    simp only [mapKeys, replaced_map]
  · have hMapped := mt (mem_keys_mapKeys f dictionary key).1 hKey
    rw [insert, insert, dif_neg hKey, dif_neg hMapped]
    rfl

end Dictionary

def Symbol.rename (f : String → String) (s : Symbol) : Symbol := { s with name := f s.name }

def KindConflict.rename (f : String → String) (c : KindConflict) : KindConflict :=
  { c with name := f c.name }

def SymbolEdit.rename (f : String → String) : SymbolEdit → SymbolEdit
  | .mention name line => .mention (f name) line
  | .terminal name line => .terminal (f name) line
  | .nonterminal name line => .nonterminal (f name) line
  | .rule name symbols line => .rule (f name) (symbols.map f) line
  | .define name line => .define (f name) line

def Refusal.rename (f : String → String) : Refusal → Refusal
  | .unknownName name => .unknownName (f name)
  | .notNonterminal name => .notNonterminal (f name)
  | .conflict c => .conflict (c.rename f)

namespace SymbolTable

variable (f : String ↪ String) (t : SymbolTable)

def rename : SymbolTable := ⟨t.symbols.map (Symbol.rename f), t.index.mapKeys f⟩

@[simp] theorem size_rename : (t.rename f).size = t.size := Array.size_map ..

@[simp] theorem get?_rename (name : String) : (t.rename f).get? (f name) = t.get? name :=
  Dictionary.get?_mapKeys f t.index name

@[simp] theorem symbol?_rename (id : SymbolId) :
    (t.rename f).symbol? id = (t.symbol? id).map (Symbol.rename f) :=
  Array.getElem?_map ..

theorem find?_rename (name : String) :
    (t.rename f).find? (f name) = (t.find? name).map (Prod.map id (Symbol.rename f)) := by
  simp only [find?, get?_rename, symbol?_rename]
  cases t.get? name with
  | none => rfl
  | some id =>
      simp only [Option.bind_eq_bind, Option.bind_some]
      cases t.symbol? id <;> rfl

theorem add_rename (name : String) (line : Nat) (kind : SymbolKind) :
    (t.rename f).add (f name) line kind = Prod.map id (rename f) (t.add name line kind) := by
  simp only [add, size_rename, Prod.map_apply, id_eq, Prod.mk.injEq, true_and]
  rw [rename, rename, mk.injEq]
  refine ⟨?_, Dictionary.mapKeys_insert f t.index name ⟨t.size⟩⟩
  rw [Array.map_push]
  rfl

/-- A change that does not look at names is made under other names as well. -/
theorem modify_rename (id : SymbolId) {change : Symbol → Symbol}
    (h : ∀ s, change (s.rename f) = (change s).rename f) :
    (t.rename f).modify id change = (t.modify id change).rename f := by
  rw [modify, modify, rename, rename, mk.injEq]
  refine ⟨?_, rfl⟩
  apply Array.ext_getElem?
  intro i
  simp only [Array.getElem?_modify, Array.getElem?_map]
  split
  case isTrue => cases t.symbols[i]? <;> simp [h]
  case isFalse => rfl

theorem mention_rename (name : String) (line : Nat) :
    (t.rename f).mention (f name) line = Prod.map id (rename f) (t.mention name line) := by
  simp only [mention, get?_rename]
  cases t.get? name with
  | none => exact add_rename f t name line .unresolved
  | some id => rfl

/-- Kinds are settled, and found in conflict, whatever the names are. -/
theorem settle_rename (name : String) (line : Nat) (kind : SymbolKind) :
    (t.rename f).settle (f name) line kind =
      mapBoth (KindConflict.rename f) (Prod.map id (rename f)) (t.settle name line kind) := by
  simp only [settle, find?_rename]
  cases t.find? name with
  | none => exact congrArg Except.ok (add_rename f t name line kind)
  | some found =>
      obtain ⟨id, s⟩ := found
      simp only [Option.map_some, Prod.map_apply, id_eq, Symbol.rename]
      by_cases hKind : s.kind = kind
      · simp only [hKind, if_true]
        rfl
      · by_cases hOpen : s.kind = .unresolved
        · have hModify : (t.rename f).modify id (fun s => { s with kind := kind }) = _ :=
            modify_rename f t id fun _ => rfl
          rw [if_neg hKind, if_pos hOpen, if_neg hKind, if_pos hOpen, hModify]
          rfl
        · rw [if_neg hKind, if_neg hOpen, if_neg hKind, if_neg hOpen]
          rfl

theorem lookup_rename (name : String) :
    (t.rename f).lookup (f name) =
      mapBoth (Refusal.rename f) (Prod.map id (Symbol.rename f)) (t.lookup name) := by
  simp only [lookup, find?_rename]
  cases t.find? name <;> rfl

/-- Names that are all known have the same ids after renaming. -/
theorem lookupAll_rename (names : List String) :
    (t.rename f).lookupAll (names.map f) = mapBoth (Refusal.rename f) id (t.lookupAll names) := by
  induction names with
  | nil => rfl
  | cons name names ih =>
      rw [List.map_cons, lookupAll, lookup_rename, ih, lookupAll]
      refine mapBoth_bind fun found => ?_
      exact mapBoth_bind fun ids => rfl

theorem ifNonterminal_rename (name : String) (s : Symbol) (header : SymbolId) :
    ifNonterminal (f name) (s.rename f) (header, t.rename f) =
      mapBoth (Refusal.rename f) (Prod.map id (rename f)) (ifNonterminal name s (header, t)) := by
  unfold ifNonterminal
  split <;> rename_i hKind
  · rw [if_pos (show s.isNonterminal = true from hKind)]
    rfl
  · rw [if_neg (show ¬ s.isNonterminal = true from hKind)]
    rfl

/-- An edit commutes with renaming, and is refused for the same reason. -/
theorem edit_rename (e : SymbolEdit) :
    (t.rename f).edit (e.rename f) =
      mapBoth (Refusal.rename f) (Prod.map id (rename f)) (t.edit e) := by
  cases e with
  | mention name line => exact congrArg Except.ok (mention_rename f t name line)
  | terminal name line =>
      simp only [SymbolEdit.rename, edit, declareTerminal, settle_rename]
      cases t.settle name line .terminal with
      | error c => rfl
      | ok outcome =>
          obtain ⟨id, now⟩ := outcome
          exact congrArg (fun table => Except.ok (id, table))
            (modify_rename f now id fun _ => rfl)
  | nonterminal name line =>
      simp only [SymbolEdit.rename, edit, declareNonterminal, settle_rename]
      cases t.settle name line .nonterminal <;> rfl
  | rule name symbols line =>
      simp only [SymbolEdit.rename, edit, lookup_rename, lookupAll_rename]
      refine mapBoth_bind fun found => mapBoth_bind fun ids => ?_
      have hModify : (t.rename f).modify found.1 (·.attach ⟨ids, line⟩) = _ :=
        modify_rename f t found.1 fun _ => rfl
      rw [← ifNonterminal_rename, ← hModify]
      rfl
  | define name line =>
      simp only [SymbolEdit.rename, edit, lookup_rename]
      refine mapBoth_bind fun found => ?_
      have hModify : (t.rename f).modify found.1 (·.define line) = _ :=
        modify_rename f t found.1 fun _ => rfl
      rw [← ifNonterminal_rename, ← hModify]
      rfl

end SymbolTable

def GrammarEdit.rename (f : String → String) : GrammarEdit → GrammarEdit
  | .symbols e => .symbols (e.rename f)
  | .start name line => .start (f name) line

namespace Grammar

variable (f : String ↪ String) (g : Grammar)

def rename : Grammar := { g with symbols := g.symbols.rename f }

theorem declareStart_rename (id : SymbolId) (line : Nat) :
    (g.rename f).declareStart id line = (g.declareStart id line).rename f := by
  obtain ⟨file, symbols, start, startLine, extraStarts⟩ := g
  cases start with
  | none => rfl
  | some start =>
      simp only [declareStart, rename]
      split <;> rfl

theorem edit_rename (e : GrammarEdit) :
    (g.rename f).edit (e.rename f) =
      mapBoth (Refusal.rename f) (Prod.map id (rename f)) (g.edit e) := by
  cases e with
  | symbols e =>
      simp only [GrammarEdit.rename, edit]
      rw [show (g.rename f).symbols = g.symbols.rename f from rfl, SymbolTable.edit_rename]
      exact mapBoth_bind fun outcome => rfl
  | start name line =>
      simp only [GrammarEdit.rename, edit]
      rw [show (g.rename f).symbols = g.symbols.rename f from rfl, SymbolTable.lookup_rename]
      refine mapBoth_bind fun found => ?_
      exact congrArg (fun grammar => Except.ok (found.1, grammar))
        (declareStart_rename f g found.1 line)

/-- All edits up to the first refused one commute with renaming. -/
theorem editAll_rename (es : List GrammarEdit) :
    (g.rename f).editAll (es.map (GrammarEdit.rename f)) =
      mapBoth (Refusal.rename f) (rename f) (g.editAll es) := by
  induction es generalizing g with
  | nil => rfl
  | cons e es ih =>
      rw [List.map_cons, editAll, edit_rename, editAll]
      exact mapBoth_bind fun outcome => ih outcome.2

end Grammar

end GrammarCheck
