import GrammarCheck.Construct
import GrammarCheck.Proofs.Symbol.Change

/-! What is in a symbol table, told from the edits that were made. Every field of a symbol is found
by a search through all accepted edits. -/

namespace GrammarCheck

namespace Ident

def names (xs : List Ident) : List String := xs.map (·.name)

theorem mem_names_append {xs ys : List Ident} {name : String} :
    name ∈ names (xs ++ ys) ↔ name ∈ names xs ∨ name ∈ names ys := by
  rw [names, List.map_append, List.mem_append]
  rfl

def firsts : List Ident → List Ident
  | [] => []
  | x :: xs => x :: (firsts xs).filter (·.name ≠ x.name)

theorem mem_names_firsts {xs : List Ident} {name : String} :
    name ∈ names (firsts xs) ↔ name ∈ names xs := by
  induction xs with
  | nil => exact Iff.rfl
  | cons x xs ih =>
      by_cases hName : name = x.name
      · simp [names, firsts, hName]
      · simp only [names, List.mem_map] at ih
        simp only [names, firsts, List.map_cons, List.mem_cons, hName, false_or, List.mem_map,
          List.mem_filter, decide_eq_true_eq, ← ih]
        constructor
        · rintro ⟨y, ⟨hMem, -⟩, hSame⟩
          exact ⟨y, hMem, hSame⟩
        · rintro ⟨y, hMem, rfl⟩
          exact ⟨y, ⟨hMem, hName⟩, rfl⟩

/-- The first occurrences in two lists are those in the one, and those in the other of names that
the one does not have. -/
theorem firsts_append (xs ys : List Ident) :
    firsts (xs ++ ys) = firsts xs ++ (firsts ys).filter (·.name ∉ names xs) := by
  induction xs with
  | nil => simp [firsts, names]
  | cons x xs ih =>
      rw [List.cons_append, firsts, ih, List.filter_append, List.filter_filter, firsts,
        List.cons_append]
      refine congrArg (fun others => x :: (_ ++ others)) (List.filter_congr fun y _ => ?_)
      simp [names, not_or]

/-- Names that have occurred before add nothing. -/
theorem firsts_append_of_old {xs ys : List Ident} (h : ∀ y ∈ ys, y.name ∈ names xs) :
    firsts (xs ++ ys) = firsts xs := by
  rw [firsts_append, List.filter_eq_nil_iff.2, List.append_nil]
  intro y hMem
  have hName : y.name ∈ names ys := mem_names_firsts.1 (List.mem_map_of_mem hMem)
  obtain ⟨z, hOld, hSame⟩ := List.mem_map.1 hName
  simp [← hSame, h z hOld]

theorem firsts_concat_of_new {xs : List Ident} {x : Ident} (h : x.name ∉ names xs) :
    firsts (xs ++ [x]) = firsts xs ++ [x] := by
  simp [firsts_append, firsts, h]

theorem pairwise_firsts (xs : List Ident) : (firsts xs).Pairwise fun x y => x.name ≠ y.name := by
  induction xs with
  | nil => exact .nil
  | cons x xs ih =>
      refine .cons ?_ (ih.filter _)
      intro y hMem
      exact (of_decide_eq_true (List.mem_filter.1 hMem).2).symm

/-- A first occurrence is found at its own place by its name. -/
theorem findIdx_firsts {xs : List Ident} {x : Ident} {i : Nat} (h : (firsts xs)[i]? = some x) :
    (firsts xs).findIdx (·.name = x.name) = i := by
  obtain ⟨hLt, hGet⟩ := List.getElem?_eq_some_iff.1 h
  rw [List.findIdx_eq hLt]
  refine ⟨decide_eq_true (congrArg name hGet), fun j hBefore => ?_⟩
  have hNames := List.pairwise_iff_getElem.1 (pairwise_firsts xs) j i (by omega) hLt hBefore
  rw [hGet] at hNames
  exact decide_eq_false hNames

end Ident

namespace SymbolEdit

variable {es : List SymbolEdit} {t t' : SymbolTable}

/-- The use of a name that may be its first. -/
def use? : SymbolEdit → Option Ident
  | .mention name line => some ⟨name, line⟩
  | .terminal name line => some ⟨name, line⟩
  | .nonterminal name line => some ⟨name, line⟩
  | _ => none

def definition? : SymbolEdit → Option Nat
  | .terminal _ line => some line
  | .define _ line => some line
  | _ => none

def rule? (t : SymbolTable) : SymbolEdit → Option Rule
  | .rule _ symbols line => some ⟨symbols.filterMap t.get?, line⟩
  | _ => none

def references : SymbolEdit → List String
  | .rule _ symbols _ => symbols
  | _ => []

def firsts (es : List SymbolEdit) : List Ident := Ident.firsts (es.filterMap use?)

def about (name : String) (es : List SymbolEdit) : List SymbolEdit := es.filter (·.name = name)

/-- The symbol that some edits make of a name, where `t` gives the ids of names. -/
def symbol (es : List SymbolEdit) (t : SymbolTable) (x : Ident) : Symbol :=
  { name := x.name
    kind := ((about x.name es).findSome? kind?).getD .unresolved
    rules := (about x.name es).filterMap (rule? t)
    firstSeen := x.line
    definedAt := (about x.name es).findSome? definition? }

/-- An edit about another name does not change a symbol. -/
theorem symbol_concat_of_ne {e : SymbolEdit} {x : Ident} (hName : x.name ≠ e.name) :
    symbol (es ++ [e]) t x = symbol es t x := by
  simp [symbol, about, Ne.symm hName]

/-- An alternative keeps its ids for as long as its names keep theirs. -/
theorem rule?_eq (hStable : ∀ name, t.get? name ≠ none → t'.get? name = t.get? name)
    {e : SymbolEdit} (hKnown : ∀ name ∈ e.references, t.get? name ≠ none) :
    e.rule? t' = e.rule? t := by
  cases e with
  | rule name symbols line =>
      have hIds : symbols.filterMap t'.get? = symbols.filterMap t.get? :=
        List.filterMap_congr fun other hMem => hStable other (hKnown other hMem)
      rw [rule?, rule?, hIds]
  | _ => rfl

/-- A symbol depends on the ids only so far as its alternatives do. -/
theorem symbol_congr (h : ∀ e ∈ es, e.rule? t = e.rule? t') (x : Ident) :
    symbol es t x = symbol es t' x := by
  have hRules : (about x.name es).filterMap (rule? t) = (about x.name es).filterMap (rule? t') :=
    List.filterMap_congr fun e hMem => h e (List.mem_filter.1 hMem).1
  rw [symbol, symbol, hRules]

theorem settled_ne_unresolved (es : List SymbolEdit) : es.findSome? kind? ≠ some .unresolved := by
  intro hSettled
  obtain ⟨e, -, hKind⟩ := List.exists_of_findSome?_eq_some hSettled
  exact e.kind?_ne_unresolved hKind

theorem getD_of_admitted {settled : Option SymbolKind} {kind : SymbolKind}
    (hSettled : settled ≠ some .unresolved)
    (h : settled.getD .unresolved = .unresolved ∨ settled.getD .unresolved = kind) :
    settled.getD kind = kind := by
  cases settled with
  | none => rfl
  | some existing =>
      rcases h with rfl | hSame
      · exact absurd rfl hSettled
      · exact hSame

/-- An edit that the symbol of its name admits changes that symbol as it should. -/
theorem symbol_concat_self {e : SymbolEdit} {x : Ident} (hName : x.name = e.name)
    (hAdmits : e.Admits t (symbol es t x)) :
    symbol (es ++ [e]) t x = e.change t (symbol es t x) := by
  have hAbout : about x.name (es ++ [e]) = about x.name es ++ [e] := by
    simp [about, hName]
  have hOpen := settled_ne_unresolved (about x.name es)
  rw [symbol, hAbout, List.findSome?_append, List.filterMap_append, List.findSome?_append]
  cases e with
  | mention name line => simp [symbol, change, kind?, rule?, definition?]
  | terminal name line =>
      have hKind := getD_of_admitted hOpen hAdmits
      simp [symbol, change, Symbol.define, kind?, rule?, definition?, hKind]
  | nonterminal name line =>
      have hKind := getD_of_admitted hOpen hAdmits
      simp [symbol, change, kind?, rule?, definition?, hKind]
  | rule name symbols line =>
      simp [symbol, change, Symbol.attach, kind?, rule?, definition?]
  | define name line => simp [symbol, change, Symbol.define, kind?, rule?, definition?]

end SymbolEdit

namespace SymbolTable

variable {t t' : SymbolTable} {es : List SymbolEdit}

/-- The symbols of a table are a given list when each id leads to the symbol in its place. -/
theorem symbols_eq_iff {symbols : List Symbol} :
    t.symbols.toList = symbols ↔ ∀ id, t.symbol? id = symbols[id.index]? := by
  constructor
  · rintro rfl id
    exact (Array.getElem?_toList ..).symm
  · intro h
    refine List.ext_getElem? fun i => ?_
    rw [Array.getElem?_toList]
    exact h ⟨i⟩

/-- A table holds what some edits have made, each of them accepted. -/
structure Records (t : SymbolTable) (es : List SymbolEdit) : Prop where
  indexed : t.Indexed
  symbols : t.symbols.toList = (SymbolEdit.firsts es).map (SymbolEdit.symbol es t)
  known : ∀ e ∈ es, ∀ name ∈ e.name :: e.references, t.get? name ≠ none

theorem records_empty : empty.Records [] := by
  refine ⟨indexed_empty, rfl, ?_⟩
  intro e hMem
  cases hMem

namespace Records

/-- An id leads to the symbol that the edits make of the name in its place. -/
theorem symbol? (h : t.Records es) (id : SymbolId) :
    t.symbol? id = (SymbolEdit.firsts es)[id.index]?.map (SymbolEdit.symbol es t) := by
  rw [symbols_eq_iff.1 h.symbols id, List.getElem?_map]

theorem size_eq (h : t.Records es) : t.size = (SymbolEdit.firsts es).length := by
  rw [size, ← Array.length_toList, h.symbols, List.length_map]

/-- The names that have a symbol are the ones that have been used. -/
theorem get?_eq_none_iff (h : t.Records es) {name : String} :
    t.get? name = none ↔ name ∉ Ident.names (es.filterMap SymbolEdit.use?) := by
  rw [h.indexed.get?_eq_none_iff, h.indexed.find?_eq_none_iff, ← Ident.mem_names_firsts,
    Ident.names, List.mem_map]
  constructor
  · rintro hAbsent ⟨x, hMem, hName⟩
    obtain ⟨i, hGet⟩ := List.mem_iff_getElem?.1 hMem
    refine hAbsent ⟨i⟩ (SymbolEdit.symbol es t x) ?_ hName
    rw [h.symbol?, SymbolEdit.firsts, hGet]
    rfl
  · rintro hAbsent id s hSymbol hName
    rw [h.symbol?, Option.map_eq_some_iff] at hSymbol
    obtain ⟨x, hGet, rfl⟩ := hSymbol
    exact hAbsent ⟨x, List.mem_of_getElem? hGet, hName⟩

/-- A name without a symbol is one that no edit was about. -/
theorem about_eq_nil (h : t.Records es) {name : String} (hNew : t.get? name = none) :
    SymbolEdit.about name es = [] := by
  apply List.filter_eq_nil_iff.2
  intro e hMem hName
  rw [decide_eq_true_eq] at hName
  exact h.known e hMem e.name (List.mem_cons_self ..) (hName ▸ hNew)

theorem symbol_of_new (h : t.Records es) {x : Ident} (hNew : t.get? x.name = none) :
    SymbolEdit.symbol es t x = ⟨x.name, .unresolved, [], x.line, none⟩ := by
  rw [SymbolEdit.symbol, h.about_eq_nil hNew]
  rfl

/-- A use of a name puts its symbol behind the others, unless it is there already. -/
theorem symbol?_mention (h : t.Records es) (x : Ident) (id : SymbolId) :
    (t.mention x.name x.line).2.symbol? id =
      (Ident.firsts (es.filterMap SymbolEdit.use? ++ [x]))[id.index]?.map
        (SymbolEdit.symbol es t) := by
  have hNone : t.get? x.name = none ↔ _ := h.get?_eq_none_iff
  unfold SymbolTable.mention
  split
  case h_1 old hGet =>
    have hOld : x.name ∈ Ident.names (es.filterMap SymbolEdit.use?) := by
      by_contra hAbsent
      rw [hNone.2 hAbsent] at hGet
      cases hGet
    rw [Ident.firsts_append_of_old (List.forall_mem_singleton.2 hOld), h.symbol?, SymbolEdit.firsts]
  case h_2 hGet =>
    have hSize : t.size = (Ident.firsts (es.filterMap SymbolEdit.use?)).length := h.size_eq
    rw [Ident.firsts_concat_of_new (hNone.1 hGet), symbol?_add, h.symbol?, SymbolEdit.firsts, hSize]
    split
    case isTrue hLast =>
      rw [hLast, List.getElem?_concat_length, Option.map_some, h.symbol_of_new hGet]
    case isFalse hLast =>
      rcases Nat.lt_or_gt_of_ne hLast with hOld | hBeyond
      · rw [List.getElem?_append_left hOld]
      · rw [List.getElem?_eq_none (by omega), List.getElem?_eq_none (by simp; omega)]

/-- An edit first makes sure that its name has a symbol, and changes no other one. -/
theorem symbol?_enter (h : t.Records es) (e : SymbolEdit) (id : SymbolId) :
    (e.enter t).symbol? id =
      (SymbolEdit.firsts (es ++ [e]))[id.index]?.map (SymbolEdit.symbol es t) := by
  rw [SymbolEdit.firsts, List.filterMap_append]
  cases e with
  | mention name line => exact h.symbol?_mention ⟨name, line⟩ id
  | terminal name line => exact h.symbol?_mention ⟨name, line⟩ id
  | nonterminal name line => exact h.symbol?_mention ⟨name, line⟩ id
  | rule name symbols line =>
      rw [List.filterMap_cons_none rfl, List.filterMap_nil, List.append_nil]
      exact h.symbol? id
  | define name line =>
      rw [List.filterMap_cons_none rfl, List.filterMap_nil, List.append_nil]
      exact h.symbol? id

end Records

/-- A name keeps its id. -/
theorem Indexed.get?_edit (h : t.Indexed) {e : SymbolEdit} {id : SymbolId}
    (hEdit : t.edit e = .ok (id, t')) {name : String} (hKnown : t.get? name ≠ none) :
    t'.get? name = t.get? name := by
  obtain ⟨other, hGet⟩ := Option.ne_none_iff_exists'.1 hKnown
  obtain ⟨s, hSymbol, hName⟩ := (h name other).1 hGet
  rw [hGet, (h.edit hEdit) name other, h.symbol?_edit hEdit hSymbol]
  refine ⟨_, rfl, ?_⟩
  split
  · rw [SymbolEdit.name_change, hName]
  · exact hName

/-- After an accepted edit its name has a symbol. -/
theorem Indexed.get?_name_ne_none (h : t.Indexed) {e : SymbolEdit} {id : SymbolId}
    (hEdit : t.edit e = .ok (id, t')) : t'.get? e.name ≠ none := by
  obtain ⟨s, hFind, -, rfl⟩ := h.edit_eq_ok_iff.1 hEdit
  obtain ⟨hSymbol, hName⟩ := (h.enter e).find?_eq_some_iff.1 hFind
  rw [get?_modify, ((h.enter e) e.name id).2 ⟨s, hSymbol, hName⟩]
  exact Option.some_ne_none id

/-- An alternative is accepted only when its names have symbols. -/
theorem Indexed.get?_ne_none_of_reference (h : t.Indexed) {e : SymbolEdit} {id : SymbolId}
    (hEdit : t.edit e = .ok (id, t')) {name : String} (hReference : name ∈ e.references) :
    t.get? name ≠ none := by
  obtain ⟨s, -, hAdmits, -⟩ := h.edit_eq_ok_iff.1 hEdit
  cases e with
  | rule other symbols line => exact hAdmits.2 name hReference
  | _ => cases hReference

namespace Records

/-- The alternatives of accepted edits keep their ids. -/
theorem rule?_edit (h : t.Records es) {e : SymbolEdit} {id : SymbolId}
    (hEdit : t.edit e = .ok (id, t')) :
    ∀ e' ∈ es ++ [e], e'.rule? t' = e'.rule? t := by
  intro e' hMem
  apply SymbolEdit.rule?_eq fun name hKnown => h.indexed.get?_edit hEdit hKnown
  intro name hReference
  rcases List.mem_append.1 hMem with hOld | hNew
  · exact h.known e' hOld name (List.mem_cons_of_mem _ hReference)
  · cases List.mem_singleton.1 hNew
    exact h.indexed.get?_ne_none_of_reference hEdit hReference

/-- After an accepted edit every symbol is still the one that the edits make of its name. -/
theorem symbols_edit (h : t.Records es) {e : SymbolEdit} {id : SymbolId}
    (hEdit : t.edit e = .ok (id, t')) :
    t'.symbols.toList = (SymbolEdit.firsts (es ++ [e])).map (SymbolEdit.symbol (es ++ [e]) t') := by
  have hRules := h.rule?_edit hEdit
  obtain ⟨s, hFind, hAdmits, rfl⟩ := h.indexed.edit_eq_ok_iff.1 hEdit
  obtain ⟨hSymbol, hName⟩ := (h.indexed.enter e).find?_eq_some_iff.1 hFind
  rw [symbols_eq_iff]
  intro other
  have hOther := h.symbol?_enter e other
  rw [symbol?_modify, List.getElem?_map]
  cases hGet : (SymbolEdit.firsts (es ++ [e]))[other.index]? with
  | none =>
      rw [hGet, Option.map_none] at hOther
      simp [hOther]
  | some x =>
      rw [hGet, Option.map_some] at hOther
      rw [hOther, Option.map_some, Option.map_some, SymbolEdit.symbol_congr hRules]
      by_cases hSame : other = id
      · rw [hSame, hSymbol] at hOther
        cases hOther
        rw [if_pos hSame, SymbolEdit.symbol_concat_self hName hAdmits]
      · have hDifferent : x.name ≠ e.name := fun hEq =>
          hSame ((h.indexed.enter e).id_unique hOther hSymbol (hEq.trans hName.symm))
        rw [if_neg hSame, SymbolEdit.symbol_concat_of_ne hDifferent]

/-- An accepted edit is recorded. -/
theorem edit (h : t.Records es) {e : SymbolEdit} {id : SymbolId}
    (hEdit : t.edit e = .ok (id, t')) : t'.Records (es ++ [e]) := by
  refine ⟨h.indexed.edit hEdit, h.symbols_edit hEdit, ?_⟩
  have hKept {name : String} (hKnown : t.get? name ≠ none) : t'.get? name ≠ none := by
    rwa [h.indexed.get?_edit hEdit hKnown]
  intro e' hMem name hNames
  rcases List.mem_append.1 hMem with hOld | hNew
  · exact hKept (h.known e' hOld name hNames)
  · cases List.mem_singleton.1 hNew
    rcases List.mem_cons.1 hNames with rfl | hReference
    · exact h.indexed.get?_name_ne_none hEdit
    · exact hKept (h.indexed.get?_ne_none_of_reference hEdit hReference)

/-- The id of a name tells how many names were used before it. -/
theorem get?_eq_some (h : t.Records es) {name : String}
    (hUsed : name ∈ Ident.names (es.filterMap SymbolEdit.use?)) :
    t.get? name = some ⟨(SymbolEdit.firsts es).findIdx (·.name = name)⟩ := by
  rw [← Ident.mem_names_firsts, Ident.names, List.mem_map] at hUsed
  obtain ⟨x, hMem, hName⟩ := hUsed
  have hLt : (SymbolEdit.firsts es).findIdx (·.name = name) < (SymbolEdit.firsts es).length :=
    List.findIdx_lt_length_of_exists ⟨x, hMem, decide_eq_true hName⟩
  have hFound := of_decide_eq_true (List.findIdx_getElem (w := hLt))
  refine (h.indexed name _).2 ⟨SymbolEdit.symbol es t _, ?_, hFound⟩
  rw [h.symbol?, List.getElem?_eq_getElem hLt]
  rfl

end Records

end SymbolTable

end GrammarCheck
