import GrammarCheck.Proofs.Derivation.Complete
import GrammarCheck.Proofs.Source.Written

/-! Finding the names of a text in the grammar that it writes down. -/

namespace GrammarCheck

namespace Source

variable {source : Source} {name : String}

theorem exists_first (h : name ∈ Ident.names source.idents) :
    ∃ x ∈ source.firsts, x.name = name :=
  List.mem_map.1 (Ident.mem_names_firsts.2 h)

theorem mem_idents_of_mem_firsts {x : Ident} (h : x ∈ source.firsts) :
    x.name ∈ Ident.names source.idents :=
  Ident.mem_names_firsts.1 (List.mem_map_of_mem h)

/-- Names are defined by `%token` directives and by rules. -/
theorem mem_names_definitions :
    name ∈ Ident.names source.definitions ↔
      name ∈ Ident.names source.tokens ∨ name ∈ Ident.names source.headers := by
  simp only [definitions, tokens, headers, mem_names_flatMap, Ident.mem_names_append, and_or_left,
    exists_or]

theorem mem_headers_of_mem_alternatives {a : Alternative} (h : a ∈ source.alternatives name) :
    name ∈ Ident.names source.headers := by
  obtain ⟨c, hConstruct, hAlternative⟩ := List.mem_flatMap.1 h
  refine mem_names_flatMap.2 ⟨c, hConstruct, ?_⟩
  cases c with
  | rule header alternatives =>
      rw [Construct.alternatives] at hAlternative
      split at hAlternative
      case isTrue hName => exact List.mem_singleton.2 hName.symm
      case isFalse => cases hAlternative
  | _ => cases hAlternative

/-- Terminals are the names in `%token` directives. -/
theorem kind_eq_terminal_iff : source.kind name = .terminal ↔ name ∈ Ident.names source.tokens := by
  unfold kind
  split
  case isTrue hToken => exact ⟨fun _ => hToken, fun _ => rfl⟩
  case isFalse hToken =>
    split <;> simp [hToken]

/-- Nonterminals are the names that head rules or are declared by `%start`. -/
theorem kind_eq_nonterminal_iff (h : ¬ source.Clashes) :
    source.kind name = .nonterminal ↔
      name ∈ Ident.names source.headers ∨ name ∈ Ident.names source.starts := by
  unfold kind
  split
  case isTrue hToken =>
    exact ⟨fun hKind => (by cases hKind), fun hOther => absurd ⟨name, hToken, hOther⟩ h⟩
  case isFalse =>
    split
    case isTrue hOther => exact ⟨fun _ => hOther, fun _ => rfl⟩
    case isFalse hOther => exact ⟨fun hKind => (by cases hKind), fun hMem => absurd hMem hOther⟩

/-- A symbol is defined when its name is declared or heads a rule. -/
theorem isDefined_symbol {x : Ident} :
    (source.symbol x).isDefined = true ↔
      x.name ∈ Ident.names source.tokens ∨ x.name ∈ Ident.names source.headers := by
  rw [← mem_names_definitions, Ident.names, List.mem_map]
  simp only [Symbol.isDefined, symbol, definedAt, Option.isSome_map, List.find?_isSome,
    decide_eq_true_eq]

namespace Writes

variable {file : FileName} {g : Grammar}

/-- The symbols under their ids are the first occurrences of the names. -/
theorem toList_eq (h : source.Writes file g) :
    g.symbols.toList = source.firsts.map fun x => (source.id x.name, source.symbol x) := by
  rw [SymbolTable.toList, h.symbols]
  refine List.ext_getElem? fun i => ?_
  rw [List.getElem?_map, List.getElem?_zipIdx, List.getElem?_map, List.getElem?_map]
  cases hGet : source.firsts[i]? with
  | none => rfl
  | some x =>
      have hId : source.id x.name = ⟨i⟩ := congrArg SymbolId.mk (Ident.findIdx_firsts hGet)
      simp [hId]

/-- The id of a name leads to the symbol of the name. -/
theorem symbol?_id (h : source.Writes file g) {x : Ident} (hMem : x ∈ source.firsts) :
    g.symbols.symbol? (source.id x.name) = some (source.symbol x) := by
  rw [← SymbolTable.mem_toList, h.toList_eq]
  exact List.mem_map.2 ⟨x, hMem, rfl⟩

theorem name_id (h : source.Writes file g) (hMem : name ∈ Ident.names source.idents) :
    g.symbols.name (source.id name) = name := by
  obtain ⟨x, hFirst, rfl⟩ := exists_first hMem
  rw [SymbolTable.name, h.symbol?_id hFirst]
  rfl

theorem id_injective (h : source.Writes file g) {other : String}
    (hMem : name ∈ Ident.names source.idents) (hOther : other ∈ Ident.names source.idents)
    (hId : source.id name = source.id other) : name = other := by
  rw [← h.name_id hMem, hId, h.name_id hOther]

end Writes

end Source

end GrammarCheck
