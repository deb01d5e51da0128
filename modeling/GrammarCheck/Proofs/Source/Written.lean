import GrammarCheck.Proofs.Grammar.History
import GrammarCheck.Proofs.Source.Text

/-! The grammar that a text writes down, told from its constructs alone, and the proof that reading
builds it. -/

namespace GrammarCheck

namespace Construct

def idents (c : Construct) : List Ident := c.occurrences.map (·.ident)

def tokens : Construct → List Ident
  | .terminals names => names.toList
  | _ => []

def headers : Construct → List Ident
  | .rule header _ => [header]
  | _ => []

def starts : Construct → List Ident
  | .start symbol => [symbol]
  | _ => []

def alternatives (name : String) : Construct → List Alternative
  | .rule header alternatives => if header.name = name then alternatives.toList else []
  | _ => []

end Construct

namespace Source

def idents (source : Source) : List Ident := source.flatMap Construct.idents

def tokens (source : Source) : List Ident := source.flatMap Construct.tokens

def headers (source : Source) : List Ident := source.flatMap Construct.headers

def starts (source : Source) : List Ident := source.flatMap Construct.starts

/-- The places that define names: the names in `%token` directives and the headers of rules. -/
def definitions (source : Source) : List Ident :=
  source.flatMap fun c => c.tokens ++ c.headers

def firsts (source : Source) : List Ident := Ident.firsts source.idents

/-- The id of a name: how many other names occur first. -/
def id (source : Source) (name : String) : SymbolId := ⟨source.firsts.findIdx (·.name = name)⟩

/-- What a name is, as long as it is not two things. -/
def kind (source : Source) (name : String) : SymbolKind :=
  if name ∈ Ident.names source.tokens then .terminal
  else if name ∈ Ident.names source.headers ∨ name ∈ Ident.names source.starts then .nonterminal
  else .unresolved

def alternatives (source : Source) (name : String) : List Alternative :=
  source.flatMap (Construct.alternatives name)

/-- The alternatives of a name as rules, each at the line of its first symbol. -/
def rules (source : Source) (name : String) : List Rule :=
  (source.alternatives name).map fun a => ⟨a.toList.map fun x => source.id x.name, a.first.line⟩

def definedAt (source : Source) (name : String) : Option Nat :=
  (source.definitions.find? (·.name = name)).map (·.line)

/-- The symbol of a name that first occurs as `x`. -/
def symbol (source : Source) (x : Ident) : Symbol :=
  { name := x.name
    kind := source.kind x.name
    rules := source.rules x.name
    firstSeen := x.line
    definedAt := source.definedAt x.name }

/-- The grammar that a text in some file writes down. -/
structure Writes (source : Source) (file : FileName) (g : Grammar) : Prop where
  file : g.file = file
  symbols : g.symbols.symbols.toList = source.firsts.map source.symbol
  get? : ∀ name, g.symbols.get? name =
    if name ∈ Ident.names source.idents then some (source.id name) else none
  start : g.start = source.starts.head?.map fun x => source.id x.name
  startLine : g.startLine = (source.starts.head?.map (·.line)).getD 0
  extraStarts : g.extraStarts =
    (Ident.extras source.starts).map fun x => ⟨source.id x.name, x.line⟩

/-- Some name is declared by `%token` and also heads a rule or is declared by `%start`. -/
def Clashes (source : Source) : Prop :=
  ∃ name ∈ Ident.names source.tokens,
    name ∈ Ident.names source.headers ∨ name ∈ Ident.names source.starts

end Source

def Construct.symbolEdits : Construct → List SymbolEdit
  | .rule header alternatives =>
      .nonterminal header.name header.line ::
        (alternatives.toList.flatMap OneOrMore.toList).map (fun x => .mention x.name x.line) ++
        .nonterminal header.name header.line ::
          alternatives.toList.map (fun a =>
            .rule header.name (a.toList.map (·.name)) a.first.line) ++
        [.define header.name header.line]
  | .terminals names => names.toList.map fun x => .terminal x.name x.line
  | .start symbol => [.nonterminal symbol.name symbol.line]

namespace Construct

/-- The edits of a construct but for the declaration of the start symbol are those of the table. -/
theorem symbols_edits (c : Construct) :
    c.edits.filterMap GrammarEdit.symbols? = c.symbolEdits := by
  cases c with
  | rule header alternatives =>
      simp [edits, symbolEdits, Ident.rule, Ident.nonterminal, Ident.mention, Ident.alternative,
        Ident.define, GrammarEdit.symbols?, List.filterMap_map, Function.comp_def]
  | terminals names =>
      simp [edits, symbolEdits, Ident.terminal, GrammarEdit.symbols?, Function.comp_def]
  | start symbol => rfl

theorem starts_edits (c : Construct) : c.edits.filterMap GrammarEdit.start? = c.starts := by
  cases c with
  | rule header alternatives =>
      apply List.filterMap_eq_nil_iff.2
      intro e hMem
      simp only [edits, Ident.rule, List.cons_append, List.mem_cons, List.mem_append, List.mem_map,
        List.not_mem_nil, or_false] at hMem
      rcases hMem with rfl | ⟨x, -, rfl⟩ | rfl | ⟨a, -, rfl⟩ | rfl <;> rfl
  | terminals names =>
      simp [edits, starts, Ident.terminal, GrammarEdit.start?, Function.comp_def]
  | start symbol => rfl

/-- The edits of a construct use its names in their order. A rule ends with one more use of its
header. -/
theorem uses_symbolEdits (c : Construct) :
    c.symbolEdits.filterMap SymbolEdit.use? = c.idents ++ c.headers := by
  cases c with
  | rule header alternatives =>
      simp [symbolEdits, idents, occurrences, headers, SymbolEdit.use?, Function.comp_def]
  | terminals names =>
      simp [symbolEdits, idents, occurrences, headers, SymbolEdit.use?, Function.comp_def]
  | start symbol => rfl

/-- The names in the alternatives of a construct are among all of its names. -/
theorem mem_idents_of_mem_alternatives {c : Construct} {name : String} {a : Alternative}
    {x : Ident} (hAlternative : a ∈ c.alternatives name) (hMem : x ∈ a.toList) : x ∈ c.idents := by
  cases c with
  | rule header alternatives =>
      rw [Construct.alternatives] at hAlternative
      split at hAlternative
      case isTrue =>
        rw [idents, occurrences, List.map_cons, List.map_map]
        refine List.mem_cons_of_mem _ (List.mem_map.2 ⟨x, ?_, rfl⟩)
        exact List.mem_flatMap.2 ⟨a, hAlternative, hMem⟩
      case isFalse => cases hAlternative
  | _ => cases hAlternative

theorem mem_idents_of_mem_headers {c : Construct} {x : Ident} (h : x ∈ c.headers) :
    x.name ∈ Ident.names c.idents := by
  cases c with
  | rule header alternatives =>
      cases List.mem_singleton.1 h
      exact List.mem_cons_self ..
  | _ => cases h

theorem mem_names_append_headers {c : Construct} {name : String} :
    name ∈ Ident.names (c.idents ++ c.headers) ↔ name ∈ Ident.names c.idents := by
  rw [Ident.mem_names_append]
  apply or_iff_left_of_imp
  intro hMem
  obtain ⟨x, hHeader, rfl⟩ := List.mem_map.1 hMem
  exact mem_idents_of_mem_headers hHeader

/-- A construct settles a name by its edits as it does by its occurrences. -/
theorem usedAs_symbolEdits {c : Construct} {name : String} {kind : SymbolKind} :
    (∃ e ∈ c.symbolEdits, e.name = name ∧ e.kind? = some kind) ↔
      Occurrence.UsedAs c.occurrences name kind := by
  cases c with
  | rule header alternatives =>
      constructor
      · rintro ⟨e, hMem, hName, hKind⟩
        simp only [symbolEdits, List.cons_append, List.mem_cons, List.mem_append, List.mem_map,
          List.not_mem_nil, or_false] at hMem
        refine ⟨_, List.mem_cons_self .., ?_⟩
        rcases hMem with rfl | (⟨x, -, rfl⟩ | rfl | ⟨a, -, rfl⟩) | rfl
        · exact ⟨hName, hKind⟩
        · cases hKind
        · exact ⟨hName, hKind⟩
        · cases hKind
        · cases hKind
      · rintro ⟨o, hMem, hName, hKind⟩
        rcases List.mem_cons.1 hMem with rfl | hLater
        · exact ⟨.nonterminal header.name header.line, List.mem_cons_self .., hName, hKind⟩
        · obtain ⟨x, -, rfl⟩ := List.mem_map.1 hLater
          cases hKind
  | terminals names =>
      simp [symbolEdits, Occurrence.UsedAs, occurrences, SymbolEdit.name, SymbolEdit.kind?]
  | start symbol =>
      simp [symbolEdits, Occurrence.UsedAs, occurrences, SymbolEdit.name, SymbolEdit.kind?]

/-- The alternatives that a construct attaches to a name are those written in it. -/
theorem rules_symbolEdits (t : SymbolTable) (name : String) (c : Construct) :
    (SymbolEdit.about name c.symbolEdits).filterMap (SymbolEdit.rule? t) =
      (c.alternatives name).map fun a =>
        ⟨(a.toList.map (·.name)).filterMap t.get?, a.first.line⟩ := by
  cases c with
  | rule header alternatives =>
      by_cases hName : header.name = name
      · simp [symbolEdits, Construct.alternatives, SymbolEdit.about, SymbolEdit.name,
          SymbolEdit.rule?, hName, List.filter_map, Function.comp_def, List.filterMap_cons]
      · simp [symbolEdits, Construct.alternatives, SymbolEdit.about, SymbolEdit.name,
          SymbolEdit.rule?, hName, List.filter_map, Function.comp_def]
  | terminals names =>
      simp [symbolEdits, Construct.alternatives, SymbolEdit.about, SymbolEdit.rule?]
  | start symbol =>
      simp [symbolEdits, Construct.alternatives, SymbolEdit.about, SymbolEdit.rule?]

/-- The lines at which a construct defines a name are those of its declarations and headers. -/
theorem definitions_symbolEdits (name : String) (c : Construct) :
    (SymbolEdit.about name c.symbolEdits).filterMap SymbolEdit.definition? =
      ((c.tokens ++ c.headers).filter (·.name = name)).map (·.line) := by
  cases c with
  | rule header alternatives =>
      by_cases hName : header.name = name
      · simp [symbolEdits, tokens, headers, SymbolEdit.about, SymbolEdit.name,
          SymbolEdit.definition?, hName, List.filter_map, Function.comp_def, List.filterMap_cons]
      · simp [symbolEdits, tokens, headers, SymbolEdit.about, SymbolEdit.name,
          SymbolEdit.definition?, hName, List.filter_map, Function.comp_def]
  | terminals names =>
      simp only [symbolEdits, tokens, headers, SymbolEdit.about, List.filter_map, Function.comp_def,
        SymbolEdit.name, List.filterMap_map, SymbolEdit.definition?, List.append_nil]
      exact congrFun List.filterMap_eq_map _
  | start symbol =>
      simp [symbolEdits, tokens, headers, SymbolEdit.about, SymbolEdit.definition?]

end Construct

/-- A construct uses as terminals what it declares by `%token`, and as nonterminals its header and
its start symbol. -/
theorem Construct.usedAs_iff {c : Construct} {name : String} {kind : SymbolKind} :
    Occurrence.UsedAs c.occurrences name kind ↔
      (kind = .terminal ∧ name ∈ Ident.names c.tokens) ∨
        kind = .nonterminal ∧ (name ∈ Ident.names c.headers ∨ name ∈ Ident.names c.starts) := by
  cases c with
  | rule header alternatives =>
      constructor
      · rintro ⟨o, hMem, rfl, hKind⟩
        rcases List.mem_cons.1 hMem with rfl | hLater
        · exact .inr ⟨(Option.some.inj hKind).symm, .inl (List.mem_singleton_self _)⟩
        · obtain ⟨x, -, rfl⟩ := List.mem_map.1 hLater
          cases hKind
      · rintro (⟨-, hMem⟩ | ⟨rfl, hMem | hMem⟩)
        · cases hMem
        · cases List.mem_singleton.1 hMem
          exact ⟨⟨header, some .nonterminal⟩, List.mem_cons_self .., rfl, rfl⟩
        · cases hMem
  | terminals names =>
      constructor
      · rintro ⟨o, hMem, rfl, hKind⟩
        obtain ⟨x, hToken, rfl⟩ := List.mem_map.1 hMem
        exact .inl ⟨(Option.some.inj hKind).symm, List.mem_map_of_mem hToken⟩
      · rintro (⟨rfl, hMem⟩ | ⟨-, hMem | hMem⟩)
        · obtain ⟨x, hToken, rfl⟩ := List.mem_map.1 hMem
          exact ⟨⟨x, some .terminal⟩, List.mem_map_of_mem hToken, rfl, rfl⟩
        · cases hMem
        · cases hMem
  | start symbol =>
      constructor
      · rintro ⟨o, hMem, rfl, hKind⟩
        cases List.mem_singleton.1 hMem
        exact .inr ⟨(Option.some.inj hKind).symm, .inr (List.mem_singleton_self _)⟩
      · rintro (⟨-, hMem⟩ | ⟨rfl, hMem | hMem⟩)
        · cases hMem
        · cases hMem
        · cases List.mem_singleton.1 hMem
          exact ⟨⟨symbol, some .nonterminal⟩, List.mem_singleton_self _, rfl, rfl⟩

namespace Source

variable {source : Source}

def symbolEdits (source : Source) : List SymbolEdit := source.flatMap Construct.symbolEdits

theorem symbols_edits (source : Source) :
    source.edits.filterMap GrammarEdit.symbols? = source.symbolEdits := by
  rw [edits, List.filterMap_flatMap]
  exact List.flatMap_congr fun c _ => c.symbols_edits

theorem starts_edits (source : Source) :
    source.edits.filterMap GrammarEdit.start? = source.starts := by
  rw [edits, List.filterMap_flatMap]
  exact List.flatMap_congr fun c _ => c.starts_edits

/-- The edits of a text use its names in order, and each header once more. -/
theorem uses_symbolEdits (source : Source) :
    source.symbolEdits.filterMap SymbolEdit.use? = source.flatMap fun c => c.idents ++ c.headers := by
  rw [symbolEdits, List.filterMap_flatMap]
  exact List.flatMap_congr fun c _ => c.uses_symbolEdits

theorem mem_names_flatMap {f : Construct → List Ident} {name : String} :
    name ∈ Ident.names (source.flatMap f) ↔ ∃ c ∈ source, name ∈ Ident.names (f c) := by
  simp only [Ident.names, List.map_flatMap, List.mem_flatMap]

/-- The names that the edits use are those of the text. -/
theorem mem_names_uses {name : String} :
    name ∈ Ident.names (source.symbolEdits.filterMap SymbolEdit.use?) ↔
      name ∈ Ident.names source.idents := by
  simp only [uses_symbolEdits, idents, mem_names_flatMap, Construct.mem_names_append_headers]

/-- Using the header of a rule again at its end adds no name. -/
theorem firsts_symbolEdits (source : Source) :
    SymbolEdit.firsts source.symbolEdits = source.firsts := by
  rw [SymbolEdit.firsts, uses_symbolEdits, firsts, idents]
  induction source with
  | nil => rfl
  | cons c source ih =>
      have hHeaders := Ident.firsts_append_of_old fun x hMem => c.mem_idents_of_mem_headers hMem
      rw [List.flatMap_cons, List.flatMap_cons, Ident.firsts_append (c.idents ++ c.headers),
        hHeaders, ih, Ident.firsts_append c.idents]
      simp only [Construct.mem_names_append_headers]

theorem usedAs_occurrences {name : String} {kind : SymbolKind} :
    Occurrence.UsedAs source.occurrences name kind ↔
      ∃ c ∈ source, Occurrence.UsedAs c.occurrences name kind := by
  simp only [Occurrence.UsedAs, occurrences, List.mem_flatMap]
  grind

/-- A text uses as terminals what it declares by `%token`, and as nonterminals its headers and start
symbols. -/
theorem usedAs_iff {name : String} {kind : SymbolKind} :
    Occurrence.UsedAs source.occurrences name kind ↔
      (kind = .terminal ∧ name ∈ Ident.names source.tokens) ∨
        kind = .nonterminal ∧
          (name ∈ Ident.names source.headers ∨ name ∈ Ident.names source.starts) := by
  simp only [usedAs_occurrences, Construct.usedAs_iff, tokens, headers, starts, mem_names_flatMap]
  grind

/-- A text settles names by its edits as it does by its occurrences. -/
theorem usedAs_symbolEdits {name : String} {kind : SymbolKind} :
    (∃ e ∈ source.symbolEdits, e.name = name ∧ e.kind? = some kind) ↔
      Occurrence.UsedAs source.occurrences name kind := by
  simp only [usedAs_occurrences, ← Construct.usedAs_symbolEdits, symbolEdits, List.mem_flatMap]
  grind

/-- There are conflicts exactly when a name is both a terminal and a nonterminal. -/
theorem conflicts_eq_nil_iff_not_clashes {file : FileName} :
    source.conflicts file = [] ↔ ¬ source.Clashes := by
  have hClashes : (∃ o ∈ source.occurrences, Occurrence.conflict? source.occurrences o ≠ none) ↔
      source.Clashes := by
    rw [Occurrence.exists_conflict_iff]
    simp only [usedAs_iff]
    constructor
    · rintro ⟨name, kind, kind', hNe, (⟨rfl, hToken⟩ | ⟨rfl, hOther⟩), hUse⟩
      · rcases hUse with ⟨rfl, -⟩ | ⟨-, hOther⟩
        · exact absurd rfl hNe
        · exact ⟨name, hToken, hOther⟩
      · rcases hUse with ⟨-, hToken⟩ | ⟨rfl, -⟩
        · exact ⟨name, hToken, hOther⟩
        · exact absurd rfl hNe
    · rintro ⟨name, hToken, hOther⟩
      exact ⟨name, .terminal, .nonterminal, by decide, .inl ⟨rfl, hToken⟩, .inr ⟨rfl, hOther⟩⟩
  rw [conflicts_eq_nil_iff, ← hClashes]
  simp only [not_exists, not_and, not_not]

/-- The kind that the edits settle is what the name is in the text, where nothing clashes. -/
theorem kind_symbolEdits (h : ¬ source.Clashes) (name : String) :
    ((SymbolEdit.about name source.symbolEdits).findSome? SymbolEdit.kind?).getD .unresolved =
      source.kind name := by
  have hUses {kind : SymbolKind} : (∃ e ∈ SymbolEdit.about name source.symbolEdits,
      e.kind? = some kind) ↔ Occurrence.UsedAs source.occurrences name kind := by
    rw [← usedAs_symbolEdits]
    simp only [SymbolEdit.about, List.mem_filter, decide_eq_true_eq, and_assoc]
  rw [kind]
  cases hSettled : (SymbolEdit.about name source.symbolEdits).findSome? SymbolEdit.kind? with
  | none =>
      have hUnused (kind : SymbolKind) : ¬ Occurrence.UsedAs source.occurrences name kind := by
        rw [← hUses]
        rintro ⟨e, hMem, hKind⟩
        rw [List.findSome?_eq_none_iff.1 hSettled e hMem] at hKind
        cases hKind
      have hToken := hUnused .terminal
      have hOther := hUnused .nonterminal
      rw [usedAs_iff] at hToken hOther
      rw [if_neg fun hMem => hToken (.inl ⟨rfl, hMem⟩), if_neg fun hMem => hOther (.inr ⟨rfl, hMem⟩)]
      rfl
  | some kind =>
      have hUsed := hUses.1 (List.exists_of_findSome?_eq_some hSettled)
      rcases usedAs_iff.1 hUsed with ⟨rfl, hToken⟩ | ⟨rfl, hOther⟩
      · rw [if_pos hToken]
        rfl
      · rw [if_neg fun hToken => h ⟨name, hToken, hOther⟩, if_pos hOther]
        rfl

/-- The alternatives that the edits attach to a name are those in the text, in order. -/
theorem rules_symbolEdits (t : SymbolTable) (name : String) :
    (SymbolEdit.about name source.symbolEdits).filterMap (SymbolEdit.rule? t) =
      (source.alternatives name).map fun a =>
        ⟨(a.toList.map (·.name)).filterMap t.get?, a.first.line⟩ := by
  rw [alternatives, SymbolEdit.about, symbolEdits, List.filter_flatMap, List.filterMap_flatMap, List.map_flatMap]
  exact List.flatMap_congr fun c _ => c.rules_symbolEdits t name

/-- The edits define a name at its first definition in the text. -/
theorem definitions_symbolEdits (name : String) :
    (SymbolEdit.about name source.symbolEdits).findSome? SymbolEdit.definition? =
      source.definedAt name := by
  rw [definedAt, ← List.head?_filterMap, ← List.head?_filter, ← List.head?_map]
  refine congrArg List.head? ?_
  rw [SymbolEdit.about, symbolEdits, List.filter_flatMap, List.filterMap_flatMap, definitions,
    List.filter_flatMap, List.map_flatMap]
  exact List.flatMap_congr fun c _ => c.definitions_symbolEdits name

theorem mem_idents_of_mem_alternatives {name : String} {a : Alternative} {x : Ident}
    (hAlternative : a ∈ source.alternatives name) (hMem : x ∈ a.toList) :
    x.name ∈ Ident.names source.idents := by
  obtain ⟨c, hConstruct, hSymbols⟩ := List.mem_flatMap.1 hAlternative
  refine List.mem_map_of_mem (List.mem_flatMap.2 ⟨c, hConstruct, ?_⟩)
  exact Construct.mem_idents_of_mem_alternatives hSymbols hMem

theorem mem_idents_of_mem_starts {x : Ident} (h : x ∈ source.starts) :
    x.name ∈ Ident.names source.idents := by
  obtain ⟨c, hConstruct, hStart⟩ := List.mem_flatMap.1 h
  refine List.mem_map_of_mem (List.mem_flatMap.2 ⟨c, hConstruct, ?_⟩)
  cases c with
  | start symbol => exact hStart
  | _ => cases hStart

/-- The symbol that the edits of a text make of a name is the one that the text writes down. -/
theorem symbol_symbolEdits (h : ¬ source.Clashes) {t : SymbolTable}
    (hIds : ∀ name ∈ Ident.names source.idents, t.get? name = some (source.id name)) (x : Ident) :
    SymbolEdit.symbol source.symbolEdits t x = source.symbol x := by
  have hRules : (SymbolEdit.about x.name source.symbolEdits).filterMap (SymbolEdit.rule? t) =
      source.rules x.name := by
    rw [rules_symbolEdits, rules]
    apply List.map_congr_left
    intro a hAlternative
    have hSymbols : (a.toList.map (·.name)).filterMap t.get? =
        a.toList.map fun y => source.id y.name := by
      rw [List.filterMap_map, ← List.filterMap_eq_map]
      exact List.filterMap_congr fun y hMem =>
        hIds y.name (mem_idents_of_mem_alternatives hAlternative hMem)
    rw [hSymbols]
  rw [SymbolEdit.symbol, kind_symbolEdits h, hRules, definitions_symbolEdits, symbol]

/-- A grammar that records the edits of a text is the one that the text writes down. -/
theorem writes_of_records (h : ¬ source.Clashes) {file : FileName} {g : Grammar}
    (hFile : g.file = file) (hRecords : g.Records source.edits) : source.Writes file g := by
  obtain ⟨hTable, -, hStart, hLine, hExtra⟩ := hRecords
  rw [symbols_edits] at hTable
  rw [starts_edits] at hStart hLine hExtra
  have hIds (name : String) (hMem : name ∈ Ident.names source.idents) :
      g.symbols.get? name = some (source.id name) := by
    rw [hTable.get?_eq_some (mem_names_uses.2 hMem), firsts_symbolEdits, id]
  refine ⟨hFile, ?_, ?_, ?_, hLine, ?_⟩
  · rw [hTable.symbols, firsts_symbolEdits]
    exact List.map_congr_left fun x _ => symbol_symbolEdits h hIds x
  · intro name
    split
    case isTrue hMem => exact hIds name hMem
    case isFalse hAbsent => exact hTable.get?_eq_none_iff.2 fun hMem => hAbsent (mem_names_uses.1 hMem)
  · rw [hStart]
    cases hHead : source.starts.head? with
    | none => rfl
    | some x => exact hIds x.name (mem_idents_of_mem_starts (List.mem_of_mem_head? hHead))
  · rw [hExtra, ← List.filterMap_eq_map]
    apply List.filterMap_congr
    intro x hMem
    rw [hIds x.name (mem_idents_of_mem_starts (Ident.mem_of_mem_extras hMem))]
    rfl

end Source

namespace Grammar

/-- A text in which kinds clash is refused with exactly its conflicts. -/
theorem ofText_of_clashes {file : FileName} {text : List Char} {parts : List Part}
    (hSpell : Part.Spell parts (TokenStream.ofText text).lexemes)
    (hClashes : (Part.source parts).Clashes) :
    ofText file text = .error ((Part.source parts).conflicts file) := by
  rcases ofText_of_spell file hSpell with ⟨-, hError⟩ | ⟨hFree, -⟩
  · exact hError
  · exact absurd hClashes (Source.conflicts_eq_nil_iff_not_clashes.1 hFree)

/-- Any other well-formed text is read, and writes the grammar that is read. -/
theorem exists_ofText_of_not_clashes {file : FileName} {text : List Char} {parts : List Part}
    (hSpell : Part.Spell parts (TokenStream.ofText text).lexemes)
    (hClashes : ¬ (Part.source parts).Clashes) :
    ∃ g, ofText file text = .ok g ∧ (Part.source parts).Writes file g := by
  rcases ofText_of_spell file hSpell with ⟨hConflicts, -⟩ | ⟨-, g, hRead, hEdits⟩
  · exact absurd (Source.conflicts_eq_nil_iff_not_clashes.2 hClashes) hConflicts
  · have hRecords := (records_ofFile file).editAll hEdits
    exact ⟨g, hRead, Source.writes_of_records hClashes (file_editAll hEdits) hRecords⟩

/-- Reading accepts exactly the texts that consist of blank lines and constructs and use no name as
both a terminal and a nonterminal, and it builds the grammar that such a text writes down. The parts
of a text are unique. A text without parts is reported as malformed somewhere, and one with parts
for all its conflicts of kinds and nothing else. -/
theorem reading_exact (file : FileName) (text : List Char) :
    ((¬ ∃ parts, Part.Spell parts (TokenStream.ofText text).lexemes) →
      ∃ defects, ofText file text = .error defects ∧ ∃ d ∈ defects, d.cause.IsMalformed) ∧
    ∀ parts, Part.Spell parts (TokenStream.ofText text).lexemes →
      (∀ others, Part.Spell others (TokenStream.ofText text).lexemes → others = parts) ∧
      ((Part.source parts).Clashes →
        ofText file text = .error ((Part.source parts).conflicts file)) ∧
      (¬ (Part.source parts).Clashes →
        ∃ g, ofText file text = .ok g ∧ (Part.source parts).Writes file g) := by
  refine ⟨ofText_of_not_spelled file, ?_⟩
  intro parts hSpell
  refine ⟨?_, ofText_of_clashes hSpell, exists_ofText_of_not_clashes hSpell⟩
  intro others hOthers
  exact Part.spell_unique (hOthers.trans hSpell.symm)

end Grammar

end GrammarCheck
