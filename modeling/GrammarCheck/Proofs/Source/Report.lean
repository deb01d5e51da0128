import GrammarCheck.Proofs.Ranking.Least
import GrammarCheck.Proofs.Source.Derivable
import GrammarCheck.Report
import Mathlib

/-! The defects of a text that only show once all of it has been read, told from the text alone, and
the proof that the examination of its grammar reports these and no others. -/

namespace GrammarCheck

def Construct.references : Construct → List Ident
  | .rule _ alternatives => alternatives.toList.flatMap OneOrMore.toList
  | _ => []

namespace Source

def references (source : Source) : List Ident := source.flatMap Construct.references

/-- What is wrong with the start symbols: there is none, or the first one has no rule, or a later
one differs from it. -/
def startDefects (source : Source) (file : FileName) : List Defect :=
  match source.starts with
  | [] => [⟨⟨file, 0⟩, .missingStart⟩]
  | x :: xs =>
      (if x.name ∈ Ident.names source.headers then []
        else [⟨⟨file, x.line⟩, .startUndefined x.name⟩]) ++
      (xs.filter (·.name ≠ x.name)).map fun y =>
        ⟨⟨file, y.line⟩, .duplicateStart x.name y.name⟩

/-- A name in an alternative that nothing declares. The first start symbol is none of them. -/
def Undefined (source : Source) (name : String) : Prop :=
  name ∈ Ident.names source.references ∧ name ∉ Ident.names source.tokens ∧
    name ∉ Ident.names source.headers ∧ source.starts.head?.map (·.name) ≠ some name

instance (source : Source) (name : String) : Decidable (source.Undefined name) :=
  inferInstanceAs (Decidable (_ ∧ _ ∧ _ ∧ _))

/-- Every undefined name once, where it first occurs. -/
def undefinedDefects (source : Source) (file : FileName) : List Defect :=
  source.firsts.filterMap fun x =>
    if source.Undefined x.name then some ⟨⟨file, x.line⟩, .undefinedSymbol x.name⟩ else none

/-- A nonterminal from which no derivation ends. -/
def Unproductive (source : Source) (name : String) : Prop :=
  (name ∈ Ident.names source.headers ∨ name ∈ Ident.names source.starts) ∧
    ¬ source.Terminates name

/-- The line of the first rule of a name, or of its first occurrence if it has none. -/
def homeLine (source : Source) (x : Ident) : Nat :=
  ((source.headers.find? (·.name = x.name)).map (·.line)).getD x.line

open Classical in
/-- Every unproductive name once, in the order of the first occurrences. -/
noncomputable def unproductiveDefects (source : Source) (file : FileName) : List Defect :=
  source.firsts.filterMap fun x =>
    if source.Unproductive x.name then some ⟨⟨file, source.homeLine x⟩, .unproductive x.name⟩
    else none

noncomputable def defects (source : Source) (file : FileName) : List Defect :=
  source.startDefects file ++ source.undefinedDefects file ++ source.unproductiveDefects file

/-- A text without such defects: there is one start symbol and it has a rule, every name in an
alternative is declared, and every nonterminal derives a string of terminals. -/
structure Sound (source : Source) : Prop where
  start : ∃ name ∈ Ident.names source.headers, name ∈ Ident.names source.starts ∧
    ∀ other ∈ Ident.names source.starts, other = name
  declared : ∀ name ∈ Ident.names source.references,
    name ∈ Ident.names source.tokens ∨ name ∈ Ident.names source.headers
  terminating : ∀ name, name ∈ Ident.names source.headers ∨ name ∈ Ident.names source.starts →
    source.Terminates name

variable {source : Source}

theorem mem_idents_of_mem_names_starts {name : String} (h : name ∈ Ident.names source.starts) :
    name ∈ Ident.names source.idents := by
  obtain ⟨x, hMem, rfl⟩ := List.mem_map.1 h
  exact mem_idents_of_mem_starts hMem

theorem mem_idents_of_mem_names_headers {name : String} (h : name ∈ Ident.names source.headers) :
    name ∈ Ident.names source.idents := by
  obtain ⟨c, hConstruct, hHeader⟩ := mem_names_flatMap.1 h
  obtain ⟨x, hMem, rfl⟩ := List.mem_map.1 hHeader
  exact mem_names_flatMap.2 ⟨c, hConstruct, Construct.mem_idents_of_mem_headers hMem⟩

/-- A name is used when some alternative of some header has it. -/
theorem mem_names_references_iff {name : String} :
    name ∈ Ident.names source.references ↔
      ∃ header ∈ Ident.names source.headers, ∃ a ∈ source.alternatives header,
        ∃ y ∈ a.toList, y.name = name := by
  constructor
  · intro h
    obtain ⟨y, hMem, rfl⟩ := List.mem_map.1 h
    obtain ⟨c, hConstruct, hUsed⟩ := List.mem_flatMap.1 hMem
    cases c with
    | rule header alternatives =>
        obtain ⟨a, hAlternative, hSymbol⟩ := List.mem_flatMap.1 hUsed
        refine ⟨header.name, ?_, a, ?_, y, hSymbol, rfl⟩
        · exact mem_names_flatMap.2 ⟨_, hConstruct, List.mem_cons_self ..⟩
        · refine List.mem_flatMap.2 ⟨_, hConstruct, ?_⟩
          rw [Construct.alternatives, if_pos rfl]
          exact hAlternative
    | _ => cases hUsed
  · rintro ⟨header, -, a, hAlternative, y, hSymbol, rfl⟩
    obtain ⟨c, hConstruct, hRule⟩ := List.mem_flatMap.1 hAlternative
    refine List.mem_map_of_mem (List.mem_flatMap.2 ⟨c, hConstruct, ?_⟩)
    cases c with
    | rule x alternatives =>
        rw [Construct.alternatives] at hRule
        split at hRule
        case isTrue => exact List.mem_flatMap.2 ⟨a, hRule, hSymbol⟩
        case isFalse => cases hRule
    | _ => cases hRule

/-- A name that is no terminal is defined at the first of its rules. -/
theorem homeLine_symbol {x : Ident} (h : x.name ∉ Ident.names source.tokens) :
    (source.symbol x).homeLine = source.homeLine x := by
  have hDefinitions : source.definitions.filter (·.name = x.name) =
      source.headers.filter (·.name = x.name) := by
    rw [definitions, headers, List.filter_flatMap, List.filter_flatMap]
    apply List.flatMap_congr
    intro c hConstruct
    have hTokens : c.tokens.filter (·.name = x.name) = [] := by
      refine List.filter_eq_nil_iff.2 fun y hMem hName => h ?_
      rw [← of_decide_eq_true hName]
      exact List.mem_map_of_mem (List.mem_flatMap.2 ⟨c, hConstruct, hMem⟩)
    rw [List.filter_append, hTokens, List.nil_append]
  rw [homeLine, Symbol.homeLine, symbol, definedAt, ← List.head?_filter, hDefinitions,
    List.head?_filter]

namespace Writes

variable {file : FileName} {g : Grammar}

/-- The grammar finds wrong with its start symbol what the text has wrong. -/
theorem startDefects_eq (h : source.Writes file g) (hClashes : ¬ source.Clashes) :
    g.startDefects = source.startDefects file := by
  rw [Grammar.startDefects, startDefects, h.start]
  have hName {y : Ident} (hMem : y ∈ source.starts) :
      g.symbols.name (source.id y.name) = y.name := h.name_id (mem_idents_of_mem_starts hMem)
  have hLine := h.startLine
  have hExtra := h.extraStarts
  cases hStarts : source.starts with
  | nil => simp only [List.head?_nil, Option.map_none, Grammar.defectAt, Grammar.place, h.file]
  | cons x xs =>
      rw [hStarts] at hName hLine hExtra
      have hStart : x.name ∈ Ident.names source.starts := by
        rw [hStarts]
        exact List.mem_cons_self ..
      obtain ⟨y, hFirst, hSame⟩ := exists_first (mem_idents_of_mem_names_starts hStart)
      have hSymbol := h.symbol?_id hFirst
      have hDefined : (source.symbol y).isDefined = true ↔ x.name ∈ Ident.names source.headers := by
        rw [isDefined_symbol, hSame]
        exact or_iff_right fun hToken => hClashes ⟨x.name, hToken, .inr hStart⟩
      rw [hSame] at hSymbol
      simp only [List.head?_cons, Option.map_some, Option.getD_some] at hLine ⊢
      simp only [hSymbol, Grammar.defectAt, Grammar.place, h.file, hLine, hExtra,
        hName (List.mem_cons_self ..), List.map_map]
      congr 1
      · simp only [hDefined]
        congr 2
        exact congrArg _ (congrArg _ hSame)
      · apply List.map_congr_left
        intro z hMem
        have hLater : z ∈ x :: xs := Ident.mem_of_mem_extras hMem
        rw [Function.comp_apply, hName hLater]

/-- The nonterminals among the symbols are what heads rules and what is declared by `%start`. -/
theorem isNonterminal_symbol (hClashes : ¬ source.Clashes) {x : Ident} :
    (source.symbol x).isNonterminal = true ↔
      x.name ∈ Ident.names source.headers ∨ x.name ∈ Ident.names source.starts := by
  rw [Symbol.isNonterminal, decide_eq_true_eq]
  exact kind_eq_nonterminal_iff hClashes

/-- The ids in alternatives are those of the names in alternatives. -/
theorem id_mem_used_iff (h : source.Writes file g) (hClashes : ¬ source.Clashes) {name : String}
    (hKnown : name ∈ Ident.names source.idents) :
    source.id name ∈ g.used ↔ name ∈ Ident.names source.references := by
  rw [mem_names_references_iff, Grammar.used, List.mem_flatMap]
  constructor
  · rintro ⟨⟨id, s⟩, hNonterminal, hUsed⟩
    obtain ⟨rule, hRule, hSymbol⟩ := List.mem_flatMap.1 hUsed
    have hMem := SymbolTable.mem_toList.2 (SymbolTable.mem_nonterminals.1 hNonterminal).1
    rw [h.toList_eq] at hMem
    obtain ⟨x, -, hEntry⟩ := List.mem_map.1 hMem
    cases hEntry
    obtain ⟨a, hAlternative, rfl⟩ := List.mem_map.1 hRule
    obtain ⟨y, hY, hId⟩ := List.mem_map.1 hSymbol
    have hSame := h.id_injective (mem_idents_of_mem_alternatives hAlternative hY) hKnown hId
    exact ⟨x.name, mem_headers_of_mem_alternatives hAlternative, a, hAlternative, y, hY, hSame⟩
  · rintro ⟨header, hHeader, a, hAlternative, y, hY, rfl⟩
    obtain ⟨x, hFirst, rfl⟩ := exists_first (mem_idents_of_mem_names_headers hHeader)
    refine ⟨(source.id x.name, source.symbol x), ?_, List.mem_flatMap.2 ⟨_,
      List.mem_map_of_mem hAlternative, List.mem_map_of_mem hY⟩⟩
    rw [SymbolTable.mem_nonterminals, isNonterminal_symbol hClashes]
    exact ⟨h.symbol?_id hFirst, .inl hHeader⟩

/-- The start symbol is the first name that was declared as one. -/
theorem start_eq_id_iff (h : source.Writes file g) {name : String}
    (hKnown : name ∈ Ident.names source.idents) :
    g.start = some (source.id name) ↔ source.starts.head?.map (·.name) = some name := by
  rw [h.start]
  cases hHead : source.starts.head? with
  | none => exact ⟨fun hNone => (by cases hNone), fun hNone => (by cases hNone)⟩
  | some x =>
      have hStart := mem_idents_of_mem_starts (List.mem_of_mem_head? hHead)
      simp only [Option.map_some, Option.some.injEq]
      exact ⟨h.id_injective hStart hKnown, congrArg source.id⟩

/-- The grammar finds those symbols undefined that the text leaves undefined. -/
theorem undefinedDefects_eq (h : source.Writes file g) (hClashes : ¬ source.Clashes) :
    g.undefinedDefects = source.undefinedDefects file := by
  rw [Grammar.undefinedDefects, undefinedDefects, h.toList_eq, List.filterMap_map]
  apply List.filterMap_congr
  intro x hFirst
  have hKnown := mem_idents_of_mem_firsts hFirst
  have hUndefined : (g.used.contains (source.id x.name) && !(source.symbol x).isDefined &&
      g.start != some (source.id x.name)) = true ↔ source.Undefined x.name := by
    rw [Bool.and_eq_true, Bool.and_eq_true, List.contains_iff_mem, h.id_mem_used_iff hClashes hKnown,
      Bool.not_eq_true', ← Bool.not_eq_true, isDefined_symbol, bne_iff_ne, Ne,
      h.start_eq_id_iff hKnown, not_or, and_assoc, and_assoc]
    rfl
  refine (if_congr hUndefined ?_ rfl)
  rw [Grammar.defectAt, Grammar.place, h.file]
  rfl

/-- The grammar finds those symbols unproductive from which no derivation in the text ends. -/
theorem unproductiveDefects_eq (h : source.Writes file g) (hClashes : ¬ source.Clashes) :
    g.unproductiveDefects (.ofTable g.symbols) = source.unproductiveDefects file := by
  rw [Grammar.unproductiveDefects, unproductiveDefects, SymbolTable.nonterminals, h.toList_eq,
    List.filterMap_filter, List.filterMap_map]
  apply List.filterMap_congr
  intro x hFirst
  have hKnown := mem_idents_of_mem_firsts hFirst
  have hProductive : (Ranking.ofTable g.symbols).isProductive (source.id x.name) = true ↔
      source.Terminates x.name := by
    rw [Ranking.isProductive_ofTable_iff, h.productive_id_iff hClashes hKnown]
  rw [Function.comp_apply]
  by_cases hOther : x.name ∈ Ident.names source.headers ∨ x.name ∈ Ident.names source.starts
  · rw [if_pos ((isNonterminal_symbol hClashes).2 hOther)]
    dsimp only
    by_cases hTerminates : source.Terminates x.name
    · rw [if_pos (hProductive.2 hTerminates), if_neg fun hUnproductive => hUnproductive.2 hTerminates]
    · have hToken : x.name ∉ Ident.names source.tokens :=
        fun hMem => hClashes ⟨x.name, hMem, hOther⟩
      rw [if_neg fun hMem => hTerminates (hProductive.1 hMem), if_pos ⟨hOther, hTerminates⟩,
        homeLine_symbol hToken, Grammar.defectAt, Grammar.place, h.file]
      rfl
  · rw [if_neg fun hMem => hOther ((isNonterminal_symbol hClashes).1 hMem),
      if_neg fun hUnproductive => hOther hUnproductive.1]

/-- The examination of the grammar reports the defects of the text. -/
theorem report_defects (h : source.Writes file g) (hClashes : ¬ source.Clashes) :
    g.report.defects = source.defects file := by
  rw [Grammar.report, defects]
  simp only [h.startDefects_eq hClashes, h.undefinedDefects_eq hClashes,
    h.unproductiveDefects_eq hClashes]

end Writes

/-- Nothing is wrong with the start symbol when there is only one and it heads a rule. -/
theorem startDefects_eq_nil_iff {file : FileName} :
    source.startDefects file = [] ↔
      ∃ name ∈ Ident.names source.headers, name ∈ Ident.names source.starts ∧
        ∀ other ∈ Ident.names source.starts, other = name := by
  rw [startDefects]
  cases hStarts : source.starts with
  | nil =>
      simp only [Ident.names, List.map_nil, List.not_mem_nil, false_and, and_false, exists_false,
        reduceCtorEq]
  | cons x xs =>
      rw [List.append_eq_nil_iff, ite_eq_left_iff, List.map_eq_nil_iff, List.filter_eq_nil_iff]
      constructor
      · rintro ⟨hDefined, hSame⟩
        refine ⟨x.name, ?_, List.mem_cons_self .., List.forall_mem_cons.2 ⟨rfl, ?_⟩⟩
        · by_contra hUndefined
          cases hDefined hUndefined
        · intro other hMem
          obtain ⟨y, hY, rfl⟩ := List.mem_map.1 hMem
          by_contra hDifferent
          exact hSame y hY (decide_eq_true hDifferent)
      · rintro ⟨name, hHeader, -, hAll⟩
        obtain ⟨rfl, hOthers⟩ := List.forall_mem_cons.1 hAll
        refine ⟨fun hUndefined => absurd hHeader hUndefined, fun y hY hDifferent => ?_⟩
        exact of_decide_eq_true hDifferent (hOthers y.name (List.mem_map_of_mem hY))

theorem mem_idents_of_undefined {name : String} (h : source.Undefined name) :
    name ∈ Ident.names source.idents := by
  obtain ⟨header, -, a, hAlternative, y, hMem, rfl⟩ := mem_names_references_iff.1 h.1
  exact mem_idents_of_mem_alternatives hAlternative hMem

theorem mem_idents_of_unproductive {name : String} (h : source.Unproductive name) :
    name ∈ Ident.names source.idents := by
  rcases h.1 with hHeader | hStart
  · exact mem_idents_of_mem_names_headers hHeader
  · exact mem_idents_of_mem_names_starts hStart

/-- Without an undefined name there is nothing to report, and otherwise there is. -/
theorem undefinedDefects_eq_nil_iff {file : FileName} :
    source.undefinedDefects file = [] ↔ ∀ name, ¬ source.Undefined name := by
  simp only [undefinedDefects, List.filterMap_eq_nil_iff, ite_eq_right_iff, reduceCtorEq,
    imp_false]
  constructor
  · intro h name hUndefined
    obtain ⟨x, hFirst, rfl⟩ := exists_first (mem_idents_of_undefined hUndefined)
    exact h x hFirst hUndefined
  · intro h x _
    exact h x.name

theorem unproductiveDefects_eq_nil_iff {file : FileName} :
    source.unproductiveDefects file = [] ↔ ∀ name, ¬ source.Unproductive name := by
  simp only [unproductiveDefects, List.filterMap_eq_nil_iff, ite_eq_right_iff, reduceCtorEq,
    imp_false]
  constructor
  · intro h name hUnproductive
    obtain ⟨x, hFirst, rfl⟩ := exists_first (mem_idents_of_unproductive hUnproductive)
    exact h x hFirst hUnproductive
  · intro h x _
    exact h x.name

/-- There are no defects exactly in sound texts. -/
theorem defects_eq_nil_iff {file : FileName} : source.defects file = [] ↔ source.Sound := by
  rw [defects, List.append_eq_nil_iff, List.append_eq_nil_iff, startDefects_eq_nil_iff,
    undefinedDefects_eq_nil_iff, unproductiveDefects_eq_nil_iff]
  constructor
  · rintro ⟨⟨⟨name, hHeader, hStart, hAll⟩, hDefined⟩, hProductive⟩
    refine ⟨⟨name, hHeader, hStart, hAll⟩, ?_, ?_⟩
    · intro other hUsed
      by_contra hNot
      rw [not_or] at hNot
      refine hDefined other ⟨hUsed, hNot.1, hNot.2, fun hHead => hNot.2 ?_⟩
      obtain ⟨x, hMem, rfl⟩ := Option.map_eq_some_iff.1 hHead
      rw [hAll x.name (List.mem_map_of_mem (List.mem_of_mem_head? hMem))]
      exact hHeader
    · intro other hOther
      by_contra hEndless
      exact hProductive other ⟨hOther, hEndless⟩
  · rintro ⟨hStart, hDeclared, hTerminating⟩
    refine ⟨⟨hStart, ?_⟩, ?_⟩
    · rintro name ⟨hUsed, hToken, hHeader, -⟩
      exact (hDeclared name hUsed).elim hToken hHeader
    · rintro name ⟨hOther, hEndless⟩
      exact hEndless (hTerminating name hOther)

end Source

namespace Grammar

/-- A grammar that was read from a text is the one that the text writes down, and the text has no
clashes. -/
theorem exists_parts_of_ofText {file : FileName} {text : List Char} {g : Grammar}
    (h : ofText file text = .ok g) :
    ∃ parts, Part.Spell parts (TokenStream.ofText text).lexemes ∧
      ¬ (Part.source parts).Clashes ∧ (Part.source parts).Writes file g := by
  by_cases hParts : ∃ parts, Part.Spell parts (TokenStream.ofText text).lexemes
  · obtain ⟨parts, hSpell⟩ := hParts
    have hClashes : ¬ (Part.source parts).Clashes := by
      intro hClashes
      rw [ofText_of_clashes hSpell hClashes] at h
      cases h
    obtain ⟨g', hRead, hWrites⟩ := exists_ofText_of_not_clashes hSpell hClashes
    cases h.symm.trans hRead
    exact ⟨parts, hSpell, hClashes, hWrites⟩
  · obtain ⟨defects, hError, -⟩ := ofText_of_not_spelled file hParts
    cases h.symm.trans hError

/-- The examination of a grammar that was read reports exactly the defects of its text: of the start
symbols, then of the names that nothing declares, then of the nonterminals from which no derivation
ends. The check passes exactly for sound texts, and otherwise it gives these defects. -/
theorem report_exact {file : FileName} {text : List Char} {g : Grammar}
    (h : ofText file text = .ok g) :
    ∃ parts, Part.Spell parts (TokenStream.ofText text).lexemes ∧
      g.report.defects = (Part.source parts).startDefects file ++
        (Part.source parts).undefinedDefects file ++ (Part.source parts).unproductiveDefects file ∧
      ((Part.source parts).Sound → g.check = .ok (Ranking.ofTable g.symbols)) ∧
      (¬ (Part.source parts).Sound → g.check = .error g.report.defects) := by
  obtain ⟨parts, hSpell, hClashes, hWrites⟩ := exists_parts_of_ofText h
  have hDefects := hWrites.report_defects hClashes
  have hSound : g.report.defects.isEmpty = true ↔ (Part.source parts).Sound := by
    rw [List.isEmpty_iff, hDefects, Source.defects_eq_nil_iff]
  refine ⟨parts, hSpell, hDefects, ?_, ?_⟩
  · intro hAll
    exact if_pos (hSound.2 hAll)
  · intro hNot
    exact if_neg fun hEmpty => hNot (hSound.1 hEmpty)

/-- A text with a second start symbol, with a name that nothing declares, and with rules that never
end. -/
def endless : List Char := "%start s\n%start t\ns -> s u".toList

/-- All three kinds of defects are found in this text, one kind after the other. -/
theorem report_exact_endless :
    ∃ g, ofText ⟨""⟩ endless = .ok g ∧
      ∃ parts, Part.Spell parts (TokenStream.ofText endless).lexemes ∧
        g.report.defects = (Part.source parts).startDefects ⟨""⟩ ++
          (Part.source parts).undefinedDefects ⟨""⟩ ++
          (Part.source parts).unproductiveDefects ⟨""⟩ ∧
        ((Part.source parts).Sound → g.check = .ok (Ranking.ofTable g.symbols)) ∧
        (¬ (Part.source parts).Sound → g.check = .error g.report.defects) := by
  have hOk : (ofText ⟨""⟩ endless).isOk = true := by cbv
  cases hRead : ofText ⟨""⟩ endless with
  | error defects =>
      rw [hRead] at hOk
      cases hOk
  | ok g => exact ⟨g, rfl, report_exact hRead⟩

end Grammar

end GrammarCheck
