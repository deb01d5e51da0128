import GrammarCheck.Proofs.Source.Lookup

/-! Which names of a text derive strings of terminals, by the text itself and by the symbol table
that it writes down. -/

namespace GrammarCheck

namespace Source

variable {source : Source}

/-- Some names derive a string of terminals: a terminal stands for itself, and any other name is
replaced by what one of its alternatives derives. -/
inductive Derives (source : Source) : List String → List String → Prop where
  | nil : Derives source [] []
  | terminal {name : String} {names sentence : List String}
      (hToken : name ∈ Ident.names source.tokens) (hRest : Derives source names sentence) :
      Derives source (name :: names) (name :: sentence)
  | rule {name : String} {names first rest : List String} {a : Alternative}
      (hAlternative : a ∈ source.alternatives name)
      (hFirst : Derives source (Ident.names a.toList) first) (hRest : Derives source names rest) :
      Derives source (name :: names) (first ++ rest)

def Terminates (source : Source) (name : String) : Prop :=
  ∃ sentence, source.Derives [name] sentence

/-- Names in a row derive what they derive one by one. -/
theorem Derives.append {names others sentence rest : List String}
    (h : source.Derives names sentence) (hOthers : source.Derives others rest) :
    source.Derives (names ++ others) (sentence ++ rest) := by
  induction h with
  | nil => exact hOthers
  | terminal hToken _ ih => exact .terminal hToken ih
  | rule hAlternative hFirst _ _ ih =>
      rw [List.cons_append, List.append_assoc]
      exact .rule hAlternative hFirst ih

/-- Names that each derive something do so together. -/
theorem exists_derives {names : List String} (h : ∀ name ∈ names, source.Terminates name) :
    ∃ sentence, source.Derives names sentence := by
  induction names with
  | nil => exact ⟨[], .nil⟩
  | cons name names ih =>
      obtain ⟨hName, hNames⟩ := List.forall_mem_cons.1 h
      obtain ⟨first, hFirst⟩ := hName
      obtain ⟨rest, hRest⟩ := ih hNames
      exact ⟨first ++ rest, hFirst.append hRest⟩

namespace Writes

variable {file : FileName} {g : Grammar}

/-- What a `%token` directive declares is a terminal. -/
theorem isTerminal_symbol {x : Ident} (h : x.name ∈ Ident.names source.tokens) :
    (source.symbol x).isTerminal = true :=
  decide_eq_true (kind_eq_terminal_iff.2 h)

/-- A derivation in the text is one in the table. The induction is on the derivation. -/
theorem productive_of_derives (h : source.Writes file g) (hClashes : ¬ source.Clashes)
    {names sentence : List String} (hDerives : source.Derives names sentence)
    (hKnown : ∀ name ∈ names, name ∈ Ident.names source.idents) :
    ∀ name ∈ names, g.symbols.Productive (source.id name) := by
  induction hDerives with
  | nil =>
      intro name hMem
      cases hMem
  | @terminal name names sentence hToken hRest ih =>
      obtain ⟨hName, hNames⟩ := List.forall_mem_cons.1 hKnown
      refine List.forall_mem_cons.2 ⟨?_, ih hNames⟩
      obtain ⟨x, hFirst, rfl⟩ := exists_first hName
      exact ⟨_, .of_terminal (h.symbol?_id hFirst) (isTerminal_symbol hToken)⟩
  | @rule name names first rest a hAlternative hFirst hRest ihFirst ihRest =>
      obtain ⟨hName, hNames⟩ := List.forall_mem_cons.1 hKnown
      refine List.forall_mem_cons.2 ⟨?_, ihRest hNames⟩
      obtain ⟨x, hMem, rfl⟩ := exists_first hName
      have hNonterminal : (source.symbol x).isNonterminal = true := decide_eq_true
        ((kind_eq_nonterminal_iff hClashes).2 (.inl (mem_headers_of_mem_alternatives hAlternative)))
      refine .of_rule (h.symbol?_id hMem) hNonterminal (List.mem_map_of_mem hAlternative) ?_
      intro child hChild
      obtain ⟨y, hSymbol, rfl⟩ := List.mem_map.1 hChild
      refine ihFirst ?_ y.name (List.mem_map_of_mem hSymbol)
      intro other hOther
      obtain ⟨z, hUsed, rfl⟩ := List.mem_map.1 hOther
      exact mem_idents_of_mem_alternatives hAlternative hUsed

/-- A complete tree in the table spells a derivation in the text. The induction is on the tree. -/
theorem terminates_of_complete (h : source.Writes file g) {tree : Derivation}
    (hComplete : tree.Complete g.symbols) {name : String}
    (hKnown : name ∈ Ident.names source.idents) (hRoot : tree.root = source.id name) :
    source.Terminates name := by
  induction hComplete generalizing name with
  | @leaf id s hSymbol hTerminal =>
      obtain ⟨x, hFirst, rfl⟩ := exists_first hKnown
      cases hRoot
      cases hSymbol.symm.trans (h.symbol?_id hFirst)
      have hToken := kind_eq_terminal_iff.1 (of_decide_eq_true hTerminal)
      exact ⟨[x.name], .terminal hToken .nil⟩
  | @node id s rule children hSymbol hNonterminal hRule hRoots hChildren ih =>
      obtain ⟨x, hFirst, rfl⟩ := exists_first hKnown
      cases hRoot
      cases hSymbol.symm.trans (h.symbol?_id hFirst)
      obtain ⟨a, hAlternative, rfl⟩ := List.mem_map.1 hRule
      have hEach : ∀ other ∈ Ident.names a.toList, source.Terminates other := by
        intro other hOther
        obtain ⟨y, hMem, rfl⟩ := List.mem_map.1 hOther
        have hChild : source.id y.name ∈ children.map Derivation.root := by
          rw [hRoots]
          exact List.mem_map_of_mem hMem
        obtain ⟨child, hTree, hSame⟩ := List.mem_map.1 hChild
        exact ih child hTree (mem_idents_of_mem_alternatives hAlternative hMem) hSame
      obtain ⟨sentence, hDerives⟩ := exists_derives hEach
      exact ⟨sentence ++ [], .rule hAlternative hDerives .nil⟩

/-- A name derives a string of terminals in the text exactly when its symbol is productive. -/
theorem productive_id_iff (h : source.Writes file g) (hClashes : ¬ source.Clashes) {name : String}
    (hKnown : name ∈ Ident.names source.idents) :
    g.symbols.Productive (source.id name) ↔ source.Terminates name := by
  constructor
  · rintro ⟨tree, hComplete, hRoot⟩
    exact h.terminates_of_complete hComplete hKnown hRoot
  · rintro ⟨sentence, hDerives⟩
    exact h.productive_of_derives hClashes hDerives (List.forall_mem_singleton.2 hKnown) name
      (List.mem_singleton_self name)

end Writes

end Source

end GrammarCheck
