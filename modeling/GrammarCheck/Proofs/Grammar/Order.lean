import GrammarCheck.Proofs.Grammar.Verified
import GrammarCheck.Proofs.Source.Page

/-! Texts with the same constructs in another order. They are accepted or refused together, and
what is read from them differs in ids and lines alone. With one start symbol also the same is found
to be wrong with it. -/

namespace GrammarCheck

/-- Grammars that agree in the names of each kind, in the alternatives of each name up to their
order, and in the rank of each name. -/
structure Grammar.SameByName (g g' : Grammar) : Prop where
  kinds : ∀ kind name, name ∈ g.namesOf kind ↔ name ∈ g'.namesOf kind
  alternatives : ∀ name, (g.alternativesOf name).Perm (g'.alternativesOf name)
  ranks : ∀ name, g.rankOf? name = g'.rankOf? name

def Grammar.faults (g : Grammar) : List Fault := g.report.defects.map (·.cause)

namespace Source

variable {source other : Source} {file : FileName} {fault : Fault}

/-- What is reported once for each name with some property. -/
theorem mem_map_cause_firsts {p : String → Prop} [DecidablePred p] {line : Ident → Nat}
    {of : String → Fault} (h : ∀ name, p name → name ∈ Ident.names source.idents) :
    fault ∈ (source.firsts.filterMap fun x =>
        if p x.name then some (⟨⟨file, line x⟩, of x.name⟩ : Defect) else none).map (·.cause) ↔
      ∃ name, p name ∧ of name = fault := by
  simp only [List.mem_map, List.mem_filterMap, Option.ite_none_right_eq_some, Option.some.injEq]
  constructor
  · rintro ⟨_, ⟨x, -, hName, rfl⟩, rfl⟩
    exact ⟨x.name, hName, rfl⟩
  · rintro ⟨name, hName, rfl⟩
    obtain ⟨x, hFirst, rfl⟩ := exists_first (h name hName)
    exact ⟨_, ⟨x, hFirst, hName, rfl⟩, rfl⟩

/-- A single start symbol is missing or it is undefined. -/
theorem mem_map_cause_startDefects (hSingle : source.SingleStart) :
    fault ∈ (source.startDefects file).map (·.cause) ↔
      (∀ name, name ∉ Ident.names source.starts) ∧ .missingStart = fault ∨
        ∃ name, (name ∈ Ident.names source.starts ∧ name ∉ Ident.names source.headers) ∧
          .startUndefined name = fault := by
  rw [startDefects]
  cases hStarts : source.starts with
  | nil => simp [Ident.names, eq_comm]
  | cons x xs =>
      have hFirst : x.name ∈ Ident.names source.starts := by
        rw [hStarts]
        exact List.mem_cons_self ..
      have hSame {name : String} (hMem : name ∈ Ident.names (x :: xs)) : name = x.name :=
        hSingle x.name hFirst name (hStarts ▸ hMem)
      -- no later start symbol differs from the first one
      have hNone : xs.filter (·.name ≠ x.name) = [] := by
        refine List.filter_eq_nil_iff.2 fun y hMem hOther => of_decide_eq_true hOther ?_
        exact hSame (List.mem_map_of_mem (List.mem_cons_of_mem x hMem))
      simp only [hNone, List.map_nil, List.append_nil]
      constructor
      · intro hMem
        split at hMem
        case isTrue => cases hMem
        case isFalse hUndefined =>
          exact .inr ⟨x.name, ⟨List.mem_cons_self .., hUndefined⟩, (List.mem_singleton.1 hMem).symm⟩
      · rintro (⟨hEmpty, -⟩ | ⟨name, ⟨hMem, hUndefined⟩, rfl⟩)
        · exact absurd (List.mem_cons_self ..) (hEmpty x.name)
        · cases hSame hMem
          rw [if_neg hUndefined]
          exact List.mem_cons_self ..

/-- A single start symbol is the first one. -/
theorem SingleStart.head?_eq_some_iff (h : source.SingleStart) {name : String} :
    source.starts.head?.map (·.name) = some name ↔ name ∈ Ident.names source.starts := by
  constructor
  · intro hSome
    obtain ⟨x, hFirst, rfl⟩ := Option.map_eq_some_iff.1 hSome
    exact List.mem_map_of_mem (List.mem_of_mem_head? hFirst)
  · intro hMem
    cases hHead : source.starts.head? with
    | none =>
        rw [List.head?_eq_none_iff.1 hHead] at hMem
        cases hMem
    | some x =>
        have hFirst := List.mem_map_of_mem (f := Ident.name) (List.mem_of_mem_head? hHead)
        exact congrArg some (h name hMem x.name hFirst)

/-- What is undefined does not depend on which start symbol comes first, provided that there is only
one. -/
theorem undefined_iff (hSingle : source.SingleStart) {name : String} :
    source.Undefined name ↔ name ∈ Ident.names source.references ∧
      name ∉ Ident.names source.tokens ∧ name ∉ Ident.names source.headers ∧
        name ∉ Ident.names source.starts := by
  rw [Undefined, Ne, hSingle.head?_eq_some_iff]

/-- With one start symbol, what is reported can be told without the order of the constructs. -/
theorem mem_map_cause_defects (hSingle : source.SingleStart) :
    fault ∈ (source.defects file).map (·.cause) ↔
      ((∀ name, name ∉ Ident.names source.starts) ∧ .missingStart = fault ∨
        ∃ name, (name ∈ Ident.names source.starts ∧ name ∉ Ident.names source.headers) ∧
          .startUndefined name = fault) ∨
      (∃ name, source.Undefined name ∧ .undefinedSymbol name = fault) ∨
        ∃ name, source.Unproductive name ∧ .unproductive name = fault := by
  rw [defects, List.map_append, List.map_append, List.mem_append, List.mem_append,
    mem_map_cause_startDefects hSingle, or_assoc]
  refine or_congr Iff.rfl (or_congr ?_ ?_)
  · exact mem_map_cause_firsts fun name => mem_idents_of_undefined
  · classical exact mem_map_cause_firsts fun name => mem_idents_of_unproductive

namespace Rearranges

/-- Rearranging a text changes none of the defects, wherever they are reported. -/
theorem mem_map_cause_defects_iff (h : source.Rearranges other) (hSingle : source.SingleStart)
    {otherFile : FileName} :
    fault ∈ (source.defects file).map (·.cause) ↔
      fault ∈ (other.defects otherFile).map (·.cause) := by
  have hOther := h.singleStart_iff.1 hSingle
  simp only [Source.mem_map_cause_defects hSingle, Source.mem_map_cause_defects hOther,
    undefined_iff hSingle, undefined_iff hOther, h.mem_starts, h.mem_headers, h.mem_tokens,
    h.mem_references, h.unproductive_iff]

variable {otherFile : FileName} {g g' : Grammar}

/-- Two arrangements of the same constructs write the same grammar, name by name. -/
theorem sameByName (h : source.Rearranges other) (hClashes : ¬ source.Clashes)
    (hWrites : source.Writes file g) (hOther : other.Writes otherFile g') : g.SameByName g' where
  kinds := by
    intro kind name
    rw [hWrites.mem_namesOf_iff, hOther.mem_namesOf_iff, h.mem_idents, h.kind_eq]
  alternatives := by
    intro name
    rw [hWrites.alternativesOf_eq, hOther.alternativesOf_eq]
    exact h.alternatives name
  ranks := by
    intro name
    ext m
    rw [hWrites.rankOf?_eq_some_iff hClashes,
      hOther.rankOf?_eq_some_iff fun hOther => hClashes (h.clashes_iff.2 hOther)]
    simp only [h.derivesWithin_iff]

end Rearranges

end Source

namespace Grammar

variable {text : List Char}

/-- A text is read without defects exactly when its constructs do not clash. -/
theorem exists_ofText_iff {parts : List Part} (file : FileName)
    (hSpell : Part.Spell parts (TokenStream.ofText text).lexemes) :
    (∃ g, ofText file text = .ok g) ↔ ¬ (Part.source parts).Clashes := by
  constructor
  · rintro ⟨g, hRead⟩ hClashes
    rw [ofText_of_clashes hSpell hClashes] at hRead
    cases hRead
  · intro hClashes
    have hGrammar : ∃ g, ofText file text = .ok g ∧ (Part.source parts).Writes file g :=
      exists_ofText_of_not_clashes hSpell hClashes
    exact hGrammar.imp fun g => And.left

/-- A grammar that was read is the one that its text writes. -/
theorem writes_of_ofText {parts : List Part} {file : FileName} {g : Grammar}
    (hSpell : Part.Spell parts (TokenStream.ofText text).lexemes)
    (hRead : ofText file text = .ok g) :
    ¬ (Part.source parts).Clashes ∧ (Part.source parts).Writes file g := by
  obtain ⟨others, hOthers, hClashes, hWrites⟩ := exists_parts_of_ofText hRead
  cases Part.spell_unique (hOthers.trans hSpell.symm)
  exact ⟨hClashes, hWrites⟩

/-- A written grammar passes the check exactly when its text has none of the defects that the check
looks for. -/
theorem exists_check_iff {source : Source} {file : FileName} {g : Grammar}
    (h : source.Writes file g) (hClashes : ¬ source.Clashes) :
    (∃ r, g.check = .ok r) ↔ source.Sound := by
  simp only [check_eq_ok_iff, exists_and_left, exists_eq, and_true, h.report_defects hClashes,
    Source.defects_eq_nil_iff]

/-- The order of the constructs does not matter. Two texts of the same constructs with blank space
between them are accepted or refused together, for the clashes among the constructs, and their
grammars pass the check or fail it together, for whether the constructs are sound. By name the two
grammars have the same symbols of each kind, with the same alternatives and the same ranks. If there
is no second start symbol, the same is wrong with both. -/
theorem ofText_perm {snippets others : List Snippet} {text other : List Char}
    (file otherFile : FileName) (hText : Page snippets text) (hOther : Page others other)
    (h : snippets.Perm others) :
    ((∃ g, ofText file text = .ok g) ↔ ¬ Source.Clashes (snippets.map (·.construct))) ∧
    ((∃ g, ofText file text = .ok g) ↔ ∃ g', ofText otherFile other = .ok g') ∧
    ∀ g g', ofText file text = .ok g → ofText otherFile other = .ok g' →
      ((∃ r, g.check = .ok r) ↔ Source.Sound (snippets.map (·.construct))) ∧
      ((∃ r, g.check = .ok r) ↔ ∃ r, g'.check = .ok r) ∧
      g.SameByName g' ∧
      (Source.SingleStart (snippets.map (·.construct)) →
        ∀ fault, fault ∈ g.faults ↔ fault ∈ g'.faults) := by
  obtain ⟨parts, hSpell, hParts⟩ := hText.exists_parts
  obtain ⟨otherParts, hOtherSpell, hOtherParts⟩ := hOther.exists_parts
  have hSame := hParts.symm.trans ((Source.Rearranges.of_perm (h.map _)).trans hOtherParts)
  refine ⟨?_, ?_, fun g g' hRead hOtherRead => ?_⟩
  · rw [exists_ofText_iff file hSpell, hParts.clashes_iff]
  · rw [exists_ofText_iff file hSpell, exists_ofText_iff otherFile hOtherSpell, hSame.clashes_iff]
  · obtain ⟨hClashes, hWrites⟩ := writes_of_ofText hSpell hRead
    obtain ⟨hOtherClashes, hOtherWrites⟩ := writes_of_ofText hOtherSpell hOtherRead
    refine ⟨?_, ?_, hSame.sameByName hClashes hWrites hOtherWrites, fun hSingle fault => ?_⟩
    · rw [exists_check_iff hWrites hClashes, hParts.sound_iff]
    · rw [exists_check_iff hWrites hClashes, exists_check_iff hOtherWrites hOtherClashes,
        hSame.sound_iff]
    · rw [faults, faults, hWrites.report_defects hClashes,
        hOtherWrites.report_defects hOtherClashes]
      exact hSame.mem_map_cause_defects_iff (hParts.singleStart_iff.1 hSingle)

def declarations : List Snippet := [
  ⟨"%start s".toList, .start ⟨"s", 1⟩, .start 1 ⟨"s", 1⟩, rfl, by decide +kernel⟩,
  ⟨"%token a b".toList, .terminals ⟨⟨"a", 1⟩, [⟨"b", 1⟩]⟩,
    .terminals 1 ⟨⟨"a", 1⟩, [⟨"b", 1⟩]⟩, rfl, by decide +kernel⟩,
  ⟨"s -> t a | a".toList, .rule ⟨"s", 1⟩ ⟨⟨⟨"t", 1⟩, [⟨"a", 1⟩]⟩, [⟨⟨"a", 1⟩, []⟩]⟩,
    .rule ⟨"s", 1⟩ 1 (.more ⟨⟨"t", 1⟩, [⟨"a", 1⟩]⟩ 1 (.last ⟨⟨"a", 1⟩, []⟩)), rfl,
    by decide +kernel⟩,
  ⟨"t -> b u".toList, .rule ⟨"t", 1⟩ ⟨⟨⟨"b", 1⟩, [⟨"u", 1⟩]⟩, []⟩,
    .rule ⟨"t", 1⟩ 1 (.last ⟨⟨"b", 1⟩, [⟨"u", 1⟩]⟩), rfl, by decide +kernel⟩]

theorem ofText_perm_reverse :
    ∃ g g', ofText ⟨""⟩ (Snippet.join declarations) = .ok g ∧
      ofText ⟨""⟩ (Snippet.join declarations.reverse) = .ok g' ∧
      ((∃ r, g.check = .ok r) ↔ ∃ r, g'.check = .ok r) ∧ g.SameByName g' ∧
      ∀ fault, fault ∈ g.faults ↔ fault ∈ g'.faults := by
  obtain ⟨-, hBoth, hSame⟩ := ofText_perm ⟨""⟩ ⟨""⟩ (Page.of_join declarations)
    (Page.of_join declarations.reverse) (List.reverse_perm declarations).symm
  have hOk : (ofText ⟨""⟩ (Snippet.join declarations)).isOk = true := by decide +kernel
  have hSingle : Source.SingleStart (declarations.map (·.construct)) := by decide +kernel
  cases hRead : ofText ⟨""⟩ (Snippet.join declarations) with
  | error defects =>
      rw [hRead] at hOk
      cases hOk
  | ok g =>
      obtain ⟨g', hOther⟩ := hBoth.1 ⟨g, hRead⟩
      obtain ⟨-, hCheck, hNames, hFaults⟩ := hSame g g' hRead hOther
      exact ⟨g, g', rfl, hOther, hCheck, hNames, hFaults hSingle⟩

end Grammar

end GrammarCheck
