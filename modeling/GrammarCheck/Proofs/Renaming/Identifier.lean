import GrammarCheck.Proofs.Grammar.Verified
import GrammarCheck.Proofs.Renaming.Sampling
import GrammarCheck.Proofs.Token.Division
import Mathlib.Logic.Equiv.Basic

/-! Identifiers are only told apart. A text in which the identifiers are exchanged for others, and
different ones for different ones, spells the same grammar under the other names; the sentences of
the two are the same word for word. -/

namespace GrammarCheck

def isIdentifier (name : String) : Bool :=
  match name.toList with
  | [] => false
  | c :: cs => isNameStart c && cs.all isNameChar && decide ((c :: cs).length ≤ maxIdentifier)

abbrev Identifier := { name : String // isIdentifier name = true }

/-- Other identifiers for identifiers. A name that cannot be written stays as it is. -/
def respell (r : Identifier ↪ Identifier) : String ↪ String where
  toFun := fun name => if h : isIdentifier name = true then r ⟨name, h⟩ else name
  inj' := by
    intro name other hSame
    dsimp only at hSame
    split at hSame
    case isTrue h =>
      split at hSame
      case isTrue hOther => exact congrArg Subtype.val (r.injective (Subtype.ext hSame))
      case isFalse hOther => exact absurd (hSame ▸ (r ⟨name, h⟩).2) hOther
    case isFalse h =>
      split at hSame
      case isTrue hOther => exact absurd (hSame ▸ (r ⟨other, hOther⟩).2) h
      case isFalse hOther => exact hSame

theorem respell_identifier (r : Identifier ↪ Identifier) (name : Identifier) :
    respell r name = r name :=
  dif_pos name.2

/-- A token that is read as an identifier can be written as one. -/
theorem Token.Spelled.isIdentifier {name : String} {span rest : List Char}
    (h : Spelled (.identifier name) span rest) : isIdentifier name = true := by
  cases h with
  | identifier hFirst hName hLength =>
      simp only [GrammarCheck.isIdentifier, String.toList_ofList, hFirst, Bool.true_and,
        Bool.and_eq_true, List.all_eq_true, decide_eq_true_eq]
      exact ⟨fun c hMem => hName.inside c (List.mem_cons_of_mem _ hMem), hLength⟩

/-- The identifiers that are read can be written. -/
theorem TokenStream.isIdentifier_of_mem {text : List Char} {name : String} {line : Nat}
    (h : ⟨.identifier name, line⟩ ∈ (ofText text).lexemes) : isIdentifier name = true := by
  obtain ⟨division, lexemes, rfl, hDivides⟩ := exists_divides [] text
  have hRead : (ofText division.text).lexemes = lexemes :=
    congrArg TokenStream.lexemes hDivides.readFrom_eq
  rw [hRead] at h
  have hToken : Token.identifier name ∈ division.pieces.map (·.token) := by
    rw [hDivides.tokens_eq, List.mem_filter]
    exact ⟨List.mem_map_of_mem h, by simp⟩
  obtain ⟨piece, hPiece, hSame⟩ := List.mem_map.1 hToken
  obtain ⟨rest, hSpelled⟩ := hDivides.spelled piece hPiece
  rw [hSame] at hSpelled
  exact hSpelled.isIdentifier

theorem RuleBody.lexeme_mem_lexemes {b : RuleBody} {alternative : Alternative} {x : Ident}
    (h : alternative ∈ b.alternatives.toList) (hMem : x ∈ alternative.toList) :
    x.lexeme ∈ b.lexemes := by
  induction b with
  | last alternative =>
      cases List.mem_singleton.1 h
      exact List.mem_map_of_mem hMem
  | more alternative pipe others ih =>
      rcases List.mem_cons.1 h with rfl | hOthers
      · exact List.mem_append_left _ (List.mem_map_of_mem hMem)
      · exact List.mem_append_right _ (List.mem_cons_of_mem _ (ih hOthers))

/-- The names of a construct are among the lexemes that spell it. -/
theorem Part.lexeme_mem_lexemes {part : Part} {c : Construct} (h : part.construct? = some c)
    {x : Ident} (hMem : x ∈ c.idents) : x.lexeme ∈ part.lexemes := by
  obtain ⟨o, hOccurrence, rfl⟩ := List.mem_map.1 hMem
  cases part with
  | blank line => cases h
  | start line symbol =>
      cases h
      rw [List.mem_singleton.1 hOccurrence]
      exact List.mem_cons_of_mem _ List.mem_cons_self
  | terminals line names =>
      cases h
      obtain ⟨x, hName, rfl⟩ := List.mem_map.1 hOccurrence
      exact List.mem_cons_of_mem _ (List.mem_map_of_mem hName)
  | rule header arrow body =>
      cases h
      rcases List.mem_cons.1 hOccurrence with rfl | hBody
      · exact List.mem_cons_self
      · obtain ⟨x, hName, rfl⟩ := List.mem_map.1 hBody
        obtain ⟨alternative, hAlternative, hSymbol⟩ := List.mem_flatMap.1 hName
        exact List.mem_cons_of_mem _ (List.mem_cons_of_mem _
          (RuleBody.lexeme_mem_lexemes hAlternative hSymbol))

namespace Grammar

/-- The names of a grammar that was read are identifiers. -/
theorem isIdentifier_of_ofText {file : FileName} {text : List Char} {g : Grammar}
    (h : ofText file text = .ok g) :
    ∀ id s, g.symbols.symbol? id = some s → isIdentifier s.name = true := by
  intro id s hSymbol
  obtain ⟨parts, hSpell, -, hWrites⟩ := exists_parts_of_ofText h
  have hMem : s ∈ g.symbols.symbols.toList := by
    rw [Array.mem_toList_iff]
    exact Array.mem_of_getElem? hSymbol
  rw [hWrites.symbols] at hMem
  obtain ⟨x, hFirst, rfl⟩ := List.mem_map.1 hMem
  obtain ⟨y, hIdent, hName⟩ := List.mem_map.1 (Source.mem_idents_of_mem_firsts hFirst)
  obtain ⟨c, hConstruct, hWritten⟩ := List.mem_flatMap.1 hIdent
  obtain ⟨part, hPart, hSome⟩ := List.mem_filterMap.1 hConstruct
  have hLexeme : y.lexeme ∈ (TokenStream.ofText text).lexemes := by
    rw [← hSpell]
    exact List.mem_flatMap.2 ⟨part, hPart, Part.lexeme_mem_lexemes hSome hWritten⟩
  have hIdentifier := TokenStream.isIdentifier_of_mem hLexeme
  rwa [hName] at hIdentifier

/-- Two texts with the same tokens on the same lines, but for their identifiers, are both refused or
both accepted. The defects are those of the other names, entry by entry. The grammars are the same
under the other names, with the same ranks and the defects of the other names. And under the same
draws sampling from a name gives the same tree, in which each word is the other name, or else the
error about the other name. -/
theorem ofText_rename (file : FileName) (r : Identifier ↪ Identifier) {text other : List Char}
    (h : TokenStream.ofText other = (TokenStream.ofText text).rename (respell r)) :
    (∀ defects, ofText file text = .error defects →
      ofText file other = .error (defects.map (Defect.rename (respell r)))) ∧
    ∀ g, ofText file text = .ok g →
      ofText file other = .ok (g.rename (respell r)) ∧
      (∀ id s, g.symbols.symbol? id = some s → isIdentifier s.name = true) ∧
      Ranking.ofTable (g.rename (respell r)).symbols = Ranking.ofTable g.symbols ∧
      (g.rename (respell r)).report.defects = g.report.defects.map (Defect.rename (respell r)) ∧
      ∀ (σ : Type) (maxDepth : Nat) (chooser : Chooser σ) (name : Identifier) (state : σ),
        ((g.rename (respell r)).sampler maxDepth).sampleFrom chooser (r name) state =
          mapBoth (SamplingError.rename (respell r)) id
            ((g.sampler maxDepth).sampleFrom chooser name state) ∧
        ∀ tree after, (g.sampler maxDepth).sampleFrom chooser name state = .ok (tree, after) →
          tree.sentence (g.rename (respell r)).symbols =
            " ".intercalate (tree.leaves.map fun leaf => respell r (g.symbols.name leaf)) := by
  have hRead : ofText file other =
      mapBoth (List.map (Defect.rename (respell r))) (rename (respell r)) (ofText file text) := by
    rw [ofText, h]
    exact ofStream_rename (respell r) file (TokenStream.ofText text)
  refine ⟨?_, ?_⟩
  · intro defects hError
    rw [hRead, hError]
    rfl
  · intro g hOk
    have hReport := (linked_of_ofText hOk).report_rename (respell r)
    have hRanking : Ranking.ofTable (g.rename (respell r)).symbols = Ranking.ofTable g.symbols :=
      Ranking.ofTable_rename (respell r) g.symbols
    refine ⟨?_, isIdentifier_of_ofText hOk, hRanking, congrArg Report.defects hReport, ?_⟩
    · rw [hRead, hOk]
      rfl
    · intro σ maxDepth chooser name state
      refine ⟨?_, fun tree after hTree => Sampler.sentence_rename (respell r) hTree⟩
      have hSampler : (g.rename (respell r)).sampler maxDepth =
          (g.sampler maxDepth).rename (respell r) := by
        rw [sampler, hRanking]
        rfl
      rw [hSampler, ← respell_identifier r name]
      exact Sampler.sampleFrom_rename (respell r) chooser name state

/-- The identifiers `a` and `ab` exchanged, one of which begins with the other. -/
def exchange : Identifier ↪ Identifier :=
  (Equiv.swap ⟨"a", by decide⟩ ⟨"ab", by decide⟩).toEmbedding

/-- Exchanging a name with one that it begins changes nothing else, neither in the tokens nor in the
grammar. -/
theorem ofText_rename_exchange :
    TokenStream.ofText "%token ab\n%start a\na -> ab | a ab".toList =
        (TokenStream.ofText "%token a\n%start ab\nab -> a | ab a".toList).rename
          (respell exchange) ∧
      ∃ g, ofText ⟨""⟩ "%token a\n%start ab\nab -> a | ab a".toList = .ok g ∧
        ofText ⟨""⟩ "%token ab\n%start a\na -> ab | a ab".toList =
          .ok (g.rename (respell exchange)) := by
  have hTokens : TokenStream.ofText "%token ab\n%start a\na -> ab | a ab".toList =
      (TokenStream.ofText "%token a\n%start ab\nab -> a | ab a".toList).rename
        (respell exchange) := by
    decide +kernel
  have hOk : (ofText ⟨""⟩ "%token a\n%start ab\nab -> a | ab a".toList).isOk = true := by
    decide +kernel
  cases hRead : ofText ⟨""⟩ "%token a\n%start ab\nab -> a | ab a".toList with
  | error defects =>
      rw [hRead] at hOk
      cases hOk
  | ok g => exact ⟨hTokens, g, rfl, ((ofText_rename ⟨""⟩ exchange hTokens).2 g hRead).1⟩

end Grammar

end GrammarCheck
