import GrammarCheck.Proofs.Source.Arrangement
import GrammarCheck.Proofs.Token.Space

/-! Texts that are put together from the texts of single constructs. Whatever blank space stands
between them, such a text consists of these constructs, apart from the lines on which they stand. -/

namespace GrammarCheck

instance (parts : List Part) (lexemes : List Lexeme) : Decidable (Part.Spell parts lexemes) :=
  inferInstanceAs (Decidable (_ = _))

/-- A construct with a text that spells it and nothing else. -/
structure Snippet where
  text : List Char
  construct : Construct
  spelled : ∃ part : Part, part.construct? = some construct ∧
    Part.Spell [part] (TokenStream.ofText text).lexemes

/-- The texts of some snippets in order, with a blank line between any two of them. -/
def Snippet.join (snippets : List Snippet) : List Char :=
  ['\n', '\n'].intercalate (snippets.map (·.text))

/-- The texts of some snippets in order, with blank space between any two of them. -/
inductive Page : List Snippet → List Char → Prop where
  | nil : Page [] []
  | single (snippet : Snippet) : Page [snippet] snippet.text
  | cons (snippet : Snippet) {snippets : List Snippet} {space text : List Char}
      (hSpace : BlankSpace space) (hText : Page snippets text) :
      Page (snippet :: snippets) (snippet.text ++ space ++ text)

namespace Respelling

theorem lexeme_unplaced (l : Lexeme) : unplaced.lexeme l = ⟨l.token, 0⟩ := by
  obtain ⟨token, line⟩ := l
  cases token <;> rfl

/-- Lexemes with the same tokens are the same wherever they stand. -/
theorem map_lexeme_unplaced_eq {lexemes others : List Lexeme}
    (h : lexemes.map (·.token) = others.map (·.token)) :
    lexemes.map unplaced.lexeme = others.map unplaced.lexeme := by
  have hWords (lexemes : List Lexeme) :
      lexemes.map unplaced.lexeme = (lexemes.map (·.token)).map fun token => ⟨token, 0⟩ := by
    rw [List.map_map]
    exact List.map_congr_left fun l _ => lexeme_unplaced l
  rw [hWords, hWords, h]

end Respelling

namespace Step

def construct? : Step → Option Construct
  | .complete construct => some construct
  | _ => none

/-- A step completes the same construct in another spelling. -/
theorem construct?_set (v : Respelling) (tail : List Lexeme) (step : Step) :
    (step.set v tail).construct? = step.construct?.map v.construct := by
  cases step <;> rfl

/-- Some steps complete the same constructs in another spelling. -/
theorem constructs_map_set (v : Respelling) (tail : List Lexeme) (steps : List Step) :
    (steps.map (set v tail)).filterMap construct? =
      (steps.filterMap construct?).map v.construct := by
  rw [List.filterMap_map, List.map_filterMap]
  exact List.filterMap_congr fun step _ => construct?_set v tail step

/-- No setting makes a step a rejection, nor hides one. -/
theorem accepting_map_set {v : Respelling} {tail : List Lexeme} {steps : List Step} :
    Accepting (steps.map (set v tail)) ↔ Accepting steps := by
  constructor
  · intro h expected found hMem
    exact h expected _ (List.mem_map_of_mem hMem)
  · intro h expected found hMem
    obtain ⟨step, hStep, hSet⟩ := List.mem_map.1 hMem
    cases step with
    | reject other lexeme => exact h other lexeme hStep
    | _ => cases hSet

end Step

namespace Part

/-- The steps of a part end its construct. -/
theorem constructs_steps (part : Part) :
    part.steps.filterMap Step.construct? = part.construct?.toList := by
  cases part with
  | blank line => rfl
  | start line symbol => rfl
  | terminals line names =>
      have hNames : (names.toList.flatMap fun x => [.terminal x, .shift x.lexeme]).filterMap
          Step.construct? = [] := by
        rw [List.filterMap_flatMap]
        exact List.flatMap_eq_nil_iff.2 fun x _ => rfl
      rw [steps, List.cons_append, List.filterMap_cons_none rfl, List.filterMap_append, hNames]
      rfl
  | rule header arrow body =>
      have hBody : body.steps.filterMap Step.construct? = [] :=
        List.filterMap_eq_nil_iff.2
          (RuleBody.forall_mem_steps (fun _ => rfl) fun _ => rfl)
      rw [steps, List.cons_append, List.cons_append, List.cons_append,
        List.filterMap_cons_none rfl, List.filterMap_cons_none rfl, List.filterMap_cons_none rfl,
        List.filterMap_append, hBody]
      rfl

/-- The steps of some parts complete the constructs among them. -/
theorem constructs_source (parts : List Part) :
    (parts.flatMap steps).filterMap Step.construct? = source parts := by
  rw [List.filterMap_flatMap, source, List.filterMap_eq_flatMap_toList]
  exact List.flatMap_congr fun part _ => part.constructs_steps

theorem words_blanks (n : Nat) :
    ((List.replicate n (blank 0)).flatMap lexemes).map (·.token) = List.replicate n .blankLine := by
  induction n with
  | zero => rfl
  | succ n ih =>
      rw [List.replicate_succ, List.flatMap_cons, List.map_append, ih]
      rfl

theorem source_blanks_append (n : Nat) (parts : List Part) :
    source (List.replicate n (blank 0) ++ parts) = source parts := by
  rw [source, List.filterMap_append, List.filterMap_replicate_of_none rfl, List.nil_append, source]

/-- Lexemes with the tokens of some parts spell the same constructs on their own lines. Both are
read in the same steps, so the one list of steps is accepting as the other is. -/
theorem exists_spell_of_words {parts : List Part} {lexemes : List Lexeme}
    (h : (parts.flatMap Part.lexemes).map (·.token) = lexemes.map (·.token)) :
    ∃ others, Spell others lexemes ∧ (source parts).Rearranges (source others) := by
  have hSteps : (parts.flatMap steps).map (Step.set .unplaced []) =
      (Step.ofLexemes lexemes).map (Step.set .unplaced []) := by
    rw [← Step.ofLexemes_flatMap, ← Step.ofLexemes_map, ← Step.ofLexemes_map,
      Respelling.map_lexeme_unplaced_eq h]
  -- steps that follow from each other are no rejections
  have hAccepting : Step.Accepting (parts.flatMap steps) := by
    intro expected found hMem
    have hFollow : Step.AllFollow [] (parts.flatMap steps) := allFollow_source parts
    obtain ⟨above, below, hSplit⟩ := List.append_of_mem hMem
    rw [hSplit, Step.allFollow_append] at hFollow
    exact hFollow.2.1
  obtain ⟨others, hSpell⟩ := Step.exists_parts_of_accepting
    (Step.accepting_map_set.1 (hSteps ▸ Step.accepting_map_set.2 hAccepting))
  refine ⟨others, hSpell, ?_⟩
  have hConstructs := congrArg (List.filterMap Step.construct?) hSteps
  rw [Step.ofLexemes_of_spell hSpell, Step.constructs_map_set, Step.constructs_map_set,
    constructs_source, constructs_source] at hConstructs
  exact .of_eq hConstructs

end Part

namespace Page

variable {snippets : List Snippet} {text : List Char}

/-- Texts that are joined by blank lines make a page. -/
theorem of_join (snippets : List Snippet) : Page snippets (Snippet.join snippets) := by
  induction snippets with
  | nil => exact .nil
  | cons snippet snippets ih =>
      cases snippets with
      | nil =>
          rw [Snippet.join, List.map_singleton, List.intercalate_singleton]
          exact .single snippet
      | cons next snippets =>
          rw [Snippet.join, List.map_cons, List.map_cons, List.intercalate_cons_cons]
          exact .cons snippet blankSpace_newlines ih

/-- A page has the tokens of its constructs, and blank lines between them. The induction is on the
page. -/
theorem exists_words (h : Page snippets text) :
    ∃ parts, (parts.flatMap Part.lexemes).map (·.token) = (TokenStream.ofText text).words ∧
      Part.source parts = snippets.map (·.construct) := by
  induction h with
  | nil =>
      refine ⟨[], ?_, rfl⟩
      rw [TokenStream.ofText, TokenStream.readFrom_of_rest_nil rfl]
      rfl
  | single snippet =>
      obtain ⟨part, hConstruct, hSpell⟩ := snippet.spelled
      refine ⟨[part], congrArg (List.map (·.token)) hSpell, ?_⟩
      rw [Part.source, List.filterMap_cons_some hConstruct]
      rfl
  | @cons snippet snippets space text hSpace hText ih =>
      obtain ⟨part, hConstruct, hSpell⟩ := snippet.spelled
      obtain ⟨parts, hTokens, hSource⟩ := ih
      obtain ⟨n, hWords⟩ := TokenStream.exists_words_ofText snippet.text hSpace text
      refine ⟨part :: (List.replicate n (.blank 0) ++ parts), ?_, ?_⟩
      · rw [hWords, ← hTokens, ← List.singleton_append, List.flatMap_append, List.flatMap_append,
          List.map_append, List.map_append, Part.words_blanks, hSpell, TokenStream.words,
          List.append_assoc]
      · rw [Part.source, List.filterMap_cons_some hConstruct, ← Part.source,
          Part.source_blanks_append, hSource, List.map_cons]

/-- A page consists of its constructs, which may stand on other lines than in their own texts. -/
theorem exists_parts (h : Page snippets text) :
    ∃ parts, Part.Spell parts (TokenStream.ofText text).lexemes ∧
      Source.Rearranges (snippets.map (·.construct)) (Part.source parts) := by
  obtain ⟨parts, hWords, hSource⟩ := h.exists_words
  rw [← hSource]
  exact Part.exists_spell_of_words hWords

end Page

end GrammarCheck
