import GrammarCheck.Proofs.Step.Course

/-! What reading leaves behind. The lexemes that the steps shift, malformed constructs included, are
those of the text, each of them once and in order. -/

namespace GrammarCheck

namespace Step

def shifted? : Step → Option Lexeme
  | .shift l => some l
  | _ => none

def shifted (steps : List Step) : List Lexeme := steps.filterMap shifted?

theorem shifted_append (steps others : List Step) :
    shifted (steps ++ others) = shifted steps ++ shifted others :=
  List.filterMap_append

/-- Names that are each read in one step and then left behind. -/
theorem shifted_names {read : Ident → Step} (hRead : ∀ x, (read x).shifted? = none)
    (names : List Ident) :
    shifted (names.flatMap fun x => [read x, .shift x.lexeme]) = names.map Ident.lexeme := by
  induction names with
  | nil => rfl
  | cons x names ih =>
      have hOne : shifted [read x, .shift x.lexeme] = [x.lexeme] := by
        rw [shifted, List.filterMap_cons_none (hRead x)]
        rfl
      rw [List.flatMap_cons, shifted_append, hOne, ih]
      rfl

end Step

namespace Passage

/-- Whether a passage cuts the lexemes in two: those that it has left behind, and those still
ahead. -/
def Splits (lexemes : List Lexeme) (passage : Passage) : Prop :=
  Step.shifted passage.steps ++ passage.rest = lexemes

variable {lexemes : List Lexeme} {passage : Passage}

/-- A passage that goes on where some steps have led. -/
theorem Splits.after (h : Splits lexemes passage) (steps : List Step) :
    Splits (Step.shifted steps ++ lexemes) (passage.after steps) := by
  rw [Splits, Passage.after, Step.shifted_append, List.append_assoc, h]

/-- Skipping leaves everything up to the boundary behind. -/
theorem splits_skip (lexemes : List Lexeme) : Splits lexemes (skip lexemes) := by
  fun_induction skip lexemes with
  | case1 => rfl
  | case2 => rfl
  | case3 l rest _ ih => exact ih.after [.shift l]

/-- Rejecting leaves nothing behind that skipping would not. -/
theorem splits_rejectHere (expected : Expectation) (lexemes : List Lexeme) :
    Splits lexemes (rejectHere expected lexemes) :=
  (splits_skip lexemes).after [.reject expected lexemes.head?]

/-- Ending a construct well leaves nothing behind. -/
theorem splits_finish (construct : Construct) (expected : Expectation) (lexemes : List Lexeme) :
    Splits lexemes (finish construct expected lexemes) := by
  unfold finish
  split
  · rfl
  · exact splits_rejectHere expected lexemes

/-- Alternatives leave their names and pipes behind, up to the place where one has no symbol. -/
theorem shifted_body (lexemes : List Lexeme) :
    Step.shifted (body lexemes).steps ++ (body lexemes).rest = lexemes := by
  fun_induction body lexemes with
  | case1 lexemes run hNone =>
      have hEmpty := names_of_fst_eq_nil (OneOrMore.eq_nil_of_ofList? hNone)
      simp [run, hEmpty, Step.shifted, Step.shifted?]
  | case2 lexemes run symbols _ steps line rest hRest more ih =>
      have hNames : Step.shifted steps = run.1.map Ident.lexeme :=
        Step.shifted_names (fun _ => rfl) run.1
      have hMore : Step.shifted (.shift ⟨.pipe, line⟩ :: more.steps) ++ more.rest = run.2 := by
        rw [hRest]
        exact congrArg (⟨.pipe, line⟩ :: ·) ih
      rw [Step.shifted_append, hNames, List.append_assoc, hMore]
      exact map_lexeme_names lexemes
  | case3 lexemes run symbols _ steps _ =>
      have hNames : Step.shifted steps = run.1.map Ident.lexeme :=
        Step.shifted_names (fun _ => rfl) run.1
      rw [hNames]
      exact map_lexeme_names lexemes

/-- A rule leaves its lexemes behind, up to the boundary where reading goes on. -/
theorem splits_rule (header : Ident) (lexemes : List Lexeme) :
    Splits lexemes (rule header lexemes) := by
  have hBody := shifted_body lexemes
  have hAfter {passage : Passage} (h : Splits (body lexemes).rest passage) :
      Splits lexemes (passage.after (body lexemes).steps) := by
    have hWhole := h.after (body lexemes).steps
    rwa [hBody] at hWhole
  simp only [rule]
  split
  · exact hAfter (splits_skip _)
  · exact hAfter (splits_finish _ _ _)

theorem splits_terminals (lexemes : List Lexeme) : Splits lexemes (terminals lexemes) := by
  simp only [terminals]
  split
  case h_1 hNone =>
    rw [names_of_fst_eq_nil (OneOrMore.eq_nil_of_ofList? hNone)]
    exact splits_rejectHere _ lexemes
  case h_2 declared hSome =>
    have hDeclared := (splits_finish (.terminals declared) .terminal (names lexemes).2).after
      ((names lexemes).1.flatMap fun x => [.terminal x, .shift x.lexeme])
    rwa [Step.shifted_names (fun _ => rfl), map_lexeme_names] at hDeclared

theorem splits_startSymbol (lexemes : List Lexeme) : Splits lexemes (startSymbol lexemes) := by
  unfold startSymbol
  split
  case h_1 name line rest => exact (splits_finish _ _ rest).after [_, .shift _]
  case h_2 => exact splits_rejectHere _ lexemes

/-- One construct, well-formed or not. -/
theorem splits_one (l : Lexeme) (lexemes : List Lexeme) :
    Splits (l :: lexemes) (one l lexemes) := by
  unfold one
  split
  · rfl
  · split
    · exact (splits_rule _ _).after [_, .shift l, .shift _]
    · exact (splits_skip lexemes).after [_, .shift l]
  · exact (splits_terminals lexemes).after [.shift l]
  · exact (splits_startSymbol lexemes).after [.shift l]
  · exact (splits_skip lexemes).after [_, .shift l]

end Passage

/-- Reading a whole text leaves every lexeme of it behind, whatever is wrong with the text. -/
theorem Step.shifted_ofLexemes (lexemes : List Lexeme) : shifted (ofLexemes lexemes) = lexemes := by
  fun_induction ofLexemes lexemes with
  | case1 => rfl
  | case2 l lexemes passage ih =>
      rw [shifted_append, ih]
      exact Passage.splits_one l lexemes

end GrammarCheck
