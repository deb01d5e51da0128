import GrammarCheck.Step.Passage
import Mathlib.Data.List.Basic

/-! Texts as they should be: lists of blank lines and constructs, with the line of every lexeme. No
list of lexemes spells two of them. -/

namespace GrammarCheck

/-- What stands to the right of the arrow of a rule, with the lines of the pipes. -/
inductive RuleBody where
  | last (alternative : Alternative)
  | more (alternative : Alternative) (pipe : Nat) (others : RuleBody)

namespace RuleBody

def alternatives : RuleBody → OneOrMore Alternative
  | .last alternative => ⟨alternative, []⟩
  | .more alternative _ others => .cons alternative others.alternatives

def lexemes : RuleBody → List Lexeme
  | .last alternative => alternative.toList.map Ident.lexeme
  | .more alternative pipe others =>
      alternative.toList.map Ident.lexeme ++ ⟨.pipe, pipe⟩ :: others.lexemes

/-- The steps that read some names in an alternative. -/
def stepsOf (names : List Ident) : List Step :=
  names.flatMap fun x => [.mention x, .shift x.lexeme]

def steps : RuleBody → List Step
  | .last alternative => stepsOf alternative.toList
  | .more alternative pipe others =>
      stepsOf alternative.toList ++ .shift ⟨.pipe, pipe⟩ :: others.steps

section

variable {p : Step → Prop} (hMention : ∀ x, p (.mention x)) (hShift : ∀ l, p (.shift l))
include hMention hShift

/-- Names are mentioned and left behind in an alternative, and nothing else happens. -/
theorem forall_mem_stepsOf (names : List Ident) : ∀ step ∈ stepsOf names, p step := by
  intro step hMem
  obtain ⟨x, -, hStep⟩ := List.mem_flatMap.1 hMem
  rcases List.mem_pair.1 hStep with rfl | rfl
  · exact hMention x
  · exact hShift x.lexeme

theorem forall_mem_steps {b : RuleBody} : ∀ step ∈ b.steps, p step := by
  induction b with
  | last alternative => exact forall_mem_stepsOf hMention hShift alternative.toList
  | more alternative pipe others ih =>
      intro step hMem
      rcases List.mem_append.1 hMem with hFirst | hOthers
      · exact forall_mem_stepsOf hMention hShift alternative.toList step hFirst
      · rcases List.mem_cons.1 hOthers with rfl | hLater
        · exact hShift _
        · exact ih step hLater

end

end RuleBody

inductive Part where
  | blank (line : Nat)
  | start (line : Nat) (symbol : Ident)
  | terminals (line : Nat) (names : OneOrMore Ident)
  | rule (header : Ident) (arrow : Nat) (body : RuleBody)

namespace Part

def lexemes : Part → List Lexeme
  | .blank line => [⟨.blankLine, line⟩]
  | .start line symbol => [⟨.startDirective, line⟩, symbol.lexeme]
  | .terminals line names => ⟨.tokenDirective, line⟩ :: names.toList.map Ident.lexeme
  | .rule header arrow body => header.lexeme :: ⟨.arrow, arrow⟩ :: body.lexemes

def construct? : Part → Option Construct
  | .blank _ => none
  | .start _ symbol => some (.start symbol)
  | .terminals _ names => some (.terminals names)
  | .rule header _ body => some (.rule header body.alternatives)

def steps : Part → List Step
  | .blank line => [.shift ⟨.blankLine, line⟩]
  | .start line symbol =>
      [.shift ⟨.startDirective, line⟩, .start symbol, .shift symbol.lexeme,
        .complete (.start symbol)]
  | .terminals line names =>
      .shift ⟨.tokenDirective, line⟩ ::
        (names.toList.flatMap fun x => [.terminal x, .shift x.lexeme]) ++
          [.complete (.terminals names)]
  | .rule header arrow body =>
      .header header :: .shift header.lexeme :: .shift ⟨.arrow, arrow⟩ :: body.steps ++
        [.complete (.rule header body.alternatives)]

end Part

def Part.Spell (parts : List Part) (lexemes : List Lexeme) : Prop :=
  parts.flatMap Part.lexemes = lexemes

namespace Passage

/-- Where a construct may end, neither an arrow comes next nor a name that belongs to the construct
before. -/
theorem arrowNext_of_atBoundary {lexemes : List Lexeme} (h : atBoundary lexemes = true) :
    arrowNext lexemes = false := by
  unfold atBoundary at h
  split at h <;> first | rfl | cases h

theorem names_of_atBoundary {lexemes : List Lexeme} (h : atBoundary lexemes = true) :
    names lexemes = ([], lexemes) := by
  unfold atBoundary at h
  split at h
  case h_5 name line rest => rw [names, if_pos h]
  all_goals first | rfl | cases h

/-- Names are read up to the first lexeme that is none. -/
theorem names_append {rest : List Lexeme} (hArrow : arrowNext rest = false)
    (hNames : names rest = ([], rest)) (xs : List Ident) :
    names (xs.map Ident.lexeme ++ rest) = (xs, rest) := by
  induction xs with
  | nil => exact hNames
  | cons x xs ih =>
      have hNext : arrowNext (xs.map Ident.lexeme ++ rest) = false := by
        cases xs with
        | nil => exact hArrow
        | cons y ys => rfl
      rw [List.map_cons, List.cons_append, Ident.lexeme, names, hNext]
      simp [ih]

theorem names_pipe (line : Nat) (rest : List Lexeme) :
    names (⟨.pipe, line⟩ :: rest) = ([], ⟨.pipe, line⟩ :: rest) := rfl

/-- The names at the front and what follows them are all the lexemes. -/
theorem map_lexeme_names (lexemes : List Lexeme) :
    (names lexemes).1.map Ident.lexeme ++ (names lexemes).2 = lexemes := by
  fun_induction names lexemes with
  | case1 => rfl
  | case2 name line rest _ more ih => rw [List.map_cons, List.cons_append, ih, Ident.lexeme]
  | case3 => rfl

/-- An alternative with a pipe behind it is read, and then the others. -/
theorem body_of_pipe {lexemes rest : List Lexeme} {alternative : Alternative} {line : Nat}
    (h : names lexemes = (alternative.toList, ⟨.pipe, line⟩ :: rest)) :
    body lexemes = ⟨RuleBody.stepsOf alternative.toList ++ .shift ⟨.pipe, line⟩ :: (body rest).steps,
      (body rest).alternatives.map (.cons alternative), (body rest).rest⟩ := by
  rw [body]
  generalize names lexemes = run at h
  subst h
  rfl

/-- An alternative without a pipe behind it is the last one. -/
theorem body_of_last {lexemes rest : List Lexeme} {alternative : Alternative}
    (h : names lexemes = (alternative.toList, rest))
    (hPipe : ∀ line others, rest ≠ ⟨.pipe, line⟩ :: others) :
    body lexemes = ⟨RuleBody.stepsOf alternative.toList, some ⟨alternative, []⟩, rest⟩ := by
  rw [body]
  generalize names lexemes = run at h
  subst h
  -- the rest begins with no pipe, so the second branch of the match is the one taken
  simp only [OneOrMore.toList, OneOrMore.ofList?, RuleBody.stepsOf]

end Passage

end GrammarCheck
