import GrammarCheck.Step.Basic

/-! Reading a grammar text as a sequence of steps. The steps do not depend on what the names mean,
so they can be found from the tokens alone. A construct that goes wrong is rejected once and
passed over up to the next place where a construct can begin. -/

namespace GrammarCheck

/-- Some steps, and the lexemes that are left after them. -/
structure Passage where
  steps : List Step
  rest : List Lexeme

def Passage.after (steps : List Step) (passage : Passage) : Passage :=
  ⟨steps ++ passage.steps, passage.rest⟩

namespace Passage

def arrowNext : List Lexeme → Bool
  | ⟨.arrow, _⟩ :: _ => true
  | _ => false

/-- Whether a construct may end here: at the end of the text, at a blank line, at a directive, or at
a name that heads a rule. -/
def atBoundary : List Lexeme → Bool
  | [] => true
  | ⟨.blankLine, _⟩ :: _ => true
  | ⟨.startDirective, _⟩ :: _ => true
  | ⟨.tokenDirective, _⟩ :: _ => true
  | ⟨.identifier _, _⟩ :: rest => arrowNext rest
  | _ => false

def skip : List Lexeme → Passage
  | [] => ⟨[], []⟩
  | l :: rest =>
      if atBoundary (l :: rest) then ⟨[], l :: rest⟩
      else (skip rest).after [.shift l]

/-- Rejects a construct at the next lexeme and passes over the remains of it. -/
def rejectHere (expected : Expectation) (lexemes : List Lexeme) : Passage :=
  (skip lexemes).after [.reject expected lexemes.head?]

/-- Ends a construct, provided that it may end here. -/
def finish (construct : Construct) (expected : Expectation) (lexemes : List Lexeme) : Passage :=
  if atBoundary lexemes then ⟨[.complete construct], lexemes⟩ else rejectHere expected lexemes

/-- The names at the front of some lexemes, without a name that heads a rule. -/
def names : List Lexeme → List Ident × List Lexeme
  | ⟨.identifier name, line⟩ :: rest =>
      if arrowNext rest then ([], ⟨.identifier name, line⟩ :: rest)
      else
        let more := names rest
        (⟨name, line⟩ :: more.1, more.2)
  | rest => ([], rest)

/-- The alternatives of a rule with the steps that read them. They are missing when an alternative
has no symbol, which is rejected. -/
structure Body where
  steps : List Step
  alternatives : Option (OneOrMore Alternative)
  rest : List Lexeme

/-- Reading names leaves no more lexemes than there were. -/
theorem length_names_le (lexemes : List Lexeme) : (names lexemes).2.length ≤ lexemes.length := by
  fun_induction names lexemes with
  | case1 => simp
  | case2 name line rest _ more ih => simp only [List.length_cons, more]; omega
  | case3 => simp

def body (lexemes : List Lexeme) : Body :=
  let run := names lexemes
  match OneOrMore.ofList? run.1 with
  | none => ⟨[.reject .symbol run.2.head?], none, run.2⟩
  | some symbols =>
      let steps := run.1.flatMap fun x => [.mention x, .shift x.lexeme]
      match _hRest : run.2 with
      | ⟨.pipe, line⟩ :: rest =>
          let more := body rest
          ⟨steps ++ .shift ⟨.pipe, line⟩ :: more.steps,
            more.alternatives.map (.cons symbols), more.rest⟩
      | rest => ⟨steps, some ⟨symbols, []⟩, rest⟩
termination_by lexemes.length
decreasing_by
  have hNames := length_names_le lexemes
  have hLength := congrArg List.length _hRest
  simp only [List.length_cons, run] at hLength
  omega

def rule (header : Ident) (lexemes : List Lexeme) : Passage :=
  let read := body lexemes
  match read.alternatives with
  | none => (skip read.rest).after read.steps
  | some alternatives => (finish (.rule header alternatives) .ruleEnd read.rest).after read.steps

def terminals (lexemes : List Lexeme) : Passage :=
  let run := names lexemes
  match OneOrMore.ofList? run.1 with
  | none => rejectHere .terminalAfterDirective run.2
  | some declared => (finish (.terminals declared) .terminal run.2).after
      (run.1.flatMap fun x => [.terminal x, .shift x.lexeme])

/-- Reads the name that a `%start` directive declares. Any name will do, even one that heads a rule:
the directive needs one. -/
def startSymbol : List Lexeme → Passage
  | ⟨.identifier name, line⟩ :: rest =>
      (finish (.start ⟨name, line⟩) .startEnd rest).after
        [.start ⟨name, line⟩, .shift ⟨.identifier name, line⟩]
  | lexemes => rejectHere .startAfterDirective lexemes

/-- Reads what begins with the lexeme `l`: a construct, a blank line, or something that has to be
rejected. At least `l` is left behind. -/
def one (l : Lexeme) (lexemes : List Lexeme) : Passage :=
  match l.token with
  | .blankLine => ⟨[.shift l], lexemes⟩
  | .identifier name =>
      match lexemes with
      | ⟨.arrow, line⟩ :: rest => (rule ⟨name, l.line⟩ rest).after
          [.header ⟨name, l.line⟩, .shift l, .shift ⟨.arrow, line⟩]
      | _ => (skip lexemes).after [.reject .arrow lexemes.head?, .shift l]
  | .tokenDirective => (terminals lexemes).after [.shift l]
  | .startDirective => (startSymbol lexemes).after [.shift l]
  | _ => (skip lexemes).after [.reject .construct (some l), .shift l]

theorem length_rest_skip_le (lexemes : List Lexeme) :
    (skip lexemes).rest.length ≤ lexemes.length := by
  fun_induction skip lexemes with
  | case1 => simp
  | case2 => simp
  | case3 l rest _ ih => simp only [Passage.after, List.length_cons]; omega

theorem length_rest_rejectHere_le (expected : Expectation) (lexemes : List Lexeme) :
    (rejectHere expected lexemes).rest.length ≤ lexemes.length :=
  length_rest_skip_le lexemes

theorem length_rest_finish_le (construct : Construct) (expected : Expectation)
    (lexemes : List Lexeme) :
    (finish construct expected lexemes).rest.length ≤ lexemes.length := by
  unfold finish
  split
  · exact Nat.le_refl _
  · exact length_rest_rejectHere_le expected lexemes

theorem length_rest_body_le (lexemes : List Lexeme) :
    (body lexemes).rest.length ≤ lexemes.length := by
  fun_induction body lexemes with
  | case1 lexemes run _ => exact length_names_le lexemes
  | case2 lexemes run symbols _ steps line rest hRest more ih =>
      have hNames := length_names_le lexemes
      have hLength := congrArg List.length hRest
      simp only [List.length_cons, run] at hLength
      simp only [more]
      omega
  | case3 lexemes run symbols _ steps _ => exact length_names_le lexemes

theorem length_rest_rule_le (header : Ident) (lexemes : List Lexeme) :
    (rule header lexemes).rest.length ≤ lexemes.length := by
  have hBody := length_rest_body_le lexemes
  simp only [rule]
  split
  · exact Nat.le_trans (length_rest_skip_le _) hBody
  · exact Nat.le_trans (length_rest_finish_le _ _ _) hBody

theorem length_rest_terminals_le (lexemes : List Lexeme) :
    (terminals lexemes).rest.length ≤ lexemes.length := by
  have hNames := length_names_le lexemes
  simp only [terminals]
  split
  · exact Nat.le_trans (length_rest_rejectHere_le _ _) hNames
  · exact Nat.le_trans (length_rest_finish_le _ _ _) hNames

theorem length_rest_startSymbol_le (lexemes : List Lexeme) :
    (startSymbol lexemes).rest.length ≤ lexemes.length := by
  unfold startSymbol
  split
  · exact Nat.le_trans (length_rest_finish_le _ _ _) (Nat.le_succ _)
  · exact length_rest_rejectHere_le _ _

/-- Reading a construct leaves no more lexemes than there were behind its first one, so reading a
text ends. -/
theorem length_rest_one_le (l : Lexeme) (lexemes : List Lexeme) :
    (one l lexemes).rest.length ≤ lexemes.length := by
  unfold one
  split
  · exact Nat.le_refl _
  · split
    · exact Nat.le_trans (length_rest_rule_le _ _) (Nat.le_succ _)
    · exact length_rest_skip_le lexemes
  · exact length_rest_terminals_le lexemes
  · exact length_rest_startSymbol_le lexemes
  · exact length_rest_skip_le lexemes

end Passage

/-- The steps that read a whole text. -/
def Step.ofLexemes : List Lexeme → List Step
  | [] => []
  | l :: lexemes =>
      let passage := Passage.one l lexemes
      passage.steps ++ ofLexemes passage.rest
termination_by lexemes => lexemes.length
decreasing_by
  have hOne := Passage.length_rest_one_le l lexemes
  simp only [List.length_cons]
  omega

end GrammarCheck
