import GrammarCheck.Proofs.Source.Reading

/-! The course of reading in a malformed text. From each place where a construct can begin, either a
whole part is read, or the beginning of one up to a lexeme that cannot go on with it. In the second
case that lexeme is rejected, and reading goes on from a boundary that is not in front of it. -/

namespace GrammarCheck

/-- The beginning of a part that breaks off, by what should come next. -/
inductive Fragment where
  | construct
  /-- A name alone. -/
  | arrow (name : Ident)
  /-- A rule in which every alternative so far has a pipe behind it. -/
  | symbol (header : Ident) (arrow : Nat) (finished : List (Alternative × Nat))
  | ruleEnd (header : Ident) (arrow : Nat) (body : RuleBody)
  | terminalAfterDirective (line : Nat)
  | terminal (line : Nat) (names : OneOrMore Ident)
  | startAfterDirective (line : Nat)
  | startEnd (line : Nat) (name : Ident)

def RuleBody.finishedLexemes (finished : List (Alternative × Nat)) : List Lexeme :=
  finished.flatMap fun (alternative, pipe) =>
    alternative.toList.map Ident.lexeme ++ [⟨.pipe, pipe⟩]

def RuleBody.finishedSteps (finished : List (Alternative × Nat)) : List Step :=
  finished.flatMap fun (alternative, pipe) => stepsOf alternative.toList ++ [.shift ⟨.pipe, pipe⟩]

theorem RuleBody.forall_mem_finishedSteps {p : Step → Prop} (hMention : ∀ x, p (.mention x))
    (hShift : ∀ l, p (.shift l)) {finished : List (Alternative × Nat)} :
    ∀ step ∈ finishedSteps finished, p step := by
  intro step hMem
  obtain ⟨⟨alternative, pipe⟩, -, hStep⟩ := List.mem_flatMap.1 hMem
  rcases List.mem_append.1 hStep with hNames | hPipe
  · exact forall_mem_stepsOf hMention hShift alternative.toList step hNames
  · rw [List.mem_singleton.1 hPipe]
    exact hShift _

namespace Fragment

def expects : Fragment → Expectation
  | .construct => .construct
  | .arrow _ => .arrow
  | .symbol .. => .symbol
  | .ruleEnd .. => .ruleEnd
  | .terminalAfterDirective _ => .terminalAfterDirective
  | .terminal .. => .terminal
  | .startAfterDirective _ => .startAfterDirective
  | .startEnd .. => .startEnd

def lexemes : Fragment → List Lexeme
  | .construct => []
  | .arrow name => [name.lexeme]
  | .symbol header line finished =>
      header.lexeme :: ⟨.arrow, line⟩ :: RuleBody.finishedLexemes finished
  | .ruleEnd header line body => header.lexeme :: ⟨.arrow, line⟩ :: body.lexemes
  | .terminalAfterDirective line => [⟨.tokenDirective, line⟩]
  | .terminal line names => ⟨.tokenDirective, line⟩ :: names.toList.map Ident.lexeme
  | .startAfterDirective line => [⟨.startDirective, line⟩]
  | .startEnd line name => [⟨.startDirective, line⟩, name.lexeme]

/-- The steps that read a fragment. A name without an arrow is left behind only once it has been
rejected. -/
def steps : Fragment → List Step
  | .construct => []
  | .arrow _ => []
  | .symbol header line finished =>
      .header header :: .shift header.lexeme :: .shift ⟨.arrow, line⟩ ::
        RuleBody.finishedSteps finished
  | .ruleEnd header line body =>
      .header header :: .shift header.lexeme :: .shift ⟨.arrow, line⟩ :: body.steps
  | .terminalAfterDirective line => [.shift ⟨.tokenDirective, line⟩]
  | .terminal line names =>
      .shift ⟨.tokenDirective, line⟩ ::
        names.toList.flatMap fun x => [.terminal x, .shift x.lexeme]
  | .startAfterDirective line => [.shift ⟨.startDirective, line⟩]
  | .startEnd line name => [.shift ⟨.startDirective, line⟩, .start name, .shift name.lexeme]

end Fragment

/-- Where the lexemes that come next cannot be what was expected. A name is not taken for a symbol
or a terminal when it heads a rule. -/
inductive Expectation.Refuses : Expectation → List Lexeme → Prop where
  | construct {l : Lexeme} {rest : List Lexeme}
      (h : l.token = .arrow ∨ l.token = .pipe ∨ ∃ e, l.token = .error e) :
      Refuses .construct (l :: rest)
  | arrow {left : List Lexeme} (h : Passage.arrowNext left = false) : Refuses .arrow left
  | symbol {left : List Lexeme} (h : (Passage.names left).1 = []) : Refuses .symbol left
  | ruleEnd (e : LexicalFault) (line : Nat) (rest : List Lexeme) :
      Refuses .ruleEnd (⟨.error e, line⟩ :: rest)
  | terminalAfterDirective {left : List Lexeme} (h : (Passage.names left).1 = []) :
      Refuses .terminalAfterDirective left
  | terminal {l : Lexeme} {rest : List Lexeme} (h : l.token = .pipe ∨ ∃ e, l.token = .error e) :
      Refuses .terminal (l :: rest)
  | startAfterDirective {left : List Lexeme}
      (h : ∀ (x : Ident) (rest : List Lexeme), left ≠ x.lexeme :: rest) :
      Refuses .startAfterDirective left
  | startEnd {left : List Lexeme} (h : Passage.atBoundary left = false) : Refuses .startEnd left

namespace OneOrMore

variable {α : Type} {xs : List α}

theorem eq_nil_of_ofList? (h : ofList? xs = none) : xs = [] := by
  cases xs with
  | nil => rfl
  | cons x xs => cases h

theorem ne_nil_of_ofList? {ys : OneOrMore α} (h : ofList? xs = some ys) : xs ≠ [] := by
  rintro rfl
  cases h

end OneOrMore

namespace Passage

/-- What may be read from a place where a construct can begin. -/
inductive Course : List Lexeme → Passage → Prop where
  | part (part : Part) {rest : List Lexeme}
      (hRest : atBoundary rest = true ∨ ∃ line, part = .blank line) :
      Course (part.lexemes ++ rest) ⟨part.steps, rest⟩
  | fragment (fragment : Fragment) {left rest : List Lexeme} (passed : List Lexeme)
      (hRefuses : fragment.expects.Refuses left) (hSuffix : rest <:+ left)
      (hRest : atBoundary rest = true) :
      Course (fragment.lexemes ++ left)
        ⟨fragment.steps ++ .reject fragment.expects left.head? :: passed.map .shift, rest⟩

/-- What a course leaves is the back of the lexemes it began with. -/
theorem Course.rest_suffix {lexemes : List Lexeme} {passage : Passage}
    (h : Course lexemes passage) : passage.rest <:+ lexemes := by
  cases h with
  | part => exact List.suffix_append _ _
  | fragment _ _ _ hSuffix _ => exact hSuffix.trans (List.suffix_append _ _)

theorem after_after (passage : Passage) (steps others : List Step) :
    (passage.after steps).after others = passage.after (others ++ steps) := by
  rw [after, after, after, List.append_assoc]

/-- Skipping leaves lexemes behind and does nothing else. -/
theorem exists_skip_eq (lexemes : List Lexeme) :
    ∃ passed rest, skip lexemes = ⟨passed.map .shift, rest⟩ ∧ passed ++ rest = lexemes ∧
      atBoundary rest = true := by
  fun_induction skip lexemes with
  | case1 => exact ⟨[], [], rfl, rfl, rfl⟩
  | case2 l rest hBoundary => exact ⟨[], l :: rest, rfl, rfl, hBoundary⟩
  | case3 l rest _ ih =>
      obtain ⟨passed, others, hSkip, hSplit, hBoundary⟩ := ih
      refine ⟨l :: passed, others, ?_, congrArg (l :: ·) hSplit, hBoundary⟩
      rw [hSkip]
      rfl

theorem skip_of_atBoundary {lexemes : List Lexeme} (h : atBoundary lexemes = true) :
    skip lexemes = ⟨[], lexemes⟩ := by
  cases lexemes with
  | nil => rfl
  | cons l rest => rw [skip, if_pos h]

theorem startSymbol_of_ne {lexemes : List Lexeme}
    (h : ∀ (x : Ident) (rest : List Lexeme), lexemes ≠ x.lexeme :: rest) :
    startSymbol lexemes = rejectHere .startAfterDirective lexemes := by
  unfold startSymbol
  split
  case h_1 name line rest => exact (h ⟨name, line⟩ rest rfl).elim
  case h_2 => rfl

section

variable (fragment : Fragment) {left : List Lexeme}

/-- What is rejected is passed over with the rest of the construct. -/
theorem course_rejectHere (h : fragment.expects.Refuses left) :
    Course (fragment.lexemes ++ left)
      ((rejectHere fragment.expects left).after fragment.steps) := by
  obtain ⟨passed, rest, hSkip, hSplit, hBoundary⟩ := exists_skip_eq left
  rw [rejectHere, hSkip]
  exact .fragment fragment passed h ⟨passed, hSplit⟩ hBoundary

/-- Without progress, a first lexeme is left behind whatever it is. -/
theorem course_reject_shift (hSteps : fragment.steps = []) (h : fragment.expects.Refuses left)
    (l : Lexeme) {others : List Lexeme} (hOthers : others <:+ left) :
    Course (fragment.lexemes ++ left)
      ((skip others).after [.reject fragment.expects left.head?, .shift l]) := by
  obtain ⟨passed, rest, hSkip, hSplit, hBoundary⟩ := exists_skip_eq others
  have hSuffix : rest <:+ left := List.IsSuffix.trans ⟨passed, hSplit⟩ hOthers
  have hCourse := Course.fragment fragment (l :: passed) h hSuffix hBoundary
  rw [hSteps] at hCourse
  rw [hSkip]
  exact hCourse

end

section

variable {lexemes : List Lexeme}

theorem names_of_fst_eq_nil (h : (names lexemes).1 = []) : names lexemes = ([], lexemes) := by
  have hSplit := map_lexeme_names lexemes
  rw [h] at hSplit
  exact Prod.ext h hSplit

theorem names_idem (lexemes : List Lexeme) : (names (names lexemes).2).1 = [] := by
  fun_induction names lexemes with
  | case1 name line rest hArrow => rw [names, if_pos hArrow]
  | case2 name line rest _ more ih => exact ih
  | case3 rest hName =>
      cases rest with
      | nil => rfl
      | cons l rest =>
          obtain ⟨token, line⟩ := l
          cases token with
          | identifier name => exact (hName name line rest rfl).elim
          | _ => rfl

/-- A name in front of an arrow is left for the rule that it heads. -/
theorem arrowNext_names (h : (names lexemes).1 ≠ []) : arrowNext (names lexemes).2 = false := by
  fun_induction names lexemes with
  | case1 => exact absurd rfl h
  | case2 name line rest hArrow more ih =>
      by_cases hMore : more.1 = []
      · have hRest : more = ([], rest) := names_of_fst_eq_nil hMore
        rw [hRest]
        exact Bool.eq_false_iff.2 hArrow
      · exact ih hMore
  | case3 => exact absurd rfl h

/-- Where a run of names has ended, only two kinds of tokens forbid that the construct ends too. -/
theorem pipe_or_error_of_names (hNames : (names lexemes).1 = [])
    (hArrow : arrowNext lexemes = false) (hBoundary : ¬ atBoundary lexemes = true) :
    ∃ l rest, lexemes = l :: rest ∧ (l.token = .pipe ∨ ∃ e, l.token = .error e) := by
  cases lexemes with
  | nil => exact absurd rfl hBoundary
  | cons l rest =>
      obtain ⟨token, line⟩ := l
      refine ⟨_, _, rfl, ?_⟩
      cases token with
      | pipe => exact .inl rfl
      | error e => exact .inr ⟨e, rfl⟩
      | arrow => cases hArrow
      | identifier name =>
          have hNext : ¬ arrowNext rest = true := hBoundary
          rw [names, if_neg hNext] at hNames
          cases hNames
      | _ => exact absurd rfl hBoundary

end

/-- The alternatives of a rule are read as far as there are any. -/
inductive BodyCourse : List Lexeme → Body → Prop where
  | whole (body : RuleBody) {rest : List Lexeme} (hNames : (names rest).1 = [])
      (hArrow : arrowNext rest = false) (hPipe : ∀ line others, rest ≠ ⟨.pipe, line⟩ :: others) :
      BodyCourse (body.lexemes ++ rest) ⟨body.steps, some body.alternatives, rest⟩
  | broken (finished : List (Alternative × Nat)) {left : List Lexeme}
      (hNames : (names left).1 = []) :
      BodyCourse (RuleBody.finishedLexemes finished ++ left)
        ⟨RuleBody.finishedSteps finished ++ [.reject .symbol left.head?], none, left⟩

/-- One more alternative with its pipe, in front of those that were read. -/
theorem BodyCourse.more {lexemes : List Lexeme} {read : Body} (h : BodyCourse lexemes read)
    (alternative : Alternative) (pipe : Nat) :
    BodyCourse (alternative.toList.map Ident.lexeme ++ ⟨.pipe, pipe⟩ :: lexemes)
      ⟨RuleBody.stepsOf alternative.toList ++ .shift ⟨.pipe, pipe⟩ :: read.steps,
        read.alternatives.map (.cons alternative), read.rest⟩ := by
  cases h with
  | whole body hNames hArrow hPipe =>
      have hMore := whole (.more alternative pipe body) hNames hArrow hPipe
      rw [RuleBody.lexemes, List.append_assoc] at hMore
      exact hMore
  | broken finished hNames =>
      have hMore := broken ((alternative, pipe) :: finished) hNames
      simpa [RuleBody.finishedLexemes, RuleBody.finishedSteps] using hMore

/-- Reading alternatives takes this course on all lexemes. -/
theorem bodyCourse_body (lexemes : List Lexeme) : BodyCourse lexemes (body lexemes) := by
  fun_induction body lexemes with
  | case1 lexemes run hNone =>
      have hRun := OneOrMore.eq_nil_of_ofList? hNone
      have hRest : run = ([], lexemes) := names_of_fst_eq_nil hRun
      rw [hRest]
      exact .broken [] hRun
  | case2 lexemes run symbols hSymbols steps line rest hRest more ih =>
      have hSplit := map_lexeme_of_names hSymbols
      rw [hRest] at hSplit
      rw [← hSplit, show steps = RuleBody.stepsOf run.1 from rfl,
        ← OneOrMore.toList_of_ofList? hSymbols]
      exact ih.more symbols line
  | case3 lexemes run symbols hSymbols steps hLast =>
      have hCourse := BodyCourse.whole (.last symbols) (names_idem lexemes)
        (arrowNext_names (OneOrMore.ne_nil_of_ofList? hSymbols)) hLast
      rw [RuleBody.lexemes, map_lexeme_of_names hSymbols, RuleBody.steps,
        OneOrMore.toList_of_ofList? hSymbols] at hCourse
      exact hCourse

/-- A rule is read whole where it may end behind its alternatives. -/
theorem course_rule (header : Ident) (arrow : Nat) (lexemes : List Lexeme) :
    Course (header.lexeme :: ⟨.arrow, arrow⟩ :: lexemes)
      ((rule header lexemes).after
        [.header header, .shift header.lexeme, .shift ⟨.arrow, arrow⟩]) := by
  have hBody := bodyCourse_body lexemes
  unfold rule
  generalize body lexemes = read at hBody
  cases hBody with
  | whole body hNames hArrow hPipe =>
      rw [after_after, finish]
      split
      case isTrue hBoundary => exact .part (.rule header arrow body) (.inl hBoundary)
      case isFalse hBoundary =>
        obtain ⟨⟨token, line⟩, others, rfl, hToken⟩ :=
          pipe_or_error_of_names hNames hArrow hBoundary
        rcases hToken with hToken | ⟨e, hToken⟩ <;> cases hToken
        · exact absurd rfl (hPipe line others)
        · exact course_rejectHere (.ruleEnd header arrow body)
            (.ruleEnd e line others)
  | broken finished hNames =>
      have hCourse := course_rejectHere (.symbol header arrow finished)
        (.symbol hNames)
      rw [rejectHere, after_after] at hCourse
      rw [after_after]
      exact hCourse

/-- A `%token` directive is read whole or rejected where a name is missing. -/
theorem course_terminals (line : Nat) (lexemes : List Lexeme) :
    Course (⟨.tokenDirective, line⟩ :: lexemes)
      ((terminals lexemes).after [.shift ⟨.tokenDirective, line⟩]) := by
  cases hDeclared : OneOrMore.ofList? (names lexemes).1 with
  | none =>
      have hNone := OneOrMore.eq_nil_of_ofList? hDeclared
      rw [terminals, hDeclared, names_of_fst_eq_nil hNone]
      exact course_rejectHere (.terminalAfterDirective line)
        (.terminalAfterDirective hNone)
  | some declared =>
      have hNames := OneOrMore.toList_of_ofList? hDeclared
      have hSplit := map_lexeme_of_names hDeclared
      have hEnd := names_idem lexemes
      have hArrow := arrowNext_names (OneOrMore.ne_nil_of_ofList? hDeclared)
      rw [terminals, hDeclared]
      simp only [← hNames]
      rw [after_after, finish]
      generalize (names lexemes).2 = rest at hSplit hEnd hArrow
      rw [← hSplit]
      split
      case isTrue hBoundary =>
        have hCourse := Course.part (.terminals line declared) (.inl hBoundary)
        exact hCourse
      case isFalse hBoundary =>
        obtain ⟨l, others, rfl, hToken⟩ := pipe_or_error_of_names hEnd hArrow hBoundary
        exact course_rejectHere (.terminal line declared) (.terminal hToken)

/-- A `%start` directive is read whole or rejected where its name is missing or more comes behind
it. -/
theorem course_startSymbol (line : Nat) (lexemes : List Lexeme) :
    Course (⟨.startDirective, line⟩ :: lexemes)
      ((startSymbol lexemes).after [.shift ⟨.startDirective, line⟩]) := by
  fun_cases startSymbol lexemes with
  | case1 name place rest =>
      rw [after_after, finish]
      split
      case isTrue hBoundary =>
        exact .part (.start line ⟨name, place⟩) (.inl hBoundary)
      case isFalse hBoundary =>
        exact course_rejectHere (.startEnd line ⟨name, place⟩)
          (.startEnd (Bool.eq_false_iff.2 hBoundary))
  | case2 lexemes hName =>
      exact course_rejectHere (.startAfterDirective line)
        (.startAfterDirective fun x rest => hName x.name x.line rest)

theorem exists_of_arrowNext {lexemes : List Lexeme} (h : arrowNext lexemes = true) :
    ∃ line rest, lexemes = ⟨.arrow, line⟩ :: rest := by
  unfold arrowNext at h
  split at h
  case h_1 line rest => exact ⟨line, rest, rfl⟩
  case h_2 => cases h

/-- A name without an arrow is no rule. -/
theorem one_of_name {lexemes : List Lexeme} (h : arrowNext lexemes = false) (x : Ident) :
    one x.lexeme lexemes =
      (skip lexemes).after [.reject .arrow lexemes.head?, .shift x.lexeme] := by
  cases lexemes with
  | nil => rfl
  | cons next rest =>
      obtain ⟨token, line⟩ := next
      cases token with
      | arrow => cases h
      | _ => rfl

/-- With some tokens no construct begins. -/
theorem course_of_misplaced {l : Lexeme}
    (h : l.token = .arrow ∨ l.token = .pipe ∨ ∃ e, l.token = .error e) (lexemes : List Lexeme) :
    Course (l :: lexemes) (one l lexemes) := by
  have hOne : one l lexemes = (skip lexemes).after [.reject .construct (some l), .shift l] := by
    obtain ⟨token, line⟩ := l
    rcases h with h | h | ⟨e, h⟩ <;> cases h <;> rfl
  rw [hOne]
  exact course_reject_shift .construct rfl (.construct h) l
    (List.suffix_cons l lexemes)

/-- From every place, reading takes one of these courses. -/
theorem course_one (l : Lexeme) (lexemes : List Lexeme) :
    Course (l :: lexemes) (one l lexemes) := by
  obtain ⟨token, line⟩ := l
  cases token with
  | blankLine => exact .part (.blank line) (.inr ⟨line, rfl⟩)
  | tokenDirective => exact course_terminals line lexemes
  | startDirective => exact course_startSymbol line lexemes
  | identifier name =>
      cases hArrow : arrowNext lexemes with
      | true =>
          obtain ⟨arrow, rest, rfl⟩ := exists_of_arrowNext hArrow
          exact course_rule ⟨name, line⟩ arrow rest
      | false =>
          have hOne := one_of_name hArrow ⟨name, line⟩
          rw [Ident.lexeme] at hOne
          rw [hOne]
          exact course_reject_shift (.arrow ⟨name, line⟩) rfl (.arrow hArrow) _
            List.suffix_rfl
  | arrow => exact course_of_misplaced (.inl rfl) lexemes
  | pipe => exact course_of_misplaced (.inr (.inl rfl)) lexemes
  | error e => exact course_of_misplaced (.inr (.inr ⟨e, rfl⟩)) lexemes

/-- What is left behind a first lexeme is left of what came after it. -/
theorem rest_one_suffix (l : Lexeme) (lexemes : List Lexeme) :
    (one l lexemes).rest <:+ lexemes := by
  rcases List.suffix_cons_iff.1 (course_one l lexemes).rest_suffix with hAll | hSuffix
  · have hLength := length_rest_one_le l lexemes
    rw [hAll, List.length_cons] at hLength
    omega
  · exact hSuffix

end Passage

namespace Step

/-- How a whole text is read: one course after the other, up to the end of the text. -/
inductive Courses : List Lexeme → List Step → Prop where
  | nil : Courses [] []
  | part (part : Part) {rest : List Lexeme} {later : List Step}
      (hRest : Passage.atBoundary rest = true ∨ ∃ line, part = .blank line)
      (hLater : Courses rest later) : Courses (part.lexemes ++ rest) (part.steps ++ later)
  | fragment (fragment : Fragment) {left rest : List Lexeme} (passed : List Lexeme)
      {later : List Step} (hRefuses : fragment.expects.Refuses left) (hSuffix : rest <:+ left)
      (hRest : Passage.atBoundary rest = true) (hLater : Courses rest later) :
      Courses (fragment.lexemes ++ left)
        (fragment.steps ++ .reject fragment.expects left.head? :: passed.map .shift ++ later)

/-- Every text is read in this way. -/
theorem courses_ofLexemes (lexemes : List Lexeme) : Courses lexemes (ofLexemes lexemes) := by
  fun_induction ofLexemes lexemes with
  | case1 => exact .nil
  | case2 l lexemes passage ih =>
      have hCourse : Passage.Course (l :: lexemes) passage := Passage.course_one l lexemes
      generalize l :: lexemes = all at hCourse
      clear_value passage
      cases hCourse with
      | part part hRest => exact .part part hRest ih
      | fragment fragment passed hRefuses hSuffix hRest =>
          exact .fragment fragment passed hRefuses hSuffix hRest ih

end Step

end GrammarCheck
