import GrammarCheck.Proofs.Source.Part

/-! What has been read of a rule when it is completed. In every text, the malformed ones included, a
rule is completed only behind its own header, and its alternatives are the names and pipes that were
read since then. -/

namespace GrammarCheck

/-- A rule under way: what is known of its header, the alternatives in front of the last pipe, and
the one behind it. -/
structure Draft (α : Type) where
  header : Option α
  finished : List (List α)
  current : List α

namespace Draft

variable {α : Type}

def begin (header : Option α) : Draft α := ⟨header, [], []⟩

def add (d : Draft α) (a : α) : Draft α := { d with current := d.current ++ [a] }

def pipe (d : Draft α) : Draft α := ⟨d.header, d.finished ++ [d.current], []⟩

def rows (d : Draft α) : List (List α) := d.finished ++ [d.current]

/-- What a step adds to the names of a rule under way. -/
def take (d : Draft Ident) : Step → Draft Ident
  | .header x => begin (some x)
  | .mention x => d.add x
  | .shift ⟨.pipe, _⟩ => d.pipe
  | _ => d

def takeAll (d : Draft Ident) (steps : List Step) : Draft Ident := steps.foldl take d

/-- Whether a rule that a step completes is the one under way. -/
def Admits (d : Draft Ident) (step : Step) : Prop :=
  ∀ x alternatives, step = .complete (.rule x alternatives) →
    d.header = some x ∧ d.rows = alternatives.toList.map OneOrMore.toList

/-- Whether every rule that some steps complete is the one under way at that moment. -/
def Covers : Draft Ident → List Step → Prop
  | _, [] => True
  | d, step :: steps => d.Admits step ∧ (d.take step).Covers steps

theorem takeAll_append (d : Draft Ident) (steps others : List Step) :
    d.takeAll (steps ++ others) = (d.takeAll steps).takeAll others :=
  List.foldl_append

theorem covers_append {d : Draft Ident} {steps others : List Step} :
    d.Covers (steps ++ others) ↔ d.Covers steps ∧ (d.takeAll steps).Covers others := by
  induction steps generalizing d with
  | nil => simp [Covers, takeAll]
  | cons step steps ih =>
      rw [List.cons_append, Covers, ih, Covers, and_assoc]
      rfl

/-- Names are added one after the other. The step that leaves a name behind adds nothing. -/
theorem takeAll_stepsOf (d : Draft Ident) (names : List Ident) :
    d.takeAll (RuleBody.stepsOf names) = { d with current := d.current ++ names } := by
  induction names generalizing d with
  | nil =>
      show d = _
      rw [List.append_nil]
  | cons x names ih =>
      show (d.add x).takeAll (RuleBody.stepsOf names) = _
      rw [ih, add, List.append_assoc]
      rfl

end Draft

def Step.Plain (step : Step) : Prop := ∀ x alternatives, step ≠ .complete (.rule x alternatives)

namespace Draft

/-- Steps that complete no rule complete no wrong one. -/
theorem covers_of_plain {steps : List Step} (h : ∀ step ∈ steps, step.Plain) (d : Draft Ident) :
    d.Covers steps := by
  induction steps generalizing d with
  | nil => trivial
  | cons step steps ih =>
      rw [List.forall_mem_cons] at h
      exact ⟨fun x alternatives hEq => absurd hEq (h.1 x alternatives), ih h.2 _⟩

end Draft

namespace Passage

def Plain (passage : Passage) : Prop := ∀ step ∈ passage.steps, step.Plain

theorem Plain.after {passage : Passage} (h : passage.Plain) {steps : List Step}
    (hSteps : ∀ step ∈ steps, step.Plain) : (passage.after steps).Plain := by
  intro step hMem
  rcases List.mem_append.1 hMem with hFront | hBehind
  · exact hSteps step hFront
  · exact h step hBehind

theorem plain_skip (lexemes : List Lexeme) : (skip lexemes).Plain := by
  fun_induction skip lexemes with
  | case1 => simp [Plain]
  | case2 => simp [Plain]
  | case3 l rest _ ih => exact ih.after (by simp [Step.Plain])

theorem plain_rejectHere (expected : Expectation) (lexemes : List Lexeme) :
    (rejectHere expected lexemes).Plain :=
  (plain_skip lexemes).after (by simp [Step.Plain])

theorem plain_finish {construct : Construct} (h : (Step.complete construct).Plain)
    (expected : Expectation) (lexemes : List Lexeme) :
    (finish construct expected lexemes).Plain := by
  unfold finish
  split
  case isTrue => exact List.forall_mem_singleton.2 h
  case isFalse => exact plain_rejectHere expected lexemes

theorem plain_terminals (lexemes : List Lexeme) : (terminals lexemes).Plain := by
  simp only [terminals]
  split
  case h_1 => exact plain_rejectHere _ _
  case h_2 =>
    refine (plain_finish (by simp [Step.Plain]) _ _).after fun step hMem => ?_
    obtain ⟨x, -, hStep⟩ := List.mem_flatMap.1 hMem
    simp only [List.mem_cons, List.not_mem_nil, or_false] at hStep
    rcases hStep with rfl | rfl <;> simp [Step.Plain]

theorem plain_startSymbol (lexemes : List Lexeme) : (startSymbol lexemes).Plain := by
  unfold startSymbol
  split
  case h_1 => exact (plain_finish (by simp [Step.Plain]) _ _).after (by simp [Step.Plain])
  case h_2 => exact plain_rejectHere _ _

theorem plain_stepsOf (names : List Ident) : ∀ step ∈ RuleBody.stepsOf names, step.Plain := by
  intro step hMem
  obtain ⟨x, -, hStep⟩ := List.mem_flatMap.1 hMem
  simp only [List.mem_cons, List.not_mem_nil, or_false] at hStep
  rcases hStep with rfl | rfl <;> simp [Step.Plain]

/-- Reading alternatives completes no rule; that is left to what comes behind them. -/
theorem plain_body (lexemes : List Lexeme) : ∀ step ∈ (body lexemes).steps, step.Plain := by
  fun_induction body lexemes with
  | case1 => simp [Step.Plain]
  | case2 lexemes run symbols _ steps line rest _ more ih =>
      intro step hMem
      rcases List.mem_append.1 hMem with hNames | hMore
      · exact plain_stepsOf run.1 step hNames
      · rcases List.mem_cons.1 hMore with rfl | hMore
        · simp [Step.Plain]
        · exact ih step hMore
  | case3 lexemes run symbols _ steps _ => exact plain_stepsOf run.1

/-- The alternatives that are read are the rows of the draft, and the header stays. -/
theorem takeAll_body (lexemes : List Lexeme) :
    ∀ alternatives, (body lexemes).alternatives = some alternatives →
      ∀ d : Draft Ident, d.current = [] →
        (d.takeAll (body lexemes).steps).header = d.header ∧
          (d.takeAll (body lexemes).steps).rows =
            d.finished ++ alternatives.toList.map OneOrMore.toList := by
  fun_induction body lexemes with
  | case1 =>
      intro _ h
      cases h
  | case2 lexemes run symbols hSymbols steps line rest _ more ih =>
      intro alternatives h d hCurrent
      obtain ⟨others, hMore, rfl⟩ := Option.map_eq_some_iff.1 h
      have hRows := ih others hMore ⟨d.header, d.finished ++ [run.1], []⟩ rfl
      have hSteps : d.takeAll steps = { d with current := run.1 } := by
        rw [show steps = RuleBody.stepsOf run.1 from rfl, Draft.takeAll_stepsOf, hCurrent,
          List.nil_append]
      rw [Draft.takeAll_append, hSteps]
      refine ⟨hRows.1, hRows.2.trans ?_⟩
      rw [← OneOrMore.toList_of_ofList? hSymbols, List.append_assoc]
      rfl
  | case3 lexemes run symbols hSymbols steps _ =>
      intro alternatives h d hCurrent
      cases h
      have hSteps : d.takeAll steps = { d with current := run.1 } := by
        rw [show steps = RuleBody.stepsOf run.1 from rfl, Draft.takeAll_stepsOf, hCurrent,
          List.nil_append]
      rw [hSteps, ← OneOrMore.toList_of_ofList? hSymbols]
      exact ⟨rfl, rfl⟩

/-- From behind its header, a rule is completed with the alternatives that were read, if at all. -/
theorem covers_rule (header : Ident) (lexemes : List Lexeme) :
    (Draft.begin (some header)).Covers (rule header lexemes).steps := by
  simp only [rule]
  split
  case h_1 =>
    exact Draft.covers_of_plain ((plain_skip _).after (plain_body lexemes)) _
  case h_2 alternatives hSome =>
    obtain ⟨hHeader, hRows⟩ := takeAll_body _ alternatives hSome (.begin (some header)) rfl
    refine Draft.covers_append.2 ⟨Draft.covers_of_plain (plain_body lexemes) _, ?_⟩
    unfold finish
    split
    case isTrue =>
      refine ⟨fun x others hEq => ?_, trivial⟩
      cases hEq
      exact ⟨hHeader, hRows⟩
    case isFalse => exact Draft.covers_of_plain (plain_rejectHere _ _) _

/-- Whatever was read before, a rule begins with its header. -/
theorem covers_one (d : Draft Ident) (l : Lexeme) (lexemes : List Lexeme) :
    d.Covers (one l lexemes).steps := by
  unfold one
  split
  case h_1 => exact Draft.covers_of_plain (by simp [Step.Plain]) d
  case h_2 name _ =>
    split
    case h_1 line rest =>
      refine Draft.covers_append.2 ⟨Draft.covers_of_plain (by simp [Step.Plain]) d, ?_⟩
      have hDraft : d.takeAll [.header ⟨name, l.line⟩, .shift l, .shift ⟨.arrow, line⟩] =
          Draft.begin (some ⟨name, l.line⟩) := by
        obtain ⟨token, _⟩ := l
        cases token <;> first | rfl | simp_all
      rw [hDraft]
      exact covers_rule _ rest
    case h_2 => exact Draft.covers_of_plain ((plain_skip _).after (by simp [Step.Plain])) d
  case h_3 => exact Draft.covers_of_plain ((plain_terminals _).after (by simp [Step.Plain])) d
  case h_4 => exact Draft.covers_of_plain ((plain_startSymbol _).after (by simp [Step.Plain])) d
  case h_5 => exact Draft.covers_of_plain ((plain_skip _).after (by simp [Step.Plain])) d

end Passage

/-- In every text, each rule that is completed is the one under way. -/
theorem Draft.covers_ofLexemes (d : Draft Ident) (lexemes : List Lexeme) :
    d.Covers (Step.ofLexemes lexemes) := by
  fun_induction Step.ofLexemes lexemes generalizing d with
  | case1 => trivial
  | case2 l lexemes passage ih => exact covers_append.2 ⟨Passage.covers_one d l lexemes, ih _⟩

end GrammarCheck
