import GrammarCheck.Proofs.Step.Course
import GrammarCheck.Proofs.Token.BlankLine

/-! Reading the same lexemes in another setting: with other names, further down in a longer text,
with nothing, a blank line or another construct behind them. Names are never looked at, and nothing
is read past a boundary. Whatever is being read, it ends there as it would at the end of the text,
and only a rejection tells the two apart by what it finds. So the steps are the same, but for their
names and lines and for the lexeme found where the text would end. The one exception is a name
behind a `%start` that lacks one, which is taken even if it heads a rule. -/

namespace GrammarCheck

def OneOrMore.map {α β : Type} (f : α → β) (xs : OneOrMore α) : OneOrMore β :=
  ⟨f xs.first, xs.others.map f⟩

theorem OneOrMore.ofList?_map {α β : Type} (f : α → β) (xs : List α) :
    ofList? (xs.map f) = (ofList? xs).map (map f) := by
  cases xs <;> rfl

/-- A way to write the same lexemes differently: with other names, or on other lines. -/
structure Respelling where
  name : String → String
  line : Nat → Nat

namespace Respelling

def lower (n : Nat) : Respelling := ⟨id, (· + n)⟩

def rename (f : String → String) : Respelling := ⟨f, id⟩

variable (v : Respelling)

def ident (x : Ident) : Ident := ⟨v.name x.name, v.line x.line⟩

def construct : Construct → Construct
  | .rule header alternatives => .rule (v.ident header) (alternatives.map (.map v.ident))
  | .terminals names => .terminals (names.map v.ident)
  | .start symbol => .start (v.ident symbol)

/-- Only identifiers are names. -/
def token : Token → Token
  | .identifier name => .identifier (v.name name)
  | token => token

def lexeme (l : Lexeme) : Lexeme := ⟨v.token l.token, v.line l.line⟩

theorem lexeme_lower (n : Nat) : (lower n).lexeme = Lexeme.lower n := by
  funext l
  obtain ⟨token, line⟩ := l
  cases token <;> rfl

end Respelling

/-- What can stand behind lexemes without being read into them. -/
inductive Tail : List Lexeme → Prop where
  | nil : Tail []
  | blankLine (line : Nat) (behind : List Lexeme) : Tail (⟨.blankLine, line⟩ :: behind)

theorem Tail.atBoundary {tail : List Lexeme} (h : Tail tail) :
    Passage.atBoundary tail = true := by
  cases h <;> rfl

/-- Lexemes and a tail that is not read into them. Nothing is read past a boundary, except for the
name behind a `%start`. -/
structure Apart (lexemes tail : List Lexeme) : Prop where
  boundary : Passage.atBoundary tail = true
  start : ∀ front line, lexemes = front ++ [⟨.startDirective, line⟩] →
    ∀ (x : Ident) (rest : List Lexeme), tail ≠ x.lexeme :: rest

/-- Such a tail is read into no lexemes in front of it. -/
theorem Tail.apart {tail : List Lexeme} (h : Tail tail) (lexemes : List Lexeme) :
    Apart lexemes tail where
  boundary := h.atBoundary
  start := by
    intro _ _ _ x rest hTail
    rw [hTail] at h
    cases h

/-- What is left of some lexemes ends as they do. -/
theorem Apart.of_suffix {lexemes rest tail : List Lexeme} (h : Apart lexemes tail)
    (hSuffix : rest <:+ lexemes) : Apart rest tail where
  boundary := h.boundary
  start := by
    intro front line hRest
    obtain ⟨before, hSplit⟩ := hSuffix
    rw [hRest, ← List.append_assoc] at hSplit
    exact h.start _ line hSplit.symm

/-- A step in another spelling and with `tail` where the text would end. -/
def Step.set (v : Respelling) (tail : List Lexeme) : Step → Step
  | .shift l => .shift (v.lexeme l)
  | .mention x => .mention (v.ident x)
  | .header x => .header (v.ident x)
  | .terminal x => .terminal (v.ident x)
  | .start x => .start (v.ident x)
  | .complete construct => .complete (v.construct construct)
  | .reject expected found => .reject expected ((found.map v.lexeme).or tail.head?)

def Lexeme.set (v : Respelling) (tail lexemes : List Lexeme) : List Lexeme :=
  lexemes.map v.lexeme ++ tail

theorem Lexeme.set_cons (v : Respelling) (tail : List Lexeme) (l : Lexeme)
    (lexemes : List Lexeme) : set v tail (l :: lexemes) = v.lexeme l :: set v tail lexemes := rfl

namespace Passage

def set (v : Respelling) (tail : List Lexeme) (passage : Passage) : Passage :=
  ⟨passage.steps.map (Step.set v tail), Lexeme.set v tail passage.rest⟩

variable {v : Respelling} {tail : List Lexeme}

/-- Steps in front of a passage are set like the others. -/
theorem set_after (steps : List Step) (passage : Passage) :
    (passage.after steps).set v tail =
      (passage.set v tail).after (steps.map (Step.set v tail)) := by
  simp [set, after]

/-- A rejection finds the next lexeme, at the latest the first one of the tail. -/
theorem set_reject (expected : Expectation) (lexemes : List Lexeme) :
    (Step.reject expected lexemes.head?).set v tail =
      .reject expected (Lexeme.set v tail lexemes).head? := by
  cases lexemes <;> simp [Step.set, Lexeme.set]

theorem map_set_stepsOf (names : List Ident) :
    (RuleBody.stepsOf names).map (Step.set v tail) =
      RuleBody.stepsOf (names.map v.ident) := by
  rw [RuleBody.stepsOf, RuleBody.stepsOf, List.map_flatMap, List.flatMap_map]
  rfl

section

variable (hTail : atBoundary tail = true)
include hTail

/-- Whether an arrow comes next does not depend on the setting, since no tail begins with one. -/
theorem arrowNext_set (lexemes : List Lexeme) :
    arrowNext (Lexeme.set v tail lexemes) = arrowNext lexemes := by
  cases lexemes with
  | nil => exact arrowNext_of_atBoundary hTail
  | cons l lexemes =>
      obtain ⟨token, _⟩ := l
      cases token <;> rfl

theorem atBoundary_set (lexemes : List Lexeme) :
    atBoundary (Lexeme.set v tail lexemes) = atBoundary lexemes := by
  cases lexemes with
  | nil => exact hTail
  | cons l lexemes =>
      obtain ⟨token, _⟩ := l
      cases token with
      | identifier name => exact arrowNext_set hTail lexemes
      | _ => rfl

/-- Skipping stops at the same place in every setting, the tail at the latest. -/
theorem skip_set (lexemes : List Lexeme) :
    skip (Lexeme.set v tail lexemes) = (skip lexemes).set v tail := by
  induction lexemes with
  | nil => exact skip_of_atBoundary hTail
  | cons l lexemes ih =>
      have hBoundary := atBoundary_set (v := v) hTail (l :: lexemes)
      rw [Lexeme.set_cons] at hBoundary ⊢
      rw [skip, hBoundary, ih, skip]
      split
      · rfl
      · rw [set_after]
        rfl

theorem rejectHere_set (expected : Expectation) (lexemes : List Lexeme) :
    rejectHere expected (Lexeme.set v tail lexemes) = (rejectHere expected lexemes).set v tail := by
  rw [rejectHere, rejectHere, skip_set hTail, set_after, List.map_singleton, set_reject]

theorem finish_set (construct : Construct) (expected : Expectation) (lexemes : List Lexeme) :
    finish (v.construct construct) expected (Lexeme.set v tail lexemes) =
      (finish construct expected lexemes).set v tail := by
  rw [finish, finish, atBoundary_set hTail, rejectHere_set hTail]
  split <;> rfl

/-- The same names are read, in the spelling of the setting. -/
theorem names_set (lexemes : List Lexeme) :
    names (Lexeme.set v tail lexemes) =
      ((names lexemes).1.map v.ident, Lexeme.set v tail (names lexemes).2) := by
  fun_induction names lexemes with
  | case1 name line rest hArrow =>
      have hNext : arrowNext (Lexeme.set v tail rest) = true := by rwa [arrowNext_set hTail]
      rw [Lexeme.set_cons, Respelling.lexeme, Respelling.token, names, if_pos hNext]
      rfl
  | case2 name line rest hArrow more ih =>
      have hNext : ¬ arrowNext (Lexeme.set v tail rest) = true := by rwa [arrowNext_set hTail]
      rw [Lexeme.set_cons, Respelling.lexeme, Respelling.token, names, if_neg hNext, ih]
      rfl
  | case3 rest hRest =>
      cases rest with
      | nil => exact names_of_atBoundary hTail
      | cons l rest =>
          obtain ⟨token, line⟩ := l
          cases token with
          | identifier name => exact (hRest name line rest rfl).elim
          | _ => rfl

omit hTail in
theorem body_of_none {lexemes rest : List Lexeme} (h : names lexemes = ([], rest)) :
    body lexemes = ⟨[.reject .symbol rest.head?], none, rest⟩ := by
  rw [body]
  generalize names lexemes = run at h
  subst h
  rfl

/-- The tail begins with no pipe. -/
theorem exists_pipe_of_set {lexemes others : List Lexeme} {line : Nat}
    (h : Lexeme.set v tail lexemes = ⟨.pipe, line⟩ :: others) :
    ∃ pipe rest, lexemes = ⟨.pipe, pipe⟩ :: rest := by
  cases lexemes with
  | nil => exact (ne_pipe_of_atBoundary hTail line others h).elim
  | cons l rest =>
      obtain ⟨token, pipe⟩ := l
      obtain ⟨hPipe, -⟩ := List.cons.inj h
      cases token with
      | pipe => exact ⟨pipe, rest, rfl⟩
      | _ => cases hPipe

/-- The induction is on the alternatives, as many of them as end in a pipe. -/
theorem body_set (lexemes : List Lexeme) :
    body (Lexeme.set v tail lexemes) =
      ⟨(body lexemes).steps.map (Step.set v tail),
        (body lexemes).alternatives.map (.map (.map v.ident)),
        Lexeme.set v tail (body lexemes).rest⟩ := by
  induction hLength : lexemes.length using Nat.strongRecOn generalizing lexemes with
  | ind length ih =>
      have hSet := names_set (v := v) hTail lexemes
      cases hRun : OneOrMore.ofList? (names lexemes).1 with
      | none =>
          have hNames : names lexemes = ([], (names lexemes).2) :=
            Prod.ext (OneOrMore.eq_nil_of_ofList? hRun) rfl
          rw [hNames] at hSet
          rw [body_of_none hNames, body_of_none hSet, List.map_singleton, set_reject]
          rfl
      | some alternative =>
          have hNames : names lexemes = (alternative.toList, (names lexemes).2) :=
            Prod.ext (OneOrMore.toList_of_ofList? hRun).symm rfl
          have hSymbols : alternative.toList.map v.ident =
            OneOrMore.toList (alternative.map v.ident) := rfl
          rw [hNames, hSymbols] at hSet
          by_cases hPipe : ∃ pipe others, (names lexemes).2 = ⟨.pipe, pipe⟩ :: others
          · obtain ⟨pipe, others, hRest⟩ := hPipe
            rw [hRest] at hNames hSet
            rw [Lexeme.set_cons] at hSet
            change names _ = (_, ⟨.pipe, v.line pipe⟩ :: _) at hSet
            have hShorter : others.length < length := by
              have hLe := length_names_le lexemes
              rw [hRest, List.length_cons] at hLe
              omega
            rw [body_of_pipe hNames, body_of_pipe hSet, ih _ hShorter others rfl, List.map_append,
              map_set_stepsOf, List.map_cons, Option.map_map, Option.map_map]
            rfl
          · have hLast : ∀ pipe others, (names lexemes).2 ≠ ⟨.pipe, pipe⟩ :: others :=
              fun pipe others hRest => hPipe ⟨pipe, others, hRest⟩
            have hSetLast : ∀ pipe others,
                Lexeme.set v tail (names lexemes).2 ≠ ⟨.pipe, pipe⟩ :: others :=
              fun pipe others hRest => hPipe (exists_pipe_of_set hTail hRest)
            rw [body_of_last hNames hLast, body_of_last hSet hSetLast, map_set_stepsOf]
            rfl

theorem rule_set (header : Ident) (lexemes : List Lexeme) :
    rule (v.ident header) (Lexeme.set v tail lexemes) = (rule header lexemes).set v tail := by
  rw [rule, rule, body_set hTail]
  cases (body lexemes).alternatives with
  | none => simp only [Option.map_none, skip_set hTail, set_after]
  | some alternatives =>
      simp only [Option.map_some, set_after, ← finish_set hTail]
      rfl

theorem terminals_set (lexemes : List Lexeme) :
    terminals (Lexeme.set v tail lexemes) = (terminals lexemes).set v tail := by
  rw [terminals, terminals, names_set hTail, OneOrMore.ofList?_map]
  cases OneOrMore.ofList? (names lexemes).1 with
  | none => exact rejectHere_set hTail ..
  | some declared =>
      simp only [Option.map_some, set_after, ← finish_set hTail, List.map_flatMap,
        List.flatMap_map]
      rfl

/-- So is a `%start` directive, unless the tail gives it the name that it lacks. -/
theorem startSymbol_set {lexemes : List Lexeme}
    (hName : lexemes = [] → ∀ (x : Ident) (rest : List Lexeme), tail ≠ x.lexeme :: rest) :
    startSymbol (Lexeme.set v tail lexemes) = (startSymbol lexemes).set v tail := by
  fun_cases startSymbol lexemes with
  | case1 name line rest =>
      rw [set_after, ← finish_set hTail]
      rfl
  | case2 _ hNone =>
      rw [← rejectHere_set hTail]
      apply startSymbol_of_ne
      cases lexemes with
      | nil => exact hName rfl
      | cons l rest =>
          intro x others hFirst
          obtain ⟨token, line⟩ := l
          cases token with
          | identifier name => exact hNone name line rest rfl
          | _ => cases hFirst

/-- So is every construct, under the same reservation. -/
theorem one_set {l : Lexeme} {lexemes : List Lexeme}
    (hName : l.token = .startDirective → lexemes = [] →
      ∀ (x : Ident) (rest : List Lexeme), tail ≠ x.lexeme :: rest) :
    one (v.lexeme l) (Lexeme.set v tail lexemes) = (one l lexemes).set v tail := by
  obtain ⟨token, line⟩ := l
  cases token with
  | blankLine => rfl
  | tokenDirective =>
      simp only [one, Respelling.lexeme, Respelling.token, terminals_set hTail, set_after]
      rfl
  | startDirective =>
      simp only [one, Respelling.lexeme, Respelling.token, startSymbol_set hTail (hName rfl),
        set_after]
      rfl
  | identifier name =>
      have hArrow := arrowNext_set (v := v) hTail lexemes
      cases hNext : arrowNext lexemes with
      | true =>
          obtain ⟨arrow, rest, rfl⟩ := exists_of_arrowNext hNext
          simp only [one, set_after, ← rule_set hTail]
          rfl
      | false =>
          rw [hNext] at hArrow
          have hSet := one_of_name hArrow (v.ident ⟨name, line⟩)
          have hAlone := one_of_name hNext ⟨name, line⟩
          rw [Ident.lexeme] at hAlone
          rw [hAlone, set_after, ← skip_set hTail, List.map_cons, set_reject]
          exact hSet
  | _ =>
      simp only [one, Respelling.lexeme, Respelling.token, skip_set hTail, set_after]
      rfl

end

end Passage

namespace Step

/-- The steps that read some lexemes are the same in every setting, and what comes behind is read as
it is alone. The induction is on what is left of the lexemes. -/
theorem ofLexemes_set {lexemes tail : List Lexeme} (h : Apart lexemes tail) (v : Respelling) :
    ofLexemes (Lexeme.set v tail lexemes) =
      (ofLexemes lexemes).map (set v tail) ++ ofLexemes tail := by
  induction hLength : lexemes.length using Nat.strongRecOn generalizing lexemes with
  | ind length ih =>
      cases lexemes with
      | nil =>
          rw [ofLexemes.eq_1]
          rfl
      | cons l lexemes =>
          have hShorter : (Passage.one l lexemes).rest.length < length := by
            have hLe := Passage.length_rest_one_le l lexemes
            rw [List.length_cons] at hLength
            omega
          have hRest : Apart (Passage.one l lexemes).rest tail :=
            h.of_suffix ((Passage.rest_one_suffix l lexemes).trans (List.suffix_cons l lexemes))
          have hName : l.token = .startDirective → lexemes = [] →
              ∀ (x : Ident) (rest : List Lexeme), tail ≠ x.lexeme :: rest := by
            rintro hToken rfl
            apply h.start [] l.line
            rw [List.nil_append, ← hToken]
          rw [Lexeme.set_cons, ofLexemes, Passage.one_set h.boundary hName]
          simp only [Passage.set]
          rw [ih _ hShorter hRest rfl, ofLexemes, List.map_append, List.append_assoc]

/-- In another spelling, lexemes are read in the same steps. -/
theorem ofLexemes_map (v : Respelling) (lexemes : List Lexeme) :
    ofLexemes (lexemes.map v.lexeme) = (ofLexemes lexemes).map (set v []) := by
  have hSet := ofLexemes_set (Tail.nil.apart lexemes) v
  rwa [Lexeme.set, List.append_nil, ofLexemes.eq_1, List.append_nil] at hSet

/-- A text further down takes the same steps further down. -/
theorem ofLexemes_lower (n : Nat) (lexemes : List Lexeme) :
    ofLexemes (lexemes.map (Lexeme.lower n)) = (ofLexemes lexemes).map (set (.lower n) []) := by
  rw [← Respelling.lexeme_lower, ofLexemes_map]

/-- Lexemes apart from each other are read one after the other. -/
theorem ofLexemes_append {lexemes tail : List Lexeme} (h : Apart lexemes tail) :
    ofLexemes (lexemes ++ tail) =
      (ofLexemes lexemes).map (set (.lower 0) tail) ++ ofLexemes tail := by
  have hSet := ofLexemes_set h (.lower 0)
  have hSame : lexemes.map (Respelling.lower 0).lexeme = lexemes := by
    rw [Respelling.lexeme_lower]
    exact List.map_id' lexemes
  rwa [Lexeme.set, hSame] at hSet

/-- A blank line cuts the steps of a text in two: neither side sees past it. -/
theorem ofLexemes_blankLine (front : List Lexeme) (line : Nat) (behind : List Lexeme) :
    ofLexemes (front ++ ⟨.blankLine, line⟩ :: behind) =
      (ofLexemes front).map (set (.lower 0) [⟨.blankLine, line⟩]) ++
        .shift ⟨.blankLine, line⟩ :: ofLexemes behind := by
  have hAppend := ofLexemes_append ((Tail.blankLine line behind).apart front)
  -- Of the tail a step can only show the first lexeme.
  have hHead : set (.lower 0) (⟨.blankLine, line⟩ :: behind) =
      set (.lower 0) [⟨.blankLine, line⟩] := by
    funext step
    cases step <;> rfl
  have hBlank : ofLexemes (⟨.blankLine, line⟩ :: behind) =
      .shift ⟨.blankLine, line⟩ :: ofLexemes behind := by
    rw [ofLexemes]
    rfl
  rwa [hHead, hBlank] at hAppend

variable {seen : Bool} {lexemes : List Lexeme}

/-- The steps up to a blank line do not depend on what is below, and the steps below do not depend
on what is above. -/
theorem ofLexemes_append_of_endsBlank (h : TokenStream.EndsBlank seen lexemes)
    (below : List Lexeme) :
    ofLexemes (lexemes ++ below) = ofLexemes lexemes ++ ofLexemes below := by
  cases h with
  | nothing => rw [ofLexemes.eq_1, List.nil_append, List.nil_append]
  | blankLine front line =>
      rw [List.append_assoc, List.singleton_append, ofLexemes_blankLine, ofLexemes_blankLine,
        ofLexemes.eq_1, List.append_assoc]
      rfl

/-- Above a blank line nothing is rejected for the end of the text. -/
theorem reject_none_not_mem_of_endsBlank (h : TokenStream.EndsBlank seen lexemes)
    (expected : Expectation) : .reject expected none ∉ ofLexemes lexemes := by
  cases h with
  | nothing => simp [ofLexemes.eq_1]
  | blankLine front line =>
      rw [ofLexemes_blankLine, ofLexemes.eq_1]
      intro hMem
      rcases List.mem_append.1 hMem with hFront | hBlank
      · obtain ⟨step, -, hStep⟩ := List.mem_map.1 hFront
        cases step with
        | reject _ found => cases found <;> cases hStep
        | _ => cases hStep
      · cases List.mem_singleton.1 hBlank

end Step

end GrammarCheck
