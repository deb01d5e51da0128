import GrammarCheck.Proofs.Step.Rejected

/-! The phases of a text that is written as it should be. They make a finite automaton over the
tokens, which goes on as long as the text can still become such a text. Where reading rejects
something, the automaton stops at that token, or behind it when it is a name. -/

namespace GrammarCheck

/-- Where a text is, by what may come next. -/
inductive Phase where
  /-- In front of a construct, with no name that could belong to the one before. -/
  | outside
  /-- Behind the name that heads a rule. -/
  | header
  /-- Behind `%start`. -/
  | start
  /-- In front of the first name of an alternative, or else of a `%token` directive. -/
  | first (inRule : Bool)
  /-- Behind the first name. -/
  | one (inRule : Bool)
  /-- Behind more names, the last of which may also head a rule. -/
  | many (inRule : Bool)
  /-- Behind the end of the text. -/
  | ended
  deriving DecidableEq

namespace Phase

/-- The phase behind a token that can come wherever a construct may end. -/
def between : Option Token → Option Phase
  | some .startDirective => some .start
  | some .tokenDirective => some (.first false)
  | some .blankLine => some .outside
  | none => some .ended
  | _ => none

/-- The phase behind the next token, if the token can come here. -/
def next : Phase → Option Token → Option Phase
  | .outside, some (.identifier _) => some .header
  | .outside, token => between token
  | .header, some .arrow => some (.first true)
  | .start, some (.identifier _) => some .outside
  | .first inRule, some (.identifier _) => some (.one inRule)
  | .one inRule, some (.identifier _) => some (.many inRule)
  | .one true, some .pipe => some (.first true)
  | .one _, token => between token
  | .many inRule, some (.identifier _) => some (.many inRule)
  | .many true, some .pipe => some (.first true)
  | .many _, some .arrow => some (.first true)
  | .many _, token => between token
  | _, _ => none

def run : Phase → List (Option Token) → Option Phase
  | phase, [] => some phase
  | phase, token :: tokens => (phase.next token).bind (run · tokens)

/-- What is left from the first token on that cannot come. -/
def stop : Phase → List (Option Token) → List (Option Token)
  | _, [] => []
  | phase, token :: tokens =>
      match phase.next token with
      | none => token :: tokens
      | some later => stop later tokens

theorem run_append (phase : Phase) (tokens others : List (Option Token)) :
    phase.run (tokens ++ others) = (phase.run tokens).bind (run · others) := by
  induction tokens generalizing phase with
  | nil => rfl
  | cons token tokens ih =>
      rw [List.cons_append, run, run]
      cases phase.next token with
      | none => rfl
      | some later => exact ih later

theorem run_append_of_run {phase later : Phase} {tokens : List (Option Token)}
    (h : phase.run tokens = some later) (others : List (Option Token)) :
    phase.run (tokens ++ others) = later.run others := by
  rw [run_append, h]
  rfl

/-- Where the first tokens can all come, the automaton stops at one of the others. -/
theorem stop_append {phase later : Phase} {tokens : List (Option Token)}
    (h : phase.run tokens = some later) (others : List (Option Token)) :
    phase.stop (tokens ++ others) = later.stop others := by
  induction tokens generalizing phase with
  | nil =>
      cases h
      rfl
  | cons token tokens ih =>
      rw [run] at h
      rw [List.cons_append, stop]
      cases hNext : phase.next token with
      | none =>
          rw [hNext] at h
          cases h
      | some next =>
          rw [hNext] at h
          exact ih h

theorem stop_of_next {phase : Phase} {token : Option Token} (h : phase.next token = none)
    (tokens : List (Option Token)) : phase.stop (token :: tokens) = token :: tokens := by
  rw [stop, h]

/-- The automaton stops in front of a token exactly if it cannot go on there. -/
theorem stop_eq_cons_iff {phase : Phase} {tokens rest : List (Option Token)}
    {token : Option Token} :
    phase.stop tokens = token :: rest ↔ ∃ front later, tokens = front ++ token :: rest ∧
      phase.run front = some later ∧ later.next token = none := by
  constructor
  · intro h
    induction tokens generalizing phase with
    | nil => cases h
    | cons first tokens ih =>
        rw [stop] at h
        cases hNext : phase.next first with
        | none =>
            rw [hNext] at h
            cases h
            exact ⟨[], phase, rfl, rfl, hNext⟩
        | some next =>
            rw [hNext] at h
            obtain ⟨front, later, rfl, hRun, hLater⟩ := ih h
            refine ⟨first :: front, later, rfl, ?_, hLater⟩
            rw [run, hNext]
            exact hRun
  · rintro ⟨front, later, rfl, hRun, hNext⟩
    rw [stop_append hRun, stop_of_next hNext]

theorem stop_eq_nil_of_run {phase later : Phase} {tokens : List (Option Token)}
    (h : phase.run tokens = some later) : phase.stop tokens = [] := by
  have hStop := stop_append h []
  rwa [List.append_nil] at hStop

/-- Behind one or more names, where the construct they belong to may end. -/
inductive Named (inRule : Bool) : Phase → Prop where
  | one : Named inRule (.one inRule)
  | many : Named inRule (.many inRule)

inductive Between : Phase → Prop where
  | outside : Between .outside
  | named {phase : Phase} {inRule : Bool} (h : Named inRule phase) : Between phase

end Phase

def Lexeme.tokens (lexemes : List Lexeme) : List (Option Token) :=
  lexemes.map fun l => some l.token

def Lexeme.toEnd (lexemes : List Lexeme) : List (Option Token) := tokens lexemes ++ [none]

namespace Lexeme

theorem tokens_append (lexemes others : List Lexeme) :
    tokens (lexemes ++ others) = tokens lexemes ++ tokens others := List.map_append

theorem toEnd_append (lexemes others : List Lexeme) :
    toEnd (lexemes ++ others) = tokens lexemes ++ toEnd others := by
  rw [toEnd, tokens_append, List.append_assoc, ← toEnd]

end Lexeme

namespace Phase

open Lexeme

theorem run_many (inRule : Bool) (names : List Ident) :
    run (.many inRule) (tokens (names.map Ident.lexeme)) = some (.many inRule) := by
  induction names with
  | nil => rfl
  | cons x names ih => exact ih

/-- One or more names are read as the names of an alternative or a directive. -/
theorem exists_run_names (inRule : Bool) (names : OneOrMore Ident) :
    ∃ phase, Named inRule phase ∧
      run (.first inRule) (tokens (names.toList.map Ident.lexeme)) = some phase := by
  obtain ⟨x, names⟩ := names
  cases names with
  | nil => exact ⟨_, .one, rfl⟩
  | cons y names => exact ⟨_, .many, run_many inRule names⟩

theorem Named.next_pipe {phase : Phase} (h : Named true phase) :
    phase.next (some .pipe) = some (.first true) := by
  cases h <;> rfl

/-- An alternative with its pipe leads back to where an alternative begins. -/
theorem run_alternative (alternative : Alternative) (pipe : Nat) :
    run (.first true) (tokens (alternative.toList.map Ident.lexeme ++ [⟨.pipe, pipe⟩])) =
      some (.first true) := by
  obtain ⟨phase, hNamed, hRun⟩ := exists_run_names true alternative
  rw [tokens_append, run_append_of_run hRun]
  exact congrArg (Option.bind · some) hNamed.next_pipe

/-- The right-hand side of a rule ends behind a name of the last alternative. -/
theorem exists_run_body (body : RuleBody) :
    ∃ phase, Named true phase ∧ run (.first true) (tokens body.lexemes) = some phase := by
  induction body with
  | last alternative => exact exists_run_names true alternative
  | more alternative pipe others ih =>
      obtain ⟨phase, hNamed, hRun⟩ := ih
      refine ⟨phase, hNamed, ?_⟩
      rw [RuleBody.lexemes, ← List.singleton_append, ← List.append_assoc, tokens_append,
        run_append_of_run (run_alternative alternative pipe), hRun]

theorem run_finishedLexemes (finished : List (Alternative × Nat)) :
    run (.first true) (tokens (RuleBody.finishedLexemes finished)) = some (.first true) := by
  induction finished with
  | nil => rfl
  | cons first finished ih =>
      obtain ⟨alternative, pipe⟩ := first
      rw [RuleBody.finishedLexemes, List.flatMap_cons, tokens_append,
        run_append_of_run (run_alternative alternative pipe)]
      exact ih

/-- A part goes from a place where a construct can begin to one where it may end. -/
theorem exists_run_part (part : Part) :
    ∃ phase, Between phase ∧ run .outside (tokens part.lexemes) = some phase ∧
      ((∃ line, part = .blank line) → phase = .outside) := by
  cases part with
  | blank line => exact ⟨.outside, .outside, rfl, fun _ => rfl⟩
  | start line symbol => exact ⟨.outside, .outside, rfl, fun _ => rfl⟩
  | terminals line names =>
      obtain ⟨phase, hNamed, hRun⟩ := exists_run_names false names
      exact ⟨phase, .named hNamed, hRun, by rintro ⟨_, h⟩; cases h⟩
  | rule header arrow body =>
      obtain ⟨phase, hNamed, hRun⟩ := exists_run_body body
      exact ⟨phase, .named hNamed, hRun, by rintro ⟨_, h⟩; cases h⟩

/-- Behind a construct that may end at a boundary, the automaton goes on as if none had come
before. -/
theorem Between.stop_toEnd {phase : Phase} (h : Between phase) {rest : List Lexeme}
    (hRest : Passage.atBoundary rest = true) :
    phase.stop (toEnd rest) = stop .outside (toEnd rest) := by
  cases h with
  | outside => rfl
  | named hNamed =>
      cases rest with
      | nil => cases hNamed <;> rfl
      | cons l rest =>
          obtain ⟨token, line⟩ := l
          cases token with
          | identifier name =>
              obtain ⟨arrow, others, rfl⟩ := Passage.exists_of_arrowNext hRest
              cases hNamed <;> rfl
          | startDirective => cases hNamed <;> rfl
          | tokenDirective => cases hNamed <;> rfl
          | blankLine => cases hNamed <;> rfl
          | _ => cases hRest

end Phase

inductive Fragment.Ends : Fragment → Phase → Prop where
  | construct : Ends .construct .outside
  | arrow (name : Ident) : Ends (.arrow name) .header
  | symbol (header : Ident) (arrow : Nat) (finished : List (Alternative × Nat)) :
      Ends (.symbol header arrow finished) (.first true)
  | ruleEnd (header : Ident) (arrow : Nat) (body : RuleBody) {phase : Phase}
      (h : phase.Named true) : Ends (.ruleEnd header arrow body) phase
  | terminalAfterDirective (line : Nat) : Ends (.terminalAfterDirective line) (.first false)
  | terminal (line : Nat) (names : OneOrMore Ident) {phase : Phase} (h : phase.Named false) :
      Ends (.terminal line names) phase
  | startAfterDirective (line : Nat) : Ends (.startAfterDirective line) .start
  | startEnd (line : Nat) (name : Ident) : Ends (.startEnd line name) .outside

namespace Phase

open Lexeme

/-- The automaton takes a whole fragment, up to where it breaks off. -/
theorem exists_run_fragment (fragment : Fragment) :
    ∃ phase, fragment.Ends phase ∧ run .outside (tokens fragment.lexemes) = some phase := by
  cases fragment with
  | construct => exact ⟨_, .construct, rfl⟩
  | arrow name => exact ⟨_, .arrow name, rfl⟩
  | symbol header arrow finished =>
      exact ⟨_, .symbol header arrow finished, run_finishedLexemes finished⟩
  | ruleEnd header arrow body =>
      obtain ⟨phase, hNamed, hRun⟩ := exists_run_body body
      exact ⟨phase, .ruleEnd header arrow body hNamed, hRun⟩
  | terminalAfterDirective line => exact ⟨_, .terminalAfterDirective line, rfl⟩
  | terminal line names =>
      obtain ⟨phase, hNamed, hRun⟩ := exists_run_names false names
      exact ⟨phase, .terminal line names hNamed, hRun⟩
  | startAfterDirective line => exact ⟨_, .startAfterDirective line, rfl⟩
  | startEnd line name => exact ⟨_, .startEnd line name, rfl⟩

/-- The automaton stops at a token that was rejected, or behind it when it is a name. -/
inductive StopsAt : (left stopped : List (Option Token)) → Prop where
  | here (left : List (Option Token)) : StopsAt left left
  | behind (name : String) (token : Option Token) (rest : List (Option Token)) :
      StopsAt (some (.identifier name) :: token :: rest) (token :: rest)

theorem toEnd_ne_nil (lexemes : List Lexeme) : toEnd lexemes ≠ [] := by
  rw [toEnd]
  exact List.concat_ne_nil none _

/-- The automaton stops at something, be it the end of the text. -/
theorem StopsAt.ne_nil {lexemes : List Lexeme} {stopped : List (Option Token)}
    (h : StopsAt (toEnd lexemes) stopped) : stopped ≠ [] := by
  have hLeft := toEnd_ne_nil lexemes
  generalize toEnd lexemes = left at h hLeft
  cases h with
  | here => exact hLeft
  | behind name token rest => exact List.cons_ne_nil token rest

section

variable {phase : Phase} {left : List Lexeme}

/-- A lexeme that cannot come stops the automaton at once. -/
theorem stopsAt_of_next (h : phase.next (left.head?.map (·.token)) = none) :
    StopsAt (toEnd left) (phase.stop (toEnd left)) := by
  have hStop : phase.stop (toEnd left) = toEnd left := by
    cases left with
    | nil => exact stop_of_next h []
    | cons l left => exact stop_of_next h (toEnd left)
  rw [hStop]
  exact .here _

/-- A name that heads a rule could still be one more name, but the arrow behind it could not come
then. -/
theorem stopsAt_of_names (inRule : Bool) (h : (Passage.names left).1 = []) :
    StopsAt (toEnd left) ((first inRule).stop (toEnd left)) := by
  cases left with
  | nil => exact stopsAt_of_next rfl
  | cons l left =>
      obtain ⟨token, line⟩ := l
      cases token with
      | identifier name =>
          cases hArrow : Passage.arrowNext left with
          | true =>
              obtain ⟨arrow, others, rfl⟩ := Passage.exists_of_arrowNext hArrow
              have hStop : (first inRule).stop (toEnd (⟨.identifier name, line⟩ ::
                  ⟨.arrow, arrow⟩ :: others)) = some .arrow :: toEnd others := by
                cases inRule <;> rfl
              rw [hStop]
              exact .behind name _ _
          | false =>
              rw [Passage.names, if_neg (by rw [hArrow]; exact Bool.false_ne_true)] at h
              cases h
      | _ => exact stopsAt_of_next rfl

/-- Behind a name that cannot belong to the construct before, only an arrow could come. -/
theorem stopsAt_of_not_atBoundary (h : Passage.atBoundary left = false) :
    StopsAt (toEnd left) (outside.stop (toEnd left)) := by
  cases left with
  | nil => cases h
  | cons l left =>
      obtain ⟨token, line⟩ := l
      cases token with
      | identifier name =>
          have hArrow : Passage.arrowNext left = false := h
          cases left with
          | nil => exact .behind name none []
          | cons l left =>
              obtain ⟨token, line⟩ := l
              cases token with
              | arrow => cases hArrow
              | _ => exact .behind name _ _
      | arrow => exact stopsAt_of_next rfl
      | pipe => exact stopsAt_of_next rfl
      | error e => exact stopsAt_of_next rfl
      | _ => cases h

end

/-- What a fragment refuses stops the automaton behind it. -/
theorem stopsAt_of_refuses {fragment : Fragment} {phase : Phase} {left : List Lexeme}
    (hEnds : fragment.Ends phase) (h : fragment.expects.Refuses left) :
    StopsAt (toEnd left) (phase.stop (toEnd left)) := by
  cases hEnds with
  | construct =>
      cases h with
      | @construct l rest hToken =>
          apply stopsAt_of_next
          obtain ⟨token, line⟩ := l
          rcases hToken with hToken | hToken | ⟨e, hToken⟩ <;> cases hToken <;> rfl
  | arrow name =>
      cases h with
      | arrow hArrow =>
          apply stopsAt_of_next
          cases left with
          | nil => rfl
          | cons l left =>
              obtain ⟨token, line⟩ := l
              cases token with
              | arrow => cases hArrow
              | _ => rfl
  | symbol header arrow finished =>
      cases h with
      | symbol hNames => exact stopsAt_of_names true hNames
  | ruleEnd header arrow body hNamed =>
      cases h with
      | ruleEnd e line rest =>
          apply stopsAt_of_next
          cases hNamed <;> rfl
  | terminalAfterDirective line =>
      cases h with
      | terminalAfterDirective hNames => exact stopsAt_of_names false hNames
  | terminal line names hNamed =>
      cases h with
      | @terminal l rest hToken =>
          apply stopsAt_of_next
          obtain ⟨token, line⟩ := l
          rcases hToken with hToken | ⟨e, hToken⟩ <;> cases hToken <;> cases hNamed <;> rfl
  | startAfterDirective line =>
      cases h with
      | startAfterDirective hName =>
          apply stopsAt_of_next
          cases left with
          | nil => rfl
          | cons l left =>
              obtain ⟨token, line⟩ := l
              cases token with
              | identifier name => exact (hName ⟨name, line⟩ left rfl).elim
              | _ => rfl
  | startEnd line name =>
      cases h with
      | startEnd hBoundary => exact stopsAt_of_not_atBoundary hBoundary

end Phase

namespace Step

open Phase Lexeme

theorem accepting_of_rejected {steps : List Step} (h : rejected steps = []) : Accepting steps := by
  intro expected found hMem
  have hReject := List.filterMap_eq_nil_iff.1 h _ hMem
  cases hReject

/-- The first lexeme that is rejected is the one at which the automaton stops, or the name in front
of it. The induction is on the courses; up to the first fragment the text consists of parts. -/
theorem Courses.exists_first_rejected {lexemes : List Lexeme} {steps : List Step}
    (h : Courses lexemes steps) (hRejected : rejected steps ≠ []) :
    ∃ expected left later, left <:+ lexemes ∧
      rejected steps = (expected, left.head?) :: later ∧
      StopsAt (toEnd left) (stop .outside (toEnd lexemes)) := by
  induction h with
  | nil => exact absurd rfl hRejected
  | @part part rest later hRest _ ih =>
      rw [rejected_append, part.rejected_steps, List.nil_append] at hRejected ⊢
      obtain ⟨expected, left, others, hSuffix, hFirst, hStops⟩ := ih hRejected
      refine ⟨expected, left, others, hSuffix.trans (List.suffix_append _ _), hFirst, ?_⟩
      obtain ⟨phase, hBetween, hRun, hBlank⟩ := exists_run_part part
      have hSame : phase.stop (toEnd rest) = stop .outside (toEnd rest) := by
        rcases hRest with hBoundary | hLine
        · exact hBetween.stop_toEnd hBoundary
        · rw [hBlank hLine]
      rwa [toEnd_append, stop_append hRun, hSame]
  | @fragment fragment left rest passed later hRefuses hSuffix hRest _ _ =>
      obtain ⟨phase, hEnds, hRun⟩ := exists_run_fragment fragment
      rw [rejected_append, Passage.rejected_fragment]
      refine ⟨fragment.expects, left, _, List.suffix_append _ _, rfl, ?_⟩
      rw [toEnd_append, stop_append hRun]
      exact stopsAt_of_refuses hEnds hRefuses

end Step

end GrammarCheck
