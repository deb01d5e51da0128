import GrammarCheck.Proofs.Source.BlankLine
import GrammarCheck.Proofs.Step.Phase

/-! The first fault in how a text is written. The tokens of a text are viable as far as a text as it
should be can begin with them, and the first defect is reported where they cease to be. -/

namespace GrammarCheck

namespace Token

/-- The tokens of a text as it should be: those of blank lines and constructs, and then the end. -/
def WellFormed (tokens : List (Option Token)) : Prop :=
  ∃ parts : List Part, tokens = Lexeme.toEnd (parts.flatMap Part.lexemes)

/-- Tokens with which a text as it should be can begin. -/
def Viable (tokens : List (Option Token)) : Prop := ∃ more, WellFormed (tokens ++ more)

/-- The position of the first token up to which the tokens are not viable. -/
structure FirstUnviable (tokens : List (Option Token)) (position : Nat) : Prop where
  lt_length : position < tokens.length
  viable_take_iff : ∀ n, Viable (tokens.take n) ↔ n ≤ position

end Token

namespace Phase

open Lexeme Token

/-- Tokens that the automaton never stops at lead to a phase. -/
theorem exists_run_of_stop {phase : Phase} {tokens : List (Option Token)}
    (h : phase.stop tokens = []) : ∃ later, phase.run tokens = some later := by
  induction tokens generalizing phase with
  | nil => exact ⟨phase, rfl⟩
  | cons token tokens ih =>
      rw [stop] at h
      cases hNext : phase.next token with
      | none =>
          rw [hNext] at h
          cases h
      | some next =>
          rw [hNext] at h
          obtain ⟨later, hRun⟩ := ih h
          refine ⟨later, ?_⟩
          rw [run, hNext]
          exact hRun

/-- The automaton goes through every text as it should be. -/
theorem stop_eq_nil_of_wellFormed {tokens : List (Option Token)} (h : WellFormed tokens) :
    stop .outside tokens = [] := by
  obtain ⟨parts, rfl⟩ := h
  induction parts with
  | nil => rfl
  | cons part parts ih =>
      obtain ⟨phase, hBetween, hRun, -⟩ := exists_run_part part
      rw [List.flatMap_cons, toEnd_append, stop_append hRun,
        hBetween.stop_toEnd (Passage.atBoundary_flatMap parts), ih]

/-- The end of a text leads to no other phase than the last. -/
theorem next_none {phase later : Phase} (h : phase.next none = some later) : later = .ended := by
  cases phase with
  | one inRule => cases inRule <;> cases h <;> rfl
  | many inRule => cases inRule <;> cases h <;> rfl
  | _ => cases h <;> rfl

theorem next_some_ne_ended {phase later : Phase} {token : Token}
    (h : phase.next (some token) = some later) : later ≠ .ended := by
  rintro rfl
  cases phase with
  | one inRule => cases inRule <;> cases token <;> cases h
  | many inRule => cases inRule <;> cases token <;> cases h
  | _ => cases token <;> cases h

/-- Only the end of a text leads to the last phase, and nothing leads on from there. -/
theorem exists_toEnd_of_run {phase : Phase} {tokens : List (Option Token)}
    (hPhase : phase ≠ .ended) (h : phase.run tokens = some .ended) :
    ∃ lexemes, tokens = toEnd lexemes := by
  induction tokens generalizing phase with
  | nil => exact absurd (Option.some.inj h) hPhase
  | cons token tokens ih =>
      rw [run] at h
      obtain ⟨later, hNext, hRun⟩ := Option.bind_eq_some_iff.1 h
      cases token with
      | none =>
          obtain rfl := next_none hNext
          cases tokens with
          | nil => exact ⟨[], rfl⟩
          | cons token tokens => cases hRun
      | some token =>
          obtain ⟨lexemes, rfl⟩ := ih (next_some_ne_ended hNext) hRun
          exact ⟨⟨token, 0⟩ :: lexemes, rfl⟩

/-- Some tokens that complete a text, whatever its phase is. -/
def complete : Phase → List (Option Token)
  | .header => [some .arrow, some (.identifier "x"), none]
  | .start => [some (.identifier "x"), none]
  | .first _ => [some (.identifier "x"), none]
  | .ended => []
  | _ => [none]

/-- From each phase there is a way to complete the text. -/
theorem run_complete (phase : Phase) : phase.run phase.complete = some .ended := by
  cases phase <;> rfl

/-- Whatever the automaton goes through to its last phase is a text as it should be: reading it, a
first rejection would stop the automaton. -/
theorem wellFormed_of_run {tokens : List (Option Token)}
    (h : run .outside tokens = some .ended) : WellFormed tokens := by
  obtain ⟨lexemes, rfl⟩ := exists_toEnd_of_run (by decide) h
  have hNone : Step.rejected (Step.ofLexemes lexemes) = [] := by
    by_contra hRejected
    obtain ⟨expected, left, later, -, -, hStops⟩ :=
      (Step.courses_ofLexemes _).exists_first_rejected hRejected
    rw [stop_eq_nil_of_run h] at hStops
    exact hStops.ne_nil rfl
  obtain ⟨parts, hSpell⟩ := Step.exists_parts_of_accepting (Step.accepting_of_rejected hNone)
  exact ⟨parts, by rw [hSpell]⟩

end Phase

namespace Token

/-- Tokens can begin a text exactly when the automaton can take them. -/
theorem viable_iff_run {tokens : List (Option Token)} :
    Viable tokens ↔ ∃ phase, Phase.run .outside tokens = some phase := by
  constructor
  · rintro ⟨more, hWellFormed⟩
    obtain ⟨later, hRun⟩ :=
      Phase.exists_run_of_stop (Phase.stop_eq_nil_of_wellFormed hWellFormed)
    rw [Phase.run_append] at hRun
    obtain ⟨phase, hPhase, -⟩ := Option.bind_eq_some_iff.1 hRun
    exact ⟨phase, hPhase⟩
  · rintro ⟨phase, hRun⟩
    refine ⟨phase.complete, Phase.wellFormed_of_run ?_⟩
    rw [Phase.run_append_of_run hRun, phase.run_complete]

/-- The automaton tells where tokens cease to be viable. -/
theorem firstUnviable_of_run {front rest : List (Option Token)} {token : Option Token}
    {phase : Phase} (hRun : Phase.run .outside front = some phase)
    (hNext : phase.next token = none) :
    FirstUnviable (front ++ token :: rest) front.length where
  lt_length := by
    rw [List.length_append, List.length_cons]
    omega
  viable_take_iff := by
    intro n
    rw [viable_iff_run]
    constructor
    · rintro ⟨later, hLater⟩
      by_contra hLong
      obtain ⟨m, rfl⟩ : ∃ m, n = front.length + (m + 1) := ⟨n - front.length - 1, by omega⟩
      rw [List.take_length_add_append, List.take_succ_cons, Phase.run_append_of_run hRun,
        Phase.run, hNext] at hLater
      cases hLater
    · intro hShort
      rw [List.take_append_of_le_length hShort]
      rw [← List.take_append_drop n front, Phase.run_append] at hRun
      obtain ⟨later, hLater, -⟩ := Option.bind_eq_some_iff.1 hRun
      exact ⟨later, hLater⟩

end Token

namespace TokenStream

/-- A lexeme as it is met in a text that can also end. -/
def entry (stream : TokenStream) : Option Lexeme → Option Token × Nat
  | some l => (some l.token, l.line)
  | none => (none, stream.endLine)

/-- The tokens up to the end are the lexemes as they are met, with the end of the text on its
line. -/
theorem toEnd_eq_map_entry (stream : TokenStream) :
    stream.toEnd = (Lexeme.met stream.lexemes).map stream.entry := by
  rw [toEnd, tokens, Lexeme.met, List.map_append, List.map_map]
  rfl

theorem map_fst_toEnd (stream : TokenStream) :
    stream.toEnd.map Prod.fst = Lexeme.toEnd stream.lexemes := by
  rw [toEnd, tokens, List.map_append, List.map_map]
  rfl

end TokenStream

/-- Whether a fault is that of a token that cannot be where it is. -/
def Fault.Blames (fault : Fault) : Option Token → Prop
  | some (.error e) => fault = .lexical e
  | token => ∃ expected, fault = .unexpected expected token

def Defect.Blames (file : FileName) (d : Defect) (entry : Option Token × Nat) : Prop :=
  d.location = ⟨file, entry.2⟩ ∧ d.cause.Blames entry.1

theorem Defect.blames_ofRejected (file : FileName) (stream : TokenStream)
    (r : Expectation × Option Lexeme) :
    (Defect.ofRejected file stream.endLine r).Blames file (stream.entry r.2) := by
  obtain ⟨expected, found⟩ := r
  cases found with
  | none => exact ⟨rfl, expected, rfl⟩
  | some l =>
      obtain ⟨token, line⟩ := l
      cases token with
      | error e => exact ⟨rfl, rfl⟩
      | _ => exact ⟨rfl, expected, rfl⟩

namespace Grammar

open Phase Token

/-- The first defect in how a text is written is that of the first token up to which the tokens are
not viable, or of a name in front of it. -/
theorem malformed_first (file : FileName) (text : List Char)
    (h : ¬ WellFormed ((TokenStream.ofText text).toEnd.map Prod.fst)) :
    ∃ first blamed entry d later,
      FirstUnviable ((TokenStream.ofText text).toEnd.map Prod.fst) first ∧
      (TokenStream.ofText text).toEnd[blamed]? = some entry ∧
      (blamed = first ∨ blamed + 1 = first ∧ ∃ name, entry.1 = some (.identifier name)) ∧
      malformed (ofText file text) = d :: later ∧ Defect.Blames file d entry := by
  rw [malformed_eq_map_rejected]
  rw [TokenStream.map_fst_toEnd] at h ⊢
  rw [TokenStream.toEnd_eq_map_entry]
  generalize TokenStream.ofText text = stream at h ⊢
  have hRejected : Step.rejected (Step.ofLexemes stream.lexemes) ≠ [] := by
    intro hNone
    obtain ⟨parts, hSpell⟩ := Step.exists_parts_of_accepting (Step.accepting_of_rejected hNone)
    exact h ⟨parts, by rw [hSpell]⟩
  obtain ⟨expected, left, later, ⟨above, hSplit⟩, hFirst, hStops⟩ :=
    (Step.courses_ofLexemes _).exists_first_rejected hRejected
  obtain ⟨token, rest, hStop⟩ := List.exists_cons_of_ne_nil hStops.ne_nil
  obtain ⟨front, phase, hFront, hRun, hNext⟩ := stop_eq_cons_iff.1 hStop
  have hEntry : ((Lexeme.met stream.lexemes).map stream.entry)[above.length]? =
      some (stream.entry left.head?) := by
    rw [List.getElem?_map, ← hSplit, Lexeme.getElem?_met_append]
    rfl
  rw [hFirst, hFront]
  refine ⟨front.length, above.length, _, _, _, firstUnviable_of_run hRun hNext, hEntry, ?_, rfl,
    Defect.blames_ofRejected file stream (expected, left.head?)⟩
  have hHead : (Lexeme.toEnd left).head? = some (stream.entry left.head?).1 := by
    cases left <;> rfl
  rw [← hSplit, Lexeme.toEnd_append] at hFront
  rw [hStop] at hStops
  generalize Lexeme.toEnd left = tokens at hStops hFront hHead
  cases hStops with
  | here =>
      left
      rw [← List.append_cancel_right hFront, Lexeme.tokens, List.length_map]
  | behind name =>
      right
      rw [← List.singleton_append, ← List.append_assoc] at hFront
      rw [← List.append_cancel_right hFront, List.length_append, Lexeme.tokens, List.length_map]
      exact ⟨rfl, name, (Option.some.inj hHead).symm⟩

/-- A second symbol behind `%start` could still head a rule, but with the text at its end it
cannot. -/
theorem malformed_first_start :
    ¬ WellFormed ((TokenStream.ofText "%start s t".toList).toEnd.map Prod.fst) ∧
      ∃ first blamed entry d later,
        FirstUnviable ((TokenStream.ofText "%start s t".toList).toEnd.map Prod.fst) first ∧
        (TokenStream.ofText "%start s t".toList).toEnd[blamed]? = some entry ∧
        (blamed = first ∨ blamed + 1 = first ∧ ∃ name, entry.1 = some (.identifier name)) ∧
        malformed (ofText ⟨""⟩ "%start s t".toList) = d :: later ∧
        Defect.Blames ⟨""⟩ d entry := by
  have hTokens : (TokenStream.ofText "%start s t".toList).toEnd.map Prod.fst =
      [some .startDirective, some (.identifier "s"), some (.identifier "t"), none] := by
    decide +kernel
  have hNot : ¬ WellFormed ((TokenStream.ofText "%start s t".toList).toEnd.map Prod.fst) := by
    intro hWellFormed
    have hStop := stop_eq_nil_of_wellFormed hWellFormed
    rw [hTokens] at hStop
    cases hStop
  exact ⟨hNot, malformed_first ⟨""⟩ "%start s t".toList hNot⟩

end Grammar

end GrammarCheck
