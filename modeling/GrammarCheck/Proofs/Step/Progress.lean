import GrammarCheck.Proofs.Step.Cursor
import GrammarCheck.Token.Stream

/-! Progress of a cursor. Every pass leaves at least one lexeme behind and none goes on at the end
of the text, so a text takes no more passes than it has lexemes. -/

namespace GrammarCheck

namespace Cursor

/-- So many passes, one after the other. Behind the last lexeme there is no further one. -/
inductive Passes (limit : Nat) : Cursor → Cursor → Nat → Prop where
  | zero (c : Cursor) : Passes limit c c 0
  | succ {c d e : Cursor} {l : Lexeme} {passes : Nat} (prior : Passes limit c d passes)
      (hCurrent : d.current = some l) (last : d.pass l limit = some e) :
      Passes limit c e (passes + 1)

/-- A cursor on its way through some lexemes after a number of passes. Its steps are those of the
lexemes left behind, and there is one of them at least for each pass. -/
def Underway (lexemes : List Lexeme) (c : Cursor) (passes : Nat) : Prop :=
  ∃ front rest steps, c = between front rest steps ∧ front ++ rest = lexemes ∧
    steps ++ Step.ofLexemes rest = Step.ofLexemes lexemes ∧ passes ≤ front.length

variable {lexemes : List Lexeme} {c : Cursor} {l : Lexeme} {passes limit : Nat}

theorem underway_start (lexemes : List Lexeme) : Underway lexemes (start lexemes) 0 :=
  ⟨[], lexemes, [], rfl, rfl, rfl, Nat.le_refl _⟩

namespace Underway

/-- What the cursor has gone past are the first lexemes, none of them twice. -/
theorem passed_eq (h : Underway lexemes c passes) :
    c.passed = (lexemes.take c.consumed).map some := by
  obtain ⟨front, rest, steps, rfl, rfl, -, -⟩ := h
  rw [consumed_between, List.take_left]
  rfl

theorem passes_le (h : Underway lexemes c passes) : passes ≤ c.consumed := by
  obtain ⟨front, rest, steps, rfl, -, -, hPasses⟩ := h
  rwa [consumed_between]

/-- Each lexeme lies behind the cursor or before it. -/
theorem consumed_add (h : Underway lexemes c passes) :
    c.consumed + c.rest.length = lexemes.length := by
  obtain ⟨front, rest, steps, rfl, rfl, -, -⟩ := h
  rw [consumed_between, rest_between, List.length_append]

theorem current_eq_none_iff (h : Underway lexemes c passes) :
    c.current = none ↔ c.consumed = lexemes.length := by
  have hLength := h.consumed_add
  rw [current, List.head?_eq_none_iff, ← List.length_eq_zero_iff]
  omega

/-- At the end all steps of the text have been taken. -/
theorem steps_eq (h : Underway lexemes c passes) (hCurrent : c.current = none) :
    c.steps = Step.ofLexemes lexemes := by
  obtain ⟨front, rest, steps, rfl, -, hSteps, -⟩ := h
  obtain rfl := List.head?_eq_none_iff.1 hCurrent
  rwa [Step.ofLexemes, List.append_nil] at hSteps

/-- One more pass comes to an end, further on. -/
theorem pass (h : Underway lexemes c passes) (hCurrent : c.current = some l)
    (hLimit : lexemes.length < limit) :
    ∃ later, c.pass l limit = some later ∧ c.consumed < later.consumed ∧
      Underway lexemes later (passes + 1) := by
  obtain ⟨front, rest, steps, rfl, rfl, hSteps, hPasses⟩ := h
  obtain ⟨rest, rfl⟩ := List.head?_eq_some_iff.1 hCurrent
  have hAhead : (l :: rest).length < limit := by
    rw [List.length_append] at hLimit
    omega
  obtain ⟨later, hPass, passed, hSplit, rfl⟩ := pass_between front rest steps l hAhead
  have hPassed : 0 < passed.length := by
    have hLength := congrArg List.length hSplit
    have hOne := Passage.length_rest_one_le l rest
    simp only [List.length_append, List.length_cons] at hLength
    omega
  refine ⟨_, hPass, ?_, front ++ passed, _, _, rfl, by rw [List.append_assoc, hSplit], ?_, ?_⟩
  · simp only [consumed_between, List.length_append]
    omega
  · rw [← hSteps, Step.ofLexemes, List.append_assoc]
  · rw [List.length_append]
    omega

end Underway

namespace Passes

/-- Passes lead along the lexemes, by induction on the passes. -/
theorem underway (h : Passes limit (start lexemes) c passes) (hLimit : lexemes.length < limit) :
    Underway lexemes c passes := by
  induction h with
  | zero => exact underway_start lexemes
  | succ prior hCurrent last ih =>
      obtain ⟨later, hPass, -, hLater⟩ := ih.pass hCurrent hLimit
      cases last.symm.trans hPass
      exact hLater

/-- From wherever passes have led, some more of them lead to the end of the text. The induction is
on the lexemes still ahead. -/
theorem exists_last (h : Passes limit (start lexemes) c passes)
    (hLimit : lexemes.length < limit) :
    ∃ last total, Passes limit (start lexemes) last total ∧ last.current = none := by
  induction hAhead : c.rest.length using Nat.strongRecOn generalizing c passes with
  | ind ahead ih =>
      have hUnderway := h.underway hLimit
      cases hCurrent : c.current with
      | none => exact ⟨c, passes, h, hCurrent⟩
      | some l =>
          obtain ⟨later, hPass, hMore, hLater⟩ := hUnderway.pass hCurrent hLimit
          have hNow := hUnderway.consumed_add
          have hThen := hLater.consumed_add
          exact ih later.rest.length (by omega) (h.succ hCurrent hPass) rfl

end Passes

theorem atBoundary_of_current (h : c.current = none) : c.atBoundary = true := by
  rw [atBoundary, h]

theorem length_rest_advance (c : Cursor) : c.advance.rest.length = c.rest.length - 1 :=
  List.length_tail

/-- A search for a boundary ends at the end of the text if not before. -/
theorem exists_seek (h : c.rest.length < limit) :
    ∃ later, c.seek limit = some later ∧ later.atBoundary = true := by
  induction limit generalizing c with
  | zero => cases h
  | succ limit ih =>
      rw [seek]
      split
      case isTrue hBoundary => exact ⟨c, rfl, hBoundary⟩
      case isFalse hInside =>
        have hAhead : 0 < c.rest.length := List.length_pos_iff.2 fun hEnd =>
          hInside (atBoundary_of_current (congrArg List.head? hEnd))
        have hTail := c.length_rest_advance
        exact ih (by omega)

/-- Reading with a cursor ends on every text and never goes on behind its end. What a cursor goes
past are the first lexemes of the text, one at least in every pass, and without a lexeme ahead there
is no further pass. No loop takes more rounds than there are lexemes and one, and recovering ends
wherever it begins. -/
theorem passes_advance (text : List Char)
    (hLimit : (TokenStream.ofText text).lexemes.length < limit) :
    let lexemes := (TokenStream.ofText text).lexemes
    (∀ c passes, Passes limit (start lexemes) c passes →
      c.passed = (lexemes.take c.consumed).map some ∧ c.consumed ≤ lexemes.length ∧
        passes ≤ c.consumed ∧ (c.current = none ↔ c.consumed = lexemes.length) ∧
        ∀ l, c.current = some l → ∃ later, c.pass l limit = some later ∧
          c.consumed < later.consumed ∧ later.consumed ≤ lexemes.length) ∧
      (∃ last passes, Passes limit (start lexemes) last passes ∧ last.current = none ∧
        last.consumed = lexemes.length ∧ passes ≤ lexemes.length ∧
        last.steps = Step.ofLexemes lexemes) ∧
      ∀ begun c, c.rest.length < limit →
        ∃ later, recover limit begun c = some later ∧ later.atBoundary = true := by
  intro lexemes
  refine ⟨fun c passes hPasses => ?_, ?_, fun begun c hAhead => exists_seek ?_⟩
  · have hUnderway := hPasses.underway hLimit
    have hLength := hUnderway.consumed_add
    refine ⟨hUnderway.passed_eq, by omega, hUnderway.passes_le, hUnderway.current_eq_none_iff,
      fun l hCurrent => ?_⟩
    obtain ⟨later, hPass, hMore, hLater⟩ := hUnderway.pass hCurrent hLimit
    have hLength := hLater.consumed_add
    exact ⟨later, hPass, hMore, by omega⟩
  · obtain ⟨last, passes, hPasses, hCurrent⟩ := (Passes.zero (start lexemes)).exists_last hLimit
    have hUnderway := hPasses.underway hLimit
    have hConsumed := hUnderway.current_eq_none_iff.1 hCurrent
    exact ⟨last, passes, hPasses, hCurrent, hConsumed, hConsumed ▸ hUnderway.passes_le,
      hUnderway.steps_eq hCurrent⟩
  · have hTail := c.length_rest_advance
    split
    case isTrue => omega
    case isFalse => exact hAhead

/-- A text in which the first construct is rejected without a step forward. -/
def stray : List Char := "| a\n\ns -> a".toList

/-- With seven rounds for every loop the stray text is read to its end, in no more than six
passes. -/
theorem passes_advance_stray :
    (TokenStream.ofText stray).lexemes.length = 6 ∧
      ∃ last passes, Passes 7 (start (TokenStream.ofText stray).lexemes) last passes ∧
        last.consumed = 6 ∧ passes ≤ 6 := by
  have hLength : (TokenStream.ofText stray).lexemes.length = 6 := by decide +kernel
  have hLimit : (TokenStream.ofText stray).lexemes.length < 7 := by
    rw [hLength]
    exact Nat.lt_succ_self 6
  obtain ⟨-, ⟨last, passes, hPasses, -, hConsumed, hFew, -⟩, -⟩ := passes_advance stray hLimit
  rw [hLength] at hConsumed hFew
  exact ⟨hLength, last, passes, hPasses, hConsumed, hFew⟩

end Cursor

end GrammarCheck
