import GrammarCheck.Grammar.Reading
import GrammarCheck.Proofs.Step.Rejected

/-! The order in which reading reports. No lexeme is rejected twice, and what is rejected, or may be
refused, is reported on lines that never go back. -/

namespace GrammarCheck

namespace Fragment

/-- Only the fragment that waits for a construct has no lexemes. -/
theorem eq_construct_of_lexemes {fragment : Fragment} (h : fragment.lexemes = []) :
    fragment = .construct := by
  cases fragment with
  | construct => rfl
  | _ => cases h

end Fragment

/-- What cannot begin a construct is not at a boundary. -/
theorem Expectation.Refuses.not_atBoundary {left : List Lexeme}
    (h : Expectation.construct.Refuses left) : Passage.atBoundary left ≠ true := by
  cases h with
  | @construct l rest hToken =>
      obtain ⟨token, line⟩ := l
      rcases hToken with hToken | hToken | ⟨e, hToken⟩ <;> cases hToken <;> exact Bool.false_ne_true

namespace Step

open Lexeme

/-- Each lexeme is rejected at most once, and the first one of a construct that can begin here is
not rejected at all. The induction is on the courses: what was rejected is left behind, or it begins
the next construct. -/
theorem Courses.sublist_rejected {lexemes : List Lexeme} {steps : List Step}
    (h : Courses lexemes steps) :
    ((rejected steps).map Prod.snd).Sublist (met lexemes) ∧
      (Passage.atBoundary lexemes = true →
        ((rejected steps).map Prod.snd).Sublist (met lexemes).tail) := by
  induction h with
  | nil => exact ⟨List.nil_sublist _, fun _ => List.nil_sublist _⟩
  | @part part rest later _ _ ih =>
      obtain ⟨first, others, hPart⟩ := Passage.lexemes_ne_nil part
      have hTail : ((rejected later).map Prod.snd).Sublist (met (part.lexemes ++ rest)).tail := by
        have hMet : (met (part.lexemes ++ rest)).tail = others.map some ++ met rest := by
          rw [hPart, met_append]
          rfl
        rw [hMet]
        exact ih.1.trans (List.sublist_append_right _ _)
      rw [rejected_append, part.rejected_steps]
      exact ⟨hTail.trans (List.tail_sublist _), fun _ => hTail⟩
  | @fragment fragment left rest passed later hRefuses hSuffix hRest _ ih =>
      have hLater : ((rejected later).map Prod.snd).Sublist (met left).tail := by
        rcases eq_or_met_sublist hSuffix with rfl | hMet
        · exact ih.2 hRest
        · exact ih.1.trans hMet
      have hFound : (left.head? :: (rejected later).map Prod.snd).Sublist (met left) := by
        rw [met_eq_head?_cons left]
        exact hLater.cons_cons left.head?
      rw [rejected_append, Passage.rejected_fragment, met_append]
      refine ⟨hFound.trans (List.sublist_append_right _ _), fun hBoundary => ?_⟩
      cases hLexemes : fragment.lexemes with
      | nil =>
          rw [hLexemes] at hBoundary
          rw [Fragment.eq_construct_of_lexemes hLexemes] at hRefuses
          exact absurd hBoundary hRefuses.not_atBoundary
      | cons first others => exact hFound.trans (List.sublist_append_right _ _)

end Step

/-- The line on which a lexeme is met, or the end of the text. -/
def Lexeme.lineOr (endLine : Nat) : Option Lexeme → Nat
  | some l => l.line
  | none => endLine

/-- The line on which a step would be reported, if it can be. -/
def Step.line? (endLine : Nat) : Step → Option Nat
  | .reject _ found => some (Lexeme.lineOr endLine found)
  | step => step.reportLine?

/-- Lines from among others, none of them before the one in front of it. -/
structure LinesFrom (lines reported : List Nat) : Prop where
  pairwise : reported.Pairwise (· ≤ ·)
  mem : ∀ line ∈ reported, line ∈ lines

/-- Lines from among some are lines from among more. -/
theorem LinesFrom.mono {lines others reported : List Nat} (h : LinesFrom lines reported)
    (hSubset : lines ⊆ others) : LinesFrom others reported :=
  ⟨h.pairwise, fun line hMem => hSubset (h.mem line hMem)⟩

/-- What is reported for the front of a text is followed by what is reported for the rest of it. -/
theorem LinesFrom.append {front lines own reported : List Nat}
    (h : (front ++ lines).Pairwise (· ≤ ·)) (hOwn : own.Sublist front)
    (hReported : LinesFrom lines reported) : LinesFrom (front ++ lines) (own ++ reported) where
  pairwise := by
    obtain ⟨hFront, -, hBoth⟩ := List.pairwise_append.1 h
    apply List.pairwise_append.2 ⟨hFront.sublist hOwn, hReported.pairwise, ?_⟩
    intro a ha b hb
    exact hBoth a (hOwn.subset ha) b (hReported.mem b hb)
  mem := by
    intro line hMem
    rcases List.mem_append.1 hMem with hFirst | hLater
    · exact List.mem_append_left _ (hOwn.subset hFirst)
    · exact List.mem_append_right _ (hReported.mem line hLater)

/-- The first line of all may be reported in front of the others. -/
theorem LinesFrom.cons {line : Nat} {lines reported : List Nat}
    (h : (line :: lines).Pairwise (· ≤ ·)) (hReported : LinesFrom (line :: lines) reported) :
    LinesFrom (line :: lines) (line :: reported) where
  pairwise := by
    apply List.pairwise_cons.2 ⟨?_, hReported.pairwise⟩
    intro other hOther
    rcases List.mem_cons.1 (hReported.mem other hOther) with rfl | hMem
    · exact Nat.le_refl _
    · exact (List.pairwise_cons.1 h).1 other hMem
  mem := List.forall_mem_cons.2 ⟨List.mem_cons_self .., hReported.mem⟩

namespace Step

open Lexeme

/-- Each declared name would be reported on its own line. -/
theorem lines_terminals (endLine : Nat) (names : List Ident) :
    (names.flatMap fun x => [Step.terminal x, .shift x.lexeme]).filterMap (line? endLine) =
      (names.map Ident.lexeme).map (·.line) := by
  induction names with
  | nil => rfl
  | cons x names ih => exact congrArg (x.line :: ·) ih

theorem lines_shifts (endLine : Nat) (lexemes : List Lexeme) :
    (lexemes.map shift).filterMap (line? endLine) = [] := by
  rw [List.filterMap_map, List.filterMap_eq_nil_iff]
  intro l _
  rfl

/-- What a part may be refused for is reported on lines of its lexemes. -/
theorem sublist_lines_part (endLine : Nat) (part : Part) :
    (part.steps.filterMap (line? endLine)).Sublist (part.lexemes.map (·.line)) := by
  cases part with
  | blank line => exact List.nil_sublist _
  | start line symbol => exact List.sublist_append_right [line] [symbol.line]
  | terminals line names =>
      have hLines : (Part.terminals line names).steps.filterMap (line? endLine) =
          (names.toList.map Ident.lexeme).map (·.line) := by
        rw [Part.steps, List.cons_append, List.filterMap_cons_none rfl, List.filterMap_append,
          lines_terminals]
        exact List.append_nil _
      rw [hLines]
      exact List.sublist_cons_self ..
  | rule header arrow body =>
      have hBody : body.steps.filterMap (line? endLine) = [] :=
        List.filterMap_eq_nil_iff.2 (RuleBody.forall_mem_steps (fun _ => rfl) fun _ => rfl)
      have hLines : (Part.rule header arrow body).steps.filterMap (line? endLine) =
          [header.line] := by
        rw [Part.steps, List.filterMap_append, List.filterMap_cons_none rfl,
          List.filterMap_cons_none rfl, List.filterMap_cons_none rfl, hBody]
        rfl
      rw [hLines]
      exact List.singleton_sublist.2 (List.mem_cons_self ..)

/-- What a fragment would report stands on the lines of its lexemes, in order. -/
theorem sublist_lines_fragment (endLine : Nat) (fragment : Fragment) :
    (fragment.steps.filterMap (line? endLine)).Sublist (fragment.lexemes.map (·.line)) := by
  cases fragment with
  | symbol header arrow finished =>
      have hFinished : (RuleBody.finishedSteps finished).filterMap (line? endLine) = [] :=
        List.filterMap_eq_nil_iff.2
          (RuleBody.forall_mem_finishedSteps (fun _ => rfl) fun _ => rfl)
      rw [Fragment.steps, List.filterMap_cons_none rfl, List.filterMap_cons_none rfl,
        List.filterMap_cons_none rfl, hFinished]
      exact List.nil_sublist _
  | ruleEnd header arrow body =>
      have hBody : body.steps.filterMap (line? endLine) = [] :=
        List.filterMap_eq_nil_iff.2 (RuleBody.forall_mem_steps (fun _ => rfl) fun _ => rfl)
      rw [Fragment.steps, List.filterMap_cons_none rfl, List.filterMap_cons_none rfl,
        List.filterMap_cons_none rfl, hBody]
      exact List.nil_sublist _
  | terminal line names =>
      rw [Fragment.steps, List.filterMap_cons_none rfl, lines_terminals]
      exact List.sublist_cons_self ..
  | startEnd line name => exact List.sublist_append_right [line] [name.line]
  | _ => exact List.nil_sublist _

/-- Where lines never go back, neither do those that reading reports. -/
theorem Courses.linesFrom {endLine : Nat} {lexemes : List Lexeme} {steps : List Step}
    (hCourses : Courses lexemes steps)
    (h : ((met lexemes).map (lineOr endLine)).Pairwise (· ≤ ·)) :
    LinesFrom ((met lexemes).map (lineOr endLine)) (steps.filterMap (line? endLine)) := by
  have hMap (front : List Lexeme) : (front.map some).map (lineOr endLine) = front.map (·.line) := by
    rw [List.map_map]
    rfl
  induction hCourses with
  | nil => exact ⟨List.Pairwise.nil, by simp⟩
  | @part part rest later _ _ ih =>
      rw [met_append, List.map_append, hMap] at h ⊢
      rw [List.filterMap_append]
      exact LinesFrom.append h (sublist_lines_part endLine part) (ih (List.pairwise_append.1 h).2.1)
  | @fragment fragment left rest passed later hRefuses hSuffix hRest _ ih =>
      rw [met_append, List.map_append, hMap] at h ⊢
      obtain ⟨-, hLeft, -⟩ := List.pairwise_append.1 h
      have hRejected : (Step.reject fragment.expects left.head? :: passed.map shift).filterMap
          (line? endLine) = [lineOr endLine left.head?] :=
        congrArg (lineOr endLine left.head? :: ·) (lines_shifts endLine passed)
      have hSublist := (met_sublist hSuffix).map (lineOr endLine)
      have hLater := (ih (hLeft.sublist hSublist)).mono hSublist.subset
      rw [List.filterMap_append, List.filterMap_append, hRejected, List.append_assoc]
      apply LinesFrom.append h (sublist_lines_fragment endLine fragment)
      rw [met_eq_head?_cons left, List.map_cons] at hLeft hLater ⊢
      exact LinesFrom.cons hLeft hLater

end Step

end GrammarCheck
