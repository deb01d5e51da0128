import GrammarCheck.Proofs.Source.Text
import GrammarCheck.Proofs.Step.Rejected
import GrammarCheck.Proofs.Step.Setting

/-! Blank lines keep malformed texts apart. The faults in how a text is written are those of the
steps that read it, whatever its names mean, and no step goes beyond a blank line. So what is wrong
above a blank line neither hides nor adds a fault below it. -/

namespace GrammarCheck

instance : DecidablePred Fault.IsMalformed
  | .lexical _ => isTrue trivial
  | .unexpected _ _ => isTrue trivial
  | .conflict _ => isFalse id
  | .duplicateStart _ _ => isFalse id
  | .missingStart => isFalse id
  | .startUndefined _ => isFalse id
  | .undefinedSymbol _ => isFalse id
  | .unproductive _ => isFalse id
  | .unreadable _ => isFalse id

def Defect.lower (n : Nat) (d : Defect) : Defect :=
  ⟨⟨d.location.file, d.location.line + n⟩, d.cause⟩

/-- The defect that a step shows in how the text is written, in a text that ends on `endLine`. -/
def Step.rejection? (file : FileName) (endLine : Nat) : Step → Option Defect
  | .reject expected found => some ((Grammar.ofFile file).rejection endLine expected found)
  | _ => none

/-- The defect of something that was rejected, in a text that ends on `endLine`. -/
def Defect.ofRejected (file : FileName) (endLine : Nat) (r : Expectation × Option Lexeme) : Defect :=
  (Grammar.ofFile file).rejection endLine r.1 r.2

/-- What the rejecting steps reject are the defects that they show. -/
theorem Step.map_ofRejected (file : FileName) (endLine : Nat) (steps : List Step) :
    (rejected steps).map (Defect.ofRejected file endLine) =
      steps.filterMap (rejection? file endLine) := by
  rw [rejected, List.map_filterMap]
  apply List.filterMap_congr
  intro step _
  cases step <;> rfl

namespace Grammar

/-- What is wrong with how a text is written. A grammar comes from a text that is well written. -/
def malformed : Except (List Defect) Grammar → List Defect
  | .ok _ => []
  | .error defects => defects.filter fun d => d.cause.IsMalformed

/-- A rejection is always a fault in how the text is written. -/
theorem isMalformed_rejection (g : Grammar) (endLine : Nat) (expected : Expectation)
    (found : Option Lexeme) : (g.rejection endLine expected found).cause.IsMalformed := by
  cases found with
  | none => trivial
  | some l =>
      obtain ⟨token, line⟩ := l
      cases token <;> trivial

/-- An edit is refused for what a name means. -/
theorem exists_conflict_of_refusalDefect? {g : Grammar} {step : Step} {refusal : Refusal}
    {d : Defect} (h : g.refusalDefect? step refusal = some d) : ∃ c, d.cause = .conflict c := by
  simp only [refusalDefect?, Option.bind_eq_bind, Option.bind_eq_some_iff, Option.pure_def,
    Option.some.injEq] at h
  obtain ⟨line, -, fault, hFault, rfl⟩ := h
  cases refusal with
  | conflict c =>
      cases hFault
      exact ⟨c, rfl⟩
  | _ => cases hFault

/-- A step says nothing about the file, and shows a malformed text exactly if it rejects. -/
theorem malformed_take (g : Grammar) (endLine : Nat) (step : Step) :
    (g.take endLine step).1.file = g.file ∧
      (g.take endLine step).2.filter (fun d => d.cause.IsMalformed) =
        (step.rejection? g.file endLine).toList := by
  unfold take
  split
  case h_1 expected found =>
    refine ⟨rfl, List.filter_eq_self.2 fun d hMem => ?_⟩
    rw [List.mem_singleton.1 hMem]
    exact decide_eq_true (isMalformed_rejection g endLine expected found)
  case h_2 hReject =>
    have hNone : step.rejection? g.file endLine = none := by
      cases step with
      | reject expected found => exact (hReject expected found rfl).elim
      | _ => rfl
    rw [hNone]
    cases hEdits : g.editAll step.edits with
    | ok after => exact ⟨file_editAll hEdits, rfl⟩
    | error refusal =>
        refine ⟨rfl, List.filter_eq_nil_iff.2 fun d hMem hMalformed => ?_⟩
        obtain ⟨c, hCause⟩ := exists_conflict_of_refusalDefect? (Option.mem_toList.1 hMem)
        rw [hCause] at hMalformed
        exact of_decide_eq_true hMalformed

/-- The malformed places that reading reports are those that its steps reject, whatever the
grammar. -/
theorem malformed_takeAll (g : Grammar) (endLine : Nat) (steps : List Step) :
    (g.takeAll endLine steps).2.filter (fun d => d.cause.IsMalformed) =
      steps.filterMap (Step.rejection? g.file endLine) := by
  induction steps generalizing g with
  | nil => rfl
  | cons step steps ih =>
      obtain ⟨hFile, hTake⟩ := malformed_take g endLine step
      rw [takeAll, List.filter_append, hTake, ih, hFile, List.filterMap_cons]
      cases step.rejection? g.file endLine <;> rfl

/-- What is wrong with how a text is written follows from its steps alone. -/
theorem malformed_ofText (file : FileName) (text : List Char) :
    malformed (ofText file text) =
      (Step.ofLexemes (TokenStream.ofText text).lexemes).filterMap
        (Step.rejection? file (TokenStream.ofText text).endLine) := by
  have hRead : _ = (Step.ofLexemes _).filterMap (Step.rejection? file _) :=
    malformed_takeAll (ofFile file) (TokenStream.ofText text).endLine
      (Step.ofLexemes (TokenStream.ofText text).lexemes)
  rw [ofText, ofStream_eq, ← hRead]
  simp only
  split
  case isTrue hNone =>
    rw [hNone]
    rfl
  case isFalse => rfl

theorem malformed_eq_map_rejected (file : FileName) (text : List Char) :
    malformed (ofText file text) =
      (Step.rejected (Step.ofLexemes (TokenStream.ofText text).lexemes)).map
        (Defect.ofRejected file (TokenStream.ofText text).endLine) := by
  rw [malformed_ofText, Step.map_ofRejected]

end Grammar

namespace Step

variable {file : FileName} {steps : List Step}

/-- Where the text ends matters only to what is rejected there. -/
theorem rejections_congr (h : ∀ expected, .reject expected none ∉ steps) (endLine other : Nat) :
    steps.filterMap (rejection? file endLine) = steps.filterMap (rejection? file other) := by
  refine List.filterMap_congr fun step hMem => ?_
  cases step with
  | reject expected found =>
      cases found with
      | none => exact absurd hMem (h expected)
      | some l => rfl
  | _ => rfl

/-- Further down, a text has the same defects further down. -/
theorem rejections_lower (n endLine : Nat) :
    (steps.map (set (.lower n) [])).filterMap (rejection? file (endLine + n)) =
      (steps.filterMap (rejection? file endLine)).map (Defect.lower n) := by
  rw [List.filterMap_map, List.map_filterMap]
  refine List.filterMap_congr fun step _ => ?_
  cases step with
  | reject expected found =>
      cases found with
      | none => rfl
      | some l =>
          obtain ⟨token, line⟩ := l
          cases token <;> rfl
  | _ => rfl

end Step

/-- What is wrong with how a text is written is what is wrong above a blank line and then what is
wrong below it. -/
theorem Grammar.malformed_blankLine (file : FileName) (above below : List Char) :
    malformed (ofText file (above ++ '\n' :: '\n' :: below)) =
      malformed (ofText file (above ++ ['\n', '\n'])) ++
        (malformed (ofText file below)).map (Defect.lower (above.count '\n' + 2)) := by
  obtain ⟨lexemes, hEnds, hRead⟩ := TokenStream.exists_ofText_blankLine above
  have hNothing : (TokenStream.ofText []).lexemes = [] := by
    rw [TokenStream.ofText, TokenStream.readFrom_of_rest_nil rfl]
    rfl
  have hNone := Step.reject_none_not_mem_of_endsBlank hEnds
  rw [malformed_ofText, malformed_ofText, malformed_ofText, hRead, hRead, hNothing]
  simp only [List.map_nil, List.append_nil]
  rw [Step.ofLexemes_append_of_endsBlank hEnds, List.filterMap_append, Step.ofLexemes_lower,
    Step.rejections_lower, Step.rejections_congr hNone]

end GrammarCheck
