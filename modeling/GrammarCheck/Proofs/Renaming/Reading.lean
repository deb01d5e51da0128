import GrammarCheck.Grammar.Reading
import GrammarCheck.Proofs.Renaming.Table
import GrammarCheck.Proofs.Step.Setting

/-! Reading the same tokens with other names. The steps are the same, so are the edits that are
refused, and what is reported differs in the names alone. -/

namespace GrammarCheck

def TokenStream.rename (f : String → String) (stream : TokenStream) : TokenStream :=
  ⟨stream.lexemes.map (Respelling.rename f).lexeme, stream.endLine⟩

/-- A fault under other names. Characters that make no token have no names. -/
def Fault.rename (f : String → String) : Fault → Fault
  | .unexpected expected found => .unexpected expected (found.map (Respelling.rename f).token)
  | .conflict c => .conflict (c.rename f)
  | .duplicateStart first second => .duplicateStart (f first) (f second)
  | .startUndefined name => .startUndefined (f name)
  | .undefinedSymbol name => .undefinedSymbol (f name)
  | .unproductive name => .unproductive (f name)
  | .lexical e => .lexical e
  | .missingStart => .missingStart
  | .unreadable failure => .unreadable failure

def Defect.rename (f : String → String) (d : Defect) : Defect := ⟨d.location, d.cause.rename f⟩

def Step.rename (f : String → String) (step : Step) : Step := step.set (.rename f) []

/-- Renaming does not change what is wrong with a lexeme, only the name in the message. -/
theorem Fault.ofFound_rename (f : String → String) (expected : Expectation)
    (found : Option Token) :
    ofFound expected (found.map (Respelling.rename f).token) =
      (ofFound expected found).rename f := by
  cases found with
  | none => rfl
  | some token => cases token <;> rfl

theorem Ident.alternative_rename (f : String → String) (x : Ident) (symbols : Alternative) :
    ((Respelling.rename f).ident x).alternative (symbols.map (Respelling.rename f).ident) =
      (x.alternative symbols).rename f := by
  simp [alternative, OneOrMore.map, OneOrMore.toList, GrammarEdit.rename, SymbolEdit.rename,
    Respelling.ident, Respelling.rename, Function.comp_def]

namespace Step

variable (f : String → String)

theorem edits_rename (step : Step) :
    (step.rename f).edits = step.edits.map (GrammarEdit.rename f) := by
  cases step with
  | complete construct =>
      cases construct with
      | rule x alternatives =>
          have hToList : (alternatives.map (OneOrMore.map (Respelling.rename f).ident)).toList =
            alternatives.toList.map (OneOrMore.map (Respelling.rename f).ident) := rfl
          simp only [rename, set, Respelling.construct, edits, Ident.rule, hToList, List.map_cons,
            List.map_append, List.map_map, Function.comp_def, Ident.alternative_rename]
          rfl
      | _ => rfl
  | _ => rfl

theorem reportLine?_rename (step : Step) : (step.rename f).reportLine? = step.reportLine? := by
  cases step with
  | complete construct => cases construct <;> rfl
  | _ => rfl

theorem rename_ne_reject {step : Step}
    (h : ∀ expected found, step ≠ .reject expected found) (expected : Expectation)
    (found : Option Lexeme) : step.rename f ≠ .reject expected found := by
  intro hReject
  cases step with
  | reject expected found => exact h expected found rfl
  | _ => cases hReject

end Step

namespace Grammar

variable (f : String ↪ String) (g : Grammar)

theorem rename_ofFile (file : FileName) : (ofFile file).rename f = ofFile file := by
  rw [rename, ofFile, SymbolTable.rename, SymbolTable.empty, Array.map_empty]
  rfl

theorem rejection_rename (endLine : Nat) (expected : Expectation) (found : Option Lexeme) :
    (g.rename f).rejection endLine expected (found.map (Respelling.rename f).lexeme) =
      (g.rejection endLine expected found).rename f := by
  cases found with
  | none => rfl
  | some l =>
      exact congrArg (Diagnostic.mk (g.place l.line))
        (Fault.ofFound_rename f expected (some l.token))

/-- A refused edit is reported at the same line under any names. -/
theorem refusalDefect?_rename (step : Step) (refusal : Refusal) :
    (g.rename f).refusalDefect? (step.rename f) (refusal.rename f) =
      (g.refusalDefect? step refusal).map (Defect.rename f) := by
  rw [refusalDefect?, refusalDefect?, Step.reportLine?_rename]
  cases step.reportLine? with
  | none => rfl
  | some line => cases refusal <;> rfl

theorem take_rename (endLine : Nat) (step : Step) :
    (g.rename f).take endLine (step.rename f) =
      Prod.map (rename f) (List.map (Defect.rename f)) (g.take endLine step) := by
  by_cases hReject : ∃ expected found, step = .reject expected found
  · obtain ⟨expected, found, rfl⟩ := hReject
    have hFound : (Step.reject expected found).rename f =
        .reject expected (found.map (Respelling.rename f).lexeme) := by
      simp [Step.rename, Step.set]
    rw [hFound]
    simp only [take, rejection_rename]
    rfl
  · simp only [not_exists] at hReject
    have hEdits : (g.rename f).editAll (step.rename f).edits =
        mapBoth (Refusal.rename f) (rename f) (g.editAll step.edits) := by
      rw [Step.edits_rename, editAll_rename]
    cases hEdit : g.editAll step.edits with
    | ok after =>
        rw [hEdit] at hEdits
        rw [take_of_ok hReject hEdit, take_of_ok (Step.rename_ne_reject f hReject) hEdits]
        rfl
    | error refusal =>
        rw [hEdit] at hEdits
        rw [take_of_error hEdit, take_of_error hEdits, refusalDefect?_rename]
        cases g.refusalDefect? step refusal <;> rfl

/-- Hence so does reading as a whole, by induction on the steps. -/
theorem takeAll_rename (endLine : Nat) (steps : List Step) :
    (g.rename f).takeAll endLine (steps.map (Step.rename f)) =
      Prod.map (rename f) (List.map (Defect.rename f)) (g.takeAll endLine steps) := by
  induction steps generalizing g with
  | nil => rfl
  | cons step steps ih =>
      simp only [List.map_cons, takeAll, take_rename, Prod.map_fst, Prod.map_snd, ih,
        Prod.map_apply, List.map_append]

/-- The same tokens with other names spell the same grammar under other names, or have the same
defects. -/
theorem ofStream_rename (file : FileName) (stream : TokenStream) :
    ofStream file (stream.rename f) =
      mapBoth (List.map (Defect.rename f)) (rename f) (ofStream file stream) := by
  have hSteps : Step.ofLexemes (stream.rename f).lexemes =
      (Step.ofLexemes stream.lexemes).map (Step.rename f) :=
    Step.ofLexemes_map (.rename f) stream.lexemes
  have hRead := takeAll_rename f (ofFile file) stream.endLine (Step.ofLexemes stream.lexemes)
  rw [rename_ofFile] at hRead
  simp only [ofStream, hSteps]
  rw [show (stream.rename f).endLine = stream.endLine from rfl, hRead]
  simp only [Prod.map_fst, Prod.map_snd, List.isEmpty_map]
  split <;> rfl

end Grammar

end GrammarCheck
