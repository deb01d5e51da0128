import GrammarCheck.Proofs.Source.Viable
import GrammarCheck.Proofs.Step.Order
import GrammarCheck.Proofs.Token.Line
import Mathlib.Data.List.Forall2

/-! The order of the defects in a text. They come on lines that never go back, and those in how the
text is written blame its tokens one after the other, none of them twice. -/

namespace GrammarCheck

def Fault.isLexical : Fault → Bool
  | .lexical _ => true
  | _ => false

def Token.isError : Option Token → Bool
  | some (.error _) => true
  | _ => false

/-- A lexical fault blames a character sequence that is no token, and no other fault does. -/
theorem Fault.Blames.isError_eq {fault : Fault} {token : Option Token} (h : fault.Blames token) :
    fault.isLexical = Token.isError token := by
  cases token with
  | none =>
      obtain ⟨expected, rfl⟩ := h
      rfl
  | some token =>
      cases token with
      | error e =>
          rw [show fault = .lexical e from h]
          rfl
      | _ =>
          obtain ⟨expected, rfl⟩ := h
          rfl

namespace Grammar

/-- A step shows its defect, if any, on its own line. -/
theorem sublist_lines_take (g : Grammar) (endLine : Nat) (step : Step) :
    ((g.take endLine step).2.map (·.location.line)).Sublist (step.line? endLine).toList := by
  unfold take
  split
  case h_1 expected found => cases found <;> exact List.Sublist.refl _
  case h_2 hReject =>
    have hLine : step.line? endLine = step.reportLine? := by
      cases step with
      | reject expected found => exact (hReject expected found rfl).elim
      | _ => rfl
    rw [hLine]
    cases g.editAll step.edits with
    | ok after => exact List.nil_sublist _
    | error refusal =>
        cases hReport : step.reportLine? with
        | none =>
            simp only [refusalDefect?, hReport, Option.bind_eq_bind, Option.bind_none]
            exact List.nil_sublist _
        | some line =>
            simp only [refusalDefect?, hReport, Option.bind_eq_bind, Option.bind_some]
            cases refusal.fault? with
            | none => exact List.nil_sublist _
            | some fault => exact List.Sublist.refl _

/-- Reading reports on lines on which its steps would report, and in their order. -/
theorem sublist_lines_takeAll (g : Grammar) (endLine : Nat) (steps : List Step) :
    ((g.takeAll endLine steps).2.map (·.location.line)).Sublist
      (steps.filterMap (Step.line? endLine)) := by
  rw [List.filterMap_eq_flatMap_toList]
  induction steps generalizing g with
  | nil => exact List.nil_sublist _
  | cons step steps ih =>
      rw [takeAll, List.map_append, List.flatMap_cons]
      exact (sublist_lines_take g endLine step).append (ih (g.take endLine step).1)

/-- The lines of the defects of a text never go back. -/
theorem pairwise_lines_of_ofText {file : FileName} {text : List Char} {defects : List Defect}
    (h : ofText file text = .error defects) :
    (defects.map (·.location.line)).Pairwise (· ≤ ·) := by
  rw [ofText, ofStream_eq] at h
  simp only at h
  split at h
  case isTrue => cases h
  case isFalse =>
    cases h
    have hMet : ((Lexeme.met (TokenStream.ofText text).lexemes).map
        (Lexeme.lineOr (TokenStream.ofText text).endLine)).Pairwise (· ≤ ·) := by
      have hLines := TokenStream.pairwise_lines_ofText text
      rw [Lexeme.met, List.map_append, List.map_map]
      exact hLines
    exact ((Step.courses_ofLexemes _).linesFrom hMet).pairwise.sublist (sublist_lines_takeAll ..)

/-- What is wrong with how a text is written blames tokens in the order in which they are met. -/
theorem exists_positions (file : FileName) (text : List Char) :
    ∃ positions : List Nat, positions.Pairwise (· < ·) ∧
      List.Forall₂ (fun d position => ∃ entry,
          (TokenStream.ofText text).toEnd[position]? = some entry ∧ Defect.Blames file d entry)
        (malformed (ofText file text)) positions := by
  rw [malformed_eq_map_rejected, TokenStream.toEnd_eq_map_entry]
  generalize TokenStream.ofText text = stream
  obtain ⟨positions, hFound, hPositions⟩ :=
    List.sublist_eq_map_getElem (Step.courses_ofLexemes stream.lexemes).sublist_rejected.1
  refine ⟨positions.map Fin.val, List.pairwise_map.2 hPositions, ?_⟩
  rw [← List.forall₂_eq_eq_eq, List.forall₂_map_left_iff, List.forall₂_map_right_iff] at hFound
  rw [List.forall₂_map_left_iff, List.forall₂_map_right_iff]
  apply hFound.imp
  intro r position hMet
  refine ⟨stream.entry r.2, ?_, Defect.blames_ofRejected file stream r⟩
  rw [hMet, List.getElem?_map, List.getElem?_eq_getElem position.isLt]
  rfl

/-- No more is wrong with the characters of a text than there are character sequences that are no
tokens. -/
theorem countP_isLexical_le (file : FileName) (text : List Char) :
    (malformed (ofText file text)).countP (fun d => d.cause.isLexical) ≤
      (TokenStream.ofText text).toEnd.countP fun entry => Token.isError entry.1 := by
  rw [malformed_eq_map_rejected, TokenStream.toEnd_eq_map_entry]
  generalize TokenStream.ofText text = stream
  have hSame : (fun d : Defect => d.cause.isLexical) ∘ Defect.ofRejected file stream.endLine =
      (fun found => Token.isError (stream.entry found).1) ∘ Prod.snd := by
    funext r
    exact (Defect.blames_ofRejected file stream r).2.isError_eq
  rw [List.countP_map, List.countP_map, hSame, ← List.countP_map]
  exact (Step.courses_ofLexemes stream.lexemes).sublist_rejected.1.countP_le

/-- A text that is refused is refused for defects in the order of the text: their lines never go
back, and those in how it is written blame tokens further and further down, so that no token is
blamed twice and no more character sequences than there are. -/
theorem ofText_inOrder {file : FileName} {text : List Char} {defects : List Defect}
    (h : ofText file text = .error defects) :
    (defects.map (·.location.line)).Pairwise (· ≤ ·) ∧
      (∃ positions : List Nat, positions.Pairwise (· < ·) ∧
        List.Forall₂ (fun d position => ∃ entry,
            (TokenStream.ofText text).toEnd[position]? = some entry ∧ Defect.Blames file d entry)
          (defects.filter fun d => d.cause.IsMalformed) positions) ∧
      defects.countP (fun d => d.cause.isLexical) ≤
        (TokenStream.ofText text).toEnd.countP fun entry => Token.isError entry.1 := by
  have hMalformed : malformed (ofText file text) =
      defects.filter fun d => d.cause.IsMalformed := by rw [h, malformed]
  have hPositions := exists_positions file text
  have hCount := countP_isLexical_le file text
  rw [hMalformed] at hPositions hCount
  have hLexical : (fun d : Defect => d.cause.isLexical && decide d.cause.IsMalformed) =
      fun d => d.cause.isLexical := by
    funext d
    cases d.cause <;> rfl
  rw [List.countP_filter, hLexical] at hCount
  exact ⟨pairwise_lines_of_ofText h, hPositions, hCount⟩

/-- Two errors of the lexer, a rule cut short and a conflict are reported from top to bottom. -/
theorem ofText_inOrder_twice :
    ∃ defects, ofText ⟨""⟩ "s -> $ | t\n%token s s -\n".toList = .error defects ∧
      (defects.map (·.location.line)).Pairwise (· ≤ ·) ∧
        (∃ positions : List Nat, positions.Pairwise (· < ·) ∧
          List.Forall₂ (fun d position => ∃ entry,
              (TokenStream.ofText "s -> $ | t\n%token s s -\n".toList).toEnd[position]? =
                some entry ∧ Defect.Blames ⟨""⟩ d entry)
            (defects.filter fun d => d.cause.IsMalformed) positions) ∧
        defects.countP (fun d => d.cause.isLexical) ≤
          (TokenStream.ofText "s -> $ | t\n%token s s -\n".toList).toEnd.countP fun entry =>
            Token.isError entry.1 := by
  have hError : (ofText ⟨""⟩ "s -> $ | t\n%token s s -\n".toList).isOk = false := by
    decide +kernel
  cases hText : ofText ⟨""⟩ "s -> $ | t\n%token s s -\n".toList with
  | ok g =>
      rw [hText] at hError
      cases hError
  | error defects => exact ⟨defects, rfl, ofText_inOrder hText⟩

end Grammar

end GrammarCheck
