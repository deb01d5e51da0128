import GrammarCheck.Proofs.Text.Quoted
import GrammarCheck.Token.Record

/-! Records of tokens. A record names a kind up to its first parenthesis and quotes the rest, so no
two tokens have the same record, and none has that of the end of a text. -/

namespace GrammarCheck

namespace LexicalFault

theorem not_mem_kind (e : LexicalFault) : '(' ∉ e.kind.toList := by
  cases e <;> simp [kind]

/-- A fault is known from its kind and its quoted characters. -/
theorem eq_of_kind_eq {e e' : LexicalFault} (hKind : e.kind = e'.kind)
    (hQuoted : e.quoted = e'.quoted) : e = e' := by
  cases e <;> cases e' <;> simp [kind] at hKind
  case brokenArrow.brokenArrow found found' =>
    have hChars := String.ofList_injective (Text.quotedText_injective hQuoted)
    cases found <;> cases found' <;> simp_all
  case unknownDirective.unknownDirective =>
    rw [Text.quotedText_injective hQuoted]
  case identifierTooLong.identifierTooLong =>
    rw [Text.quotedText_injective hQuoted]
  case unexpectedCharacter.unexpectedCharacter =>
    rw [Text.quotedChar_injective hQuoted]

/-- No two faults have one record. -/
theorem record_injective : Function.Injective record := by
  intro e e' h
  have hChars : e.kind.toList ++ '(' :: (e.quoted ++ ")").toList =
      e'.kind.toList ++ '(' :: (e'.quoted ++ ")").toList := by
    have hText := congrArg String.toList h
    simpa [record, toString] using hText
  obtain ⟨hKind, hQuoted⟩ := Text.append_cons_inj e.not_mem_kind e'.not_mem_kind hChars
  exact eq_of_kind_eq (String.toList_injective hKind)
    ((String.append_left_inj ")").1 (String.toList_injective hQuoted))

end LexicalFault

namespace Token

/-- What a record says in front of its parenthesis, if it has one. -/
def kindOrEnd : Option Token → String
  | some .startDirective => "StartDirective"
  | some .tokenDirective => "TokenDirective"
  | some .arrow => "Arrow"
  | some .pipe => "Pipe"
  | some (.identifier _) => "Identifier"
  | some .blankLine => "BlankLine"
  | some (.error _) => "Error"
  | none => "EndOfFile"

/-- A record names its kind up to the parenthesis. -/
theorem takeWhile_recordOrEnd (found : Option Token) :
    (recordOrEnd found).toList.takeWhile (· != '(') = (kindOrEnd found).toList := by
  cases found with
  | none => simp [recordOrEnd, kindOrEnd]
  | some token => cases token <;> simp [recordOrEnd, record, kindOrEnd, toString]

/-- Within one kind, a record tells the name or the fault. -/
theorem eq_of_kindOrEnd_eq {token token' : Token}
    (hKind : kindOrEnd (some token) = kindOrEnd (some token'))
    (hRecord : token.record = token'.record) : token = token' := by
  have hInside {kind inside inside' : String}
      (h : kind ++ inside ++ ")" = kind ++ inside' ++ ")") : inside = inside' :=
    (String.append_right_inj kind).1 ((String.append_left_inj ")").1 h)
  cases token <;> cases token' <;> simp [kindOrEnd] at hKind
  case identifier.identifier => rw [Text.quotedText_injective (hInside hRecord)]
  case error.error => rw [LexicalFault.record_injective (hInside hRecord)]
  all_goals rfl

/-- No two tokens have one record, and none has that of the end. -/
theorem recordOrEnd_injective : Function.Injective recordOrEnd := by
  intro found found' h
  have hKind : kindOrEnd found = kindOrEnd found' := by
    apply String.toList_injective
    rw [← takeWhile_recordOrEnd, ← takeWhile_recordOrEnd, h]
  cases found with
  | none =>
      cases found' with
      | none => rfl
      | some token' => cases token' <;> simp [kindOrEnd] at hKind
  | some token =>
      cases found' with
      | none => cases token <;> simp [kindOrEnd] at hKind
      | some token' => rw [eq_of_kindOrEnd_eq hKind h]

end Token

end GrammarCheck
