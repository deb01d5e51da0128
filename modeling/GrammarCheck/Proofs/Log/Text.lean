import GrammarCheck.Proofs.Log.Reading
import GrammarCheck.Proofs.Token.Record

/-! A log as it is written. A line that brings a token into view can be told from all others and
read back, so texts with the same log have the same tokens in the same lines, blank lines apart. -/

namespace GrammarCheck.Log

namespace Event

theorem text_token (found : Option Token) (line : Nat) :
    (Event.token found line).text =
      "line " ++ toString line ++ ": " ++ Token.recordOrEnd found := rfl

/-- The text of a token is cut at its first colon, since a numeral has none. -/
theorem text_token_inj {found found' : Option Token} {line line' : Nat}
    (h : (Event.token found line).text = (Event.token found' line').text) :
    found = found' ∧ line = line' := by
  have hColon (n : Nat) : ':' ∉ ("line " ++ toString n).toList := by
    intro hMem
    rw [String.toList_append, List.mem_append] at hMem
    rcases hMem with hWord | hDigit
    · simp at hWord
    · rw [Nat.toString_eq_ofList_toDigits, String.toList_ofList] at hDigit
      have hIsDigit := Nat.isDigit_of_mem_toDigits (Nat.succ_pos 9) (Nat.le_refl 10) hDigit
      simp [Char.isDigit] at hIsDigit
  have hChars :
      ("line " ++ toString line).toList ++ ':' :: (" " ++ Token.recordOrEnd found).toList =
        ("line " ++ toString line').toList ++ ':' :: (" " ++ Token.recordOrEnd found').toList := by
    have hText := congrArg String.toList h
    rw [text_token, text_token] at hText
    simpa using hText
  obtain ⟨hLine, hRecord⟩ := Text.append_cons_inj (hColon line) (hColon line') hChars
  constructor
  · apply Token.recordOrEnd_injective
    exact (String.append_right_inj " ").1 (String.toList_injective hRecord)
  · apply Nat.repr_injective
    exact (String.append_right_inj "line ").1 (String.toList_injective hLine)

/-- An event as it is written: how much it matters, and what it says. -/
def line (event : Event) : String × String := (event.level.text, event.text)

variable {event event' : Event}

theorem text_newSymbol (id : SymbolId) (s : Symbol) :
    (Event.newSymbol id s).text =
      "interned " ++ s.kind.text ++ " `" ++ s.name ++ "` as SymbolId(" ++ toString id.index ++ ")" :=
  rfl

/-- The line of a token is that of no other event. Among what matters least there are only new
symbols besides, and their lines begin with another letter. -/
theorem eq_token_of_line {found : Option Token} {line : Nat}
    (h : (Event.token found line).line = event.line) : event = .token found line := by
  have hLevel := congrArg Prod.fst h
  have hText := congrArg Prod.snd h
  cases event with
  | token found' line' =>
      obtain ⟨rfl, rfl⟩ := text_token_inj hText
      rfl
  | newSymbol id s =>
      have hFirst := congrArg (fun text : String => text.toList.head?) hText
      simp [Event.line, text_token, text_newSymbol] at hFirst
  | _ => simp [Event.line, level, Level.text] at hLevel

theorem seen?_eq_some_iff {token : Option Token × Nat} :
    event.seen? = some token ↔ event = .token token.1 token.2 := by
  cases event <;> simp [seen?, Prod.ext_iff]

/-- Whether an event brings a token into view, and which, can be read off its line. -/
theorem seen?_eq_of_line (h : event.line = event'.line) : event.seen? = event'.seen? := by
  apply Option.ext
  intro token
  rw [seen?_eq_some_iff, seen?_eq_some_iff]
  constructor
  · rintro rfl
    exact eq_token_of_line h
  · rintro rfl
    exact eq_token_of_line h.symm

end Event

theorem seen_eq_of_lines {events events' : List Event}
    (h : events.map Event.line = events'.map Event.line) :
    events.filterMap Event.seen? = events'.filterMap Event.seen? := by
  induction events generalizing events' with
  | nil => rw [List.map_eq_nil_iff.1 h.symm]
  | cons event events ih =>
      cases events' with
      | nil => cases h
      | cons event' events' =>
          obtain ⟨hFirst, hOthers⟩ := List.cons.inj h
          rw [List.filterMap_cons, List.filterMap_cons, Event.seen?_eq_of_line hFirst, ih hOthers]

/-- Nothing about the tokens is lost in writing a log. -/
theorem visible_eq_of_lines {file file' : FileName} {stream stream' : TokenStream}
    (h : (ofStream file stream).map Event.line = (ofStream file' stream').map Event.line) :
    visible (stream.pull (stream.lexemes.length + 2)) =
      visible (stream'.pull (stream'.lexemes.length + 2)) := by
  rw [← seen_ofStream file stream, ← seen_ofStream file' stream']
  exact seen_eq_of_lines h

end GrammarCheck.Log
