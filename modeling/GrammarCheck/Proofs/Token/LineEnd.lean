import GrammarCheck.Grammar.Reading
import GrammarCheck.Proofs.Token.BlankLine

/-! Texts whose lines end with a carriage return and a newline. No token holds either of the two, and
in a gap the carriage return changes nothing, so such a text has the lexemes of the text whose lines
end with the newline alone. -/

namespace GrammarCheck

/-- A text with a carriage return put in front of each newline. -/
def withReturns (text : List Char) : List Char :=
  text.flatMap fun c => if c = '\n' then ['\r', '\n'] else [c]

section

variable {c : Char} {cs : List Char}

theorem withReturns_newline (cs : List Char) :
    withReturns ('\n' :: cs) = '\r' :: '\n' :: withReturns cs := rfl

theorem withReturns_cons (hc : c ≠ '\n') (cs : List Char) :
    withReturns (c :: cs) = c :: withReturns cs := by
  rw [withReturns, List.flatMap_cons, if_neg hc]
  rfl

/-- A run of characters that are no part of a line end is not touched. -/
theorem takeWhile_withReturns {p : Char → Bool} (hNewline : p '\n' = false)
    (hReturn : p '\r' = false) (cs : List Char) :
    (withReturns cs).takeWhile p = cs.takeWhile p := by
  induction cs with
  | nil => rfl
  | cons c cs ih =>
      by_cases hc : c = '\n'
      · rw [hc, withReturns_newline, List.takeWhile_cons_of_neg (by simp [hReturn]),
          List.takeWhile_cons_of_neg (by simp [hNewline])]
      · rw [withReturns_cons hc, List.takeWhile_cons, List.takeWhile_cons, ih]

/-- A scan that stops at both characters of a line end drops the same either way. -/
theorem dropWhile_withReturns {p : Char → Bool} (hNewline : p '\n' = false)
    (hReturn : p '\r' = false) (cs : List Char) :
    (withReturns cs).dropWhile p = withReturns (cs.dropWhile p) := by
  induction cs with
  | nil => rfl
  | cons c cs ih =>
      by_cases hc : c = '\n'
      · rw [hc, withReturns_newline, List.dropWhile_cons_of_neg (by simp [hReturn]),
          List.dropWhile_cons_of_neg (by simp [hNewline]), withReturns_newline]
      · rw [withReturns_cons hc, List.dropWhile_cons, List.dropWhile_cons, ih,
          apply_ite withReturns, withReturns_cons hc]

end

namespace Gap

theorem read_of_isWhitespace_eq_false {c : Char} (hc : c.isWhitespace = false)
    (line newlines : Nat) (blankLine : Option Nat) (cs : List Char) :
    read line newlines blankLine (c :: cs) = ⟨line, blankLine, c :: cs⟩ := by
  rw [read] <;> rintro _ ⟨⟩ <;> cases hc

/-- Space is counted as it was, whatever has been counted before it. -/
theorem read_withReturns (line newlines : Nat) (blankLine : Option Nat) (cs : List Char) :
    read line newlines blankLine (withReturns cs) =
      ⟨(read line newlines blankLine cs).endLine, (read line newlines blankLine cs).blankLine,
        withReturns (read line newlines blankLine cs).rest⟩ := by
  fun_induction read line newlines blankLine cs with
  | case1 line newlines blankLine cs =>
      rename_i ih
      rw [withReturns_newline, read, read, ih]
  | case2 line newlines blankLine cs ih => rw [withReturns_cons (by decide), read, ih]
  | case3 line newlines blankLine cs ih => rw [withReturns_cons (by decide), read, ih]
  | case4 line newlines blankLine cs ih => rw [withReturns_cons (by decide), read, ih]
  | case5 line newlines blankLine cs hNewline hSpace hTab hReturn =>
      have hStop := takeWhile_isWhitespace_eq_nil hNewline hSpace hTab hReturn
      cases cs with
      | nil => rfl
      | cons c cs =>
          have hc : c.isWhitespace = false := by simpa using hStop
          have hLine : c ≠ '\n' := fun h => hNewline cs (h ▸ rfl)
          rw [withReturns_cons hLine, read_of_isWhitespace_eq_false hc]

end Gap

namespace Token

/-- A line end behind a minus is blank either way, so it is not read. -/
theorem readArrow_withReturns (cs : List Char) :
    readArrow (withReturns cs) = ((readArrow cs).1, withReturns (readArrow cs).2) := by
  cases cs with
  | nil => rfl
  | cons c cs =>
      by_cases hc : c = '\n'
      · subst hc
        rfl
      · rw [withReturns_cons hc, readArrow, readArrow]
        split
        · rfl
        · split
          · rw [withReturns_cons hc]
          · rfl

/-- A token ends in front of a line end of either kind. -/
theorem read_withReturns (c : Char) (cs : List Char) :
    read c (withReturns cs) = ((read c cs).1, withReturns (read c cs).2) := by
  unfold read
  split
  · rfl
  · split
    · exact readArrow_withReturns cs
    · split
      · rw [takeWhile_withReturns (by decide) (by decide),
          dropWhile_withReturns (by decide) (by decide)]
      · split
        · rw [takeWhile_withReturns (by decide) (by decide),
            dropWhile_withReturns (by decide) (by decide)]
        · rfl

end Token

namespace TokenStream

/-- The whole text is read alike, by induction on what remains of it. -/
theorem readFrom_withReturns (line : Nat) (seen : Bool) (cs : List Char) :
    readFrom line seen (withReturns cs) = readFrom line seen cs := by
  induction line, seen, cs using readFrom_induction with
  | last line seen cs hRest =>
      have hGap := Gap.read_withReturns line 0 none cs
      have hSame : (Gap.read line 0 none (withReturns cs)).rest = [] := by rw [hGap, hRest]; rfl
      rw [readFrom_of_rest_nil hSame, readFrom_of_rest_nil hRest, hGap]
      rfl
  | token line seen cs c rest hRest hc ih =>
      have hGap := Gap.read_withReturns line 0 none cs
      have hNewline : c ≠ '\n' := by
        rintro rfl
        cases hc
      rw [hRest, withReturns_cons hNewline] at hGap
      have hSame : (Gap.read line 0 none (withReturns cs)).rest = c :: withReturns rest := by
        rw [hGap]
      rw [readFrom_of_rest_cons hSame, readFrom_of_rest_cons hRest, hGap,
        Token.read_withReturns, ih]
      rfl

end TokenStream

/-- A text has the same lexemes and so the same grammar or defects, whichever way its lines end. -/
theorem Grammar.ofText_lineEnds (file : FileName) (text : List Char) :
    TokenStream.ofText (withReturns text) = TokenStream.ofText text ∧
      ofText file (withReturns text) = ofText file text := by
  have hSame : TokenStream.ofText (withReturns text) = TokenStream.ofText text :=
    TokenStream.readFrom_withReturns 1 false text
  exact ⟨hSame, by rw [ofText, ofText, hSame]⟩

end GrammarCheck
