import GrammarCheck.Token.Stream
import Mathlib.Data.List.Basic
import Mathlib.Data.List.TakeWhile

/-! How the tokens are spelled. The clauses say what the characters of a token are and what may not
follow them, so that a run of letters is never cut short; reading a token finds exactly these
characters. -/

namespace GrammarCheck

/-- `word` is the whole run of characters of one class at the front of `word ++ rest`. -/
structure Run (p : Char → Bool) (word rest : List Char) : Prop where
  inside : ∀ c ∈ word, p c = true
  ends : ∀ c ∈ rest.head?, p c = false

namespace Run

variable {p : Char → Bool} {word rest : List Char}

/-- The characters of a class at the front of a text are a run. -/
theorem of_takeWhile (p : Char → Bool) (cs : List Char) :
    Run p (cs.takeWhile p) (cs.dropWhile p) where
  inside := fun _ hMem => List.mem_takeWhile_imp hMem
  ends := by
    intro c hHead
    have hNot := List.head?_dropWhile_not p cs
    rwa [Option.mem_def.1 hHead] at hNot

/-- A text is the run at its front and what comes behind it. -/
theorem of_dropWhile {cs : List Char} (h : cs.dropWhile p = rest) :
    Run p (cs.takeWhile p) rest ∧ cs.takeWhile p ++ rest = cs := by
  subst h
  exact ⟨of_takeWhile p cs, List.takeWhile_append_dropWhile⟩

theorem takeWhile_rest (h : Run p word rest) : rest.takeWhile p = [] := by
  cases rest with
  | nil => rfl
  | cons c rest => exact List.takeWhile_cons_of_neg (by simp [h.ends c rfl])

theorem takeWhile_append (h : Run p word rest) : (word ++ rest).takeWhile p = word := by
  rw [List.takeWhile_append_of_pos h.inside, h.takeWhile_rest, List.append_nil]

theorem dropWhile_append (h : Run p word rest) : (word ++ rest).dropWhile p = rest := by
  have hSplit := List.takeWhile_append_dropWhile (p := p) (l := word ++ rest)
  rw [h.takeWhile_append] at hSplit
  exact List.append_cancel_left hSplit

/-- A run of one class holds no character of another. -/
theorem not_mem (h : Run p word rest) {c : Char} (hc : p c = false) : c ∉ word := by
  intro hMem
  rw [h.inside c hMem] at hc
  cases hc

/-- A text has one run of a class at its front. -/
theorem eq_of_append_eq {other below : List Char} (h : Run p word rest) (hOther : Run p other below)
    (hText : word ++ rest = other ++ below) : word = other ∧ rest = below := by
  rw [← h.takeWhile_append, ← hOther.takeWhile_append, hText]
  exact ⟨rfl, by rw [← h.dropWhile_append, hText, hOther.dropWhile_append]⟩

/-- A character that ends a run can be followed by anything. -/
theorem append (h : Run p word rest) {c : Char} (hc : p c = false) (below : List Char) :
    Run p word (rest ++ c :: below) where
  inside := h.inside
  ends := by
    cases rest with
    | nil => simpa using hc
    | cons d rest => exact h.ends

end Run

namespace Token

/-- The token spelled by `span` when `rest` comes behind it. -/
inductive Spelled : Token → (span rest : List Char) → Prop where
  | pipe {rest : List Char} : Spelled .pipe ['|'] rest
  | arrow {rest : List Char} : Spelled .arrow ['-', '>'] rest
  /-- A minus that blank space or the end of the text separates from an arrow head. -/
  | loneMinus {rest : List Char} (hRest : ∀ c ∈ rest.head?, Text.isBlank c = true) :
      Spelled (.error (.brokenArrow none)) ['-'] rest
  | brokenArrow {c : Char} {rest : List Char} (hArrow : c ≠ '>') (hBlank : Text.isBlank c = false) :
      Spelled (.error (.brokenArrow (some c))) ['-', c] rest
  | startDirective {rest : List Char} (hWord : Run Char.isAlpha "start".toList rest) :
      Spelled .startDirective ('%' :: "start".toList) rest
  | tokenDirective {rest : List Char} (hWord : Run Char.isAlpha "token".toList rest) :
      Spelled .tokenDirective ('%' :: "token".toList) rest
  | unknownDirective {word rest : List Char} (hWord : Run Char.isAlpha word rest)
      (hStart : word ≠ "start".toList) (hToken : word ≠ "token".toList) :
      Spelled (.error (.unknownDirective (String.ofList (word.take 16)))) ('%' :: word) rest
  | identifier {c : Char} {others rest : List Char} (hFirst : isNameStart c = true)
      (hName : Run isNameChar (c :: others) rest) (hLength : (c :: others).length ≤ 50) :
      Spelled (.identifier (String.ofList (c :: others))) (c :: others) rest
  | identifierTooLong {c : Char} {others rest : List Char} (hFirst : isNameStart c = true)
      (hName : Run isNameChar (c :: others) rest) (hLength : 50 < (c :: others).length) :
      Spelled (.error (.identifierTooLong (String.ofList ((c :: others).take 50))))
        (c :: others) rest
  /-- A character that begins none of the others, nor blank space. -/
  | unexpected {c : Char} {rest : List Char} (hPipe : c ≠ '|') (hMinus : c ≠ '-')
      (hPercent : c ≠ '%') (hName : isNameStart c = false) (hGap : c.isWhitespace = false) :
      Spelled (.error (.unexpectedCharacter c)) [c] rest

variable {token : Token} {c : Char} {span cs rest : List Char}

/-- A character that begins an identifier can also continue one. -/
theorem isNameChar_of_isNameStart (h : isNameStart c = true) : isNameChar c = true := by
  simp only [isNameStart, isNameChar, Char.isAlphanum, Bool.or_eq_true] at h ⊢
  exact h.imp_left .inl

theorem isAlpha_eq_false (h : isNameChar c = false) : c.isAlpha = false := by
  rw [isNameChar, Char.isAlphanum, Bool.or_eq_false_iff, Bool.or_eq_false_iff] at h
  exact h.1.1

theorem ne_of_isNameStart (h : isNameStart c = true) : c ≠ '|' ∧ c ≠ '-' ∧ c ≠ '%' := by
  refine ⟨?_, ?_, ?_⟩ <;> rintro rfl <;> revert h <;> decide

theorem isWhitespace_of_isNameChar (h : isNameChar c = true) : c.isWhitespace = false := by
  by_contra hWhitespace
  simp only [Char.isWhitespace, Bool.or_eq_true, decide_eq_true_eq,
    Bool.not_eq_false] at hWhitespace
  rcases hWhitespace with ((rfl | rfl) | rfl) | rfl <;> revert h <;> decide

namespace Spelled

/-- A token begins with a character that no gap contains. -/
theorem exists_first (h : Spelled token span rest) :
    ∃ c others, span = c :: others ∧ c.isWhitespace = false := by
  cases h with
  | identifier hFirst hName hLength =>
      exact ⟨_, _, rfl, isWhitespace_of_isNameChar (isNameChar_of_isNameStart hFirst)⟩
  | identifierTooLong hFirst hName hLength =>
      exact ⟨_, _, rfl, isWhitespace_of_isNameChar (isNameChar_of_isNameStart hFirst)⟩
  | unexpected hPipe hMinus hPercent hName hGap => exact ⟨_, _, rfl, hGap⟩
  | _ => exact ⟨_, _, rfl, by decide⟩

/-- Only a gap spans more than one line. -/
theorem newline_not_mem (h : Spelled token span rest) : '\n' ∉ span := by
  cases h with
  | brokenArrow hArrow hBlank =>
      rintro hMem
      rcases List.mem_pair.1 hMem with hMinus | rfl
      · cases hMinus
      · rw [Text.isBlank_newline] at hBlank
        cases hBlank
  | unknownDirective hWord hStart hToken =>
      intro hMem
      rcases List.mem_cons.1 hMem with hPercent | hLetter
      · cases hPercent
      · exact hWord.not_mem (by decide) hLetter
  | identifier hFirst hName hLength => exact hName.not_mem (by decide)
  | identifierTooLong hFirst hName hLength => exact hName.not_mem (by decide)
  | unexpected hPipe hMinus hPercent hName hGap =>
      intro hMem
      rw [← List.mem_singleton.1 hMem] at hGap
      cases hGap
  | _ => decide

/-- A blank line is no token of its own: gaps show it. -/
theorem ne_blankLine (h : Spelled token span rest) : token ≠ .blankLine := by
  cases h <;> exact fun hEq => Token.noConfusion hEq

/-- Blank space ends every token, so what comes behind it does not matter. -/
theorem append_space (h : Spelled token span rest) {space : Char}
    (hSpace : space.isWhitespace = true) (below : List Char) :
    Spelled token span (rest ++ space :: below) := by
  have hName : isNameChar space = false := by
    by_contra hName
    rw [Bool.not_eq_false] at hName
    rw [isWhitespace_of_isNameChar hName] at hSpace
    cases hSpace
  have hAlpha : space.isAlpha = false := isAlpha_eq_false hName
  cases h with
  | pipe => exact .pipe
  | arrow => exact .arrow
  | loneMinus hRest =>
      refine .loneMinus ?_
      cases rest with
      | nil => simpa using Text.isBlank_of_isWhitespace hSpace
      | cons c rest => exact hRest
  | brokenArrow hArrow hBlank => exact .brokenArrow hArrow hBlank
  | startDirective hWord => exact .startDirective (hWord.append hAlpha below)
  | tokenDirective hWord => exact .tokenDirective (hWord.append hAlpha below)
  | unknownDirective hWord hStart hToken =>
      exact .unknownDirective (hWord.append hAlpha below) hStart hToken
  | identifier hFirst hRun hLength =>
      exact .identifier hFirst (hRun.append hName below) hLength
  | identifierTooLong hFirst hRun hLength =>
      exact .identifierTooLong hFirst (hRun.append hName below) hLength
  | unexpected hPipe hMinus hPercent hStart hGap =>
      exact .unexpected hPipe hMinus hPercent hStart hGap

end Spelled

theorem ofDirective_start : ofDirective "start".toList = .startDirective := by decide

theorem ofDirective_token : ofDirective "token".toList = .tokenDirective := by decide

theorem ofDirective_of_ne {word : List Char} (hStart : word ≠ "start".toList)
    (hToken : word ≠ "token".toList) :
    ofDirective word = .error (.unknownDirective (String.ofList (word.take 16))) := by
  rw [ofDirective, if_neg hStart, if_neg hToken]
  rfl

theorem ofName_of_le (h : span.length ≤ 50) : ofName span = .identifier (String.ofList span) :=
  if_pos h

theorem ofName_of_lt (h : 50 < span.length) :
    ofName span = .error (.identifierTooLong (String.ofList (span.take 50))) :=
  if_neg (Nat.not_le.2 h)

theorem read_percent (hWord : Run Char.isAlpha span rest) :
    read '%' (span ++ rest) = (ofDirective span, rest) := by
  simp [read, hWord.takeWhile_append, hWord.dropWhile_append]

theorem read_of_isNameStart (h : isNameStart c = true) (hName : Run isNameChar (c :: cs) rest) :
    read c (cs ++ rest) = (ofName (c :: cs), rest) := by
  obtain ⟨hPipe, hMinus, hPercent⟩ := ne_of_isNameStart h
  have hOthers : Run isNameChar cs rest := ⟨fun x hMem => hName.inside x (.tail c hMem), hName.ends⟩
  simp [read, h, hPipe, hMinus, hPercent, hOthers.takeWhile_append, hOthers.dropWhile_append]

/-- A spelled token is the one that is read, and nothing behind it is touched. -/
theorem Spelled.read_eq (h : Spelled token (c :: cs) rest) :
    read c (cs ++ rest) = (token, rest) := by
  cases h with
  | pipe => rfl
  | arrow => rfl
  | loneMinus hRest =>
      cases rest with
      | nil => rfl
      | cons d rest =>
          have hBlank : Text.isBlank d = true := hRest d rfl
          have hArrow : d ≠ '>' := by
            rintro rfl
            revert hBlank
            decide
          simp [read, readArrow, hArrow, hBlank]
  | brokenArrow hArrow hBlank => simp [read, readArrow, hArrow, hBlank]
  | startDirective hWord => rw [read_percent hWord, ofDirective_start]
  | tokenDirective hWord => rw [read_percent hWord, ofDirective_token]
  | unknownDirective hWord hStart hToken =>
      rw [read_percent hWord, ofDirective_of_ne hStart hToken]
  | identifier hFirst hName hLength =>
      rw [read_of_isNameStart hFirst hName, ofName_of_le hLength]
  | identifierTooLong hFirst hName hLength =>
      rw [read_of_isNameStart hFirst hName, ofName_of_lt hLength]
  | unexpected hPipe hMinus hPercent hName hGap => simp [read, hPipe, hMinus, hPercent, hName]

/-- The front of a text spells one token. -/
theorem Spelled.eq_of_append_eq {other : Token} {otherSpan below : List Char}
    (h : Spelled token span rest) (hOther : Spelled other otherSpan below)
    (hText : span ++ rest = otherSpan ++ below) :
    token = other ∧ span = otherSpan ∧ rest = below := by
  obtain ⟨c, cs, rfl, -⟩ := h.exists_first
  obtain ⟨d, ds, rfl, -⟩ := hOther.exists_first
  obtain ⟨rfl, hRest⟩ : c = d ∧ cs ++ rest = ds ++ below := List.cons.inj hText
  have hRead : (token, rest) = (other, below) := by rw [← h.read_eq, ← hOther.read_eq, hRest]
  obtain ⟨rfl, rfl⟩ := Prod.mk.inj hRead
  exact ⟨rfl, congrArg (c :: ·) (List.append_cancel_right hRest), rfl⟩

/-- What is read behind a minus is what spells the token. -/
theorem exists_spelled_readArrow (cs : List Char) :
    ∃ others, cs = others ++ (readArrow cs).2 ∧
      Spelled (readArrow cs).1 ('-' :: others) (readArrow cs).2 := by
  fun_cases readArrow cs with
  | case1 => exact ⟨[], rfl, .loneMinus (by simp)⟩
  | case2 cs => exact ⟨['>'], rfl, .arrow⟩
  | case3 c cs hArrow hBlank => exact ⟨[], rfl, .loneMinus (by simpa using hBlank)⟩
  | case4 c cs hArrow hBlank =>
      exact ⟨[c], rfl, .brokenArrow hArrow (Bool.eq_false_iff.2 hBlank)⟩

theorem spelled_ofDirective (hWord : Run Char.isAlpha span rest) :
    Spelled (ofDirective span) ('%' :: span) rest := by
  by_cases hStart : span = "start".toList
  · subst hStart
    exact .startDirective hWord
  · by_cases hToken : span = "token".toList
    · subst hToken
      exact .tokenDirective hWord
    · rw [ofDirective_of_ne hStart hToken]
      exact .unknownDirective hWord hStart hToken

/-- The identifier of a name is spelled by it, or is too long. -/
theorem spelled_ofName (h : isNameStart c = true) (hName : Run isNameChar (c :: cs) rest) :
    Spelled (ofName (c :: cs)) (c :: cs) rest := by
  rcases Nat.lt_or_ge 50 (c :: cs).length with hLong | hLength
  · rw [ofName_of_lt hLong]
    exact .identifierTooLong h hName hLong
  · rw [ofName_of_le hLength]
    exact .identifier h hName hLength

/-- Reading a token leaves less than the text in which it stands. -/
theorem length_read_lt {gap text : List Char} (hText : gap ++ c :: cs = text) :
    (read c cs).2.length < text.length := by
  have hRead := length_read_le c cs
  rw [← hText, List.length_append, List.length_cons]
  omega

/-- Reading finds the characters of one token at the front of a text that begins with no gap. -/
theorem exists_spelled_read (hGap : c.isWhitespace = false) (cs : List Char) :
    ∃ others, cs = others ++ (read c cs).2 ∧
      Spelled (read c cs).1 (c :: others) (read c cs).2 := by
  have hSplit (p : Char → Bool) : cs = cs.takeWhile p ++ cs.dropWhile p :=
    List.takeWhile_append_dropWhile.symm
  fun_cases read c cs with
  | case1 hPipe =>
      subst hPipe
      exact ⟨[], rfl, .pipe⟩
  | case2 _ hMinus =>
      subst hMinus
      exact exists_spelled_readArrow cs
  | case3 _ _ hPercent =>
      subst hPercent
      exact ⟨_, hSplit _, spelled_ofDirective (.of_takeWhile _ _)⟩
  | case4 _ _ _ hName =>
      have hRun := Run.of_takeWhile isNameChar cs
      refine ⟨_, hSplit _, spelled_ofName hName ⟨?_, hRun.ends⟩⟩
      intro x hMem
      rcases List.mem_cons.1 hMem with rfl | hOther
      · exact isNameChar_of_isNameStart hName
      · exact hRun.inside x hOther
  | case5 hPipe hMinus hPercent hName =>
      exact ⟨[], rfl, .unexpected hPipe hMinus hPercent (Bool.eq_false_iff.2 hName) hGap⟩

end Token

end GrammarCheck
