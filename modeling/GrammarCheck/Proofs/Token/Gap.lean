import GrammarCheck.Token.Stream
import Mathlib.Data.List.Basic
import Mathlib.Data.List.Induction

/-! Where the blank space at the front of a text ends, how many lines it spans, and where the first
blank line in it is. The three are said of the space itself, character by character, and reading
counts its way to them. -/

namespace GrammarCheck

/-- A newline comes last in `above`, up to carriage returns. -/
def AfterNewline (above : List Char) : Prop :=
  ∃ before returns, above = before ++ '\n' :: returns ∧ ∀ c ∈ returns, c = '\r'

/-- Somewhere in `gap` a newline follows another one with only carriage returns between them. -/
def HasBlankLine (gap : List Char) : Prop :=
  ∃ above below, gap = above ++ '\n' :: below ∧ AfterNewline above

/-- The first blank line of `gap` ends with the newline right behind `above`. -/
structure FirstBlankLine (gap above : List Char) : Prop where
  ends : ∃ below, gap = above ++ '\n' :: below
  afterNewline : AfterNewline above
  first : ¬ HasBlankLine above

section

variable {gap above : List Char} {c : Char}

/-- A character of `gap ++ [c]` is the last one or stands in `gap`. -/
theorem append_singleton_eq_append_cons {x : Char} {below : List Char} :
    gap ++ [c] = above ++ x :: below ↔
      (gap = above ∧ c = x ∧ below = []) ∨
        ∃ others, gap = above ++ x :: others ∧ below = others ++ [c] := by
  cases List.eq_nil_or_concat' below with
  | inl hNil =>
      subst hNil
      simp
  | inr hConcat =>
      obtain ⟨others, y, rfl⟩ := hConcat
      have hAssoc : above ++ x :: (others ++ [y]) = (above ++ x :: others) ++ [y] := by simp
      rw [hAssoc, List.append_singleton_inj]
      simp [@eq_comm _ c y]

theorem not_afterNewline_nil : ¬ AfterNewline [] := by
  rintro ⟨before, returns, hEq, -⟩
  exact List.append_ne_nil_of_right_ne_nil before (List.cons_ne_nil _ _) hEq.symm

theorem not_hasBlankLine_nil : ¬ HasBlankLine [] := by
  rintro ⟨above, below, hEq, -⟩
  exact List.append_ne_nil_of_right_ne_nil above (List.cons_ne_nil _ _) hEq.symm

/-- A newline comes last, or a carriage return behind one. -/
theorem afterNewline_concat :
    AfterNewline (gap ++ [c]) ↔ c = '\n' ∨ c = '\r' ∧ AfterNewline gap := by
  constructor
  · rintro ⟨before, returns, hEq, hReturns⟩
    rcases append_singleton_eq_append_cons.1 hEq with ⟨-, hNewline, -⟩ | ⟨others, hGap, rfl⟩
    · exact .inl hNewline
    · exact .inr ⟨hReturns c (by simp), before, others, hGap,
        fun y hMem => hReturns y (List.mem_append_left _ hMem)⟩
  · rintro (rfl | ⟨rfl, before, returns, rfl, hReturns⟩)
    · exact ⟨gap, [], rfl, by simp⟩
    · refine ⟨before, returns ++ ['\r'], by simp, ?_⟩
      intro y hMem
      rcases List.mem_append.1 hMem with hReturn | hLast
      · exact hReturns y hReturn
      · exact List.mem_singleton.1 hLast

/-- A blank line ends with a newline behind another one. -/
theorem hasBlankLine_concat :
    HasBlankLine (gap ++ [c]) ↔ HasBlankLine gap ∨ c = '\n' ∧ AfterNewline gap := by
  constructor
  · rintro ⟨above, below, hEq, hAfter⟩
    rcases append_singleton_eq_append_cons.1 hEq with ⟨rfl, hNewline, -⟩ | ⟨others, hGap, -⟩
    · exact .inr ⟨hNewline, hAfter⟩
    · exact .inl ⟨above, others, hGap, hAfter⟩
  · rintro (⟨above, below, rfl, hAfter⟩ | ⟨rfl, hAfter⟩)
    · exact ⟨above, below ++ [c], by simp, hAfter⟩
    · exact ⟨gap, [], rfl, hAfter⟩

/-- The first blank line is found in front, or it ends here. -/
theorem firstBlankLine_concat :
    FirstBlankLine (gap ++ [c]) above ↔ FirstBlankLine gap above ∨
      c = '\n' ∧ above = gap ∧ AfterNewline gap ∧ ¬ HasBlankLine gap := by
  constructor
  · rintro ⟨⟨below, hEq⟩, hAfter, hFirst⟩
    rcases append_singleton_eq_append_cons.1 hEq with ⟨rfl, hNewline, -⟩ | ⟨others, hGap, -⟩
    · exact .inr ⟨hNewline, rfl, hAfter, hFirst⟩
    · exact .inl ⟨⟨others, hGap⟩, hAfter, hFirst⟩
  · rintro (⟨⟨below, rfl⟩, hAfter, hFirst⟩ | ⟨rfl, rfl, hAfter, hFirst⟩)
    · exact ⟨⟨below ++ [c], by simp⟩, hAfter, hFirst⟩
    · exact ⟨⟨[], rfl⟩, hAfter, hFirst⟩

theorem not_firstBlankLine_nil : ¬ FirstBlankLine [] above :=
  fun h => not_hasBlankLine_nil ⟨above, h.ends.choose, h.ends.choose_spec, h.afterNewline⟩

/-- What comes below does not move the first blank line. -/
theorem FirstBlankLine.append (h : FirstBlankLine gap above) (below : List Char) :
    FirstBlankLine (gap ++ below) above := by
  obtain ⟨⟨rest, rfl⟩, hAfter, hFirst⟩ := h
  exact ⟨⟨rest ++ below, by simp⟩, hAfter, hFirst⟩

/-- A gap has one first blank line. -/
theorem FirstBlankLine.eq {other : List Char} (h : FirstBlankLine gap above)
    (hOther : FirstBlankLine gap other) : above = other := by
  obtain ⟨⟨below, rfl⟩, hAfter, hFirst⟩ := h
  obtain ⟨⟨others, hEq⟩, hOtherAfter, hOtherFirst⟩ := hOther
  rcases List.append_eq_append_iff.1 hEq with ⟨between, rfl, hRest⟩ | ⟨between, rfl, hRest⟩
  · cases between with
    | nil => exact (List.append_nil above).symm
    | cons c between =>
        obtain ⟨rfl, -⟩ := List.cons.inj hRest
        exact absurd ⟨above, between, rfl, hAfter⟩ hOtherFirst
  · cases between with
    | nil => exact List.append_nil other
    | cons c between =>
        obtain ⟨rfl, -⟩ := List.cons.inj hRest
        exact absurd ⟨other, between, rfl, hOtherAfter⟩ hFirst

/-- A gap with a blank line has a first one. The induction is on the gap from behind, since that is
the end at which it grows while it is read. -/
theorem hasBlankLine_iff : HasBlankLine gap ↔ ∃ above, FirstBlankLine gap above := by
  induction gap using List.reverseRecOn with
  | nil => simp [not_hasBlankLine_nil, not_firstBlankLine_nil]
  | append_singleton gap c ih =>
      rw [hasBlankLine_concat]
      simp only [firstBlankLine_concat, exists_or, ← ih]
      by_cases hGap : HasBlankLine gap <;> simp [hGap]

end

/-- Reading stops where the next character is none of the four kinds of blank space. -/
theorem Gap.takeWhile_isWhitespace_eq_nil {cs : List Char} (hNewline : ∀ rest, cs ≠ '\n' :: rest)
    (hSpace : ∀ rest, cs ≠ ' ' :: rest) (hTab : ∀ rest, cs ≠ '\t' :: rest)
    (hReturn : ∀ rest, cs ≠ '\r' :: rest) : cs.takeWhile Char.isWhitespace = [] := by
  cases cs with
  | nil => rfl
  | cons c cs =>
      have hStop : ¬ c.isWhitespace = true := by
        simp only [Char.isWhitespace, Bool.or_eq_true, decide_eq_true_eq]
        rintro (((rfl | rfl) | rfl) | rfl)
        · exact hSpace cs rfl
        · exact hTab cs rfl
        · exact hReturn cs rfl
        · exact hNewline cs rfl
      exact List.takeWhile_cons_of_neg hStop

/-- What reading has counted after the blank space `gap` from line `start` on. -/
structure GapProgress (start line newlines : Nat) (blankLine : Option Nat) (gap : List Char) :
    Prop where
  line_eq : line = start + gap.count '\n'
  pos_iff : 0 < newlines ↔ AfterNewline gap
  hasBlankLine_of_two : 1 < newlines → HasBlankLine gap
  blankLine_iff (l : Nat) :
    blankLine = some l ↔ ∃ above, FirstBlankLine gap above ∧ l = start + above.count '\n'

namespace GapProgress

variable {start line newlines : Nat} {blankLine : Option Nat} {gap : List Char}

theorem nil (start : Nat) : GapProgress start start 0 none [] where
  line_eq := by simp
  pos_iff := by simp [not_afterNewline_nil]
  hasBlankLine_of_two := by omega
  blankLine_iff := by simp [not_firstBlankLine_nil]

/-- Reading has found a blank line exactly when there is one. -/
theorem blankLine_ne_none_iff (h : GapProgress start line newlines blankLine gap) :
    blankLine ≠ none ↔ HasBlankLine gap := by
  rw [Option.ne_none_iff_exists', hasBlankLine_iff]
  simp only [h.blankLine_iff]
  constructor
  · rintro ⟨l, above, hFirst, -⟩
    exact ⟨above, hFirst⟩
  · rintro ⟨above, hFirst⟩
    exact ⟨_, above, hFirst, rfl⟩

/-- A character that is no newline cannot end a blank line. -/
theorem firstBlankLine_concat_of_ne {above : List Char} {c : Char} (hc : c ≠ '\n') :
    FirstBlankLine (gap ++ [c]) above ↔ FirstBlankLine gap above := by
  simp [firstBlankLine_concat, hc]

/-- A space or tab comes between newlines, so the count begins anew. -/
theorem space (h : GapProgress start line newlines blankLine gap) {c : Char} (hNewline : c ≠ '\n')
    (hReturn : c ≠ '\r') : GapProgress start line 0 blankLine (gap ++ [c]) where
  line_eq := by simp [h.line_eq, hNewline]
  pos_iff := by simp [afterNewline_concat, hNewline, hReturn]
  hasBlankLine_of_two := by omega
  blankLine_iff := by simp [firstBlankLine_concat_of_ne hNewline, h.blankLine_iff]

theorem carriageReturn (h : GapProgress start line newlines blankLine gap) :
    GapProgress start line newlines blankLine (gap ++ ['\r']) where
  line_eq := by simp [h.line_eq]
  pos_iff := by simp [afterNewline_concat, h.pos_iff]
  hasBlankLine_of_two := fun hTwo => hasBlankLine_concat.2 (.inl (h.hasBlankLine_of_two hTwo))
  blankLine_iff := by simp [firstBlankLine_concat_of_ne, h.blankLine_iff]

/-- A newline ends the first blank line when it is the second since the last space and none was
found before. -/
theorem newline (h : GapProgress start line newlines blankLine gap) :
    GapProgress start (line + 1) (newlines + 1)
      (if newlines = 1 then blankLine.or (some line) else blankLine) (gap ++ ['\n']) where
  line_eq := by
    rw [List.count_append, h.line_eq, List.count_singleton_self, Nat.add_assoc]
  pos_iff := by simp [afterNewline_concat]
  hasBlankLine_of_two := by
    intro hTwo
    exact hasBlankLine_concat.2 (.inr ⟨rfl, h.pos_iff.1 (by omega)⟩)
  blankLine_iff := by
    intro l
    have hBlank := h.blankLine_ne_none_iff
    simp only [firstBlankLine_concat, true_and, or_and_right, exists_or, ← h.blankLine_iff]
    by_cases hFound : HasBlankLine gap
    · obtain ⟨found, rfl⟩ := Option.ne_none_iff_exists'.1 (hBlank.2 hFound)
      simp [hFound]
    · have hNone : blankLine = none := by
        by_contra hSome
        exact hFound (hBlank.1 hSome)
      subst hNone
      have hOne : newlines = 1 ↔ AfterNewline gap := by
        rw [← h.pos_iff]
        have hNotTwo : ¬ 1 < newlines := fun hTwo => hFound (h.hasBlankLine_of_two hTwo)
        omega
      by_cases hAfter : AfterNewline gap
      · simp [hOne.2 hAfter, hAfter, hFound, h.line_eq, eq_comm]
      · simp [hOne, hAfter]

/-- What reading has counted where it stops. The induction is on the reading, and `gap` grows by
each character that it passes. -/
theorem read (h : GapProgress start line newlines blankLine gap) (cs : List Char) :
    ∃ last, GapProgress start (Gap.read line newlines blankLine cs).endLine last
      (Gap.read line newlines blankLine cs).blankLine
      (gap ++ cs.takeWhile Char.isWhitespace) := by
  fun_induction Gap.read line newlines blankLine cs generalizing gap with
  | case1 line newlines blankLine cs =>
      rename_i ih
      simpa using ih h.newline
  | case2 line newlines blankLine cs ih =>
      simpa using ih (h.space (c := ' ') (by decide) (by decide))
  | case3 line newlines blankLine cs ih =>
      simpa using ih (h.space (c := '\t') (by decide) (by decide))
  | case4 line newlines blankLine cs ih => simpa using ih h.carriageReturn
  | case5 line newlines blankLine cs hNewline hSpace hTab hReturn =>
      have hStop : cs.takeWhile Char.isWhitespace = [] :=
        Gap.takeWhile_isWhitespace_eq_nil hNewline hSpace hTab hReturn
      exact ⟨newlines, by rwa [hStop, List.append_nil]⟩

end GapProgress

namespace Gap

variable {line newlines : Nat} {blankLine : Option Nat} {cs : List Char}

/-- A gap ends at the first character that is not blank. -/
theorem rest_read : (read line newlines blankLine cs).rest = cs.dropWhile Char.isWhitespace := by
  fun_induction read line newlines blankLine cs with
  | case1 line newlines blankLine cs =>
      rename_i ih
      simpa using ih
  | case2 line newlines blankLine cs ih => simpa using ih
  | case3 line newlines blankLine cs ih => simpa using ih
  | case4 line newlines blankLine cs ih => simpa using ih
  | case5 line newlines blankLine cs hNewline hSpace hTab hReturn =>
      have hSplit := List.takeWhile_append_dropWhile (p := Char.isWhitespace) (l := cs)
      rw [takeWhile_isWhitespace_eq_nil hNewline hSpace hTab hReturn, List.nil_append] at hSplit
      exact hSplit.symm

/-- The line behind the blank space is as many lines further as there are newlines in it. -/
theorem endLine_read (line : Nat) (cs : List Char) :
    (read line 0 none cs).endLine = line + (cs.takeWhile Char.isWhitespace).count '\n' := by
  obtain ⟨last, hProgress⟩ := (GapProgress.nil line).read cs
  exact hProgress.line_eq

/-- A blank line is found exactly where the first one of the gap is. -/
theorem blankLine_read_eq_some_iff {l : Nat} :
    (read line 0 none cs).blankLine = some l ↔
      ∃ above, FirstBlankLine (cs.takeWhile Char.isWhitespace) above ∧
        l = line + above.count '\n' := by
  obtain ⟨last, hProgress⟩ := (GapProgress.nil line).read cs
  exact hProgress.blankLine_iff l

theorem blankLine_read_eq_none_iff :
    (read line 0 none cs).blankLine = none ↔ ¬ HasBlankLine (cs.takeWhile Char.isWhitespace) := by
  obtain ⟨last, hProgress⟩ := (GapProgress.nil line).read cs
  rw [← not_iff_not, not_not]
  exact hProgress.blankLine_ne_none_iff

/-- What a text shows of the gap: its first blank line, behind the first token. -/
def separator (gap : Gap) (seen : Bool) : List Lexeme :=
  match gap.blankLine with
  | some l => if seen then [⟨.blankLine, l⟩] else []
  | none => []

end Gap

namespace TokenStream

variable {line : Nat} {seen : Bool} {cs : List Char}

/-- A text that is blank to its end has no token in it. -/
theorem readFrom_of_rest_nil (h : (Gap.read line 0 none cs).rest = []) :
    readFrom line seen cs =
      ⟨(Gap.read line 0 none cs).separator seen, (Gap.read line 0 none cs).endLine⟩ := by
  rw [readFrom]
  split
  case h_1 => rfl
  case h_2 c rest hRest =>
    rw [hRest] at h
    cases h

/-- Behind a gap comes one token, and then the rest of the text. -/
theorem readFrom_of_rest_cons {c : Char} {rest : List Char}
    (h : (Gap.read line 0 none cs).rest = c :: rest) :
    readFrom line seen cs =
      ⟨(Gap.read line 0 none cs).separator seen ++
          ⟨(Token.read c rest).1, (Gap.read line 0 none cs).endLine⟩ ::
            (readFrom (Gap.read line 0 none cs).endLine true (Token.read c rest).2).lexemes,
        (readFrom (Gap.read line 0 none cs).endLine true (Token.read c rest).2).endLine⟩ := by
  rw [readFrom]
  split
  case h_1 hRest =>
    rw [hRest] at h
    cases h
  case h_2 d others hRest =>
    obtain ⟨rfl, rfl⟩ := List.cons.inj (hRest.symm.trans h)
    rfl

end TokenStream

end GrammarCheck
