import GrammarCheck.Proofs.Token.Division

/-! Reading across a blank line. What stands below it has the lexemes that it would have as a text
of its own, only further down; what stands above it shows no more than that it ends there. -/

namespace GrammarCheck

def Lexeme.lower (n : Nat) (l : Lexeme) : Lexeme := ⟨l.token, l.line + n⟩

namespace Gap

variable {line : Nat} {cs : List Char}

theorem eq_mk {gap : Gap} {endLine : Nat} {blankLine : Option Nat} {rest : List Char}
    (hEnd : gap.endLine = endLine) (hBlank : gap.blankLine = blankLine) (hRest : gap.rest = rest) :
    gap = ⟨endLine, blankLine, rest⟩ := by
  subst hEnd hBlank hRest
  rfl

/-- Where the space begins matters for the lines only. -/
theorem read_lower (line n : Nat) (cs : List Char) :
    read (line + n) 0 none cs =
      ⟨(read line 0 none cs).endLine + n, (read line 0 none cs).blankLine.map (· + n),
        (read line 0 none cs).rest⟩ := by
  have hEnd : (read (line + n) 0 none cs).endLine = (read line 0 none cs).endLine + n := by
    rw [endLine_read, endLine_read]
    omega
  have hBlank : (read (line + n) 0 none cs).blankLine =
      (read line 0 none cs).blankLine.map (· + n) := by
    refine Option.ext fun l => ?_
    simp only [Option.map_eq_some_iff, blankLine_read_eq_some_iff]
    constructor
    · rintro ⟨above, hFirst, rfl⟩
      exact ⟨_, ⟨above, hFirst, rfl⟩, by omega⟩
    · rintro ⟨_, ⟨above, hFirst, rfl⟩, rfl⟩
      exact ⟨above, hFirst, by omega⟩
  exact eq_mk hEnd hBlank (by rw [rest_read, rest_read])

/-- A gap further down shows the same blank line further down. -/
theorem separator_lower (line n : Nat) (seen : Bool) (cs : List Char) :
    (read (line + n) 0 none cs).separator seen =
      ((read line 0 none cs).separator seen).map (Lexeme.lower n) := by
  rw [read_lower]
  unfold separator
  cases (read line 0 none cs).blankLine with
  | none => rfl
  | some l => cases seen <;> rfl

/-- The space at the front of a text is read as it would be alone. -/
theorem read_run (line : Nat) {gap rest : List Char} (h : Run Char.isWhitespace gap rest) :
    read line 0 none (gap ++ rest) =
      ⟨(read line 0 none gap).endLine, (read line 0 none gap).blankLine, rest⟩ := by
  have hAlone : gap.takeWhile Char.isWhitespace = gap :=
    List.takeWhile_eq_self_iff.2 h.inside
  have hEnd : (read line 0 none (gap ++ rest)).endLine = (read line 0 none gap).endLine := by
    rw [endLine_read, endLine_read, h.takeWhile_append, hAlone]
  have hBlank : (read line 0 none (gap ++ rest)).blankLine = (read line 0 none gap).blankLine := by
    refine Option.ext fun l => ?_
    rw [blankLine_read_eq_some_iff, blankLine_read_eq_some_iff, h.takeWhile_append, hAlone]
  have hRest : (read line 0 none (gap ++ rest)).rest = rest := by
    rw [rest_read, h.dropWhile_append]
  exact eq_mk hEnd hBlank hRest

/-- The space that is read is the whole run of it at the front of the text. -/
theorem run_of_rest_read {rest : List Char} (h : (read line 0 none cs).rest = rest) :
    Run Char.isWhitespace (cs.takeWhile Char.isWhitespace) rest ∧
      cs.takeWhile Char.isWhitespace ++ rest = cs := by
  rw [rest_read] at h
  exact Run.of_dropWhile h

/-- Space that ends within a text ends there whatever comes behind the text. -/
theorem read_append {c : Char} {rest : List Char}
    (h : (read line 0 none cs).rest = c :: rest) (below : List Char) :
    read line 0 none (cs ++ below) =
      ⟨(read line 0 none cs).endLine, (read line 0 none cs).blankLine, c :: (rest ++ below)⟩ := by
  obtain ⟨hRun, hSplit⟩ := run_of_rest_read h
  have hLonger : Run Char.isWhitespace (cs.takeWhile Char.isWhitespace) (c :: (rest ++ below)) :=
    ⟨hRun.inside, hRun.ends⟩
  have hAlone := read_run line hRun
  rw [hSplit] at hAlone
  rw [hAlone, ← read_run line hLonger, ← List.cons_append, ← List.append_assoc, hSplit]

/-- Behind blank space reading goes on as if a text began there, except that a blank line may have
been found. -/
theorem exists_read_space (line : Nat) {space : List Char}
    (h : ∀ c ∈ space, c.isWhitespace = true) (below : List Char) :
    ∃ blankLine, read line 0 none (space ++ below) =
      ⟨(read (line + space.count '\n') 0 none below).endLine, blankLine,
        (read (line + space.count '\n') 0 none below).rest⟩ := by
  refine ⟨_, eq_mk ?_ rfl ?_⟩
  · rw [endLine_read, endLine_read, List.takeWhile_append_of_pos h, List.count_append,
      Nat.add_assoc]
  · rw [rest_read, rest_read, List.dropWhile_append_of_pos h]

/-- Behind two newlines a blank line has been found, and more space adds nothing but lines. -/
theorem exists_read_blankLine (line : Nat) {above : List Char}
    (h : ∀ c ∈ above, c.isWhitespace = true) :
    ∃ l, ∀ below, read line 0 none (above ++ '\n' :: '\n' :: below) =
      ⟨(read (line + above.count '\n' + 2) 0 none below).endLine, some l,
        (read (line + above.count '\n' + 2) 0 none below).rest⟩ := by
  have hBlank : HasBlankLine (above ++ ['\n', '\n']) :=
    ⟨above ++ ['\n'], [], by simp, above, [], rfl, by simp⟩
  obtain ⟨before, hFirst⟩ := hasBlankLine_iff.1 hBlank
  refine ⟨line + before.count '\n', fun below => ?_⟩
  have hSpace : ∀ c ∈ above ++ ['\n', '\n'], c.isWhitespace = true := by
    intro c hMem
    rcases List.mem_append.1 hMem with hAbove | hNewline
    · exact h c hAbove
    · rcases List.mem_pair.1 hNewline with rfl | rfl <;> rfl
  have hText : above ++ '\n' :: '\n' :: below = (above ++ ['\n', '\n']) ++ below := by simp
  have hCount : (above ++ ['\n', '\n']).count '\n' = above.count '\n' + 2 := by simp
  have hFound : (read line 0 none (above ++ ['\n', '\n'] ++ below)).blankLine =
      some (line + before.count '\n') := by
    rw [blankLine_read_eq_some_iff, List.takeWhile_append_of_pos hSpace]
    exact ⟨before, hFirst.append _, rfl⟩
  obtain ⟨blankLine, hRead⟩ := exists_read_space line hSpace below
  rw [hRead] at hFound
  rw [hText, hRead, hCount, ← Nat.add_assoc, ← hFound]

end Gap

/-- Blank space ends every token, so reading one token does not look behind it. -/
theorem Token.read_append_space {c space : Char} (h : c.isWhitespace = false)
    (hSpace : space.isWhitespace = true) (cs below : List Char) :
    read c (cs ++ space :: below) = ((read c cs).1, (read c cs).2 ++ space :: below) := by
  obtain ⟨others, hOthers, hToken⟩ := exists_spelled_read h cs
  have hRead := (hToken.append_space hSpace below).read_eq
  rwa [← List.append_assoc, ← hOthers] at hRead

/-- A token has no newline, so those of a text are in the space in front of the first token and
behind that token. -/
theorem Gap.endLine_add_count_read {line : Nat} {c : Char} {cs rest : List Char}
    (h : (read line 0 none cs).rest = c :: rest) :
    (read line 0 none cs).endLine + (Token.read c rest).2.count '\n' = line + cs.count '\n' := by
  obtain ⟨hRun, hSplit⟩ := run_of_rest_read h
  obtain ⟨others, hOthers, hToken⟩ := Token.exists_spelled_read (hRun.ends c rfl) rest
  have hSpan := List.count_eq_zero.2 hToken.newline_not_mem
  have hCount := congrArg (List.count '\n') hSplit.symm
  rw [hOthers, ← List.cons_append, List.count_append, List.count_append, hSpan] at hCount
  rw [endLine_read, hCount]
  omega

namespace TokenStream

/-- Reading goes through a text from token to token, each with the gap in front of it, to the gap
that ends the text. -/
@[elab_as_elim]
theorem readFrom_induction {motive : Nat → Bool → List Char → Prop}
    (last : ∀ line seen cs, (Gap.read line 0 none cs).rest = [] → motive line seen cs)
    (token : ∀ line seen cs c rest, (Gap.read line 0 none cs).rest = c :: rest →
      c.isWhitespace = false →
      motive (Gap.read line 0 none cs).endLine true (Token.read c rest).2 → motive line seen cs)
    (line : Nat) (seen : Bool) (cs : List Char) : motive line seen cs := by
  induction hLength : cs.length using Nat.strongRecOn generalizing line seen cs with
  | ind length ih =>
      cases hRest : (Gap.read line 0 none cs).rest with
      | nil => exact last line seen cs hRest
      | cons c rest =>
          obtain ⟨hRun, hSplit⟩ := Gap.run_of_rest_read hRest
          have hShorter : (Token.read c rest).2.length < length :=
            hLength ▸ Token.length_read_lt hSplit
          exact token line seen cs c rest hRest (hRun.ends c rfl) (ih _ hShorter _ true _ rfl)

/-- How what stands above a blank line ends: with the blank line, unless nothing came before it. -/
inductive EndsBlank : (seen : Bool) → List Lexeme → Prop where
  | nothing : EndsBlank false []
  | blankLine {seen : Bool} (front : List Lexeme) (line : Nat) :
      EndsBlank seen (front ++ [⟨.blankLine, line⟩])

/-- What ends in a blank line does so with anything in front of it. -/
theorem EndsBlank.append {lexemes : List Lexeme} (h : EndsBlank true lexemes) (seen : Bool)
    (front : List Lexeme) : EndsBlank seen (front ++ lexemes) := by
  cases h with
  | blankLine others line =>
      rw [← List.append_assoc]
      exact .blankLine (front ++ others) line

/-- When the gap in front is read as the gap in front of `below` is, but for a blank line in it, so
is everything behind. -/
theorem readFrom_of_gap {line below : Nat} {blankLine : Option Nat} {cs others : List Char}
    (h : Gap.read line 0 none cs =
      ⟨(Gap.read below 0 none others).endLine, blankLine, (Gap.read below 0 none others).rest⟩)
    (seen : Bool) :
    readFrom line seen cs =
      ⟨Gap.separator ⟨0, blankLine, []⟩ seen ++ (readFrom below false others).lexemes,
        (readFrom below false others).endLine⟩ := by
  have hNothing : (Gap.read below 0 none others).separator false = [] := by
    unfold Gap.separator
    split <;> rfl
  cases hRest : (Gap.read below 0 none others).rest with
  | nil =>
      have hSame : (Gap.read line 0 none cs).rest = [] := by rw [h, hRest]
      rw [readFrom_of_rest_nil hSame, readFrom_of_rest_nil hRest, hNothing, h, List.append_nil]
      rfl
  | cons c rest =>
      have hSame : (Gap.read line 0 none cs).rest = c :: rest := by rw [h, hRest]
      rw [readFrom_of_rest_cons hSame, readFrom_of_rest_cons hRest, hNothing, h]
      rfl

/-- What is read above a blank line is read whatever stands below, and what stands below is read as
if nothing came before. -/
theorem exists_readFrom_blankLine (line : Nat) (seen : Bool) (above : List Char) :
    ∃ lexemes, EndsBlank seen lexemes ∧ ∀ below,
      readFrom line seen (above ++ '\n' :: '\n' :: below) =
        ⟨lexemes ++ (readFrom (line + above.count '\n' + 2) false below).lexemes,
          (readFrom (line + above.count '\n' + 2) false below).endLine⟩ := by
  induction line, seen, above using readFrom_induction with
  | last line seen above hRest =>
      rw [Gap.rest_read, List.dropWhile_eq_nil_iff] at hRest
      obtain ⟨l, hRead⟩ := Gap.exists_read_blankLine line hRest
      refine ⟨_, ?_, fun below => readFrom_of_gap (hRead below) seen⟩
      cases seen with
      | false => exact .nothing
      | true => exact .blankLine [] l
  | token line seen above c rest hRest hc ih =>
      obtain ⟨lexemes, hEnds, hBelow⟩ := ih
      have hCount := Gap.endLine_add_count_read hRest
      refine ⟨_, hEnds.append seen ((Gap.read line 0 none above).separator seen ++
        [⟨(Token.read c rest).1, (Gap.read line 0 none above).endLine⟩]), fun below => ?_⟩
      have hGap := Gap.read_append hRest ('\n' :: '\n' :: below)
      have hSame : (Gap.read line 0 none (above ++ '\n' :: '\n' :: below)).rest =
        c :: (rest ++ '\n' :: '\n' :: below) := by rw [hGap]
      rw [readFrom_of_rest_cons hSame, hGap, Token.read_append_space hc rfl, hBelow, hCount]
      simp [Gap.separator]

/-- Where a text begins matters for the lines only. -/
theorem readFrom_lower (line n : Nat) (seen : Bool) (cs : List Char) :
    readFrom (line + n) seen cs =
      ⟨(readFrom line seen cs).lexemes.map (Lexeme.lower n),
        (readFrom line seen cs).endLine + n⟩ := by
  induction line, seen, cs using readFrom_induction with
  | last line seen cs hRest =>
      have hGap := Gap.read_lower line n cs
      have hSame : (Gap.read (line + n) 0 none cs).rest = [] := by rw [hGap, hRest]
      rw [readFrom_of_rest_nil hSame, readFrom_of_rest_nil hRest, Gap.separator_lower, hGap]
  | token line seen cs c rest hRest hc ih =>
      have hGap := Gap.read_lower line n cs
      have hSame : (Gap.read (line + n) 0 none cs).rest = c :: rest := by rw [hGap, hRest]
      have hEnd : (Gap.read (line + n) 0 none cs).endLine =
        (Gap.read line 0 none cs).endLine + n := by rw [hGap]
      rw [readFrom_of_rest_cons hSame, readFrom_of_rest_cons hRest, Gap.separator_lower, hEnd, ih,
        List.map_append, List.map_cons]
      rfl

/-- A text with a blank line is read as two texts, the second of them further down. -/
theorem exists_ofText_blankLine (above : List Char) :
    ∃ lexemes, EndsBlank false lexemes ∧ ∀ below,
      ofText (above ++ '\n' :: '\n' :: below) =
        ⟨lexemes ++ (ofText below).lexemes.map (Lexeme.lower (above.count '\n' + 2)),
          (ofText below).endLine + (above.count '\n' + 2)⟩ := by
  obtain ⟨lexemes, hEnds, hRead⟩ := exists_readFrom_blankLine 1 false above
  refine ⟨lexemes, hEnds, fun below => ?_⟩
  have hBelow := hRead below
  rwa [Nat.add_assoc, readFrom_lower] at hBelow

end TokenStream

end GrammarCheck
