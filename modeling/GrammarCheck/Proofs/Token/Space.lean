import GrammarCheck.Proofs.Token.BlankLine

/-! Two texts with blank space between them. The tokens are those of the one and then those of the
other, with at most a blank line to tell them apart. -/

namespace GrammarCheck

/-- What separates two texts: one or more characters, all of them blank. -/
structure BlankSpace (space : List Char) : Prop where
  nonempty : space ≠ []
  blank : ∀ c ∈ space, c.isWhitespace = true

/-- A blank line separates texts. -/
theorem blankSpace_newlines : BlankSpace ['\n', '\n'] where
  nonempty := List.cons_ne_nil _ _
  blank := List.forall_mem_cons.2 ⟨rfl, List.forall_mem_singleton.2 rfl⟩

namespace Gap

variable {line : Nat} {above : List Char}

/-- The blank line that is found within space is found whatever comes behind the space. -/
theorem blankLine_read_append (hAbove : ∀ c ∈ above, c.isWhitespace = true) {l : Nat}
    (h : (read line 0 none above).blankLine = some l) (below : List Char) :
    (read line 0 none (above ++ below)).blankLine = some l := by
  rw [blankLine_read_eq_some_iff] at h ⊢
  rw [List.takeWhile_eq_self_iff.2 hAbove] at h
  rw [List.takeWhile_append_of_pos hAbove]
  obtain ⟨before, hFirst, rfl⟩ := h
  exact ⟨before, hFirst.append _, rfl⟩

/-- More space shows the blank line of some space, or one more blank line. -/
theorem exists_separator_append (line : Nat) (hAbove : ∀ c ∈ above, c.isWhitespace = true)
    (below : List Char) (seen : Bool) :
    ∃ blanks : List Lexeme, (∀ l ∈ blanks, l.token = .blankLine) ∧
      (read line 0 none (above ++ below)).separator seen =
        (read line 0 none above).separator seen ++ blanks := by
  cases hFirst : (read line 0 none above).blankLine with
  | some l =>
      refine ⟨[], by simp, ?_⟩
      rw [separator, separator, blankLine_read_append hAbove hFirst, hFirst, List.append_nil]
  | none =>
      refine ⟨_, ?_, by rw [separator, separator, hFirst, List.nil_append]⟩
      intro l hMem
      split at hMem
      · cases seen with
        | true => rw [List.mem_singleton.1 hMem]
        | false => cases hMem
      · cases hMem

end Gap

/-- A token ends at blank space, whatever comes behind. -/
theorem Token.read_append_blankSpace {c : Char} (hc : c.isWhitespace = false) {space : List Char}
    (h : BlankSpace space) (rest below : List Char) :
    Token.read c (rest ++ (space ++ below)) =
      ((Token.read c rest).1, (Token.read c rest).2 ++ (space ++ below)) := by
  obtain ⟨d, others, rfl⟩ := List.exists_cons_of_ne_nil h.nonempty
  exact Token.read_append_space hc (h.blank d (List.mem_cons_self ..)) rest (others ++ below)

namespace TokenStream

/-- Space above blank space makes one gap with it and with what is blank below. -/
theorem exists_readFrom_blank (line : Nat) (seen : Bool) {above space : List Char}
    (hRest : (Gap.read line 0 none above).rest = []) (h : BlankSpace space) (below : List Char) :
    ∃ blanks : List Lexeme, (∀ l ∈ blanks, l.token = .blankLine) ∧
      readFrom line seen (above ++ space ++ below) =
        ⟨(readFrom line seen above).lexemes ++ (blanks ++
            (readFrom (line + (above ++ space).count '\n') false below).lexemes),
          (readFrom (line + (above ++ space).count '\n') false below).endLine⟩ := by
  have hAbove : ∀ c ∈ above, c.isWhitespace = true := by
    rwa [Gap.rest_read, List.dropWhile_eq_nil_iff] at hRest
  have hSpace : ∀ c ∈ above ++ space, c.isWhitespace = true :=
    List.forall_mem_append.2 ⟨hAbove, h.blank⟩
  obtain ⟨blankLine, hRead⟩ := Gap.exists_read_space line hSpace below
  obtain ⟨blanks, hBlanks, hShown⟩ :=
    Gap.exists_separator_append line hAbove (space ++ below) seen
  have hBlank : (Gap.read line 0 none (above ++ space ++ below)).separator seen =
      Gap.separator ⟨0, blankLine, []⟩ seen := by
    rw [hRead]
    rfl
  rw [← List.append_assoc, hBlank] at hShown
  refine ⟨blanks, hBlanks, ?_⟩
  rw [readFrom_of_gap hRead, readFrom_of_rest_nil hRest, hShown, List.append_assoc]

/-- What stands above blank space is read as it would be alone, and so is what stands below, only
further down. -/
theorem exists_readFrom_space (line : Nat) (seen : Bool) (above : List Char) {space : List Char}
    (h : BlankSpace space) (below : List Char) :
    ∃ blanks : List Lexeme, (∀ l ∈ blanks, l.token = .blankLine) ∧
      readFrom line seen (above ++ space ++ below) =
        ⟨(readFrom line seen above).lexemes ++ (blanks ++
            (readFrom (line + (above ++ space).count '\n') false below).lexemes),
          (readFrom (line + (above ++ space).count '\n') false below).endLine⟩ := by
  induction line, seen, above using readFrom_induction with
  | last line seen above hRest => exact exists_readFrom_blank line seen hRest h below
  | token line seen above c rest hRest hc ih =>
      obtain ⟨blanks, hBlanks, hBelow⟩ := ih
      have hCount := Gap.endLine_add_count_read hRest
      rw [List.count_append, ← Nat.add_assoc, hCount, Nat.add_assoc, ← List.count_append] at hBelow
      have hToken := Token.read_append_blankSpace hc h rest below
      have hGap := Gap.read_append hRest (space ++ below)
      have hSame : (Gap.read line 0 none (above ++ (space ++ below))).rest =
        c :: (rest ++ (space ++ below)) := by rw [hGap]
      refine ⟨blanks, hBlanks, ?_⟩
      rw [List.append_assoc] at hBelow ⊢
      rw [readFrom_of_rest_cons hSame, readFrom_of_rest_cons hRest, hGap, hToken, hBelow]
      simp [Gap.separator]

/-- Two texts with blank space between them have their own lexemes, those of the second one further
down. -/
theorem exists_ofText_space (above : List Char) {space : List Char} (h : BlankSpace space)
    (below : List Char) :
    ∃ blanks : List Lexeme, (∀ l ∈ blanks, l.token = .blankLine) ∧
      ofText (above ++ space ++ below) =
        ⟨(ofText above).lexemes ++ (blanks ++
            (ofText below).lexemes.map (Lexeme.lower ((above ++ space).count '\n'))),
          (ofText below).endLine + (above ++ space).count '\n'⟩ := by
  obtain ⟨blanks, hBlanks, hRead⟩ := exists_readFrom_space 1 false above h below
  rw [readFrom_lower] at hRead
  exact ⟨blanks, hBlanks, hRead⟩

def words (stream : TokenStream) : List Token := stream.lexemes.map (·.token)

/-- Two texts with blank space between them have their own tokens. -/
theorem exists_words_ofText (above : List Char) {space : List Char} (h : BlankSpace space)
    (below : List Char) :
    ∃ n, (ofText (above ++ space ++ below)).words =
      (ofText above).words ++ List.replicate n .blankLine ++ (ofText below).words := by
  obtain ⟨blanks, hBlanks, hRead⟩ := exists_ofText_space above h below
  have hSame : blanks.map (·.token) = List.replicate blanks.length .blankLine := by
    rw [List.map_congr_left hBlanks, List.map_const']
  refine ⟨blanks.length, ?_⟩
  rw [hRead, words, List.map_append, List.map_append, List.map_map, hSame, List.append_assoc]
  rfl

end TokenStream

end GrammarCheck
