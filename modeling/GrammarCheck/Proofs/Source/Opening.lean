import GrammarCheck.Proofs.Source.BlankLine
import GrammarCheck.Proofs.Step.Rejected
import GrammarCheck.Proofs.Token.Space

/-! Constructs behind a malformed text. However a text ends, a directive or the header of a rule
behind it begins a construct of its own: what is wrong in the text above hides nothing in the text
below. The one exception is a rule right behind a `%start` without a name, which takes the
header. -/

namespace GrammarCheck

/-- What begins with a directive, or with a name that heads a rule. -/
inductive OpensConstruct : List Lexeme → Prop where
  | start (line : Nat) (rest : List Lexeme) : OpensConstruct (⟨.startDirective, line⟩ :: rest)
  | terminals (line : Nat) (rest : List Lexeme) : OpensConstruct (⟨.tokenDirective, line⟩ :: rest)
  | rule (header : Ident) (arrow : Nat) (rest : List Lexeme) :
      OpensConstruct (header.lexeme :: ⟨.arrow, arrow⟩ :: rest)

/-- Where a `%start` ends some lexemes and a name comes next, which is then its name. -/
def TakesName (lexemes next : List Lexeme) : Prop :=
  (∃ front line, lexemes = front ++ [⟨.startDirective, line⟩]) ∧
    ∃ (x : Ident) (rest : List Lexeme), next = x.lexeme :: rest

namespace OpensConstruct

variable {lexemes : List Lexeme}

theorem atBoundary (h : OpensConstruct lexemes) : Passage.atBoundary lexemes = true := by
  cases h <;> rfl

/-- Moving a text further down does not change how it begins. -/
theorem lower (h : OpensConstruct lexemes) (n : Nat) :
    OpensConstruct (lexemes.map (Lexeme.lower n)) := by
  cases h with
  | start line rest => exact .start _ _
  | terminals line rest => exact .terminals _ _
  | rule header arrow rest => exact .rule ⟨header.name, header.line + n⟩ _ _

/-- What begins a construct is not read into the text above it, unless that text takes it for the
name of its `%start`. -/
theorem apart (h : OpensConstruct lexemes) {above : List Lexeme}
    (hTaken : ¬ TakesName above lexemes) : Apart above lexemes where
  boundary := h.atBoundary
  start := by
    intro front line hAbove x rest hLexemes
    exact hTaken ⟨⟨front, line, hAbove⟩, x, rest, hLexemes⟩

end OpensConstruct

/-- Whether a name is taken does not depend on its line. -/
theorem TakesName.of_lower {above below : List Lexeme} {n : Nat}
    (h : TakesName above (below.map (Lexeme.lower n))) : TakesName above below := by
  obtain ⟨hStart, x, rest, hName⟩ := h
  obtain ⟨⟨token, line⟩, others, hBelow, hFirst, -⟩ := List.map_eq_cons_iff.1 hName
  obtain ⟨hToken, -⟩ := Lexeme.mk.inj hFirst
  subst hToken
  exact ⟨hStart, ⟨x.name, line⟩, others, hBelow⟩

namespace Passage

/-- Reading a rule stops where skipping would, so a rejected rule is passed over like any other. -/
theorem rest_skip_names (lexemes : List Lexeme) :
    (skip (names lexemes).2).rest = (skip lexemes).rest := by
  fun_induction names lexemes with
  | case1 => rfl
  | case2 name line rest hArrow more ih =>
      have hBoundary : ¬ atBoundary (⟨.identifier name, line⟩ :: rest) = true := hArrow
      rw [ih, skip, if_neg hBoundary, after]
  | case3 => rfl

/-- Reading alternatives stops no later than skipping would. -/
theorem rest_skip_body (lexemes : List Lexeme) :
    (skip (body lexemes).rest).rest = (skip lexemes).rest := by
  fun_induction body lexemes with
  | case1 lexemes => exact rest_skip_names lexemes
  | case2 lexemes run symbols _ steps line rest hRest more ih =>
      have hNames := rest_skip_names lexemes
      rw [hRest] at hNames
      rw [ih, ← hNames, skip, if_neg (by simp [atBoundary]), after]
  | case3 lexemes => exact rest_skip_names lexemes

/-- Whether a construct ends well or is rejected, reading goes on from the next boundary. -/
theorem rest_finish (construct : Construct) (expected : Expectation) (lexemes : List Lexeme) :
    (finish construct expected lexemes).rest = (skip lexemes).rest := by
  unfold finish
  split
  case isTrue hBoundary => rw [skip_of_atBoundary hBoundary]
  case isFalse => rfl

/-- A rule leaves off at the next boundary, whatever is wrong with it. -/
theorem rest_rule (header : Ident) (lexemes : List Lexeme) :
    (rule header lexemes).rest = (skip lexemes).rest := by
  have hBody := rest_skip_body lexemes
  simp only [rule]
  split
  · exact hBody
  · exact (rest_finish ..).trans hBody

end Passage

namespace Step

open Passage

/-- Blank lines are left behind one by one. -/
theorem ofLexemes_blanks {blanks : List Lexeme} (h : ∀ l ∈ blanks, l.token = .blankLine)
    (below : List Lexeme) :
    ofLexemes (blanks ++ below) = blanks.map .shift ++ ofLexemes below := by
  induction blanks with
  | nil => rfl
  | cons l blanks ih =>
      obtain ⟨hBlank, hBlanks⟩ := List.forall_mem_cons.1 h
      have hOne : one l (blanks ++ below) = ⟨[.shift l], blanks ++ below⟩ := by
        rw [one, hBlank]
      rw [List.cons_append, ofLexemes, hOne, ih hBlanks]
      rfl

/-- In every setting as much is rejected. -/
theorem length_rejected_set (v : Respelling) (tail : List Lexeme) (steps : List Step) :
    (rejected (steps.map (set v tail))).length = (rejected steps).length := by
  rw [rejected, rejected, List.length_filterMap_eq_countP, List.length_filterMap_eq_countP,
    List.countP_map]
  apply List.countP_congr
  intro step _
  cases step <;> rfl

/-- What comes behind lexemes apart from it is rejected as it is alone. -/
theorem exists_rejected_apart {above below : List Lexeme} (h : Apart above below) :
    ∃ earlier, rejected (ofLexemes (above ++ below)) = earlier ++ rejected (ofLexemes below) ∧
      earlier.length = (rejected (ofLexemes above)).length := by
  refine ⟨_, ?_, length_rejected_set (.lower 0) below _⟩
  rw [ofLexemes_append h, rejected_append]

/-- A `%start` that takes the header of a rule is rejected at the arrow, and the rule is passed
over. -/
theorem rejected_start_rule (line arrow : Nat) (header : Ident) (rest : List Lexeme) :
    rejected (ofLexemes (⟨.startDirective, line⟩ :: header.lexeme :: ⟨.arrow, arrow⟩ :: rest)) =
      (.startEnd, some ⟨.arrow, arrow⟩) :: rejected (ofLexemes (skip rest).rest) := by
  obtain ⟨passed, others, hSkip, -, -⟩ := exists_skip_eq rest
  have hArrow : skip (⟨.arrow, arrow⟩ :: rest) =
      ⟨(⟨.arrow, arrow⟩ :: passed).map .shift, others⟩ := by
    rw [skip, if_neg (by simp [atBoundary]), hSkip]
    rfl
  have hOne : one ⟨.startDirective, line⟩ (header.lexeme :: ⟨.arrow, arrow⟩ :: rest) =
      ⟨[.shift ⟨.startDirective, line⟩, .start header, .shift header.lexeme,
        .reject .startEnd (some ⟨.arrow, arrow⟩)] ++ (⟨.arrow, arrow⟩ :: passed).map .shift,
        others⟩ := by
    rw [one, Ident.lexeme, startSymbol, finish, if_neg (by simp [atBoundary]), rejectHere, hArrow]
    rfl
  rw [ofLexemes, hOne, hSkip]
  simp only
  rw [rejected_append, rejected_append, rejected_shifts, List.append_nil]
  rfl

/-- A rule that is read from its header rejects one thing or nothing before it stops. -/
theorem exists_rejected_rule (arrow : Nat) (header : Ident) (rest : List Lexeme) :
    ∃ own, own.length ≤ 1 ∧ rejected (ofLexemes (header.lexeme :: ⟨.arrow, arrow⟩ :: rest)) =
      own ++ rejected (ofLexemes (skip rest).rest) := by
  have hOne : (one header.lexeme (⟨.arrow, arrow⟩ :: rest)).rest = (skip rest).rest :=
    rest_rule header rest
  refine ⟨_, (course_one header.lexeme (⟨.arrow, arrow⟩ :: rest)).length_rejected_le, ?_⟩
  rw [ofLexemes, hOne, rejected_append]

/-- Behind a `%start` without a name, a rule gives its header away and is not read. -/
theorem exists_rejected_taken {above below : List Lexeme} (hOpens : OpensConstruct below)
    (hTaken : TakesName above below) :
    ∃ earlier hidden later, rejected (ofLexemes (above ++ below)) = earlier ++ later ∧
      rejected (ofLexemes below) = hidden ++ later ∧
      earlier.length = (rejected (ofLexemes above)).length ∧ hidden.length ≤ 1 := by
  obtain ⟨⟨front, line, rfl⟩, x, others, hName⟩ := hTaken
  cases hOpens with
  | start => cases hName
  | terminals => cases hName
  | rule header arrow rest =>
      -- the `%start` itself is read apart from what is above it, whatever comes behind
      have hApart (behind : List Lexeme) : Apart front (⟨.startDirective, line⟩ :: behind) :=
        (OpensConstruct.start line behind).apart (by rintro ⟨-, y, rest, hName⟩; cases hName)
      obtain ⟨earlier, hEarlier, hLength⟩ := exists_rejected_apart
        (hApart (header.lexeme :: ⟨.arrow, arrow⟩ :: rest))
      obtain ⟨alone, hAlone, hAloneLength⟩ := exists_rejected_apart (hApart [])
      obtain ⟨own, hOwn, hRule⟩ := exists_rejected_rule arrow header rest
      have hStart : rejected (ofLexemes [⟨.startDirective, line⟩]) =
          [(.startAfterDirective, none)] := by
        rw [ofLexemes]
        simp only [one, startSymbol, rejectHere, skip, after, ofLexemes.eq_1]
        rfl
      refine ⟨earlier ++ [(.startEnd, some ⟨.arrow, arrow⟩)], own, _, ?_, hRule, ?_, hOwn⟩
      · rw [List.append_assoc, List.singleton_append, hEarlier, rejected_start_rule,
          List.append_assoc]
        rfl
      · rw [hAlone, hStart, List.length_append, List.length_append, hLength, hAloneLength]
        rfl

/-- With or without blank lines in front of it, what opens a construct is read from its beginning,
unless it gives its name away. -/
theorem exists_rejected_opening {blanks below : List Lexeme}
    (hBlanks : ∀ l ∈ blanks, l.token = .blankLine) (hOpens : OpensConstruct below)
    (above : List Lexeme) :
    ∃ earlier hidden later, rejected (ofLexemes (above ++ (blanks ++ below))) = earlier ++ later ∧
      rejected (ofLexemes below) = hidden ++ later ∧
      earlier.length = (rejected (ofLexemes above)).length ∧
      hidden.length ≤ 1 ∧ (hidden = [] ∨ TakesName above below) := by
  by_cases hTaken : TakesName above below ∧ blanks = []
  · obtain ⟨hTaken, rfl⟩ := hTaken
    obtain ⟨earlier, hidden, later, hAll, hBelow, hEarlier, hHidden⟩ :=
      exists_rejected_taken hOpens hTaken
    exact ⟨earlier, hidden, later, hAll, hBelow, hEarlier, hHidden, .inr hTaken⟩
  · have hApart : Apart above (blanks ++ below) := by
      cases blanks with
      | nil => exact hOpens.apart fun h => hTaken ⟨h, rfl⟩
      | cons l blanks =>
          obtain ⟨token, line⟩ := l
          obtain rfl : token = .blankLine := hBlanks _ (List.mem_cons_self ..)
          exact (Tail.blankLine line (blanks ++ below)).apart above
    obtain ⟨earlier, hAll, hEarlier⟩ := exists_rejected_apart hApart
    rw [ofLexemes_blanks hBlanks, rejected_append, rejected_shifts, List.nil_append] at hAll
    exact ⟨earlier, [], _, hAll, rfl, hEarlier, Nat.zero_le 1, .inl rfl⟩

/-- Text that stands further down has its defects further down. -/
theorem map_rejected_lower (file : FileName) (n endLine : Nat) (lexemes : List Lexeme) :
    (rejected (ofLexemes (lexemes.map (Lexeme.lower n)))).map
        (Defect.ofRejected file (endLine + n)) =
      ((rejected (ofLexemes lexemes)).map (Defect.ofRejected file endLine)).map
        (Defect.lower n) := by
  rw [map_ofRejected, map_ofRejected, ofLexemes_lower, rejections_lower]

end Step

namespace Grammar

/-- Of what is wrong in a text that opens a construct, all is found behind another text, with as
much in front of it as is wrong in that text. Only a rule whose header is taken by a `%start` may
have its one fault hidden. -/
theorem malformed_opening (file : FileName) (above below : List Char) {space : List Char}
    (hSpace : BlankSpace space) (hOpens : OpensConstruct (TokenStream.ofText below).lexemes) :
    ∃ earlier hidden later,
      malformed (ofText file (above ++ space ++ below)) = earlier ++ later ∧
      (malformed (ofText file below)).map (Defect.lower ((above ++ space).count '\n')) =
        hidden ++ later ∧
      earlier.length = (malformed (ofText file above)).length ∧
      hidden.length ≤ 1 ∧ (hidden = [] ∨
        TakesName (TokenStream.ofText above).lexemes (TokenStream.ofText below).lexemes) := by
  obtain ⟨blanks, hBlanks, hRead⟩ := TokenStream.exists_ofText_space above hSpace below
  generalize (above ++ space).count '\n' = n at hRead ⊢
  obtain ⟨earlier, hidden, later, hAll, hBelow, hEarlier, hHidden, hTaken⟩ :=
    Step.exists_rejected_opening hBlanks (hOpens.lower n) (TokenStream.ofText above).lexemes
  have hDefects := Step.map_rejected_lower file n (TokenStream.ofText below).endLine
    (TokenStream.ofText below).lexemes
  let blame := Defect.ofRejected file ((TokenStream.ofText below).endLine + n)
  refine ⟨earlier.map blame, hidden.map blame, later.map blame, ?_, ?_, ?_, ?_, ?_⟩
  · rw [malformed_eq_map_rejected, hRead, hAll, List.map_append]
  · rw [malformed_eq_map_rejected, ← hDefects, hBelow, List.map_append]
  · rw [malformed_eq_map_rejected, List.length_map, List.length_map, hEarlier]
  · rwa [List.length_map]
  · rcases hTaken with rfl | hTaken
    · exact .inl rfl
    · exact .inr hTaken.of_lower

/-- A rule that is cut short above does not hide the defect of the `%start` below. -/
theorem malformed_opening_start :
    OpensConstruct (TokenStream.ofText "%start s t".toList).lexemes ∧
      ∃ earlier hidden later,
        malformed (ofText ⟨""⟩ ("s ->\n".toList ++ [' '] ++ "%start s t".toList)) =
          earlier ++ later ∧
        (malformed (ofText ⟨""⟩ "%start s t".toList)).map
          (Defect.lower (("s ->\n".toList ++ [' ']).count '\n')) = hidden ++ later ∧
        earlier.length = (malformed (ofText ⟨""⟩ "s ->\n".toList)).length ∧
        hidden.length ≤ 1 ∧ (hidden = [] ∨ TakesName (TokenStream.ofText "s ->\n".toList).lexemes
          (TokenStream.ofText "%start s t".toList).lexemes) := by
  have hLexemes : (TokenStream.ofText "%start s t".toList).lexemes =
      [⟨.startDirective, 1⟩, ⟨.identifier "s", 1⟩, ⟨.identifier "t", 1⟩] := by decide +kernel
  have hOpens : OpensConstruct (TokenStream.ofText "%start s t".toList).lexemes := by
    rw [hLexemes]
    exact .start _ _
  have hSpace : BlankSpace [' '] := ⟨List.cons_ne_nil _ _, List.forall_mem_singleton.2 rfl⟩
  exact ⟨hOpens, malformed_opening ⟨""⟩ _ _ hSpace hOpens⟩

/-- A rule behind a `%start` without a name is lost with all that is wrong in it. -/
theorem malformed_opening_lost :
    OpensConstruct (TokenStream.ofText "s -> |".toList).lexemes ∧
      ¬ ∃ earlier, malformed (ofText ⟨""⟩ ("%start".toList ++ [' '] ++ "s -> |".toList)) =
        earlier ++ (malformed (ofText ⟨""⟩ "s -> |".toList)).map
          (Defect.lower ("%start".toList.count '\n')) := by
  have hLexemes : (TokenStream.ofText "s -> |".toList).lexemes =
      [(Ident.mk "s" 1).lexeme, ⟨.arrow, 1⟩, ⟨.pipe, 1⟩] := by decide +kernel
  have hBoth : (malformed (ofText ⟨""⟩
      ("%start".toList ++ [' '] ++ "s -> |".toList))).map (·.cause) =
        [.unexpected .startEnd (some .arrow)] := by decide +kernel
  have hBelow : (malformed (ofText ⟨""⟩ "s -> |".toList)).map (·.cause) =
      [.unexpected .symbol (some .pipe)] := by decide +kernel
  refine ⟨hLexemes ▸ .rule _ _ _, ?_⟩
  rintro ⟨earlier, hEarlier⟩
  have hCauses := congrArg (List.map (·.cause)) hEarlier
  have hSame : (·.cause) ∘ Defect.lower ("%start".toList.count '\n') = (·.cause) := rfl
  rw [hBoth, List.map_append, List.map_map, hSame, hBelow] at hCauses
  have hLast := congrArg List.getLast? hCauses
  rw [List.getLast?_concat] at hLast
  cases hLast

end Grammar

end GrammarCheck
