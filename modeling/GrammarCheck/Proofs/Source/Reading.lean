import GrammarCheck.Proofs.Source.Part

/-! Reading a text without rejecting anything is the same as finding its parts. -/

namespace GrammarCheck

namespace OneOrMore

theorem toList_injective {α : Type} {xs ys : OneOrMore α} (h : xs.toList = ys.toList) : xs = ys := by
  obtain ⟨x, xs⟩ := xs
  obtain ⟨y, ys⟩ := ys
  obtain ⟨rfl, rfl⟩ := List.cons.inj h
  rfl

end OneOrMore

theorem Ident.lexeme_injective : Function.Injective Ident.lexeme := by
  intro x y h
  obtain ⟨name, line⟩ := x
  obtain ⟨name', line'⟩ := y
  simpa [Ident.lexeme] using h

namespace Passage

theorem ne_pipe_of_atBoundary {rest : List Lexeme} (h : atBoundary rest = true) (line : Nat)
    (others : List Lexeme) : rest ≠ ⟨.pipe, line⟩ :: others := by
  rintro rfl
  cases h

theorem names_map_append {rest : List Lexeme} (h : atBoundary rest = true) (xs : List Ident) :
    names (xs.map Ident.lexeme ++ rest) = (xs, rest) :=
  names_append (arrowNext_of_atBoundary h) (names_of_atBoundary h) xs

theorem names_map_append_pipe (xs : List Ident) (line : Nat) (rest : List Lexeme) :
    names (xs.map Ident.lexeme ++ ⟨.pipe, line⟩ :: rest) = (xs, ⟨.pipe, line⟩ :: rest) :=
  names_append rfl (names_pipe line rest) xs

/-- The right-hand side of a rule is read as it was written, up to the boundary behind it. -/
theorem body_lexemes (b : RuleBody) {rest : List Lexeme} (h : atBoundary rest = true) :
    body (b.lexemes ++ rest) = ⟨b.steps, some b.alternatives, rest⟩ := by
  induction b with
  | last alternative =>
      exact body_of_last (names_map_append h alternative.toList) (ne_pipe_of_atBoundary h)
  | more alternative pipe others ih =>
      have hNames := names_map_append_pipe alternative.toList pipe (others.lexemes ++ rest)
      rw [RuleBody.lexemes, List.append_assoc, List.cons_append, body_of_pipe hNames, ih]
      rfl

/-- A part is read as it is spelled, provided that another construct can begin behind it. -/
theorem one_part {part : Part} {l : Lexeme} {tail rest : List Lexeme}
    (hPart : part.lexemes = l :: tail) (h : atBoundary rest = true) :
    one l (tail ++ rest) = ⟨part.steps, rest⟩ := by
  cases part with
  | blank line =>
      cases hPart
      rfl
  | start line symbol =>
      cases hPart
      simp [one, startSymbol, Ident.lexeme, finish, h, after, Part.steps]
  | terminals line names =>
      cases hPart
      simp only [one, terminals, names_map_append h, OneOrMore.ofList?, OneOrMore.toList, finish, h,
        if_true, after, Part.steps]
      rfl
  | rule header arrow b =>
      cases hPart
      simp only [one, Ident.lexeme, List.cons_append, rule, body_lexemes b h, finish, h, if_true,
        after, Part.steps]
      rfl

theorem lexemes_ne_nil (part : Part) : ∃ l tail, part.lexemes = l :: tail := by
  cases part <;> exact ⟨_, _, rfl⟩

/-- Each part begins where a construct may end, and so does the end of the text. -/
theorem atBoundary_flatMap (parts : List Part) :
    atBoundary (parts.flatMap Part.lexemes) = true := by
  cases parts with
  | nil => rfl
  | cons part parts => cases part <;> rfl

end Passage

/-- The right-hand side of a rule is known from its lexemes. Both ways to read one agree. -/
theorem RuleBody.lexemes_injective {b b' : RuleBody} (h : b.lexemes = b'.lexemes) : b = b' := by
  have hLast (alternative : Alternative) :
      Passage.names (RuleBody.last alternative).lexemes = (alternative.toList, []) := by
    rw [RuleBody.lexemes, ← List.append_nil (alternative.toList.map Ident.lexeme)]
    exact Passage.names_map_append rfl alternative.toList
  have hMore (alternative : Alternative) (pipe : Nat) (others : RuleBody) :
      Passage.names (RuleBody.more alternative pipe others).lexemes =
        (alternative.toList, ⟨.pipe, pipe⟩ :: others.lexemes) :=
    Passage.names_map_append_pipe alternative.toList pipe others.lexemes
  induction b generalizing b' with
  | last alternative =>
      cases b' with
      | last alternative' =>
          have hEq := (hLast alternative).symm.trans (h ▸ hLast alternative')
          rw [OneOrMore.toList_injective (congrArg Prod.fst hEq)]
      | more alternative' pipe' others' =>
          have hEq := (hLast alternative).symm.trans (h ▸ hMore alternative' pipe' others')
          cases congrArg Prod.snd hEq
  | more alternative pipe others ih =>
      cases b' with
      | last alternative' =>
          have hEq := (hMore alternative pipe others).symm.trans (h ▸ hLast alternative')
          cases congrArg Prod.snd hEq
      | more alternative' pipe' others' =>
          have hEq := (hMore alternative pipe others).symm.trans
            (h ▸ hMore alternative' pipe' others')
          obtain ⟨hAlternative, hRest⟩ := Prod.mk.inj hEq
          obtain ⟨hPipe, hOthers⟩ := List.cons.inj hRest
          cases hPipe
          rw [OneOrMore.toList_injective hAlternative, ih hOthers]

theorem Part.lexemes_injective {part part' : Part} (h : part.lexemes = part'.lexemes) :
    part = part' := by
  cases part with
  | blank line =>
      cases part' with
      | blank line' => simpa [lexemes] using h
      | _ => simp [lexemes, Ident.lexeme] at h
  | start line symbol =>
      cases part' with
      | start line' symbol' =>
          simp only [lexemes, List.cons.injEq, Lexeme.mk.injEq, true_and, and_true] at h
          rw [h.1, Ident.lexeme_injective h.2]
      | _ => simp [lexemes, Ident.lexeme] at h
  | terminals line names =>
      cases part' with
      | terminals line' names' =>
          simp only [lexemes, List.cons.injEq, Lexeme.mk.injEq, true_and] at h
          rw [h.1, OneOrMore.toList_injective (Ident.lexeme_injective.list_map h.2)]
      | _ => simp [lexemes, Ident.lexeme] at h
  | rule header arrow body =>
      cases part' with
      | rule header' arrow' body' =>
          simp only [lexemes, List.cons.injEq, Lexeme.mk.injEq, true_and] at h
          rw [Ident.lexeme_injective h.1, h.2.1, RuleBody.lexemes_injective h.2.2]
      | _ => simp [lexemes, Ident.lexeme] at h

/-- The steps of a text as it should be are the steps of its parts. -/
theorem Step.ofLexemes_flatMap (parts : List Part) :
    ofLexemes (parts.flatMap Part.lexemes) = parts.flatMap Part.steps := by
  induction parts with
  | nil => simp [ofLexemes]
  | cons part parts ih =>
      obtain ⟨l, tail, hPart⟩ := Passage.lexemes_ne_nil part
      rw [List.flatMap_cons, hPart, List.cons_append, ofLexemes,
        Passage.one_part hPart (Passage.atBoundary_flatMap parts), ih, List.flatMap_cons]

/-- No list of lexemes spells two lists of parts. The induction is on the parts; reading the first
of them tells where it ends. -/
theorem Part.spell_unique {parts others : List Part}
    (h : parts.flatMap Part.lexemes = others.flatMap Part.lexemes) : parts = others := by
  induction parts generalizing others with
  | nil =>
      cases others with
      | nil => rfl
      | cons other others =>
          obtain ⟨l, tail, hOther⟩ := Passage.lexemes_ne_nil other
          simp [hOther] at h
  | cons part parts ih =>
      obtain ⟨l, tail, hPart⟩ := Passage.lexemes_ne_nil part
      cases others with
      | nil => simp [hPart] at h
      | cons other others =>
          obtain ⟨l', tail', hOther⟩ := Passage.lexemes_ne_nil other
          rw [List.flatMap_cons, List.flatMap_cons, hPart, hOther] at h
          simp only [List.cons_append, List.cons.injEq] at h
          obtain ⟨rfl, hTail⟩ := h
          have hLeft := Passage.one_part hPart (Passage.atBoundary_flatMap parts)
          have hRight := Passage.one_part hOther (Passage.atBoundary_flatMap others)
          have hRest : parts.flatMap Part.lexemes = others.flatMap Part.lexemes := by
            rw [hTail, hRight] at hLeft
            exact (congrArg Passage.rest hLeft).symm
          rw [hRest] at hTail
          have hSame : part.lexemes = other.lexemes := by
            rw [hPart, hOther, List.append_cancel_right hTail]
          rw [Part.lexemes_injective hSame, ih hRest]

def Step.Accepting (steps : List Step) : Prop := ∀ expected found, .reject expected found ∉ steps

theorem Step.Accepting.left {steps others : List Step} (h : Accepting (steps ++ others)) :
    Accepting steps :=
  fun expected found hMem => h expected found (List.mem_append_left others hMem)

theorem Step.Accepting.right {steps others : List Step} (h : Accepting (steps ++ others)) :
    Accepting others :=
  fun expected found hMem => h expected found (List.mem_append_right steps hMem)

theorem Step.Accepting.tail {step : Step} {steps : List Step} (h : Accepting (step :: steps)) :
    Accepting steps :=
  fun expected found hMem => h expected found (List.mem_cons_of_mem step hMem)

namespace Passage

/-- A construct that ends without a rejection ends at a boundary, with nothing skipped. -/
theorem rest_of_accepting_finish {construct : Construct} {expected : Expectation}
    {lexemes : List Lexeme} (h : Step.Accepting (finish construct expected lexemes).steps) :
    (finish construct expected lexemes).rest = lexemes := by
  unfold finish at h ⊢
  split
  case isTrue => rfl
  case isFalse hBoundary =>
    rw [if_neg hBoundary] at h
    exact absurd (List.mem_cons_self ..) (h expected lexemes.head?)

/-- The names at the front of some lexemes, when there are any. -/
theorem map_lexeme_of_names {lexemes : List Lexeme} {xs : OneOrMore Ident}
    (h : OneOrMore.ofList? (names lexemes).1 = some xs) :
    xs.toList.map Ident.lexeme ++ (names lexemes).2 = lexemes := by
  rw [OneOrMore.toList_of_ofList? h]
  exact map_lexeme_names lexemes

/-- A body that rejects nothing has alternatives. -/
theorem exists_body_of_accepting {lexemes : List Lexeme} (h : Step.Accepting (body lexemes).steps) :
    ∃ b : RuleBody, (body lexemes).alternatives = some b.alternatives ∧
      b.lexemes ++ (body lexemes).rest = lexemes := by
  fun_induction body lexemes with
  | case1 => exact absurd (List.mem_singleton_self _) (h _ _)
  | case2 lexemes run symbols hSymbols steps line rest hRest more ih =>
      obtain ⟨b, hAlternatives, hBody⟩ := ih h.right.tail
      refine ⟨.more symbols line b, congrArg (Option.map (OneOrMore.cons symbols)) hAlternatives, ?_⟩
      have hNames := map_lexeme_of_names hSymbols
      rw [hRest] at hNames
      rw [RuleBody.lexemes, List.append_assoc, List.cons_append, hBody, hNames]
  | case3 lexemes run symbols hSymbols =>
      exact ⟨.last symbols, rfl, map_lexeme_of_names hSymbols⟩

/-- A rule that is not rejected is spelled as it should be. -/
theorem exists_body_of_accepting_rule {header : Ident} {lexemes : List Lexeme}
    (h : Step.Accepting (rule header lexemes).steps) :
    ∃ b : RuleBody, b.lexemes ++ (rule header lexemes).rest = lexemes := by
  cases hRead : (body lexemes).alternatives with
  | none =>
      simp only [rule, hRead] at h
      obtain ⟨b, hSome, -⟩ := exists_body_of_accepting h.left
      rw [hSome] at hRead
      cases hRead
  | some alternatives =>
      simp only [rule, hRead] at h ⊢
      obtain ⟨b, -, hBody⟩ := exists_body_of_accepting h.left
      exact ⟨b, (congrArg (b.lexemes ++ ·) (rest_of_accepting_finish h.right)).trans hBody⟩

/-- A `%token` directive that is not rejected is spelled as it should be. -/
theorem exists_names_of_accepting_terminals {lexemes : List Lexeme}
    (h : Step.Accepting (terminals lexemes).steps) :
    ∃ xs : OneOrMore Ident, xs.toList.map Ident.lexeme ++ (terminals lexemes).rest = lexemes := by
  cases hRead : OneOrMore.ofList? (names lexemes).1 with
  | none =>
      simp only [terminals, hRead] at h
      exact absurd (List.mem_append_left _ (List.mem_cons_self ..)) (h _ _)
  | some xs =>
      simp only [terminals, hRead] at h ⊢
      exact ⟨xs, (congrArg (xs.toList.map Ident.lexeme ++ ·) (rest_of_accepting_finish h.right)).trans
        (map_lexeme_of_names hRead)⟩

/-- A `%start` directive that is not rejected is spelled as it should be. -/
theorem exists_symbol_of_accepting_start {lexemes : List Lexeme}
    (h : Step.Accepting (startSymbol lexemes).steps) :
    ∃ symbol : Ident, symbol.lexeme :: (startSymbol lexemes).rest = lexemes := by
  unfold startSymbol at h ⊢
  split at h
  case h_1 name line rest =>
    exact ⟨⟨name, line⟩, congrArg (List.cons _) (rest_of_accepting_finish h.right)⟩
  case h_2 => exact absurd (List.mem_append_left _ (List.mem_cons_self ..)) (h _ _)

/-- Whatever is read without rejecting it is a part. -/
theorem exists_part_of_accepting {l : Lexeme} {lexemes : List Lexeme}
    (h : Step.Accepting (one l lexemes).steps) :
    ∃ part : Part, part.lexemes ++ (one l lexemes).rest = l :: lexemes := by
  obtain ⟨token, line⟩ := l
  unfold one at h ⊢
  cases token with
  | blankLine => exact ⟨.blank line, rfl⟩
  | identifier name =>
      simp only at h ⊢
      split at h
      case h_1 arrow rest =>
        obtain ⟨b, hBody⟩ := exists_body_of_accepting_rule h.right
        refine ⟨.rule ⟨name, line⟩ arrow b, ?_⟩
        rw [Part.lexemes, List.cons_append, List.cons_append]
        exact congrArg (fun rest => _ :: _ :: rest) hBody
      case h_2 => exact absurd (List.mem_append_left _ (List.mem_cons_self ..)) (h _ _)
  | tokenDirective =>
      obtain ⟨names, hNames⟩ := exists_names_of_accepting_terminals h.right
      exact ⟨.terminals line names, congrArg (List.cons _) hNames⟩
  | startDirective =>
      obtain ⟨symbol, hSymbol⟩ := exists_symbol_of_accepting_start h.right
      exact ⟨.start line symbol, congrArg (List.cons _) hSymbol⟩
  | _ => exact absurd (List.mem_append_left _ (List.mem_cons_self ..)) (h _ _)

end Passage

namespace Step

/-- A text that is read without rejecting anything consists of parts. -/
theorem exists_parts_of_accepting {lexemes : List Lexeme} (h : Accepting (ofLexemes lexemes)) :
    ∃ parts, Part.Spell parts lexemes := by
  fun_induction ofLexemes lexemes with
  | case1 => exact ⟨[], rfl⟩
  | case2 l lexemes passage ih =>
      obtain ⟨part, hPart⟩ := Passage.exists_part_of_accepting h.left
      obtain ⟨parts, hParts⟩ := ih h.right
      refine ⟨part :: parts, ?_⟩
      rw [Part.Spell, List.flatMap_cons, hParts, hPart]

/-- The steps of a well-formed text are those of its parts. -/
theorem ofLexemes_of_spell {parts : List Part} {lexemes : List Lexeme}
    (h : Part.Spell parts lexemes) : ofLexemes lexemes = parts.flatMap Part.steps := by
  rw [← h, ofLexemes_flatMap]

end Step

end GrammarCheck
