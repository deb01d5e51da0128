import GrammarCheck.Proofs.Source.Conflict
import GrammarCheck.Proofs.Source.Reading

/-! What reading makes of a text that consists of parts: the defects are the conflicts among the
names of its constructs, and without conflicts all edits of its constructs are made. -/

namespace GrammarCheck

abbrev Source := List Construct

def Part.source (parts : List Part) : Source := parts.filterMap Part.construct?

/-- All edits that a construct stands for, in the order in which they are made. -/
def Construct.edits : Construct → List GrammarEdit
  | .rule header alternatives =>
      header.nonterminal ::
        (alternatives.toList.flatMap OneOrMore.toList).map Ident.mention ++ header.rule alternatives
  | .terminals names => names.toList.map Ident.terminal
  | .start symbol => [symbol.nonterminal, symbol.start]

namespace Source

def occurrences (source : Source) : List Occurrence := source.flatMap Construct.occurrences

def edits (source : Source) : List GrammarEdit := source.flatMap Construct.edits

/-- One conflict for each use as a kind that is not the kind of the first such use of the name, in
order and at the line of that use. -/
def conflicts (source : Source) (file : FileName) : List Defect :=
  source.occurrences.filterMap fun o =>
    (Occurrence.conflict? source.occurrences o).map fun c => ⟨⟨file, o.ident.line⟩, .conflict c⟩

end Source

namespace Step

variable {os : List Occurrence}

/-- Steps follow on each other when the later ones follow on what the earlier ones have met. -/
theorem allFollow_append {steps others : List Step} :
    AllFollow os (steps ++ others) ↔
      AllFollow os steps ∧ AllFollow (os ++ steps.filterMap occurrence?) others := by
  induction steps generalizing os with
  | nil => simp [AllFollow]
  | cons step steps ih =>
      rw [List.cons_append, AllFollow, AllFollow, ih, and_assoc]
      cases hMeets : step.occurrence? <;> simp [hMeets]

/-- Steps that need nothing can come anywhere. -/
theorem allFollow_of_forall {steps : List Step} (h : ∀ step ∈ steps, ∀ os, step.Follows os) :
    AllFollow os steps := by
  induction steps generalizing os with
  | nil => trivial
  | cons step steps ih =>
      obtain ⟨hStep, hSteps⟩ := List.forall_mem_cons.1 h
      exact ⟨hStep os, ih hSteps⟩

/-- A step that reports at the line of its use reports the conflict of this use. -/
theorem conflictDefect?_of_report {step : Step} {o : Occurrence} (hUse : step.kindUse? = some o)
    (hLine : step.reportLine? = some o.ident.line) (file : FileName) :
    step.conflictDefect? file os =
      (Occurrence.conflict? os o).map fun c => ⟨⟨file, o.ident.line⟩, .conflict c⟩ := by
  rw [conflictDefect?, hUse, hLine, Option.bind_some]
  cases Occurrence.conflict? os o <;> rfl

theorem conflictDefect?_of_no_report {step : Step} (hLine : step.reportLine? = none)
    (file : FileName) : step.conflictDefect? file os = none := by
  rw [conflictDefect?, hLine]
  cases step.kindUse?.bind (Occurrence.conflict? os) <;> rfl

end Step

namespace RuleBody

theorem occurrences_stepsOf (names : List Ident) :
    (stepsOf names).filterMap Step.occurrence? = names.map fun x => ⟨x, none⟩ := by
  induction names with
  | nil => rfl
  | cons x names ih => exact congrArg (List.cons _) ih

/-- A right-hand side uses the names of its alternatives, as no kind. -/
theorem occurrences_steps (b : RuleBody) :
    b.steps.filterMap Step.occurrence? =
      (b.alternatives.toList.flatMap OneOrMore.toList).map fun x => ⟨x, none⟩ := by
  induction b with
  | last alternative =>
      rw [steps, occurrences_stepsOf]
      simp [alternatives, OneOrMore.toList]
  | more alternative pipe others ih =>
      have hPipe : (Step.shift ⟨.pipe, pipe⟩).occurrence? = none := rfl
      rw [steps, List.filterMap_append, occurrences_stepsOf, List.filterMap_cons, hPipe]
      simp only [ih]
      exact List.map_append.symm

theorem edits_steps (b : RuleBody) :
    b.steps.flatMap Step.edits =
      (b.alternatives.toList.flatMap OneOrMore.toList).map Ident.mention := by
  have hNames (names : List Ident) : (stepsOf names).flatMap Step.edits =
      names.map Ident.mention := by
    rw [stepsOf, List.flatMap_assoc, List.map_eq_flatMap]
    rfl
  induction b with
  | last alternative =>
      rw [steps, hNames]
      simp [alternatives, OneOrMore.toList]
  | more alternative pipe others ih =>
      rw [steps, List.flatMap_append, hNames, List.flatMap_cons, ih]
      exact List.map_append.symm

end RuleBody

namespace Part

variable {os : List Occurrence}

/-- The names met in reading a part are those of its construct. -/
theorem occurrences_steps (part : Part) :
    part.steps.filterMap Step.occurrence? =
      part.construct?.toList.flatMap Construct.occurrences := by
  cases part with
  | blank line => rfl
  | start line symbol => rfl
  | terminals line names =>
      have hEach : (fun x : Ident => List.filterMap Step.occurrence? [.terminal x, .shift x.lexeme]) =
          fun x => [⟨x, some .terminal⟩] := rfl
      rw [steps, List.cons_append, List.filterMap_cons, List.filterMap_append,
        List.filterMap_flatMap, hEach]
      simp [Step.occurrence?, construct?, Construct.occurrences, List.map_eq_flatMap]
  | rule header arrow body =>
      have hBody := RuleBody.occurrences_steps body
      rw [steps, List.cons_append, List.cons_append, List.cons_append, List.filterMap_cons,
        List.filterMap_cons, List.filterMap_cons, List.filterMap_append, hBody]
      simp [Step.occurrence?, construct?, Construct.occurrences]

/-- The steps of a part follow on whatever came before it. -/
theorem allFollow_steps (part : Part) : Step.AllFollow os part.steps := by
  cases part with
  | blank line => exact ⟨trivial, trivial⟩
  | start line symbol => exact ⟨trivial, trivial, trivial, trivial, trivial⟩
  | terminals line names =>
      apply Step.allFollow_of_forall
      intro step hMem
      simp only [steps, List.cons_append, List.mem_cons, List.mem_append, List.mem_flatMap,
        List.not_mem_nil, or_false] at hMem
      rcases hMem with rfl | ⟨x, -, rfl | rfl⟩ | rfl <;> exact fun os => trivial
  | rule header arrow body =>
      refine ⟨trivial, trivial, trivial, Step.allFollow_append.2 ⟨?_, ⟨?_, ?_⟩, trivial⟩⟩
      · exact Step.allFollow_of_forall
          (RuleBody.forall_mem_steps (fun _ _ => trivial) fun _ _ => trivial)
      · simp [Step.occurrence?]
      · intro alternative hAlternative y hY
        rw [RuleBody.occurrences_steps, Occurrence.names, List.map_append, List.map_map]
        refine List.mem_append_right _ (List.mem_map.2 ⟨y, ?_, rfl⟩)
        exact List.mem_flatMap.2 ⟨alternative, hAlternative, hY⟩

/-- The steps of a part report the conflicts of its names. -/
theorem conflictDefects_steps (file : FileName) (part : Part) :
    part.steps.filterMap (Step.conflictDefect? file os) =
      (part.construct?.toList.flatMap Construct.occurrences).filterMap fun o =>
        (Occurrence.conflict? os o).map fun c => ⟨⟨file, o.ident.line⟩, .conflict c⟩ := by
  cases part with
  | blank line => rfl
  | start line symbol =>
      have hStart : (Step.start symbol).conflictDefect? file os = _ :=
        Step.conflictDefect?_of_report rfl rfl file
      rw [steps, List.filterMap_cons_none rfl, List.filterMap_cons, hStart]
      rfl
  | terminals line names =>
      have hEach (x : Ident) : [.terminal x, .shift x.lexeme].filterMap
            (Step.conflictDefect? file os) =
          [⟨x, some .terminal⟩].filterMap fun o =>
            (Occurrence.conflict? os o).map fun c => ⟨⟨file, o.ident.line⟩, .conflict c⟩ := by
        have hTerminal : (Step.terminal x).conflictDefect? file os = _ :=
          Step.conflictDefect?_of_report rfl rfl file
        rw [List.filterMap_cons, hTerminal]
        rfl
      rw [steps, List.cons_append, List.filterMap_cons_none rfl, List.filterMap_append,
        List.filterMap_flatMap, funext hEach]
      simp [Step.conflictDefect?, Step.kindUse?, construct?, Construct.occurrences,
        List.map_eq_flatMap, List.filterMap_flatMap]
  | rule header arrow body =>
      have hBody : body.steps.filterMap (Step.conflictDefect? file os) = [] :=
        List.filterMap_eq_nil_iff.2 (RuleBody.forall_mem_steps
          (fun x => Step.conflictDefect?_of_no_report rfl file)
          fun l => Step.conflictDefect?_of_no_report rfl file)
      have hHeader : (Step.header header).conflictDefect? file os = none :=
        Step.conflictDefect?_of_no_report rfl file
      have hEnd : (Step.complete (.rule header body.alternatives)).conflictDefect? file os = _ :=
        Step.conflictDefect?_of_report rfl rfl file
      rw [steps, List.cons_append, List.cons_append, List.cons_append,
        List.filterMap_cons_none hHeader, List.filterMap_cons_none rfl,
        List.filterMap_cons_none rfl, List.filterMap_append, hBody, List.filterMap_cons, hEnd]
      simp [construct?, Construct.occurrences, List.filterMap_cons, Occurrence.conflict?]

/-- Reading a part makes the edits of its construct. -/
theorem edits_steps (part : Part) :
    part.steps.flatMap Step.edits = part.construct?.toList.flatMap Construct.edits := by
  cases part with
  | blank line => rfl
  | start line symbol => rfl
  | terminals line names =>
      rw [steps, List.cons_append, List.flatMap_cons, List.flatMap_append, List.flatMap_assoc]
      simp [Step.edits, construct?, Construct.edits, List.map_eq_flatMap]
  | rule header arrow body =>
      rw [steps, List.cons_append, List.cons_append, List.cons_append, List.flatMap_cons,
        List.flatMap_cons, List.flatMap_cons, List.flatMap_append, RuleBody.edits_steps]
      simp [Step.edits, construct?, Construct.edits]

theorem flatMap_source {β : Type} (f : Construct → List β) (parts : List Part) :
    (source parts).flatMap f = parts.flatMap fun part => part.construct?.toList.flatMap f := by
  rw [source, List.filterMap_eq_flatMap_toList, List.flatMap_assoc]

/-- The names met in reading a text are those of its constructs. -/
theorem occurrences_source (parts : List Part) :
    (parts.flatMap steps).filterMap Step.occurrence? = (source parts).occurrences := by
  rw [List.filterMap_flatMap, Source.occurrences, flatMap_source]
  exact List.flatMap_congr fun part _ => part.occurrences_steps

/-- Reading a text makes the edits of its constructs. -/
theorem edits_source (parts : List Part) :
    (parts.flatMap steps).flatMap Step.edits = (source parts).edits := by
  rw [List.flatMap_assoc, Source.edits, flatMap_source]
  exact List.flatMap_congr fun part _ => part.edits_steps

/-- The conflicts met in reading a text are those of its constructs. -/
theorem conflicts_source (file : FileName) (parts : List Part) :
    (parts.flatMap steps).filterMap (Step.conflictDefect? file (source parts).occurrences) =
      (source parts).conflicts file := by
  rw [Source.conflicts, ← occurrences_source, List.filterMap_flatMap, occurrences_source,
    Source.occurrences, flatMap_source, List.filterMap_flatMap]
  exact List.flatMap_congr fun part _ => part.conflictDefects_steps file

theorem allFollow_source (parts : List Part) : Step.AllFollow os (parts.flatMap steps) := by
  induction parts generalizing os with
  | nil => trivial
  | cons part parts ih =>
      rw [List.flatMap_cons, Step.allFollow_append]
      exact ⟨part.allFollow_steps, ih⟩

end Part

/-- A fault in how a text is written, whatever the names in it mean. -/
def Fault.IsMalformed : Fault → Prop
  | .lexical _ => True
  | .unexpected _ _ => True
  | _ => False

/-- A text is without conflicts when none of its occurrences is in one. -/
theorem Source.conflicts_eq_nil_iff {source : Source} {file : FileName} :
    source.conflicts file = [] ↔
      ∀ o ∈ source.occurrences, Occurrence.conflict? source.occurrences o = none := by
  simp [conflicts, List.filterMap_eq_nil_iff]

namespace Grammar

/-- A rejected construct is reported. The induction is on the steps. -/
theorem exists_malformed_of_reject {expected : Expectation} {found : Option Lexeme} (g : Grammar)
    (endLine : Nat) {steps : List Step} (h : .reject expected found ∈ steps) :
    ∃ d ∈ (g.takeAll endLine steps).2, d.cause.IsMalformed := by
  induction steps generalizing g with
  | nil => cases h
  | cons step steps ih =>
      rcases List.mem_cons.1 h with rfl | hLater
      · refine ⟨g.rejection endLine expected found, List.mem_append_left _ (List.mem_cons_self ..), ?_⟩
        cases found with
        | none => trivial
        | some l =>
            obtain ⟨token, line⟩ := l
            cases token <;> trivial
      · obtain ⟨d, hMem, hMalformed⟩ := ih (g.take endLine step).1 hLater
        exact ⟨d, List.mem_append_right _ hMem, hMalformed⟩

theorem ofStream_eq (file : FileName) (stream : TokenStream) :
    ofStream file stream =
      let read := (ofFile file).takeAll stream.endLine (Step.ofLexemes stream.lexemes)
      if read.2 = [] then .ok read.1 else .error read.2 := by
  simp only [ofStream, List.isEmpty_iff]

/-- A text that is no list of parts is refused. -/
theorem ofText_of_not_spelled (file : FileName) {text : List Char}
    (h : ¬ ∃ parts, Part.Spell parts (TokenStream.ofText text).lexemes) :
    ∃ defects, ofText file text = .error defects ∧ ∃ d ∈ defects, d.cause.IsMalformed := by
  have hReject : ¬ Step.Accepting (Step.ofLexemes (TokenStream.ofText text).lexemes) :=
    fun hAccepting => h (Step.exists_parts_of_accepting hAccepting)
  simp only [Step.Accepting, not_forall, not_not] at hReject
  obtain ⟨expected, found, hMem⟩ := hReject
  obtain ⟨d, hDefect, hMalformed⟩ := exists_malformed_of_reject (ofFile file)
    (TokenStream.ofText text).endLine hMem
  refine ⟨_, ?_, d, hDefect, hMalformed⟩
  rw [ofText, ofStream_eq]
  exact if_neg (List.ne_nil_of_mem hDefect)

variable {parts : List Part} {text : List Char}

/-- A text that is a list of parts is refused for the conflicts in it, and without conflicts it
gives the grammar that the edits of its constructs make. -/
theorem ofText_of_spell (file : FileName)
    (h : Part.Spell parts (TokenStream.ofText text).lexemes) :
    ((Part.source parts).conflicts file ≠ [] ∧
        ofText file text = .error ((Part.source parts).conflicts file)) ∨
      (Part.source parts).conflicts file = [] ∧ ∃ g, ofText file text = .ok g ∧
        (ofFile file).editAll (Part.source parts).edits = .ok g := by
  obtain ⟨hDefects, hEdits⟩ := takeAll_of_allFollow (g := ofFile file) SymbolTable.tracks_empty
    (Part.allFollow_source parts) (TokenStream.ofText text).endLine
  rw [List.nil_append, Part.occurrences_source] at hDefects hEdits
  have hRead : ((ofFile file).takeAll (TokenStream.ofText text).endLine
      (parts.flatMap Part.steps)).2 = (Part.source parts).conflicts file :=
    hDefects.trans (Part.conflicts_source file parts)
  rw [Part.edits_source] at hEdits
  rw [ofText, ofStream_eq, Step.ofLexemes_of_spell h]
  simp only [hRead]
  by_cases hFree : (Part.source parts).conflicts file = []
  · exact .inr ⟨hFree, _, if_pos hFree, hEdits (Source.conflicts_eq_nil_iff.1 hFree)⟩
  · exact .inl ⟨hFree, if_neg hFree⟩

end Grammar

end GrammarCheck
