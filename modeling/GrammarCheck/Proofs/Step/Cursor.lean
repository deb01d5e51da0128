import GrammarCheck.Proofs.Step.Course

/-! Reading with a cursor. A cursor sees one token and the next, and goes on by one token at a time,
even at the end of the text, which then comes again. Its loops are cut off after some number of
rounds, and one that is cut off has no result. With more rounds than lexemes ahead none of them is:
from every place the cursor takes the steps of the passage that begins there, and it leaves behind
the lexemes in front of the rest of the passage. -/

namespace GrammarCheck

/-- A cursor: what was current each time it went on, with `none` for the end of the text, the
lexemes from the current one on, and the steps taken so far. -/
structure Cursor where
  passed : List (Option Lexeme)
  rest : List Lexeme
  steps : List Step

namespace Cursor

def start (lexemes : List Lexeme) : Cursor := ⟨[], lexemes, []⟩

def consumed (c : Cursor) : Nat := c.passed.length

def current (c : Cursor) : Option Lexeme := c.rest.head?

def lookahead (c : Cursor) : Option Lexeme := c.rest.tail.head?

def advance (c : Cursor) : Cursor :=
  ⟨c.passed ++ [c.current], c.rest.tail, c.steps ++ (c.current.map .shift).toList⟩

def note (c : Cursor) (step : Step) : Cursor := { c with steps := c.steps ++ [step] }

def arrowAhead (c : Cursor) : Bool :=
  match c.lookahead with
  | some ⟨.arrow, _⟩ => true
  | _ => false

def atBoundary (c : Cursor) : Bool :=
  match c.current with
  | none => true
  | some ⟨.blankLine, _⟩ => true
  | some ⟨.startDirective, _⟩ => true
  | some ⟨.tokenDirective, _⟩ => true
  | some ⟨.identifier _, _⟩ => c.arrowAhead
  | some _ => false

/-- Goes on up to the next boundary. Here and below there is no result after `limit` rounds of a
loop. -/
def seek : (limit : Nat) → Cursor → Option Cursor
  | 0, _ => none
  | limit + 1, c => if c.atBoundary then some c else seek limit c.advance

/-- Passes over the remains of a rejected construct, and over one token at least if the construct
began at the current one. -/
def recover (limit begun : Nat) (c : Cursor) : Option Cursor :=
  seek limit (if c.consumed = begun then c.advance else c)

/-- Reads names up to the first token that is none or that heads a rule. -/
def names (use : Ident → Step) : (limit : Nat) → Cursor → Option (List Ident × Cursor)
  | 0, _ => none
  | limit + 1, c =>
      match c.current with
      | some ⟨.identifier name, line⟩ =>
          if c.arrowAhead then some ([], c)
          else do
            let more ← names use limit (c.note (use ⟨name, line⟩)).advance
            return (⟨name, line⟩ :: more.1, more.2)
      | _ => some ([], c)

/-- Reads alternatives separated by pipes, unless one of them has no symbol. -/
def alternatives : (limit : Nat) → Cursor → Option (Option (OneOrMore Alternative) × Cursor)
  | 0, _ => none
  | limit + 1, c => do
      let run ← c.names .mention (limit + 1)
      match OneOrMore.ofList? run.1 with
      | none => return (none, run.2.note (.reject .symbol run.2.current))
      | some symbols =>
          match run.2.current with
          | some ⟨.pipe, _⟩ => do
              let more ← alternatives limit run.2.advance
              return (more.1.map (.cons symbols), more.2)
          | _ => return (some ⟨symbols, []⟩, run.2)

/-- Ends a construct or rejects it. Here and below the answer says whether all went well. -/
def finish (construct : Construct) (expected : Expectation) (c : Cursor) : Bool × Cursor :=
  if c.atBoundary then (true, c.note (.complete construct))
  else (false, c.note (.reject expected c.current))

def rule (header : Ident) (limit : Nat) (c : Cursor) : Option (Bool × Cursor) :=
  if c.arrowAhead then do
    let read ← (c.note (.header header)).advance.advance.alternatives limit
    match read.1 with
    | none => return (false, read.2)
    | some alternatives => return read.2.finish (.rule header alternatives) .ruleEnd
  else some (false, c.note (.reject .arrow c.lookahead))

def terminals (limit : Nat) (c : Cursor) : Option (Bool × Cursor) := do
  let run ← c.advance.names .terminal limit
  match OneOrMore.ofList? run.1 with
  | none => return (false, run.2.note (.reject .terminalAfterDirective run.2.current))
  | some declared => return run.2.finish (.terminals declared) .terminal

def startSymbol (c : Cursor) : Bool × Cursor :=
  match c.advance.current with
  | some ⟨.identifier name, line⟩ =>
      (c.advance.note (.start ⟨name, line⟩)).advance.finish (.start ⟨name, line⟩) .startEnd
  | found => (false, c.advance.note (.reject .startAfterDirective found))

def construct (l : Lexeme) (limit : Nat) (c : Cursor) : Option (Bool × Cursor) :=
  match l.token with
  | .blankLine => some (true, c.advance)
  | .identifier name => c.rule ⟨name, l.line⟩ limit
  | .tokenDirective => c.terminals limit
  | .startDirective => some c.startSymbol
  | _ => some (false, c.note (.reject .construct (some l)))

def settle (limit begun : Nat) (read : Bool × Cursor) : Option Cursor :=
  if read.1 then some read.2 else read.2.recover limit begun

/-- One pass of the loop over constructs, from the current lexeme. -/
def pass (l : Lexeme) (limit : Nat) (c : Cursor) : Option Cursor := do
  let read ← c.construct l limit
  settle limit c.consumed read

/-- The cursor that has left behind `front` and has `rest` before it. -/
def between (front rest : List Lexeme) (steps : List Step) : Cursor :=
  ⟨front.map some, rest, steps⟩

section

variable (front rest : List Lexeme) (steps : List Step) (l : Lexeme)

@[simp] theorem consumed_between : (between front rest steps).consumed = front.length :=
  List.length_map _

@[simp] theorem rest_between : (between front rest steps).rest = rest := rfl

@[simp] theorem note_between (step : Step) :
    (between front rest steps).note step = between front rest (steps ++ [step]) := rfl

@[simp] theorem advance_between :
    (between front (l :: rest) steps).advance =
      between (front ++ [l]) rest (steps ++ [.shift l]) := by
  simp [between, advance, current]

@[simp] theorem arrowAhead_between :
    (between front (l :: rest) steps).arrowAhead = Passage.arrowNext rest := by
  cases rest with
  | nil => rfl
  | cons next rest =>
      obtain ⟨token, line⟩ := next
      cases token <;> rfl

@[simp] theorem atBoundary_between :
    (between front rest steps).atBoundary = Passage.atBoundary rest := by
  cases rest with
  | nil => rfl
  | cons l rest =>
      obtain ⟨token, line⟩ := l
      cases token with
      | identifier name => exact arrowAhead_between front rest steps _
      | _ => rfl

end

/-- Where the cursor stands at the end of a passage through some lexemes: it has taken the steps of
the passage and left behind what is in front of the rest. -/
def Ends (front lexemes : List Lexeme) (steps : List Step) (p : Passage) (c : Cursor) : Prop :=
  ∃ passed, passed ++ p.rest = lexemes ∧ c = between (front ++ passed) p.rest (steps ++ p.steps)

section

variable {front lexemes rest : List Lexeme} {steps : List Step} {p : Passage} {c : Cursor}
  {limit : Nat}

theorem ends_between (front rest : List Lexeme) (steps : List Step) :
    Ends front rest steps ⟨[], rest⟩ (between front rest steps) :=
  ⟨[], rfl, by simp⟩

theorem Ends.current (h : Ends front lexemes steps p c) : c.current = p.rest.head? := by
  obtain ⟨passed, -, rfl⟩ := h
  rfl

theorem Ends.arrowAhead {l : Lexeme} {taken : List Step}
    (h : Ends front lexemes steps ⟨taken, l :: rest⟩ c) :
    c.arrowAhead = Passage.arrowNext rest := by
  obtain ⟨passed, -, rfl⟩ := h
  exact arrowAhead_between _ _ _ _

theorem Ends.atBoundary (h : Ends front lexemes steps p c) :
    c.atBoundary = Passage.atBoundary p.rest := by
  obtain ⟨passed, -, rfl⟩ := h
  exact atBoundary_between _ _ _

theorem Ends.note (h : Ends front lexemes steps p c) (step : Step) :
    Ends front lexemes steps ⟨p.steps ++ [step], p.rest⟩ (c.note step) := by
  obtain ⟨passed, hSplit, rfl⟩ := h
  exact ⟨passed, hSplit, by simp⟩

/-- Going on takes the shift of the current lexeme. -/
theorem Ends.advance {l : Lexeme} {taken : List Step}
    (h : Ends front lexemes steps ⟨taken, l :: rest⟩ c) :
    Ends front lexemes steps ⟨taken ++ [.shift l], rest⟩ c.advance := by
  obtain ⟨passed, hSplit, rfl⟩ := h
  exact ⟨passed ++ [l], by simpa using hSplit, by simp⟩

/-- A search for the next boundary goes where skipping does. The induction is on the rounds, each of
which leaves a lexeme behind. -/
theorem Ends.seek (h : Ends front lexemes steps p c) (hLimit : p.rest.length < limit) :
    ∃ later, c.seek limit = some later ∧
      Ends front lexemes steps ((Passage.skip p.rest).after p.steps) later := by
  induction limit generalizing p c with
  | zero => cases hLimit
  | succ limit ih =>
      obtain ⟨taken, rest⟩ := p
      rw [Cursor.seek, h.atBoundary]
      cases rest with
      | nil => exact ⟨c, rfl, by simpa [Passage.skip, Passage.after] using h⟩
      | cons l rest =>
          rw [Passage.skip]
          split
          case isTrue => exact ⟨c, rfl, by simpa [Passage.after] using h⟩
          case isFalse =>
            obtain ⟨later, hSeek, hEnds⟩ := ih h.advance (Nat.lt_of_succ_lt_succ hLimit)
            exact ⟨later, hSeek, by simpa [Passage.after] using hEnds⟩

/-- Names are read as far as there are any. -/
theorem Ends.names {ahead : List Lexeme} {taken : List Step}
    (h : Ends front lexemes steps ⟨taken, ahead⟩ c) (hLimit : ahead.length < limit)
    (use : Ident → Step) :
    ∃ later, c.names use limit = some ((Passage.names ahead).1, later) ∧
      Ends front lexemes steps
        ⟨taken ++ (Passage.names ahead).1.flatMap fun x => [use x, .shift x.lexeme],
          (Passage.names ahead).2⟩ later := by
  induction limit generalizing ahead taken c with
  | zero => cases hLimit
  | succ limit ih =>
      rw [Cursor.names, h.current]
      fun_cases Passage.names ahead with
      | case1 name line ahead hArrow =>
          exact ⟨c, by simp [h.arrowAhead, hArrow], by simpa using h⟩
      | case2 name line ahead hArrow more =>
          obtain ⟨later, hNames, hEnds⟩ :=
            ih (h.note (use ⟨name, line⟩)).advance (Nat.lt_of_succ_lt_succ hLimit)
          exact ⟨later, by simp [h.arrowAhead, hArrow, hNames, more],
            by simpa [Ident.lexeme, more] using hEnds⟩
      | case3 ahead hName =>
          refine ⟨c, ?_, by simpa using h⟩
          cases ahead with
          | nil => rfl
          | cons l ahead =>
              obtain ⟨token, line⟩ := l
              cases token with
              | identifier name => exact (hName name line ahead rfl).elim
              | _ => rfl

/-- Alternatives are read as far as there are any, and the first one without a symbol is
rejected. -/
theorem Ends.alternatives {ahead : List Lexeme} {taken : List Step}
    (h : Ends front lexemes steps ⟨taken, ahead⟩ c) (hLimit : ahead.length < limit) :
    ∃ later, c.alternatives limit = some ((Passage.body ahead).alternatives, later) ∧
      Ends front lexemes steps ⟨taken ++ (Passage.body ahead).steps, (Passage.body ahead).rest⟩
        later := by
  induction limit generalizing ahead taken c with
  | zero => cases hLimit
  | succ limit ih =>
      obtain ⟨later, hNames, hEnds⟩ := h.names hLimit .mention
      rw [Cursor.alternatives, hNames]
      fun_cases Passage.body ahead with
      | case1 run hNone =>
          have hEmpty : run.1 = [] := OneOrMore.eq_nil_of_ofList? hNone
          refine ⟨later.note (.reject .symbol later.current), by simp [run, hNone], ?_⟩
          simpa [run, hEmpty, hEnds.current] using hEnds.note (.reject .symbol later.current)
      | case2 run symbols hSymbols names line others hRest more =>
          have hLess : others.length < limit := by
            have hRead := Passage.length_names_le ahead
            have hLength := congrArg List.length hRest
            simp only [List.length_cons, run] at hLength
            omega
          -- the names end at a pipe, and going on behind it is the next round
          rw [hRest] at hEnds
          obtain ⟨last, hMore, hLast⟩ := ih hEnds.advance hLess
          exact ⟨last, by simp [run, hSymbols, hEnds.current, hMore, more],
            by simpa [names, more] using hLast⟩
      | case3 run symbols hSymbols names hLast =>
          refine ⟨later, ?_, hEnds⟩
          simp only [run, Option.bind_eq_bind, Option.bind_some, hSymbols]
          rw [hEnds.current]
          split
          case h_1 line hPipe =>
            obtain ⟨others, hRest⟩ := List.head?_eq_some_iff.1 hPipe
            exact (hLast line others hRest).elim
          case h_2 => rfl

/-- Behind a lexeme of the construct, recovering goes on only up to a boundary. -/
theorem Ends.recover (h : Ends front lexemes steps p c) (hMoved : p.rest.length < lexemes.length)
    (hLimit : lexemes.length < limit) :
    ∃ later, c.recover limit front.length = some later ∧
      Ends front lexemes steps ((Passage.skip p.rest).after p.steps) later := by
  have hConsumed : c.consumed ≠ front.length := by
    obtain ⟨passed, rfl, rfl⟩ := h
    simp only [List.length_append, consumed_between] at hMoved ⊢
    omega
  rw [Cursor.recover, if_neg hConsumed]
  exact h.seek (Nat.lt_trans hMoved hLimit)

/-- Where nothing of the construct has been left behind, recovering first leaves one lexeme
behind. -/
theorem exists_recover_between (front : List Lexeme) (l : Lexeme) (rest : List Lexeme)
    (steps : List Step) (step : Step) (hLimit : (l :: rest).length < limit) :
    ∃ later, ((between front (l :: rest) steps).note step).recover limit front.length = some later ∧
      Ends front (l :: rest) steps ((Passage.skip rest).after [step, .shift l]) later := by
  rw [note_between, Cursor.recover, if_pos (consumed_between _ _ _), ← note_between]
  exact ((ends_between front (l :: rest) steps).note step).advance.seek (Nat.lt_of_succ_lt hLimit)

/-- A construct that is rejected ends where its passage does, provided that the cursor has moved or
moves now. -/
theorem Ends.settle_reject {ahead : List Lexeme} {taken : List Step}
    (h : Ends front lexemes steps ⟨taken, ahead⟩ c) (hMoved : ahead.length < lexemes.length)
    (hLimit : lexemes.length < limit) (expected : Expectation) :
    ∃ later, settle limit front.length (false, c.note (.reject expected c.current)) = some later ∧
      Ends front lexemes steps ((Passage.rejectHere expected ahead).after taken) later := by
  have hRecovered := (h.note (.reject expected c.current)).recover hMoved hLimit
  rw [h.current] at hRecovered ⊢
  simpa [settle, Passage.rejectHere, Passage.after] using hRecovered

/-- A construct that has come to its end is finished or rejected as in its passage. -/
theorem Ends.settle_finish {ahead : List Lexeme} {taken : List Step}
    (h : Ends front lexemes steps ⟨taken, ahead⟩ c) (hMoved : ahead.length < lexemes.length)
    (hLimit : lexemes.length < limit) (construct : Construct) (expected : Expectation) :
    ∃ later, settle limit front.length (c.finish construct expected) = some later ∧
      Ends front lexemes steps ((Passage.finish construct expected ahead).after taken) later := by
  rw [finish, Passage.finish, h.atBoundary]
  split
  case isTrue => exact ⟨_, rfl, h.note (.complete construct)⟩
  case isFalse => exact h.settle_reject hMoved hLimit expected

end

section

variable (front rest : List Lexeme) (steps : List Step) {limit : Nat}

/-- The loop over a rule takes the steps of its passage. -/
theorem settle_rule_between (header : Ident) (arrow : Nat)
    (hLimit : (header.lexeme :: ⟨.arrow, arrow⟩ :: rest).length < limit) :
    ∃ later, ((between front (header.lexeme :: ⟨.arrow, arrow⟩ :: rest) steps).rule header
        limit).bind (settle limit front.length) = some later ∧
      Ends front (header.lexeme :: ⟨.arrow, arrow⟩ :: rest) steps
        ((Passage.rule header rest).after
          [.header header, .shift header.lexeme, .shift ⟨.arrow, arrow⟩]) later := by
  have hBehind := ((ends_between front (header.lexeme :: ⟨.arrow, arrow⟩ :: rest) steps).note
    (.header header)).advance.advance
  have hAhead : rest.length < (header.lexeme :: ⟨.arrow, arrow⟩ :: rest).length :=
    Nat.lt_add_of_pos_right Nat.two_pos
  have hMoved := Nat.lt_of_le_of_lt (Passage.length_rest_body_le rest) hAhead
  obtain ⟨found, hBody, hEnds⟩ := hBehind.alternatives (Nat.lt_trans hAhead hLimit)
  have hArrow : (between front (header.lexeme :: ⟨.arrow, arrow⟩ :: rest) steps).arrowAhead :=
    arrowAhead_between front _ steps _
  rw [rule, if_pos hArrow, hBody, Passage.rule]
  cases (Passage.body rest).alternatives with
  | none => simpa [settle, Passage.after] using hEnds.recover hMoved hLimit
  | some alternatives =>
      simpa [Passage.after] using
        hEnds.settle_finish hMoved hLimit (.rule header alternatives) .ruleEnd

/-- The loop over a `%token` directive takes the steps of its passage. -/
theorem settle_terminals_between (l : Lexeme) (hLimit : (l :: rest).length < limit) :
    ∃ later, ((between front (l :: rest) steps).terminals limit).bind
        (settle limit front.length) = some later ∧
      Ends front (l :: rest) steps ((Passage.terminals rest).after [.shift l]) later := by
  have hBehind := (ends_between front (l :: rest) steps).advance
  obtain ⟨found, hNames, hEnds⟩ := hBehind.names (Nat.lt_of_succ_lt hLimit) .terminal
  have hMoved : (Passage.names rest).2.length < (l :: rest).length :=
    Nat.lt_succ_of_le (Passage.length_names_le rest)
  rw [terminals, hNames, Passage.terminals]
  simp only [Option.bind_eq_bind, Option.bind_some]
  cases hDeclared : OneOrMore.ofList? (Passage.names rest).1 with
  | none =>
      rw [OneOrMore.eq_nil_of_ofList? hDeclared] at hEnds
      exact hEnds.settle_reject hMoved hLimit .terminalAfterDirective
  | some declared =>
      simpa [Passage.after] using
        hEnds.settle_finish hMoved hLimit (.terminals declared) .terminal

/-- The loop over a `%start` directive takes the steps of its passage. -/
theorem settle_startSymbol_between (l : Lexeme) (hLimit : (l :: rest).length < limit) :
    ∃ later, settle limit front.length (between front (l :: rest) steps).startSymbol = some later ∧
      Ends front (l :: rest) steps ((Passage.startSymbol rest).after [.shift l]) later := by
  have hBehind := (ends_between front (l :: rest) steps).advance
  have hMoved : rest.length < (l :: rest).length := Nat.lt_succ_self _
  cases rest with
  | nil => exact hBehind.settle_reject hMoved hLimit .startAfterDirective
  | cons next rest =>
      obtain ⟨token, line⟩ := next
      cases token with
      | identifier name =>
          have hEnds := (hBehind.note (.start ⟨name, line⟩)).advance
          exact hEnds.settle_finish (Nat.lt_of_succ_lt hMoved) hLimit (.start ⟨name, line⟩)
            .startEnd
      | _ => exact hBehind.settle_reject hMoved hLimit .startAfterDirective

/-- A pass takes the steps of what begins with the current lexeme. -/
theorem pass_between (l : Lexeme) (hLimit : (l :: rest).length < limit) :
    ∃ later, (between front (l :: rest) steps).pass l limit = some later ∧
      Ends front (l :: rest) steps (Passage.one l rest) later := by
  obtain ⟨token, line⟩ := l
  rw [pass, consumed_between]
  cases token with
  | blankLine => exact ⟨_, rfl, (ends_between front _ steps).advance⟩
  | identifier name =>
      -- a name without an arrow is rejected where it stands, so recovering has to leave it behind
      cases rest with
      | nil => exact exists_recover_between front _ [] steps _ hLimit
      | cons next rest =>
          obtain ⟨token, arrow⟩ := next
          cases token with
          | arrow => exact settle_rule_between front rest steps ⟨name, line⟩ arrow hLimit
          | _ => exact exists_recover_between front _ _ steps _ hLimit
  | tokenDirective => exact settle_terminals_between front rest steps _ hLimit
  | startDirective => exact settle_startSymbol_between front rest steps _ hLimit
  | _ => exact exists_recover_between front _ rest steps _ hLimit

end

end Cursor

end GrammarCheck
