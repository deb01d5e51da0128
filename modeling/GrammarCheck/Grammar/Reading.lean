import GrammarCheck.Defect
import GrammarCheck.Grammar.Basic
import GrammarCheck.Step.Passage
import GrammarCheck.Text.Utf8
import GrammarCheck.Token.Stream

/-! Building a grammar from the steps that read its text. All that reading does to a grammar are
edits, so a grammar that was read is also one that was edited. Reading goes on after a defect, so
that one pass reports them all. -/

namespace GrammarCheck

/-- The fault behind a refused edit. Reading refers only to names it has met and gives alternatives
only to nonterminals, so a conflict of kinds is the one it can run into. -/
def Refusal.fault? : Refusal → Option Fault
  | .conflict c => some (.conflict c)
  | .unknownName _ => none
  | .notNonterminal _ => none

namespace Ident

def mention (x : Ident) : GrammarEdit := .symbols (.mention x.name x.line)

def terminal (x : Ident) : GrammarEdit := .symbols (.terminal x.name x.line)

def nonterminal (x : Ident) : GrammarEdit := .symbols (.nonterminal x.name x.line)

def start (x : Ident) : GrammarEdit := .start x.name x.line

def define (x : Ident) : GrammarEdit := .symbols (.define x.name x.line)

/-- One alternative of a rule under this header, written where its first symbol stands. -/
def alternative (x : Ident) (symbols : Alternative) : GrammarEdit :=
  .symbols (.rule x.name (symbols.toList.map (·.name)) symbols.first.line)

def rule (x : Ident) (alternatives : OneOrMore Alternative) : List GrammarEdit :=
  x.nonterminal :: alternatives.toList.map x.alternative ++ [x.define]

end Ident

namespace Step

/-- The edits that a step makes, all or none of them. -/
def edits : Step → List GrammarEdit
  | .mention x => [x.mention]
  | .header x => [x.nonterminal]
  | .terminal x => [x.terminal]
  | .start x => [x.nonterminal, x.start]
  | .complete (.rule x alternatives) => x.rule alternatives
  | _ => []

/-- The line to report refused edits at. A header settles its name at once, but a conflict over it
is left to the end of the rule, which is never reached if the rule is rejected. -/
def reportLine? : Step → Option Nat
  | .terminal x => some x.line
  | .start x => some x.line
  | .complete (.rule x _) => some x.line
  | _ => none

end Step

namespace Grammar

/-- The defect of a rejected construct, at the lexeme that was found or at the end of the text. -/
def rejection (g : Grammar) (endLine : Nat) (expected : Expectation) : Option Lexeme → Defect
  | some l => ⟨g.place l.line, .ofFound expected (some l.token)⟩
  | none => ⟨g.place endLine, .ofFound expected none⟩

/-- The defect of a step whose edits are refused, if it is to be reported. -/
def refusalDefect? (g : Grammar) (step : Step) (refusal : Refusal) : Option Defect := do
  let line ← step.reportLine?
  let fault ← refusal.fault?
  return ⟨g.place line, fault⟩

/-- Takes one step of reading. Gives the changed grammar and the defects that the step shows. -/
def take (g : Grammar) (endLine : Nat) (step : Step) : Grammar × List Defect :=
  match step with
  | .reject expected found => (g, [g.rejection endLine expected found])
  | step =>
      match g.editAll step.edits with
      | .ok after => (after, [])
      | .error refusal => (g, (g.refusalDefect? step refusal).toList)

/-- What a step does whose edits are accepted. A rejection has no edits. -/
theorem take_of_ok {g after : Grammar} {step : Step}
    (hStep : ∀ expected found, step ≠ .reject expected found)
    (h : g.editAll step.edits = .ok after) (endLine : Nat) :
    g.take endLine step = (after, []) := by
  unfold take
  split
  case h_1 expected found => exact absurd rfl (hStep expected found)
  case h_2 => rw [h]

/-- An accepted step leads to where its edits lead. -/
theorem fst_take_of_ok {g after : Grammar} {step : Step} (h : g.editAll step.edits = .ok after)
    (endLine : Nat) : (g.take endLine step).1 = after := by
  unfold take
  split
  case h_1 =>
    cases h
    rfl
  case h_2 => rw [h]

/-- What a step does whose edits are refused. -/
theorem take_of_error {g : Grammar} {step : Step} {refusal : Refusal}
    (h : g.editAll step.edits = .error refusal) (endLine : Nat) :
    g.take endLine step = (g, (g.refusalDefect? step refusal).toList) := by
  unfold take
  split
  case h_1 => cases h
  case h_2 => rw [h]

def takeAll (g : Grammar) (endLine : Nat) : List Step → Grammar × List Defect
  | [] => (g, [])
  | step :: steps =>
      let now := g.take endLine step
      let later := now.1.takeAll endLine steps
      (later.1, now.2 ++ later.2)

/-- The grammar that some tokens spell, or else every defect in them. -/
def ofStream (file : FileName) (stream : TokenStream) : Except (List Defect) Grammar :=
  let read := (ofFile file).takeAll stream.endLine (Step.ofLexemes stream.lexemes)
  if read.2.isEmpty then .ok read.1 else .error read.2

def ofText (file : FileName) (text : List Char) : Except (List Defect) Grammar :=
  ofStream file (.ofText text)

/-- The grammar in a file with the given content. What is not UTF-8 in it comes out as characters
that no grammar contains. -/
def ofBytes (file : FileName) (bytes : List UInt8) : Except (List Defect) Grammar :=
  ofText file (Text.Utf8.decode bytes)

def ofContent (file : FileName) : Except ReadFailure (List UInt8) → Except (List Defect) Grammar
  | .ok bytes => ofBytes file bytes
  | .error failure => .error [⟨.wholeFile file, .unreadable failure⟩]

end Grammar

end GrammarCheck
