import GrammarCheck.CommandLine.Arguments
import GrammarCheck.Grammar.Reading
import GrammarCheck.Report

/-! A run of the program: from options and the content of the file to what is printed and the exit
code. -/

namespace GrammarCheck.CommandLine

inductive Exit where
  | success
  /-- The symbol asked for derives nothing. -/
  | usage
  /-- The grammar has defects. -/
  | badData
  /-- The file could not be read. -/
  | badFile
  deriving DecidableEq

/-- The exit codes of the system's conventions for programs. -/
def Exit.code : Exit → Nat
  | .success => 0
  | .usage => 64
  | .badData => 65
  | .badFile => 74

/-- The outcome of a run: lines of output, lines of errors, and the exit. -/
structure Outcome where
  output : List String
  errors : List String
  exit : Exit

def versionText : String := "bnfcheck 0.1.0"

variable {σ : Type}

/-- Derives a number of sentences, from a named symbol or from the start symbol, up to the first
error. -/
def sentences (sampler : Sampler) (chooser : Chooser σ) (start : Option String) :
    Nat → σ → List String × Option SamplingError
  | 0, _ => ([], none)
  | count + 1, state =>
      let derived := match start with
        | some name => sampler.sampleFrom chooser name state
        | none => sampler.sample chooser state
      match derived with
      | .error e => ([], some e)
      | .ok (tree, state) =>
          let others := sentences sampler chooser start count state
          (tree.sentence sampler.grammar.symbols :: others.1, others.2)

def Outcome.ofDefects (defects : List Defect) : Outcome :=
  let unreadable := defects.any fun d => match d.cause with
    | .unreadable _ => true
    | _ => false
  ⟨[], defects.map Defect.render, if unreadable then .badFile else .badData⟩

/-- Runs the program on the content of the file. -/
def run (options : Options) (content : Except ReadFailure (List UInt8)) (chooser : Chooser σ)
    (state : σ) : Outcome :=
  match Grammar.ofContent options.file content with
  | .error defects => .ofDefects defects
  | .ok grammar =>
    match grammar.check with
    | .error defects => .ofDefects defects
    | .ok ranking =>
      let verdict := if options.quiet then [] else [s!"{options.file.text}: ok"]
      let derived := sentences ⟨grammar, ranking, options.maxDepth⟩ chooser options.start
        options.samples state
      match derived.2 with
      | none => ⟨verdict ++ derived.1, [], .success⟩
      | some e =>
          ⟨verdict ++ derived.1, [Diagnostic.render SamplingFault.message e], .usage⟩

end GrammarCheck.CommandLine
