import GrammarCheck.Main
import GrammarCheck.Log
import GrammarCheck.Proofs.Derivation.Complete
import GrammarCheck.Proofs.Derivation.Yield
import GrammarCheck.Proofs.Ranking.Stage
import GrammarCheck.Proofs.Ranking.Least
import GrammarCheck.Proofs.Symbol.Indexed
import GrammarCheck.Proofs.Symbol.Change
import GrammarCheck.Proofs.Grammar.Reachable
import GrammarCheck.Proofs.Sampler.Growth
import GrammarCheck.Proofs.Sampler.Sentence
import GrammarCheck.Proofs.Source.Part
import GrammarCheck.Proofs.Source.Reading
import GrammarCheck.Proofs.Source.Occurrence
import GrammarCheck.Proofs.Source.Conflict
import GrammarCheck.Proofs.Source.Text
import GrammarCheck.Proofs.Symbol.History
import GrammarCheck.Proofs.Grammar.History
import GrammarCheck.Proofs.Source.Written
import GrammarCheck.Proofs.Source.Lookup
import GrammarCheck.Proofs.Source.Derivable
import GrammarCheck.Proofs.Source.Report
import GrammarCheck.Proofs.Token.Gap
import GrammarCheck.Proofs.Token.Spelling
import GrammarCheck.Proofs.Token.Division
import GrammarCheck.Proofs.Token.BlankLine
import GrammarCheck.Proofs.Step.Course
import GrammarCheck.Proofs.Step.Rejected
import GrammarCheck.Proofs.Step.Setting
import GrammarCheck.Proofs.Source.BlankLine
import GrammarCheck.Proofs.Symbol.Lawful
import GrammarCheck.Proofs.Symbol.Calls
import GrammarCheck.Proofs.Grammar.Verified
import GrammarCheck.Proofs.CommandLine.Outcome
import GrammarCheck.Proofs.Sampler.Depth
import GrammarCheck.Proofs.Sampler.Draws
import GrammarCheck.Proofs.Step.Draft
import GrammarCheck.Proofs.Grammar.Reader
import GrammarCheck.Proofs.Grammar.Following
import GrammarCheck.Proofs.Grammar.Severity
import GrammarCheck.Proofs.Grammar.Safety
import GrammarCheck.Proofs.Renaming.Table
import GrammarCheck.Proofs.Renaming.Reading
import GrammarCheck.Proofs.Renaming.Report
import GrammarCheck.Proofs.Renaming.Sampling
import GrammarCheck.Proofs.Renaming.Identifier
import GrammarCheck.Proofs.Token.Space
import GrammarCheck.Proofs.Source.Opening
import GrammarCheck.Proofs.Source.ByName
import GrammarCheck.Proofs.Source.Arrangement
import GrammarCheck.Proofs.Source.Page
import GrammarCheck.Proofs.Grammar.Order
import GrammarCheck.Proofs.Step.Phase
import GrammarCheck.Proofs.Source.Viable
import GrammarCheck.Proofs.Token.Line
import GrammarCheck.Proofs.Step.Order
import GrammarCheck.Proofs.Source.InOrder
import GrammarCheck.Proofs.Random.Reach
import GrammarCheck.Proofs.Sampler.Script
import GrammarCheck.Proofs.Derivation.Subtree
import GrammarCheck.Proofs.Sampler.Lowest
import GrammarCheck.Proofs.Sampler.Words
import GrammarCheck.Proofs.Step.Cursor
import GrammarCheck.Proofs.Step.Progress
import GrammarCheck.Proofs.Symbol.InPlace
import GrammarCheck.Proofs.Symbol.Refused
import GrammarCheck.Proofs.Ranking.Later
import GrammarCheck.Proofs.Token.LineEnd
import GrammarCheck.Proofs.Token.Printed
import GrammarCheck.Proofs.Text.Encoding
import GrammarCheck.Proofs.Text.Stretch
import GrammarCheck.Proofs.Token.Place
import GrammarCheck.Proofs.Source.IllFormed
import GrammarCheck.Proofs.Sampler.Later
import GrammarCheck.Proofs.Symbol.Alike
import GrammarCheck.Proofs.Step.Shifted
import GrammarCheck.Proofs.Text.Quoted
import GrammarCheck.Proofs.Token.Record
import GrammarCheck.Proofs.Log.Reading
import GrammarCheck.Proofs.Log.Passes
import GrammarCheck.Proofs.Log.Text
import GrammarCheck.Proofs.FileSystem.Path
