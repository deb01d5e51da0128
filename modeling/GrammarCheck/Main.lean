import GrammarCheck.CommandLine.Run

/-! The program: reads the file named on the command line, with a source of random draws seeded by
the system. -/

namespace GrammarCheck

def usage : String :=
  "Usage: bnfcheck [OPTIONS] <FILE>\n\n" ++
  "  -n, --samples <AMOUNT>   Sentences to generate once the grammar is valid\n" ++
  "  -s, --start <SYMBOL>     Symbol to generate from\n" ++
  "  -d, --max-depth <DEPTH>  Depth after which generation takes the shortest way out\n" ++
  "  -q, --quiet              Do not print anything when the grammar is valid\n" ++
  "  -h, --help               Print help\n" ++
  "  -V, --version            Print version"

def CommandLine.Stop.message : CommandLine.Stop → String
  | .help => usage
  | .version => CommandLine.versionText
  | .unknownArgument => "error: unexpected argument"
  | .missingValue => "error: a value is required"
  | .malformedValue => "error: invalid value"
  | .repeatedArgument => "error: an argument cannot be used multiple times"
  | .superfluousValue => "error: unexpected value"
  | .missingFile => "error: the file is missing"

/-- The number of an error of the system, which some of its calls give with the sign turned. -/
def errorNumber (code : UInt32) : UInt32 := min code (0 - code)

/-- Why the system would not read a file. Some errors of one kind differ in their number. -/
def ReadFailure.ofError : IO.Error → ReadFailure
  | .noFileOrDirectory _ _ _ => .notFound
  | .inappropriateType _ code _ =>
      if errorNumber code = 20 then .notDirectory else .isDirectory
  | .invalidArgument file code details =>
      if errorNumber code = 36 then .nameTooLong
      else .other (IO.Error.invalidArgument file code details).toString
  | .permissionDenied _ _ _ => .permissionDenied
  | e => .other e.toString

def readContent (file : FileName) : IO (Except ReadFailure (List UInt8)) := do
  try
    let bytes ← IO.FS.readBinFile file.text
    return .ok bytes.toList
  catch e => return .error (.ofError e)

def systemSeed : IO UInt64 := do
  let bytes ← IO.getRandomBytes 8
  return bytes.foldl (fun seed b => seed * 256 + b.toUInt64) 0

end GrammarCheck

open GrammarCheck in
/-- Runs the program and gives its exit code. -/
def main (args : List String) : IO UInt32 := do
  match CommandLine.Options.ofArguments args with
  | .error stop =>
      if stop.code = 0 then IO.println stop.message else IO.eprintln stop.message
      return UInt32.ofNat stop.code
  | .ok options =>
      let content ← readContent options.file
      let seed ← systemSeed
      let outcome := CommandLine.run options content SplitMix.source.chooser seed
      outcome.output.forM IO.println
      outcome.errors.forM IO.eprintln
      return UInt32.ofNat outcome.exit.code
