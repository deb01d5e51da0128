import GrammarCheck.Sampler

/-! The arguments of the command line. An option is taken in when the next argument shows that it is
complete, so its value is judged only then. -/

namespace GrammarCheck.CommandLine

structure Options where
  file : FileName
  samples : Nat
  start : Option String
  maxDepth : Nat
  quiet : Bool

/-- Why there is nothing to do: a text was asked for, or the arguments make no sense. -/
inductive Stop where
  | help
  | version
  /-- An option that does not exist, or an argument too many. -/
  | unknownArgument
  /-- A value that is missing or empty. -/
  | missingValue
  /-- A value that is no number, or one out of range. -/
  | malformedValue
  /-- An option given twice. -/
  | repeatedArgument
  /-- A value attached to an option that takes none. -/
  | superfluousValue
  | missingFile
  deriving DecidableEq

/-- The exit code: asking for a text is no error. -/
def Stop.code : Stop → Nat
  | .help => 0
  | .version => 0
  | _ => 2

/-- Arguments that have a value. -/
inductive Slot where
  | file
  | samples
  | start
  | maxDepth
  deriving DecidableEq

inductive Choice where
  | valued (slot : Slot)
  | quiet
  | help
  | version

def Choice.ofLetter? : Char → Option Choice
  | 'n' => some (.valued .samples)
  | 's' => some (.valued .start)
  | 'd' => some (.valued .maxDepth)
  | 'q' => some .quiet
  | 'h' => some .help
  | 'V' => some .version
  | _ => none

def Choice.ofName? : String → Option Choice
  | "samples" => some (.valued .samples)
  | "start" => some (.valued .start)
  | "max-depth" => some (.valued .maxDepth)
  | "quiet" => some .quiet
  | "help" => some .help
  | "version" => some .version
  | _ => none

/-- A number in decimal digits, at least one of them. -/
def natural? (digits : List Char) : Option Nat :=
  if !digits.isEmpty && digits.all Char.isDigit then
    some (digits.foldl (fun n c => n * 10 + (c.toNat - '0'.toNat)) 0)
  else none

/-- A natural number below `bound`, with or without a plus sign. -/
def unsigned? (bound : Nat) (text : List Char) : Option Nat :=
  let digits := match text with
    | '+' :: rest => rest
    | _ => text
  (natural? digits).filter (· < bound)

/-- A natural number below `bound`, with or without a sign. Only zero can have a minus sign. -/
def signed? (bound : Nat) : List Char → Option Nat
  | '-' :: digits => (natural? digits).filter (· = 0)
  | text => unsigned? bound text

structure Given where
  file : Option String
  samples : Option Nat
  start : Option String
  maxDepth : Option Nat
  quiet : Bool

namespace Given

def has (given : Given) : Slot → Bool
  | .file => given.file.isSome
  | .samples => given.samples.isSome
  | .start => given.start.isSome
  | .maxDepth => given.maxDepth.isSome

/-- Takes in the value of an argument. The number of samples has 32 bits and the depth 64; only a
start symbol can be empty. -/
def put (given : Given) (slot : Slot) (value : String) : Except Stop Given :=
  match slot with
  | .file =>
      if value.isEmpty then .error .missingValue else .ok { given with file := some value }
  | .start => .ok { given with start := some value }
  | .samples => match signed? UInt32.size value.toList with
      | some n => .ok { given with samples := some n }
      | none => .error .malformedValue
  | .maxDepth => match unsigned? UInt64.size value.toList with
      | some n => .ok { given with maxDepth := some n }
      | none => .error .malformedValue

def take (given : Given) (slot : Slot) : Option String → Except Stop Given
  | none => .error .missingValue
  | some value => if given.has slot then .error .repeatedArgument else given.put slot value

end Given

/-- The arguments read so far. An argument is pending until the next one of its kind settles it. -/
structure State where
  given : Given
  pending : Option (Slot × Option String)

namespace State

def settle (s : State) : Except Stop Given :=
  match s.pending with
  | none => .ok s.given
  | some (slot, value) => s.given.take slot value

def namesFile (s : State) : Bool :=
  s.given.has .file || s.pending.any fun pending => pending.1 = .file

/-- An argument that is no option: the file, unless it has been named. -/
def positional (s : State) (text : String) : Except Stop State :=
  if s.namesFile then .error .unknownArgument
  else do
    let given ← s.settle
    return ⟨given, some (.file, some text)⟩

def option (s : State) (choice : Choice) (attached : Option String) : Except Stop State :=
  match choice, attached with
  | .valued slot, some value => do
      let given ← s.settle
      let given ← given.take slot (some value)
      return ⟨given, none⟩
  | .valued slot, none => do
      let given ← s.settle
      return ⟨given, some (slot, none)⟩
  | _, some _ => .error .superfluousValue
  | .quiet, none => do
      let given ← s.settle
      if given.quiet then .error .repeatedArgument else return ⟨{ given with quiet := true }, none⟩
  | .help, none => do
      let _ ← s.settle
      .error .help
  | .version, none => do
      let _ ← s.settle
      .error .version

/-- Letters behind a single hyphen. What follows the letter of an option with a value is that
value, with or without an equals sign in between. -/
def letters (s : State) : List Char → Except Stop State
  | [] => .ok s
  | c :: cs =>
      match Choice.ofLetter? c with
      | none => .error .unknownArgument
      | some (.valued slot) =>
          match cs with
          | [] => s.option (.valued slot) none
          | '=' :: value => s.option (.valued slot) (some (String.ofList value))
          | value => s.option (.valued slot) (some (String.ofList value))
      | some choice => do
          let s ← s.option choice none
          s.letters cs

/-- A long name behind two hyphens, with the value after an equals sign if there is one. -/
def long (s : State) (text : List Char) : Except Stop State :=
  match Choice.ofName? (String.ofList (text.takeWhile (· != '='))) with
  | none => .error .unknownArgument
  | some choice =>
      match text.dropWhile (· != '=') with
      | [] => s.option choice none
      | _ :: value => s.option choice (some (String.ofList value))

/-- An argument that begins with no hyphen, or is only one: the value that an option waits for, or
else the file. -/
def plain (s : State) (text : String) : Except Stop State :=
  match s.pending with
  | some (slot, none) => .ok { s with pending := some (slot, some text) }
  | _ => s.positional text

/-- Reads all arguments. After two hyphens alone, none of them is an option or the value of one. -/
def read (s : State) : List String → Except Stop State
  | [] => .ok s
  | arg :: args =>
      match arg.toList with
      | ['-', '-'] => args.foldlM positional s
      | '-' :: '-' :: text => do
          let s ← s.long text
          s.read args
      | '-' :: c :: cs => do
          let s ← s.letters (c :: cs)
          s.read args
      | _ => do
          let s ← s.plain arg
          s.read args

end State

def Options.ofArguments (args : List String) : Except Stop Options := do
  let s ← State.read ⟨⟨none, none, none, none, false⟩, none⟩ args
  let given ← s.settle
  match given.file with
  | none => .error .missingFile
  | some file =>
      return ⟨⟨file⟩, given.samples.getD 0, given.start, given.maxDepth.getD defaultDepth,
        given.quiet⟩

end GrammarCheck.CommandLine
