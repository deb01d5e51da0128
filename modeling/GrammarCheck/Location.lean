import GrammarCheck.FileName

/-! Places in a grammar file and the diagnostics reported there. -/

namespace GrammarCheck

/-- A line of a file, counted from one. Line zero means the file as a whole. -/
structure Location where
  file : FileName
  line : Nat
  deriving BEq

namespace Location

def wholeFile (file : FileName) : Location := ⟨file, 0⟩

/-- The short form in front of a message. Whatever is missing is left out. -/
def render (location : Location) : String :=
  if location.file.isEmpty then
    if location.line = 0 then "<input>" else s!"line {location.line}"
  else if location.line = 0 then location.file.text
  else s!"{location.file.text}:{location.line}"

end Location

structure Diagnostic (cause : Type) where
  location : Location
  cause : cause
  deriving BEq

/-- A diagnostic as one line for a terminal: the location in bold red, the message in bold. -/
def Diagnostic.render {cause : Type} (message : cause → String) (d : Diagnostic cause) : String :=
  s!"\x1b[31;49;1m[{d.location.render}]\x1b[39;49;1m  {message d.cause}\x1b[0m"

end GrammarCheck
