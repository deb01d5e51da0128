/-! Names of files, compared by the path they spell and shown as they were given. -/

namespace GrammarCheck

/-- The name of a file. The empty name stands for a text that came from no file. -/
structure FileName where
  text : String

namespace FileName

/-- The parts of a path between its slashes; there is always at least one. -/
def segments : List Char → List (List Char)
  | [] => [[]]
  | c :: cs =>
    if c = '/' then [] :: segments cs
    else match segments cs with
      | [] => [[c]]
      | part :: parts => (c :: part) :: parts

/-- The steps of a path. A leading slash is a step of its own, a leading dot is kept, and empty
parts and all other dots say nothing. Two dots are a step like any name. -/
def steps (name : FileName) : List (List Char) :=
  match segments name.text.toList with
  | [] => []
  | [] :: [] => []
  | [] :: parts => ['/'] :: parts.filter (fun part => !part.isEmpty && part != ['.'])
  | part :: parts => part :: parts.filter (fun part => !part.isEmpty && part != ['.'])

def isEmpty (name : FileName) : Bool := name.text.isEmpty

/-- Two names are equal when they take the same steps. -/
instance : BEq FileName where
  beq a b := a.steps == b.steps

instance : Inhabited FileName := ⟨⟨""⟩⟩

end FileName

end GrammarCheck
