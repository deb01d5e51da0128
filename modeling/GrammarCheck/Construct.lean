import GrammarCheck.Token.Basic

/-! The constructs a grammar text is made of, as they are written down. -/

namespace GrammarCheck

structure OneOrMore (α : Type) where
  first : α
  others : List α
  deriving DecidableEq

namespace OneOrMore

variable {α : Type}

def toList (xs : OneOrMore α) : List α := xs.first :: xs.others

def length (xs : OneOrMore α) : Nat := xs.toList.length

/-- A list as one or more things, unless it is empty. -/
def ofList? : List α → Option (OneOrMore α)
  | [] => none
  | x :: xs => some ⟨x, xs⟩

def cons (x : α) (xs : OneOrMore α) : OneOrMore α := ⟨x, xs.toList⟩

theorem toList_of_ofList? {xs : List α} {ys : OneOrMore α} (h : ofList? xs = some ys) :
    ys.toList = xs := by
  cases xs with
  | nil => cases h
  | cons x xs => cases h; rfl

end OneOrMore

/-- A name written at some line. -/
structure Ident where
  name : String
  line : Nat
  deriving DecidableEq

def Ident.lexeme (x : Ident) : Lexeme := ⟨.identifier x.name, x.line⟩

/-- One right-hand side of a rule: the symbols in order. It counts as written where it begins. -/
abbrev Alternative := OneOrMore Ident

inductive Construct where
  /-- A name, an arrow, and alternatives separated by pipes. -/
  | rule (header : Ident) (alternatives : OneOrMore Alternative)
  /-- A `%token` directive with the names it declares. -/
  | terminals (names : OneOrMore Ident)
  /-- A `%start` directive. -/
  | start (symbol : Ident)
  deriving DecidableEq

end GrammarCheck
