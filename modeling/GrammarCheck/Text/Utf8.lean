/-! Reading bytes as UTF-8 when they may not be well formed. Every longest stretch of bytes that
begins a character but does not finish it, and every byte that can begin none, counts as one
ill-formed unit. -/

namespace GrammarCheck.Text.Utf8

/-- A character whose first bytes have been read: how many bytes it still owes, the range its next
byte must lie in, and the value read so far. -/
structure Pending where
  owed : Nat
  low : Nat
  high : Nat
  value : Nat

/-- What a byte read so far amounts to: the finished units, `none` for an ill-formed one, and the
character that is still open. -/
abbrev Outcome := List (Option Char) × Option Pending

/-- A byte where a character is to begin. The ranges of the second byte leave out overlong forms,
surrogates and values beyond the last code point. -/
def lead (b : Nat) : Outcome :=
  if b < 0x80 then ([some (Char.ofNat b)], none)
  else if 0xC2 ≤ b ∧ b ≤ 0xDF then ([], some ⟨1, 0x80, 0xBF, b - 0xC0⟩)
  else if b = 0xE0 then ([], some ⟨2, 0xA0, 0xBF, 0⟩)
  else if b = 0xED then ([], some ⟨2, 0x80, 0x9F, 0xD⟩)
  else if 0xE1 ≤ b ∧ b ≤ 0xEF then ([], some ⟨2, 0x80, 0xBF, b - 0xE0⟩)
  else if b = 0xF0 then ([], some ⟨3, 0x90, 0xBF, 0⟩)
  else if 0xF1 ≤ b ∧ b ≤ 0xF3 then ([], some ⟨3, 0x80, 0xBF, b - 0xF0⟩)
  else if b = 0xF4 then ([], some ⟨3, 0x80, 0x8F, 4⟩)
  else ([none], none)

/-- A byte in any state. A byte that cannot continue the open character closes that one as
ill-formed and begins anew. -/
def step (state : Option Pending) (b : Nat) : Outcome :=
  match state with
  | none => lead b
  | some p =>
    if p.low ≤ b ∧ b ≤ p.high then
      let value := p.value * 64 + (b - 0x80)
      if p.owed ≤ 1 then ([some (Char.ofNat value)], none)
      else ([], some ⟨p.owed - 1, 0x80, 0xBF, value⟩)
    else (none :: (lead b).1, (lead b).2)

/-- The units of the bytes that follow in a given state. The end of the bytes closes an open
character as ill-formed. -/
def unitsFrom (state : Option Pending) : List UInt8 → List (Option Char)
  | [] => match state with
    | none => []
    | some _ => [none]
  | b :: bs => (step state b.toNat).1 ++ unitsFrom (step state b.toNat).2 bs

/-- The characters and ill-formed units of a byte sequence, in order. -/
def units (bytes : List UInt8) : List (Option Char) := unitsFrom none bytes

def replacement : Char := '\uFFFD'

/-- The text of a byte sequence, with the replacement character for each ill-formed unit. A byte
order mark is an ordinary character. -/
def decode (bytes : List UInt8) : List Char := (units bytes).map (·.getD replacement)

end GrammarCheck.Text.Utf8
