import GrammarCheck.Text.Printable

/-! Characters and texts between quotes, for messages that must show any character at all. A
character that cannot be shown by itself is written by its code, so a message never hides what it
is about. -/

namespace GrammarCheck.Text

/-- A character written by its code, in lower-case hexadecimal without leading zeros. -/
def byCode (c : Char) : List Char :=
  ['\\', 'u', '\x7b'] ++ Nat.toDigits 16 c.toNat ++ ['\x7d']

/-- One character inside the quote mark `quote`. The quote mark and the backslash are escaped, the
common controls have short forms, and what cannot be shown by itself is written by its code. That a
combining character might sit well on the one before it in a text makes no difference. -/
def escaped (quote c : Char) : List Char :=
  if c = '\x00' then ['\\', '0']
  else if c = '\t' then ['\\', 't']
  else if c = '\r' then ['\\', 'r']
  else if c = '\n' then ['\\', 'n']
  else if c = '\\' || c = quote then ['\\', c]
  else if isPrintable c then [c]
  else byCode c

def quotedChar (c : Char) : String :=
  String.ofList ('\'' :: escaped '\'' c ++ ['\''])

def quotedText (s : String) : String :=
  String.ofList ('"' :: s.toList.flatMap (escaped '"') ++ ['"'])

end GrammarCheck.Text
