import QueryShell.Text.Printable
import QueryShell.Text.Lines

/-! Text as it is shown in a diagnosis: in quotes, with every character that cannot be seen written
by its number. -/

namespace QueryShell.Text

def hexDigits (n : Nat) : List Char := Nat.toDigits 16 n

def shown (c : Char) : List Char :=
  if c = '\x00' then ['\\', '0']
  else if c = '\t' then ['\\', 't']
  else if c = '\r' then ['\\', 'r']
  else if c = '\n' then ['\\', 'n']
  else if c = '"' then ['\\', '"']
  else if c = '\\' then ['\\', '\\']
  else if isPrintable c then [c]
  else '\\' :: 'u' :: '\x7b' :: hexDigits c.toNat ++ ['\x7d']

def escape (text : String) : String := String.ofList ('"' :: text.toList.flatMap shown ++ ['"'])

/-- A set of names in braces. -/
def escapeSet (names : List String) : String :=
  "\x7b" ++ joinStrings ", " (names.map escape) ++ "\x7d"

end QueryShell.Text
