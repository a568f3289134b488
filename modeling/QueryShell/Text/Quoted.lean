/-! Quoted text: the characters that would end or break a quoted text are written with a
backslash. -/

namespace QueryShell.Text

def hexDigit (n : Nat) : Char := if n < 10 then Char.ofNat (48 + n) else Char.ofNat (87 + n)

def hexFour (n : Nat) : List Char :=
  [hexDigit (n / 4096 % 16), hexDigit (n / 256 % 16), hexDigit (n / 16 % 16), hexDigit (n % 16)]

def escaped (c : Char) : List Char :=
  if c = '\x08' then ['\\', 'b']
  else if c = '\t' then ['\\', 't']
  else if c = '\n' then ['\\', 'n']
  else if c = '\x0c' then ['\\', 'f']
  else if c = '\r' then ['\\', 'r']
  else if c = '"' then ['\\', '"']
  else if c = '\\' then ['\\', '\\']
  else if c.toNat ≤ 0x1f then '\\' :: 'u' :: hexFour c.toNat
  else [c]

def quoted (cs : List Char) : List Char := '"' :: cs.flatMap escaped ++ ['"']

def quote (text : String) : String := String.ofList (quoted text.toList)

end QueryShell.Text
