import QueryShell.Toml.Basic
import QueryShell.Text.Quoted

/-! Strings in a document of settings. A string is written in the first of four styles that needs no
escape in it; if there is none, control characters, backslashes and quotes are escaped. -/

namespace QueryShell.Toml

inductive Style where
  | basic
  | literal
  | basicLines
  | literalLines
  deriving DecidableEq

def longestRun (c : Char) : List Char → Nat
  | [] => 0
  | d :: ds => max (((d :: ds).takeWhile (· = c)).length) (longestRun c ds)

def isControl (c : Char) : Bool := c.toNat ≤ 0x1f || c.toNat = 0x7f

/-- Characters that no style takes as they are. -/
def needsEscape (c : Char) : Bool := isControl c && c ≠ '\t' && c ≠ '\n'

def Style.ofText (cs : List Char) : Style :=
  let severalLines := cs.contains '\n'
  let hasBackslash := cs.contains '\\'
  if cs.any needsEscape then if severalLines then .basicLines else .basic
  else if !hasBackslash && !severalLines && longestRun '"' cs = 0 then .basic
  else if !severalLines && longestRun '\'' cs = 0 then .literal
  else if !hasBackslash && longestRun '"' cs ≤ 2 then .basicLines
  else if longestRun '\'' cs ≤ 2 then .literalLines
  else if severalLines then .basicLines else .basic

def upperHexDigit (n : Nat) : Char := if n < 10 then Char.ofNat (48 + n) else Char.ofNat (55 + n)

def escaped (severalLines : Bool) (c : Char) : List Char :=
  if c = '\x08' then ['\\', 'b']
  else if c = '\t' then ['\\', 't']
  else if c = '\n' then if severalLines then ['\n'] else ['\\', 'n']
  else if c = '\x0c' then ['\\', 'f']
  else if c = '\r' then ['\\', 'r']
  else if c = '\\' then ['\\', '\\']
  else if isControl c then
    ['\\', 'u', '0', '0', upperHexDigit (c.toNat / 16), upperHexDigit (c.toNat % 16)]
  else [c]

/-- The text between the quotes. So many quotes in a row are written as they are; the next one is
escaped. -/
def body (severalLines : Bool) (room : Nat) : Nat → List Char → List Char
  | _, [] => []
  | quotes, c :: cs =>
    if c = '"' then
      if quotes < room then '"' :: body severalLines room (quotes + 1) cs
      else '\\' :: '"' :: body severalLines room 0 cs
    else escaped severalLines c ++ body severalLines room 0 cs

/-- A text with line breaks starts on a line of its own. -/
def styled (cs : List Char) : Style → List Char
  | .basic => '"' :: body false 0 0 cs ++ ['"']
  | .literal => '\'' :: cs ++ ['\'']
  | .basicLines => List.replicate 3 '"' ++ opening cs ++ body true 2 0 cs ++ List.replicate 3 '"'
  | .literalLines => List.replicate 3 '\'' ++ opening cs ++ cs ++ List.replicate 3 '\''
where
  opening (cs : List Char) : List Char := if cs.contains '\n' then ['\n'] else []

def stringText (cs : List Char) : List Char := styled cs (Style.ofText cs)

end QueryShell.Toml
