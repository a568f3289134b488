import QueryShell.Json.Scan

/-! The words of a document of settings: gaps, strings and keys. -/

namespace QueryShell.Toml

abbrev Reader (α : Type) := List Char → Option (α × List Char)

def isBlank (c : Char) : Bool := c = ' ' || c = '\t'

def skipBlanks (cs : List Char) : List Char := cs.dropWhile isBlank

def newline? : List Char → Option (List Char)
  | '\n' :: cs => some cs
  | '\r' :: '\n' :: cs => some cs
  | _ => none

/-- Control characters have no place in a document, apart from tabs and the ends of lines. -/
def isPlain (c : Char) : Bool := c = '\t' || (0x20 ≤ c.toNat && c.toNat ≠ 0x7f)

/-- Skips blanks, ends of lines and comments. -/
def skipGaps (inComment : Bool) : List Char → List Char
  | [] => []
  | '\r' :: '\n' :: cs => skipGaps false cs
  | c :: cs =>
    if c = '\n' then skipGaps false cs
    else if inComment then if isPlain c then skipGaps true cs else c :: cs
    else if isBlank c then skipGaps false cs
    else if c = '#' then skipGaps true cs
    else c :: cs

def endOfLine (cs : List Char) : Option (List Char) :=
  let left := match skipBlanks cs with
    | '#' :: comment => comment.dropWhile isPlain
    | rest => rest
  match left with
  | [] => some []
  | rest => newline? rest

def character? (n : Nat) : Option Char :=
  if h : n.isValidChar then some (Char.ofNatAux n h) else none

def hexNumber? : Nat → List Char → Option Nat
  | n, [] => some n
  | n, c :: cs => do hexNumber? (16 * n + (← Json.hexValue? c)) cs

def readHex (count : Nat) : Reader Char := fun cs =>
  if cs.length < count then none
  else do return (← character? (← hexNumber? 0 (cs.take count)), cs.drop count)

def readEscape : Reader Char
  | 'b' :: cs => some ('\x08', cs)
  | 't' :: cs => some ('\t', cs)
  | 'n' :: cs => some ('\n', cs)
  | 'f' :: cs => some ('\x0c', cs)
  | 'r' :: cs => some ('\r', cs)
  | '"' :: cs => some ('"', cs)
  | '\\' :: cs => some ('\\', cs)
  | 'u' :: cs => readHex 4 cs
  | 'U' :: cs => readHex 8 cs
  | _ => none

/-- The rest of a string in double quotes. Each step reads a character. -/
def readBasicWithin : Nat → Reader (List Char)
  | 0, _ => none
  | _ + 1, [] => none
  | _ + 1, '"' :: cs => some ([], cs)
  | steps + 1, '\\' :: cs => do
    let (c, rest) ← readEscape cs
    let (text, rest) ← readBasicWithin steps rest
    return (c :: text, rest)
  | steps + 1, c :: cs => do
    if isPlain c then
      let (text, rest) ← readBasicWithin steps cs
      return (c :: text, rest)
    else none

def readBasic : Reader String := fun cs => do
  let (text, rest) ← readBasicWithin (cs.length + 1) cs
  return (String.ofList text, rest)

def readLiteral : Reader String := fun cs =>
  match cs.span fun c => isPlain c && c ≠ '\'' with
  | (text, '\'' :: rest) => some (String.ofList text, rest)
  | _ => none

/-- The end of a string on several lines. Two quotes at most may stand in front of the three that
end it. -/
def closing? (quote : Char) : List Char → Option (List Char × List Char)
  | a :: b :: c :: rest =>
    if a = quote && b = quote && c = quote then
      let extra := (rest.takeWhile (· = quote)).take 2
      some (extra, rest.drop extra.length)
    else none
  | _ => none

def skipLines : List Char → List Char
  | '\r' :: '\n' :: cs => skipLines cs
  | c :: cs => if c = '\n' || isBlank c then skipLines cs else c :: cs
  | [] => []

/-- A backslash at the end of a line takes out the gap up to the next text. -/
def foldedLine? (cs : List Char) : Option (List Char) := (newline? (skipBlanks cs)).map skipLines

/-- The rest of a string on several lines. Escapes are read in one kind of them only. -/
def readLinesWithin (quote : Char) : Nat → Reader (List Char)
  | 0, _ => none
  | _ + 1, [] => none
  | steps + 1, c :: cs => do
    if let some found := closing? quote (c :: cs) then return found
    if let some rest := newline? (c :: cs) then
      let (text, rest) ← readLinesWithin quote steps rest
      return ('\n' :: text, rest)
    if c = '\\' && quote = '"' then
      if let some rest := foldedLine? cs then readLinesWithin quote steps rest
      else
        let (e, rest) ← readEscape cs
        let (text, rest) ← readLinesWithin quote steps rest
        return (e :: text, rest)
    else if isPlain c then
      let (text, rest) ← readLinesWithin quote steps cs
      return (c :: text, rest)
    else none

/-- An end of line right behind the opening quotes does not count. -/
def readLines (quote : Char) : Reader String := fun cs => do
  let start := (newline? cs).getD cs
  let (text, rest) ← readLinesWithin quote (start.length + 1) start
  return (String.ofList text, rest)

def readString : Reader String
  | '"' :: '"' :: '"' :: cs => readLines '"' cs
  | '"' :: cs => readBasic cs
  | '\'' :: '\'' :: '\'' :: cs => readLines '\'' cs
  | '\'' :: cs => readLiteral cs
  | _ => none

def isBare (c : Char) : Bool :=
  Numeral.isDigit c || ('a' ≤ c && c ≤ 'z') || ('A' ≤ c && c ≤ 'Z') || c = '-' || c = '_'

def readSimpleKey : Reader String
  | '"' :: cs => readBasic cs
  | '\'' :: cs => readLiteral cs
  | cs =>
    match cs.span isBare with
    | ([], _) => none
    | (name, rest) => some (String.ofList name, rest)

def readKeysWithin : Nat → Reader (List String)
  | 0, _ => none
  | steps + 1, cs => do
    let (key, rest) ← readSimpleKey (skipBlanks cs)
    match skipBlanks rest with
    | '.' :: more =>
      let (keys, rest) ← readKeysWithin steps more
      return (key :: keys, rest)
    | rest => return ([key], rest)

end QueryShell.Toml
