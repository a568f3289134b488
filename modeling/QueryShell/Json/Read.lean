import QueryShell.Json.Basic
import QueryShell.Json.Scan

/-! Reading JSON: one value, or a stream of values that may touch each other. -/

namespace QueryShell.Json

/-- Brackets and braces nest at most this deep. -/
def nestingLimit : Nat := 127

/-- Where the next item of a list starts, or nothing when the list ends here. -/
def nextItem (isFirst : Bool) (cs : List Char) : Except Fault (Option (List Char)) :=
  match skipBlanks cs with
  | [] => .error (.placed .eofInList 0)
  | ']' :: _ => .ok none
  | c :: rest =>
    if isFirst then .ok (some (c :: rest))
    else if c ≠ ',' then .error (faultAt .expectedCommaOrBracket (c :: rest))
    else
      match skipBlanks rest with
      | [] => .error (.placed .eofInValue 0)
      | ']' :: rest => .error (faultAt .trailingComma (']' :: rest))
      | start => .ok (some start)

/-- The items of a list whose opening bracket is read, and the text behind its closing bracket.
Every item takes a character at least, so as many steps as there are characters are enough. -/
def itemsWithin {α : Type} (item : Reader α) : Nat → Bool → Reader (List α)
  | 0, _, cs => .error (faultAt .eofInList cs)
  | steps + 1, isFirst, cs => do
    match ← nextItem isFirst cs with
    | none => return ([], (skipBlanks cs).tail)
    | some start =>
      let (x, rest) ← item start
      let (xs, rest) ← itemsWithin item steps false rest
      return (x :: xs, rest)

def items {α : Type} (item : Reader α) : Reader (List α) :=
  fun cs => itemsWithin item (cs.length + 1) true cs

/-- Where the next key of an object starts, behind its opening quote, or nothing when the object
ends here. -/
def nextKey (isFirst : Bool) (cs : List Char) : Except Fault (Option (List Char)) :=
  match skipBlanks cs with
  | [] => .error (.placed .eofInObject 0)
  | '\x7d' :: _ => .ok none
  | c :: rest =>
    if isFirst then
      if c = '"' then .ok (some rest) else .error (faultAt .keyNotString (c :: rest))
    else if c ≠ ',' then .error (faultAt .expectedCommaOrBrace (c :: rest))
    else
      match skipBlanks rest with
      | [] => .error (.placed .eofInValue 0)
      | '"' :: start => .ok (some start)
      | '\x7d' :: rest => .error (faultAt .trailingComma ('\x7d' :: rest))
      | start => .error (faultAt .keyNotString start)

def scanColon (cs : List Char) : Except Fault (List Char) :=
  match skipBlanks cs with
  | [] => .error (.placed .eofInObject 0)
  | ':' :: rest => .ok rest
  | rest => .error (faultAt .expectedColon rest)

def entriesWithin {α : Type} (item : Reader α) : Nat → Bool → Reader (List (String × α))
  | 0, _, cs => .error (faultAt .eofInObject cs)
  | steps + 1, isFirst, cs => do
    match ← nextKey isFirst cs with
    | none => return ([], (skipBlanks cs).tail)
    | some start =>
      let (key, rest) ← scanString start
      let rest ← scanColon rest
      let (x, rest) ← item rest
      let (xs, rest) ← entriesWithin item steps false rest
      return ((key, x) :: xs, rest)

def entries {α : Type} (item : Reader α) : Reader (List (String × α)) :=
  fun cs => entriesWithin item (cs.length + 1) true cs

/-- A value with `room` more levels of nesting allowed in it. -/
def readWithin (room : Nat) : Reader Json := fun cs =>
  match skipBlanks cs with
  | [] => .error (.placed .eofInValue 0)
  | 'n' :: rest => (fun rest => (.null, rest)) <$> scanName ['u', 'l', 'l'] rest
  | 't' :: rest => (fun rest => (.boolean true, rest)) <$> scanName ['r', 'u', 'e'] rest
  | 'f' :: rest => (fun rest => (.boolean false, rest)) <$> scanName ['a', 'l', 's', 'e'] rest
  | '"' :: rest => (fun (text, rest) => (.string text, rest)) <$> scanString rest
  | '[' :: rest =>
    match room with
    | 0 => .error (faultAt .nestedTooDeep ('[' :: rest))
    | room + 1 => (fun (xs, rest) => (.array xs, rest)) <$> items (readWithin room) rest
  | '\x7b' :: rest =>
    match room with
    | 0 => .error (faultAt .nestedTooDeep ('\x7b' :: rest))
    | room + 1 =>
      (fun (es, rest) => (.object (Dictionary.ofEntries es), rest)) <$>
        entries (readWithin room) rest
  | c :: rest =>
    if c = '-' || Numeral.isDigit c then (fun (text, rest) => (.number text, rest)) <$>
      scanNumber (c :: rest)
    else .error (faultAt .expectedValue (c :: rest))

def read : Reader Json := readWithin nestingLimit

/-- A number that is all there is in a text. -/
def readNumber (cs : List Char) : Except Fault (List Char) :=
  match skipBlanks cs with
  | [] => .error (.placed .eofInValue 0)
  | first :: start =>
    if first = '-' || Numeral.isDigit first then do
      let (text, rest) ← scanNumber (first :: start)
      match skipBlanks rest with
      | [] => return text
      | c :: rest => throw (faultAt .trailingCharacters (c :: rest))
    else .error (faultAt .expectedValue (first :: start))

/-- Strings, lists and objects show where they end. -/
def showsItsEnd (c : Char) : Bool := c = '[' || c = '"' || c = '\x7b'

def endsValue (c : Char) : Bool :=
  isBlank c || c = '"' || c = '[' || c = ']' || c = '\x7b' || c = '\x7d' || c = ',' || c = ':'

def nextOfStream (cs : List Char) : Except Fault (Option (Json × List Char)) :=
  match skipBlanks cs with
  | [] => .ok none
  | first :: start => do
    let (value, rest) ← read (first :: start)
    match rest with
    | [] => return some (value, [])
    | c :: rest =>
      if showsItsEnd first || endsValue c then return some (value, c :: rest)
      else throw (faultAt .trailingCharacters (c :: rest))

end QueryShell.Json
