import QueryShell.Filter.Basic
import QueryShell.Json.Read
import QueryShell.Text.Quoted

/-! The JSON form in which filters are passed between programs: the name of a filter's form as the
only key of an object, with what the form holds as its value. Reading accepts no other shape. -/

namespace QueryShell.Filter

open QueryShell.Json

inductive Shape where
  | nothing (f : Filter)
  | text (make : String → Filter)
  | one (make : Filter → Filter)
  | two (make : Filter → Filter → Filter)
  | many (make : List Filter → Filter)

def forms : List (String × Shape) :=
  [("Empty", .nothing .empty), ("Parens", .one .parens), ("Array", .one .array),
    ("Object", .one .object), ("Name", .text .name), ("Number", .text .number),
    ("String", .text .string), ("Pipe", .two .pipe),
    ("Apply", .many .apply), ("Comma", .two .comma), ("Add", .two .add),
    ("Multiply", .two .multiply), ("Assign", .two .assign), ("Semicolon", .two .semicolon),
    ("Pair", .two .pair), ("Command", .one .command),
    ("GlobalVariable", .one .globalVariable)]

def form (label : String) (held : List Char) : List Char :=
  '\x7b' :: Text.quoted label.toList ++ ':' :: held ++ ['\x7d']

def listOfTwo (left right : List Char) : List Char := '[' :: left ++ ',' :: right ++ [']']

mutual

def interchange : Filter → List Char
  | .empty => Text.quoted "Empty".toList
  | .parens f => form "Parens" (interchange f)
  | .array f => form "Array" (interchange f)
  | .object f => form "Object" (interchange f)
  | .name n => form "Name" (Text.quoted n.toList)
  | .number text => form "Number" (Text.quoted text.toList)
  | .string text => form "String" (Text.quoted text.toList)
  | .pipe l r => form "Pipe" (listOfTwo (interchange l) (interchange r))
  | .apply [] => form "Apply" ['[', ']']
  | .apply (f :: fs) => form "Apply" ('[' :: interchange f ++ interchangeTail fs)
  | .comma l r => form "Comma" (listOfTwo (interchange l) (interchange r))
  | .add l r => form "Add" (listOfTwo (interchange l) (interchange r))
  | .multiply l r => form "Multiply" (listOfTwo (interchange l) (interchange r))
  | .assign l r => form "Assign" (listOfTwo (interchange l) (interchange r))
  | .semicolon l r => form "Semicolon" (listOfTwo (interchange l) (interchange r))
  | .pair l r => form "Pair" (listOfTwo (interchange l) (interchange r))
  | .command f => form "Command" (interchange f)
  | .globalVariable f => form "GlobalVariable" (interchange f)

def interchangeTail : List Filter → List Char
  | [] => [']']
  | f :: fs => ',' :: interchange f ++ interchangeTail fs

end

/-- Signed numerals fill 64 bits with their sign, unsigned ones without. -/
def isMachineInteger (n : Int) : Bool := -0x8000000000000000 ≤ n && n < 0x10000000000000000

/-- A number is told as an integer when it is written as one and is small enough. -/
def foundNumber (text : List Char) : Found :=
  let (isNegative, digits) := match text with
    | '-' :: cs => (true, cs)
    | cs => (false, cs)
  let n : Int :=
    if isNegative then -Int.ofNat (Numeral.value digits) else Int.ofNat (Numeral.value digits)
  if digits.all Numeral.isDigit && isMachineInteger n then .integer n else .number

/-- What stands at the start of a text. Lists and objects are told by their first character
alone. -/
def scanFound : Reader Found
  | 'n' :: cs => (fun rest => (.null, rest)) <$> scanName ['u', 'l', 'l'] cs
  | 't' :: cs => (fun rest => (.boolean true, rest)) <$> scanName ['r', 'u', 'e'] cs
  | 'f' :: cs => (fun rest => (.boolean false, rest)) <$> scanName ['a', 'l', 's', 'e'] cs
  | '"' :: cs => (fun (text, rest) => (.string text, rest)) <$> scanString cs
  | '[' :: cs => .ok (.sequence, '[' :: cs)
  | '\x7b' :: cs => .ok (.map, '\x7b' :: cs)
  | cs =>
    match cs with
    | c :: _ =>
      if c = '-' || Numeral.isDigit c then
        (fun (text, rest) => (foundNumber text, rest)) <$> scanNumber cs
      else .error (faultAt .expectedValue cs)
    | [] => .error (.placed .eofInValue 0)

def mismatch (expected : String) (cs : List Char) : Fault :=
  match scanFound cs with
  | .ok (found, rest) => faultBefore (.mismatch found expected) rest
  | .error fault => fault

def readText (expected : String) : Reader String := fun cs =>
  match skipBlanks cs with
  | [] => .error (.placed .eofInValue 0)
  | '"' :: rest => scanString rest
  | rest => .error (mismatch expected rest)

def readNothing (f : Filter) : Reader Filter := fun cs =>
  match skipBlanks cs with
  | [] => .error (.placed .eofInValue 0)
  | 'n' :: rest => (fun rest => (f, rest)) <$> scanName ['u', 'l', 'l'] rest
  | rest => .error (mismatch "unit" rest)

def readForm : Reader (String × Shape) := fun cs => do
  let (label, rest) ← readText "variant identifier" cs
  match Dictionary.find? label forms with
  | some shape => return ((label, shape), rest)
  | none => throw (faultBefore (.unknownVariant label (Dictionary.keys forms)) rest)

def closeList (cs : List Char) : Except Fault (List Char) :=
  match skipBlanks cs with
  | [] => .error (.placed .eofInList 0)
  | ']' :: rest => .ok rest
  | ',' :: rest =>
    match skipBlanks rest with
    | ']' :: rest => .error (faultAt .trailingComma (']' :: rest))
    | rest => .error (faultAt .trailingCharacters rest)
  | rest => .error (faultAt .trailingCharacters rest)

def pastList (cs : List Char) : List Char :=
  match skipBlanks cs with
  | ']' :: rest => rest
  | ',' :: rest => skipBlanks rest
  | rest => rest

/-- A fault without a place gets the one where the list around it ends. -/
def placeInList : Fault → Fault
  | .unplaced cause rest => faultBefore cause (pastList rest)
  | fault => fault

/-- A list in brackets, unless no more nesting is allowed. -/
def readList {α : Type} (expected : String) (contents : Option (Reader α)) : Reader α := fun cs =>
  match skipBlanks cs with
  | [] => .error (.placed .eofInValue 0)
  | '[' :: rest =>
    match contents with
    | none => .error (faultAt .nestedTooDeep ('[' :: rest))
    | some contents => (contents rest).mapError placeInList
  | rest => .error (mismatch expected rest)

def twoExpected (label : String) : String := "tuple variant Filter::" ++ label

def readTwo (label : String) (make : Filter → Filter → Filter) (item : Reader Filter) :
    Reader Filter := fun cs => do
  match ← nextItem true cs with
  | none => throw (.unplaced (.wrongLength 0 (twoExpected label ++ " with 2 elements")) cs)
  | some start =>
    let (left, rest) ← item start
    match ← nextItem false rest with
    | none => throw (.unplaced (.wrongLength 1 (twoExpected label ++ " with 2 elements")) rest)
    | some start =>
      let (right, rest) ← item start
      return (make left right, ← closeList rest)

def readMany (make : List Filter → Filter) (item : Reader Filter) : Reader Filter := fun cs =>
  (fun (fs, rest) => (make fs, rest)) <$> items item cs

/-- What a form holds. A list in it is one more level of nesting. -/
def readHeld (label : String) (item : Reader Filter) (listItem : Option (Reader Filter)) :
    Shape → Reader Filter
  | .nothing f => readNothing f
  | .text make => fun cs => (fun (text, rest) => (make text, rest)) <$> readText "a string" cs
  | .one make => fun cs => (fun (f, rest) => (make f, rest)) <$> item cs
  | .two make => readList (twoExpected label) (listItem.map (readTwo label make))
  | .many make => readList "a sequence" (listItem.map (readMany make))

/-- A form by its name alone, which only a form that holds nothing has. -/
def bareForm (rest : List Char) : Shape → Except Fault (Filter × List Char)
  | .nothing f => .ok (f, rest)
  | .two _ => .error (.unplaced (.mismatch .bareVariant "tuple variant") rest)
  | _ => .error (.unplaced (.mismatch .bareVariant "newtype variant") rest)

def closeForm (f : Filter) (cs : List Char) : Except Fault (Filter × List Char) :=
  match skipBlanks cs with
  | [] => .error (.placed .eofInObject 0)
  | '\x7d' :: rest => .ok (f, rest)
  | rest => .error (faultBefore .expectedValue rest)

/-- A filter with `room` more levels of nesting allowed in it. -/
def readWithin (room : Nat) : Reader Filter := fun cs =>
  match skipBlanks cs with
  | [] => .error (.placed .eofInValue 0)
  | '"' :: rest => do
    let ((_, shape), rest) ← readForm ('"' :: rest)
    bareForm rest shape
  | '\x7b' :: rest =>
    match room with
    | 0 => .error (faultAt .nestedTooDeep ('\x7b' :: rest))
    | room + 1 => do
      if (skipBlanks rest).isEmpty then throw (.placed .eofInObject 0)
      let ((label, shape), rest) ← readForm rest
      let rest ← scanColon rest
      let listItem := match room with
        | 0 => none
        | room + 1 => some (readWithin room)
      let (f, rest) ← readHeld label (readWithin room) listItem shape rest
      closeForm f rest
  | rest => .error (faultAt .expectedValue rest)

def ofInterchange (text : List Char) : Except SyntaxError Filter :=
  match readWithin nestingLimit text with
  | .error fault => .error (fault.locate text)
  | .ok (f, rest) =>
    match skipBlanks rest with
    | [] => .ok f
    | rest => .error ((faultAt .trailingCharacters rest).locate text)

end QueryShell.Filter
