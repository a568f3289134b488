import QueryShell.Text.Escaped
import QueryShell.Text.Lines

/-! What can be wrong with a JSON text, and where. A place is kept as the number of bytes that are
left unread there and becomes a line and a column once the whole text is at hand. -/

namespace QueryShell.Json

inductive Found where
  | null
  | boolean (flag : Bool)
  | integer (n : Int)
  | number
  | string (text : String)
  | sequence
  | map
  | bareVariant
  deriving DecidableEq

def Found.describe : Found → String
  | .null => "null"
  | .boolean true => "boolean `true`"
  | .boolean false => "boolean `false`"
  | .integer n => "integer `" ++ toString n ++ "`"
  | .number => "number"
  | .string text => "string " ++ Text.escape text
  | .sequence => "sequence"
  | .map => "map"
  | .bareVariant => "unit variant"

inductive Cause where
  | eofInList
  | eofInObject
  | eofInString
  | eofInValue
  | expectedValue
  | expectedIdent
  | expectedColon
  | expectedCommaOrBracket
  | expectedCommaOrBrace
  | invalidEscape
  | invalidNumber
  | controlCharacter
  | keyNotString
  | trailingComma
  | trailingCharacters
  | loneSurrogate
  | unfinishedSurrogatePair
  | nestedTooDeep
  | mismatch (found : Found) (expected : String)
  | wrongLength (length : Nat) (expected : String)
  | unknownVariant (name : String) (known : List String)
  deriving DecidableEq

def Cause.message : Cause → String
  | .eofInList => "EOF while parsing a list"
  | .eofInObject => "EOF while parsing an object"
  | .eofInString => "EOF while parsing a string"
  | .eofInValue => "EOF while parsing a value"
  | .expectedValue => "expected value"
  | .expectedIdent => "expected ident"
  | .expectedColon => "expected `:`"
  | .expectedCommaOrBracket => "expected `,` or `]`"
  | .expectedCommaOrBrace => "expected `,` or `\x7d`"
  | .invalidEscape => "invalid escape"
  | .invalidNumber => "invalid number"
  | .controlCharacter => "control character (\\u0000-\\u001F) found while parsing a string"
  | .keyNotString => "key must be a string"
  | .trailingComma => "trailing comma"
  | .trailingCharacters => "trailing characters"
  | .loneSurrogate => "lone leading surrogate in hex escape"
  | .unfinishedSurrogatePair => "unexpected end of hex escape"
  | .nestedTooDeep => "recursion limit exceeded"
  | .mismatch found expected => "invalid type: " ++ found.describe ++ ", expected " ++ expected
  | .wrongLength length expected =>
    "invalid length " ++ toString length ++ ", expected " ++ expected
  | .unknownVariant name known =>
    "unknown variant `" ++ name ++ "`, expected one of "
      ++ Text.joinStrings ", " (known.map fun k => "`" ++ k ++ "`")

/-- A fault has its place at once, or gets it where the list around it ends. -/
inductive Fault where
  | placed (cause : Cause) (left : Nat)
  | unplaced (cause : Cause) (rest : List Char)

def byteCount : List Char → Nat
  | [] => 0
  | c :: cs => c.utf8Size + byteCount cs

/-- A fault in the first byte of what is left, or at the end of the text. -/
def faultAt (cause : Cause) (rest : List Char) : Fault := .placed cause (byteCount rest - 1)

/-- A fault in what came before the text that is left. -/
def faultBefore (cause : Cause) (rest : List Char) : Fault := .placed cause (byteCount rest)

/-- The line and the column that so many bytes of a text lead to. -/
def place : Nat → List Char → Nat → Nat → Nat × Nat
  | _, [], line, column => (line, column)
  | offset, c :: cs, line, column =>
    if offset < c.utf8Size then (line, column + offset)
    else if c = '\n' then place (offset - 1) cs (line + 1) 0
    else place (offset - c.utf8Size) cs line (column + c.utf8Size)

structure SyntaxError where
  cause : Cause
  position : Option (Nat × Nat)

def Fault.locate (text : List Char) : Fault → SyntaxError
  | .placed cause left => ⟨cause, some (place (byteCount text - left) text 1 0)⟩
  | .unplaced cause _ => ⟨cause, none⟩

def SyntaxError.message (e : SyntaxError) : String :=
  match e.position with
  | some (line, column) =>
    e.cause.message ++ " at line " ++ toString line ++ " column " ++ toString column
  | none => e.cause.message

end QueryShell.Json
