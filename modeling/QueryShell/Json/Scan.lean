import QueryShell.Decimal.Numeral
import QueryShell.Json.Fault

/-! The words of a JSON text: blanks, names, numbers and strings. Each reader answers what it read
and what is left. -/

namespace QueryShell.Json

abbrev Reader (α : Type) := List Char → Except Fault (α × List Char)

def isBlank (c : Char) : Bool := c = ' ' || c = '\n' || c = '\t' || c = '\r'

def skipBlanks (cs : List Char) : List Char := cs.dropWhile isBlank

def scanName : List Char → List Char → Except Fault (List Char)
  | [], cs => .ok cs
  | _ :: _, [] => .error (.placed .eofInValue 0)
  | n :: ns, c :: cs => if c = n then scanName ns cs else .error (faultAt .expectedIdent (c :: cs))

def spanDigits (cs : List Char) : List Char × List Char := cs.span Numeral.isDigit

def scanDigits (cs : List Char) : Except Fault (List Char × List Char) :=
  match spanDigits cs with
  | ([], []) => .error (.placed .eofInValue 0)
  | ([], c :: rest) => .error (faultAt .invalidNumber (c :: rest))
  | found => .ok found

/-- No digit follows a leading zero. -/
def scanWhole : Reader (List Char)
  | '0' :: cs =>
    match cs with
    | c :: _ => if Numeral.isDigit c then .error (faultAt .invalidNumber cs) else .ok (['0'], cs)
    | [] => .ok (['0'], [])
  | cs => scanDigits cs

def scanFraction : Reader (List Char)
  | '.' :: cs => (fun (digits, rest) => ('.' :: digits, rest)) <$> scanDigits cs
  | cs => .ok ([], cs)

/-- An exponent is kept as `e`, a sign and digits. -/
def scanExponent : Reader (List Char)
  | [] => .ok ([], [])
  | c :: cs =>
    if c = 'e' || c = 'E' then
      let (sign, digits) := match cs with
        | '+' :: rest => ('+', rest)
        | '-' :: rest => ('-', rest)
        | rest => ('+', rest)
      (fun (ds, rest) => ('e' :: sign :: ds, rest)) <$> scanDigits digits
    else .ok ([], c :: cs)

def scanUnsigned : Reader (List Char) := fun cs => do
  let (whole, cs) ← scanWhole cs
  let (fraction, cs) ← scanFraction cs
  let (exponent, cs) ← scanExponent cs
  return (whole ++ fraction ++ exponent, cs)

def scanNumber : Reader (List Char)
  | '-' :: cs => (fun (text, rest) => ('-' :: text, rest)) <$> scanUnsigned cs
  | cs => scanUnsigned cs

def hexValue? (c : Char) : Option Nat :=
  if Numeral.isDigit c then some (c.toNat - 48)
  else if 'a' ≤ c && c ≤ 'f' then some (c.toNat - 87)
  else if 'A' ≤ c && c ≤ 'F' then some (c.toNat - 55)
  else none

def hexFour? (a b c d : Char) : Option Nat := do
  return 4096 * (← hexValue? a) + 256 * (← hexValue? b) + 16 * (← hexValue? c) + (← hexValue? d)

/-- Four bytes are taken for the digits, whatever they are. -/
def hexFault (cs : List Char) : Fault :=
  if byteCount cs < 4 then .placed .eofInString 0 else .placed .invalidEscape (byteCount cs - 4)

def scanHex : Reader Nat
  | a :: b :: c :: d :: cs =>
    match hexFour? a b c d with
    | some n => .ok (n, cs)
    | none => .error (hexFault (a :: b :: c :: d :: cs))
  | cs => .error (hexFault cs)

def isLeadingSurrogate (n : Nat) : Bool := 0xd800 ≤ n && n ≤ 0xdbff

def isTrailingSurrogate (n : Nat) : Bool := 0xdc00 ≤ n && n ≤ 0xdfff

def pairedSurrogates (leading trailing : Nat) : Char :=
  Char.ofNat ((leading - 0xd800) * 0x400 + (trailing - 0xdc00) + 0x10000)

/-- The second half of a surrogate pair has an escape of its own. -/
def scanTrailingSurrogate (leading : Nat) : Reader Char
  | [] => .error (.placed .eofInString 0)
  | '\\' :: [] => .error (.placed .eofInString 0)
  | '\\' :: 'u' :: cs => do
    let (n, rest) ← scanHex cs
    if isTrailingSurrogate n then return (pairedSurrogates leading n, rest)
    else throw (faultBefore .loneSurrogate rest)
  | '\\' :: cs => .error (faultAt .unfinishedSurrogatePair cs)
  | cs => .error (faultAt .unfinishedSurrogatePair cs)

def scanUnicode : Reader Char := fun cs => do
  let (n, rest) ← scanHex cs
  if isTrailingSurrogate n then throw (faultBefore .loneSurrogate rest)
  else if isLeadingSurrogate n then scanTrailingSurrogate n rest
  else return (Char.ofNat n, rest)

/-- The character that an escape stands for, read behind its backslash. -/
def scanEscape : Reader Char
  | [] => .error (.placed .eofInString 0)
  | '"' :: cs => .ok ('"', cs)
  | '\\' :: cs => .ok ('\\', cs)
  | '/' :: cs => .ok ('/', cs)
  | 'b' :: cs => .ok ('\x08', cs)
  | 'f' :: cs => .ok ('\x0c', cs)
  | 'n' :: cs => .ok ('\n', cs)
  | 'r' :: cs => .ok ('\r', cs)
  | 't' :: cs => .ok ('\t', cs)
  | 'u' :: cs => scanUnicode cs
  | cs => .error (faultAt .invalidEscape cs)

/-- The characters of a string up to its closing quote. Each step reads a character, so as many
steps as there are characters left are enough. -/
def scanStringWithin : Nat → Reader (List Char)
  | 0, _ => .error (.placed .eofInString 0)
  | _ + 1, [] => .error (.placed .eofInString 0)
  | _ + 1, '"' :: cs => .ok ([], cs)
  | steps + 1, '\\' :: cs => do
    let (c, rest) ← scanEscape cs
    let (text, rest) ← scanStringWithin steps rest
    return (c :: text, rest)
  | steps + 1, c :: cs =>
    if c.toNat ≤ 0x1f then .error (faultAt .controlCharacter (c :: cs))
    else do
      let (text, rest) ← scanStringWithin steps cs
      return (c :: text, rest)

/-- A string whose opening quote is already read. -/
def scanString : Reader String := fun cs => do
  let (text, rest) ← scanStringWithin (cs.length + 1) cs
  return (String.ofList text, rest)

end QueryShell.Json
