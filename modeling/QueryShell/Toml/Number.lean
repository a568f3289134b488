import QueryShell.Toml.Basic
import QueryShell.Toml.Scan

/-! Numbers and points in time in a document of settings. -/

namespace QueryShell.Toml

/-- Between two digits there may be an underscore. -/
def wellSpaced (isDigit : Char → Bool) : List Char → Bool
  | [] => false
  | [c] => isDigit c
  | c :: '_' :: cs => isDigit c && wellSpaced isDigit cs
  | c :: cs => isDigit c && wellSpaced isDigit cs

def readDigits (isDigit : Char → Bool) : Reader (List Char) := fun cs =>
  let (ds, rest) := cs.span fun c => isDigit c || c = '_'
  if wellSpaced isDigit ds then some (ds.filter (· ≠ '_'), rest) else none

/-- No digit follows a leading zero. -/
def readWhole : Reader (List Char) := fun cs => do
  let (ds, rest) ← readDigits Numeral.isDigit cs
  if ds.head? = some '0' && ds.length ≠ 1 then none else return (ds, rest)

def readSign : List Char → Bool × List Char
  | '-' :: cs => (true, cs)
  | '+' :: cs => (false, cs)
  | cs => (false, cs)

def integerBound : Int := 0x8000000000000000

def readRadix (base : Nat) (cs : List Char) : Option (Node × List Char) := do
  let (ds, rest) ← readDigits (fun c => (Json.hexValue? c).any (· < base)) cs
  let n := ds.foldl (fun n c => base * n + (Json.hexValue? c).getD 0) 0
  if n < integerBound then return (.integer n, rest) else none

def readInteger : Reader Node
  | '0' :: 'x' :: cs => readRadix 16 cs
  | '0' :: 'o' :: cs => readRadix 8 cs
  | '0' :: 'b' :: cs => readRadix 2 cs
  | cs => do
    let (negative, start) := readSign cs
    let (ds, rest) ← readWhole start
    let n : Int := if negative then -(Numeral.value ds) else Numeral.value ds
    if -integerBound ≤ n && n < integerBound then return (.integer n, rest) else none

/-- The numbers from here on are too large for a double. -/
def floatBound : Nat := Nat.pow 2 1024 - Nat.pow 2 970

/-- Whether digits times a power of ten can be told from infinity. -/
def isFinite (digits : Nat) (exponent : Int) : Bool :=
  let places := (Numeral.length digits : Int) + exponent
  if digits = 0 || places < 309 then true
  else if 309 < places then false
  else decide (digits * Numeral.powerOfTen exponent.toNat <
    floatBound * Numeral.powerOfTen (-exponent).toNat)

def readFraction : Reader (List Char)
  | '.' :: cs => readDigits Numeral.isDigit cs
  | cs => some ([], cs)

def readExponent : Reader Int
  | [] => some (0, [])
  | c :: cs =>
    if c = 'e' || c = 'E' then do
      let (negative, start) := readSign cs
      let (ds, rest) ← readDigits Numeral.isDigit start
      return (if negative then -(Numeral.value ds) else Numeral.value ds, rest)
    else some (0, c :: cs)

def written (cs rest : List Char) : String := String.ofList (cs.take (cs.length - rest.length))

def readName (name : List Char) (cs : List Char) : Option (List Char) :=
  if name.isPrefixOf cs then some (cs.drop name.length) else none

def readFloat : Reader Node := fun cs => do
  let (negative, start) := readSign cs
  if let some rest := (readName ['i', 'n', 'f'] start).or (readName ['n', 'a', 'n'] start) then
    return (.float (written cs rest), rest)
  let (whole, rest) ← readWhole start
  if !(rest.head?.any fun c => c = '.' || c = 'e' || c = 'E') then none
  let (fraction, rest) ← readFraction rest
  let (exponent, rest) ← readExponent rest
  if negative || isFinite (Numeral.value (whole ++ fraction)) (exponent - fraction.length) then
    return (.float (written cs rest), rest)
  else none

/-- A number of so many digits within bounds. -/
def readField (count low high : Nat) : Reader Nat := fun cs =>
  let ds := cs.take count
  let n := Numeral.value ds
  if ds.length = count && ds.all Numeral.isDigit && low ≤ n && n ≤ high then some (n, cs.drop count)
  else none

def readMark (mark : Char) : List Char → Option (List Char)
  | c :: cs => if c = mark then some cs else none
  | [] => none

def daysIn (year month : Nat) : Nat :=
  if month = 2 then if year % 4 = 0 && (year % 100 ≠ 0 || year % 400 = 0) then 29 else 28
  else if month = 4 || month = 6 || month = 9 || month = 11 then 30
  else 31

def readDate (cs : List Char) : Option (List Char) := do
  let (year, cs) ← readField 4 0 9999 cs
  let (month, cs) ← readField 2 1 12 (← readMark '-' cs)
  let (_, cs) ← readField 2 1 (daysIn year month) (← readMark '-' cs)
  return cs

/-- A minute may have a second more than sixty. -/
def readTime (cs : List Char) : Option (List Char) := do
  let (_, cs) ← readField 2 0 23 cs
  let (_, cs) ← readField 2 0 59 (← readMark ':' cs)
  let (_, cs) ← readField 2 0 60 (← readMark ':' cs)
  match cs with
  | '.' :: c :: rest =>
    if Numeral.isDigit c then return rest.dropWhile Numeral.isDigit else return cs
  | _ => return cs

def readOffset (cs : List Char) : Option (List Char) :=
  match cs with
  | [] => none
  | c :: rest =>
    if c = 'Z' || c = 'z' then some rest
    else if c = '+' || c = '-' then do
      let (_, rest) ← readField 2 0 23 rest
      let (_, rest) ← readField 2 0 59 (← readMark ':' rest)
      return rest
    else none

def readClock : List Char → Option (List Char)
  | [] => none
  | c :: cs => do
    if c = 'T' || c = 't' || c = ' ' then
      let rest ← readTime cs
      return (readOffset rest).getD rest
    else none

def readMoment : Reader Node := fun cs => do
  let rest ← ((readDate cs).map fun rest => (readClock rest).getD rest).or (readTime cs)
  return (.moment (written cs rest), rest)

def readNumber : Reader Node := fun cs => (readMoment cs).or ((readFloat cs).or (readInteger cs))

end QueryShell.Toml
