import QueryShell.Decimal.Basic

/-! Decimal numbers as text. The form survives: reading what was written gives digits and scale
back, unless the number is zero or is padded with zeros at its end. -/

namespace QueryShell.Decimal

inductive TextError where
  | empty
  | noDigits
  | badDigit
  | exponentTooLarge
  | exponentTooSmall
  | scaleOutOfRange (text : List Char)
  deriving DecidableEq

def TextError.message : TextError → String
  | .empty => "Failed to parse empty string"
  | .noDigits => "cannot parse integer from empty string"
  | .badDigit => "invalid digit found in string"
  | .exponentTooLarge => "number too large to fit in target type"
  | .exponentTooSmall => "number too small to fit in target type"
  | .scaleOutOfRange text => "Exponent overflow when parsing '" ++ String.ofList text ++ "'"

/-- Exponents fill 128 bits, scales 64. -/
def exponentBound : Nat := 0x80000000000000000000000000000000

def scaleBound : Int := 0x8000000000000000

/-- Digits up to a limit. What comes first in the text, a character that is no digit or a value
beyond the limit, is the error. -/
def readBounded (limit : Nat) (beyond : TextError) : Nat → List Char → Except TextError Nat
  | n, [] => .ok n
  | n, c :: cs =>
    if !Numeral.isDigit c then .error .badDigit
    else
      let m := 10 * n + Numeral.digitValue c
      if limit < m then .error beyond else readBounded limit beyond m cs

def readExponent : List Char → Except TextError Int
  | [] => .error .noDigits
  | ['+'] | ['-'] => .error .badDigit
  | '+' :: cs => Int.ofNat <$> readBounded (exponentBound - 1) .exponentTooLarge 0 cs
  | '-' :: cs => (fun n => -Int.ofNat n) <$> readBounded exponentBound .exponentTooSmall 0 cs
  | cs => Int.ofNat <$> readBounded (exponentBound - 1) .exponentTooLarge 0 cs

def isDigitOrGap (c : Char) : Bool := Numeral.isDigit c || c = '_'

/-- Digits with gaps between them; the first character is no gap. -/
def readDigits : List Char → Except TextError Nat
  | [] => .error .noDigits
  | '_' :: _ => .error .badDigit
  | cs =>
    if cs.all isDigitOrGap then .ok (Numeral.value (cs.filter Numeral.isDigit))
    else .error .badDigit

/-- One plus sign may stand in front, but not two. -/
def readUnsigned : List Char → Except TextError Nat
  | '+' :: '+' :: cs => readDigits ('+' :: '+' :: cs)
  | '+' :: cs => readDigits cs
  | cs => readDigits cs

/-- A minus sign is taken off unless a plus sign follows it. -/
def readSigned : List Char → Except TextError Int
  | '-' :: '+' :: cs => (fun n => -Int.ofNat n) <$> readUnsigned ('-' :: '+' :: cs)
  | '-' :: cs => (fun n => -Int.ofNat n) <$> readUnsigned cs
  | cs => Int.ofNat <$> readUnsigned cs

/-- The text without its first point, and how many digits stood behind it. -/
def dropPoint (cs : List Char) : List Char × Nat :=
  match cs.span (· ≠ '.') with
  | (_, []) => (cs, 0)
  | (whole, _ :: fraction) => (whole ++ fraction, (fraction.filter (· ≠ '_')).length)

def isExponentMark (c : Char) : Bool := c = 'e' || c = 'E'

def ofText (cs : List Char) : Except TextError Decimal := do
  let (base, tail) := cs.span (fun c => !isExponentMark c)
  let exponent ← match tail with
    | [] => pure 0
    | _ :: cs => readExponent cs
  if base.isEmpty then throw .empty
  let (text, places) := dropPoint base
  let scale := Int.ofNat places - exponent
  if scale < -scaleBound || scaleBound ≤ scale then throw (.scaleOutOfRange cs)
  return ⟨← readSigned text, scale⟩

/-- More zeros than these behind the digits are written as an exponent. -/
def trailingZeroLimit : Int := 15

/-- More zeros than these before the digits are written as an exponent. -/
def leadingZeroLimit : Int := 5

/-- Digits with a point `places` from their end, and a zero before it when nothing else stands
there. -/
def withPoint (digits : List Char) (places : Nat) : List Char :=
  let padded := List.replicate (places + 1 - digits.length) '0' ++ digits
  padded.take (padded.length - places) ++ '.' :: padded.drop (padded.length - places)

def scientific (mark : Char) : List Char → Int → List Char
  | [], _ => []
  | [c], exponent => c :: mark :: Numeral.writeInt exponent
  | c :: cs, exponent => c :: '.' :: cs ++ mark :: Numeral.writeInt exponent

def unsignedText (mark : Char) (digits : List Char) (scale : Int) : List Char :=
  if leadingZeroLimit < scale - digits.length && 0 < scale then
    scientific mark digits (digits.length - 1 - scale)
  else if trailingZeroLimit < -scale then digits ++ 'e' :: '+' :: Numeral.write scale.natAbs
  else if scale ≤ 0 then digits ++ List.replicate (-scale).toNat '0'
  else withPoint digits scale.toNat

/-- Zero is `0` at every scale. `mark` stands before the exponent of a small number. -/
def toTextWith (mark : Char) (d : Decimal) : List Char :=
  if d.digits = 0 then ['0']
  else
    let text := unsignedText mark (Numeral.write d.digits.natAbs) d.scale
    if d.digits < 0 then '-' :: text else text

def toText (d : Decimal) : List Char := d.toTextWith 'E'

end QueryShell.Decimal
