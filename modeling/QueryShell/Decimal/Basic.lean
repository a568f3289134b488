import QueryShell.Decimal.Numeral

/-! Decimal numbers of any precision. A number keeps the form it was made in: `1.50` and `1.5` are
two forms of one value, told apart by `=` and not by `cmp`. -/

namespace QueryShell

/-- The number `digits * 10 ^ (-scale)`. -/
structure Decimal where
  digits : Int
  scale : Int
  deriving DecidableEq

namespace Decimal

def ofInt (n : Int) : Decimal := ⟨n, 0⟩

def ofNat (n : Nat) : Decimal := ⟨n, 0⟩

/-- The position of the leading digit: how many digits stand before the point. -/
def magnitude (d : Decimal) : Int := Numeral.length d.digits.natAbs - d.scale

/-- The digits the number has at a scale at least as fine as its own. -/
def digitsAt (d : Decimal) (scale : Int) : Int :=
  d.digits * Numeral.powerOfTen (scale - d.scale).toNat

/-- The most places that adding a zero can give to the other operand. -/
def zeroPadding : Int := 15

/-- The same value with the places of a zero of the given scale, up to the padding limit. -/
def widen (d : Decimal) (scale : Int) : Decimal :=
  let target := d.scale + min zeroPadding (max 0 (scale - d.scale))
  ⟨d.digitsAt target, target⟩

def add (a b : Decimal) : Decimal :=
  if b.digits = 0 then a.widen b.scale
  else if a.digits = 0 then b.widen a.scale
  else
    let scale := max a.scale b.scale
    ⟨a.digitsAt scale + b.digitsAt scale, scale⟩

def normalized (d : Decimal) : Decimal :=
  if d.digits = 0 then ⟨0, 0⟩
  else if d.digits % 10 = 0 then normalized ⟨d.digits / 10, d.scale - 1⟩
  else d
termination_by d.digits.natAbs
decreasing_by omega

/-- A power of ten at the scale that makes it one. -/
def isOne (d : Decimal) : Bool :=
  0 ≤ d.scale && d.magnitude = 1 && d.digits = Numeral.powerOfTen d.scale.toNat

/-- A factor of one leaves the other operand's value and drops its trailing zeros. -/
def mul (a b : Decimal) : Decimal :=
  if a.isOne then b.normalized
  else if b.isOne then a.normalized
  else ⟨a.digits * b.digits, a.scale + b.scale⟩

/-- Two positive numbers compare by their leading positions first, so only forms of like size are
aligned. -/
def cmpMagnitude (a b : Decimal) : Ordering :=
  (compare a.magnitude b.magnitude).then
    (let scale := max a.scale b.scale
     compare (a.digitsAt scale).natAbs (b.digitsAt scale).natAbs)

def cmp (a b : Decimal) : Ordering :=
  (compare a.digits.sign b.digits.sign).then
    (if a.digits = 0 then .eq
     else if 0 < a.digits then a.cmpMagnitude b
     else b.cmpMagnitude a)

def isNegative (d : Decimal) : Bool := d.digits < 0

def isInteger (d : Decimal) : Bool :=
  d.scale ≤ 0 || d.digits = 0 ||
    (0 < d.magnitude && d.digits % Numeral.powerOfTen d.scale.toNat = 0)

def truncated (d : Decimal) : Int :=
  if d.digits = 0 || d.magnitude ≤ 0 then 0
  else if d.scale ≤ 0 then d.digits * Numeral.powerOfTen (-d.scale).toNat
  else d.digits.tdiv (Numeral.powerOfTen d.scale.toNat)

/-- The whole part as a natural number that is not above the limit. -/
def toNat? (limit : Nat) (d : Decimal) : Option Nat :=
  if d.digits < 0 then none
  else if d.digits ≠ 0 && (Numeral.length limit : Int) < d.magnitude then none
  else
    let n := d.truncated.toNat
    if n ≤ limit then some n else none

end Decimal
end QueryShell
