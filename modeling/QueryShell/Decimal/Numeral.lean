/-! Natural numbers written in base ten, most significant digit first. -/

namespace QueryShell.Numeral

def powerOfTen (n : Nat) : Nat := Nat.pow 10 n

def digitChar (d : Nat) : Char := Char.ofNat (48 + d)

def write (n : Nat) : List Char :=
  if n < 10 then [digitChar n] else write (n / 10) ++ [digitChar (n % 10)]

def isDigit (c : Char) : Bool := '0' ≤ c && c ≤ '9'

def digitValue (c : Char) : Nat := c.toNat - 48

/-- The value of a run of digits; other characters are not looked for. -/
def value (cs : List Char) : Nat := cs.foldl (fun n c => 10 * n + digitValue c) 0

def length (n : Nat) : Nat := (write n).length

def writeInt (n : Int) : List Char :=
  if n < 0 then '-' :: write n.natAbs else write n.natAbs

end QueryShell.Numeral
