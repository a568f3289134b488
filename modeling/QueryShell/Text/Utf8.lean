/-! UTF-8. Every character has one written form, and reading refuses all other bytes at the first
one that no written text has in its place. -/

namespace QueryShell.Text

def utf8Char (c : Char) : List UInt8 :=
  let n := c.toNat
  if n < 0x80 then [UInt8.ofNat n]
  else if n < 0x800 then [UInt8.ofNat (0xc0 + n / 64), UInt8.ofNat (0x80 + n % 64)]
  else if n < 0x10000 then
    [UInt8.ofNat (0xe0 + n / 4096), UInt8.ofNat (0x80 + n / 64 % 64), UInt8.ofNat (0x80 + n % 64)]
  else
    [UInt8.ofNat (0xf0 + n / 262144), UInt8.ofNat (0x80 + n / 4096 % 64),
      UInt8.ofNat (0x80 + n / 64 % 64), UInt8.ofNat (0x80 + n % 64)]

def toUtf8 (cs : List Char) : List UInt8 := cs.flatMap utf8Char

/-- Where the readable part ends, and how many bytes behind it are wrong. No number of bytes is told
when the bytes end within a character. -/
structure Utf8Fault where
  index : Nat
  length : Option Nat
  deriving DecidableEq

def Utf8Fault.message (fault : Utf8Fault) : String :=
  match fault.length with
  | some length =>
    "invalid utf-8 sequence of " ++ toString length ++ " bytes from index " ++ toString fault.index
  | none => "incomplete utf-8 byte sequence from index " ++ toString fault.index

def isTailByte (b : UInt8) : Bool := 0x80 ≤ b && b ≤ 0xbf

/-- The second byte of a character is bound by the first, so that no character has two forms and
none is a surrogate. -/
def isSecondByte (first second : UInt8) : Bool :=
  if first = 0xe0 then 0xa0 ≤ second && second ≤ 0xbf
  else if first = 0xed then 0x80 ≤ second && second ≤ 0x9f
  else if first = 0xf0 then 0x90 ≤ second && second ≤ 0xbf
  else if first = 0xf4 then 0x80 ≤ second && second ≤ 0x8f
  else isTailByte second

def tailBits (b : UInt8) : Nat := b.toNat - 0x80

def ofUtf8From (index : Nat) : List UInt8 → Except Utf8Fault (List Char)
  | [] => .ok []
  | a :: rest =>
    if a < 0x80 then (Char.ofNat a.toNat :: ·) <$> ofUtf8From (index + 1) rest
    else if a < 0xc2 || 0xf4 < a then .error ⟨index, some 1⟩
    else
      match rest with
      | [] => .error ⟨index, none⟩
      | b :: rest =>
        if !isSecondByte a b then .error ⟨index, some 1⟩
        else if a < 0xe0 then
          (Char.ofNat ((a.toNat - 0xc0) * 64 + tailBits b) :: ·) <$> ofUtf8From (index + 2) rest
        else
          match rest with
          | [] => .error ⟨index, none⟩
          | c :: rest =>
            if !isTailByte c then .error ⟨index, some 2⟩
            else if a < 0xf0 then
              (Char.ofNat ((a.toNat - 0xe0) * 4096 + tailBits b * 64 + tailBits c) :: ·)
                <$> ofUtf8From (index + 3) rest
            else
              match rest with
              | [] => .error ⟨index, none⟩
              | d :: rest =>
                if !isTailByte d then .error ⟨index, some 3⟩
                else
                  (Char.ofNat ((a.toNat - 0xf0) * 262144 + tailBits b * 4096 + tailBits c * 64 +
                    tailBits d) :: ·)
                    <$> ofUtf8From (index + 4) rest

def ofUtf8 (bytes : List UInt8) : Except Utf8Fault (List Char) := ofUtf8From 0 bytes

end QueryShell.Text
