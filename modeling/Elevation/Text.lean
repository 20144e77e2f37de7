/-! Characters and texts: white space, hexadecimal digits, and UTF-8. Decoding never fails: each
longest piece that could have begun a character but does not complete one becomes a replacement
character. -/

namespace Elevation.Text

/-- White space and line ends of Unicode, and the byte order mark. -/
def isBlank (c : Char) : Bool :=
  (9 ≤ c.toNat && c.toNat ≤ 13) || (0x2000 ≤ c.toNat && c.toNat ≤ 0x200a) ||
    [0x20, 0xa0, 0x1680, 0x2028, 0x2029, 0x202f, 0x205f, 0x3000, 0xfeff].contains c.toNat

def isSpace (c : Char) : Bool := c = ' ' || c = '\t'

def trim (s : String) : String :=
  let front := s.toList.dropWhile isBlank
  String.ofList (front.reverse.dropWhile isBlank).reverse

def lowerAscii (s : String) : String :=
  String.ofList (s.toList.map Char.toLower)

def isHexDigit (c : Char) : Bool :=
  c.isDigit || ('a' ≤ c && c ≤ 'f') || ('A' ≤ c && c ≤ 'F')

def hexDigits : List Char := "0123456789abcdef".toList

def hexText (n : Nat) : List Char := [hexDigits.getD (n / 16) '0', hexDigits.getD (n % 16) '0']

namespace Utf8

def replacement : Char := '\uFFFD'

def byte (mark value : Nat) : UInt8 := UInt8.ofNat (mark + value)

def encodeChar (c : Char) : List UInt8 :=
  let n := c.toNat
  if n < 0x80 then [byte 0 n]
  else if n < 0x800 then [byte 0xc0 (n / 64), byte 0x80 (n % 64)]
  else if n < 0x10000 then [byte 0xe0 (n / 4096), byte 0x80 (n / 64 % 64), byte 0x80 (n % 64)]
  else [byte 0xf0 (n / 262144), byte 0x80 (n / 4096 % 64), byte 0x80 (n / 64 % 64),
    byte 0x80 (n % 64)]

def encode (text : List Char) : List UInt8 := text.flatMap encodeChar

def isContinuation (b : UInt8) : Bool := 0x80 ≤ b.toNat && b.toNat < 0xc0

/-- The least and greatest byte that may follow a first byte. The bounds exclude overlong forms,
surrogates and values beyond the last character. -/
def secondRange (first : Nat) : Nat × Nat :=
  if first = 0xe0 then (0xa0, 0xbf)
  else if first = 0xed then (0x80, 0x9f)
  else if first = 0xf0 then (0x90, 0xbf)
  else if first = 0xf4 then (0x80, 0x8f)
  else (0x80, 0xbf)

def isSecond (first second : UInt8) : Bool :=
  let range := secondRange first.toNat
  range.1 ≤ second.toNat && second.toNat ≤ range.2

def low (b : UInt8) : Nat := b.toNat % 64

def decode : List UInt8 → List Char
  | [] => []
  | a :: rest =>
    let n := a.toNat
    if n < 0x80 then Char.ofNat n :: decode rest
    else if n < 0xc2 then replacement :: decode rest
    else if n < 0xe0 then
      match rest with
      | b :: rest =>
        if isSecond a b then Char.ofNat ((n - 0xc0) * 64 + low b) :: decode rest
        else replacement :: decode (b :: rest)
      | [] => [replacement]
    else if n < 0xf0 then
      match rest with
      | b :: c :: rest =>
        if isSecond a b then
          if isContinuation c then
            Char.ofNat ((n - 0xe0) * 4096 + low b * 64 + low c) :: decode rest
          else replacement :: decode (c :: rest)
        else replacement :: decode (b :: c :: rest)
      | [b] => if isSecond a b then [replacement] else replacement :: decode [b]
      | [] => [replacement]
    else if n < 0xf5 then
      match rest with
      | b :: c :: d :: rest =>
        if isSecond a b then
          if isContinuation c then
            if isContinuation d then
              Char.ofNat ((n - 0xf0) * 262144 + low b * 4096 + low c * 64 + low d) :: decode rest
            else replacement :: decode (d :: rest)
          else replacement :: decode (c :: d :: rest)
        else replacement :: decode (b :: c :: d :: rest)
      | [b, c] =>
        if isSecond a b then
          if isContinuation c then [replacement] else replacement :: decode [c]
        else replacement :: decode [b, c]
      | [b] => if isSecond a b then [replacement] else replacement :: decode [b]
      | [] => [replacement]
    else replacement :: decode rest

def units (c : Char) : Nat := if c.toNat < 0x10000 then 1 else 2

def unitCount : List Char → Nat
  | [] => 0
  | c :: rest => units c + unitCount rest

def units16 (text : List Char) : List Nat :=
  text.flatMap fun c =>
    if c.toNat < 0x10000 then [c.toNat]
    else [0xd800 + (c.toNat - 0x10000) / 1024, 0xdc00 + (c.toNat - 0x10000) % 1024]

end Utf8

end Elevation.Text
