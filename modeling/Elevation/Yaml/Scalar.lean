import Elevation.Number
import Elevation.Text

/-! The values of scalars. A plain scalar is read by what it looks like, and the two versions of
YAML differ in that; a tag asks for one way of reading. YAML 1.2 has decimal, octal and hexadecimal
integers, decimal fractions and a few names; YAML 1.1 also allows underscores between digits, binary
integers, numbers to the base 60, and points in time: a date, or a date with a time and perhaps a
zone. -/

namespace Elevation.Yaml

namespace Timestamp

def digits? (least most : Nat) (text : List Char) : Option (List Char) :=
  let found := (text.take most).takeWhile Char.isDigit
  if found.length < least then none else some (text.drop found.length)

def expect? (c : Char) : List Char → Option (List Char)
  | [] => none
  | d :: rest => if d = c then some rest else none

def date? (text : List Char) : Option (List Char) := do
  let text ← digits? 4 4 text
  let text ← expect? '-' text
  let text ← digits? 1 2 text
  let text ← expect? '-' text
  digits? 1 2 text

def clock? (text : List Char) : Option (List Char) := do
  let text ← digits? 1 2 text
  let text ← expect? ':' text
  let text ← digits? 1 2 text
  let text ← expect? ':' text
  let text ← digits? 1 2 text
  match text with
  | '.' :: rest => digits? 1 rest.length rest
  | _ => return text

def separated? : List Char → Option (List Char)
  | [] => none
  | c :: rest =>
    if c = 't' || c = 'T' then some rest
    else if Text.isSpace c then some (rest.dropWhile Text.isSpace)
    else none

def isOffset (text : List Char) : Bool :=
  let hours := text.takeWhile Char.isDigit
  let known := match hours with
    | [_] => true
    | [a, _] => a = '0' || a = '1' || a = '2'
    | _ => false
  known && match text.drop hours.length with
    | [] => true
    | [':', a, b] => a.isDigit && b.isDigit
    | _ => false

def isZone (text : List Char) : Bool :=
  match text.dropWhile Text.isSpace with
  | [] => text = []
  | ['Z'] => true
  | '+' :: rest => isOffset rest
  | '-' :: rest => isOffset rest
  | _ => false

def isTimestamp (text : List Char) : Bool :=
  match date? text with
  | none => false
  | some [] => true
  | some rest =>
    match (separated? rest).bind clock? with
    | none => false
    | some zone => isZone zone

end Timestamp

namespace Numeric

def splitSign : List Char → Bool × List Char
  | '-' :: rest => (true, rest)
  | '+' :: rest => (false, rest)
  | text => (false, text)

def digitValue (c : Char) : Nat :=
  if c.isDigit then c.toNat - 48 else c.toLower.toNat - 87

def isOctalDigit (c : Char) : Bool := '0' ≤ c && c ≤ '7'

def isBinaryDigit (c : Char) : Bool := c = '0' || c = '1'

def valueOf (base : Nat) (digits : List Char) : Nat :=
  digits.foldl (fun n c => n * base + digitValue c) 0

def special? (text : List Char) : Option Number :=
  let (negative, name) := splitSign text
  if [".inf", ".Inf", ".INF"].contains (String.ofList name) then some (.infinite negative)
  else if [".nan", ".NaN", ".NAN"].contains (String.ofList text) then some .nan
  else none

def announced? (mark : List Char) (base : Nat) (isDigit : Char → Bool) (text : List Char) :
    Option Number :=
  let digits := text.drop 2
  if text.take 2 = mark ∧ digits ≠ [] ∧ digits.all isDigit then
    some (Number.ofNat (valueOf base digits))
  else none

def signed (negative : Bool) (n : Nat) : Number := Number.ofRatio negative n 1

def integer? (text : List Char) : Option Number :=
  let (negative, digits) := splitSign text
  if digits ≠ [] ∧ digits.all Char.isDigit then some (signed negative (valueOf 10 digits)) else none

def power? (text : List Char) : Option Int :=
  let (negative, digits) := splitSign text
  if digits ≠ [] ∧ digits.all Char.isDigit then
    some (if negative then -(valueOf 10 digits : Int) else valueOf 10 digits)
  else none

/-- A decimal fraction, or a number with an exponent. With `loose`, underscores may stand between
the digits, and a number without any digit in front of its exponent is no number. -/
def fraction? (loose : Bool) (text : List Char) : Option Number :=
  let isDigit (c : Char) : Bool := c.isDigit || loose && c = '_'
  let (negative, rest) := splitSign text
  let whole := rest.takeWhile isDigit
  let rest := rest.drop whole.length
  let point := rest.head? = some '.'
  let rest := if point then rest.drop 1 else rest
  let parts := if point then rest.takeWhile isDigit else []
  let rest := rest.drop parts.length
  let whole' := whole.filter Char.isDigit
  let parts' := parts.filter Char.isDigit
  let digits := whole' ++ parts'
  let valued (power : Int) : Number :=
    if digits = [] then .nan
    else Number.ofDecimal negative (valueOf 10 digits) (power - parts'.length)
  if whole.head? = some '_' || !loose && digits = [] then none
  else
    match rest with
    | [] => if point then some (valued 0) else none
    | c :: exponent => if c = 'e' || c = 'E' then (power? exponent).map valued else none

def ofText? (text : List Char) : Option Number :=
  announced? ['0', 'o'] 8 isOctalDigit text <|> integer? text <|>
    announced? ['0', 'x'] 16 Text.isHexDigit text <|> special? text <|> fraction? false text

def isInteger (text : List Char) : Bool :=
  (announced? ['0', 'o'] 8 isOctalDigit text <|> integer? text <|>
    announced? ['0', 'x'] 16 Text.isHexDigit text).isSome

def loose? (mark : List Char) (base : Nat) (isDigit : Char → Bool) (text : List Char) :
    Option Number :=
  let (negative, rest) := splitSign text
  let body := rest.drop mark.length
  if rest.take mark.length = mark ∧ body ≠ [] ∧ body.all fun c => isDigit c || c = '_' then
    let digits := body.filter (· ≠ '_')
    some (if digits = [] then .nan else signed negative (valueOf base digits))
  else none

def looseInteger? (text : List Char) : Option Number :=
  if (splitSign text).2.head? = some '_' then none else loose? [] 10 Char.isDigit text

def isSixty : List Char → Bool
  | [a] => a.isDigit
  | [a, b] => '0' ≤ a && a ≤ '5' && b.isDigit
  | _ => false

/-- A number to the base 60, its parts separated by colons; the last part may be a fraction. -/
def sexagesimal? (text : List Char) : Option Number :=
  let (negative, rest) := splitSign text
  let whole := rest.takeWhile (· ≠ '.')
  let parts := (rest.drop whole.length).drop 1
  match whole.splitOn ':' with
  | first :: second :: more =>
    let isFirst := first.head? ≠ some '_' && first ≠ [] && first.all fun c => c.isDigit || c = '_'
    if isFirst && (second :: more).all isSixty && parts.all fun c => c.isDigit || c = '_' then
      let digits := parts.filter Char.isDigit
      let n := (first :: second :: more).foldl
        (fun n part => n * 60 + valueOf 10 (part.filter Char.isDigit)) 0
      let all := n * Number.tenTo digits.length + valueOf 10 digits
      some (Number.ofDecimal negative all (-digits.length))
    else none
  | _ => none

def ofLegacyText? (text : List Char) : Option Number :=
  loose? ['0', 'b'] 2 isBinaryDigit text <|> loose? ['0'] 8 isOctalDigit text <|>
    looseInteger? text <|> loose? ['0', 'x'] 16 Text.isHexDigit text <|> special? text <|>
    fraction? true text <|> sexagesimal? text

def isLegacyInteger (text : List Char) : Bool :=
  (loose? ['0', 'b'] 2 isBinaryDigit text <|> loose? ['0'] 8 isOctalDigit text <|>
    looseInteger? text <|> loose? ['0', 'x'] 16 Text.isHexDigit text <|>
    (if text.contains '.' then none else sexagesimal? text)).isSome

end Numeric

inductive Version where
  | v11
  | v12
  deriving DecidableEq, Repr

inductive Scalar where
  | null
  | boolean (value : Bool)
  | number (value : Number)
  | string (text : String)
  | date
  | bytes (content : List UInt8)
  /-- The key that merges the fields of other maps into its own. -/
  | merge
  deriving DecidableEq, Repr

namespace Scalar

/-- Equality of keys. A value that is no number equals nothing, and dates, bytes and merge keys are
all distinct. -/
def same : Scalar → Scalar → Bool
  | null, null => true
  | boolean a, boolean b => a = b
  | number a, number b => a.same b
  | string a, string b => a = b
  | _, _ => false

def ofList (text : List Char) : Scalar := string (String.ofList text)

def isNullText (text : List Char) : Bool :=
  ["", "~", "null", "Null", "NULL"].contains (String.ofList text)

def boolean? (version : Version) (text : List Char) : Option Scalar :=
  let text := String.ofList text
  if ["true", "True", "TRUE"].contains text then some (boolean true)
  else if ["false", "False", "FALSE"].contains text then some (boolean false)
  else if version = .v12 then none
  else if ["Y", "y", "Yes", "yes", "YES", "On", "on", "ON"].contains text then some (boolean true)
  else if ["N", "n", "No", "no", "NO", "Off", "off", "OFF"].contains text then some (boolean false)
  else none

def number? (version : Version) (text : List Char) : Option Number :=
  match version with
  | .v12 => Numeric.ofText? text
  | .v11 => Numeric.ofLegacyText? text

def isInteger (version : Version) (text : List Char) : Bool :=
  match version with
  | .v12 => Numeric.isInteger text
  | .v11 => Numeric.isLegacyInteger text

def ofPlain (version : Version) (atKey : Bool) (text : List Char) : Scalar :=
  if isNullText text then null
  else
    match boolean? version text, number? version text with
    | some value, _ => value
    | none, some n => number n
    | none, none =>
      if version = .v11 && atKey && text = ['<', '<'] then merge
      else if version = .v11 && Timestamp.isTimestamp text then date
      else ofList text

def sextet? (c : Char) : Option Nat :=
  if 'A' ≤ c ∧ c ≤ 'Z' then some (c.toNat - 65)
  else if 'a' ≤ c ∧ c ≤ 'z' then some (c.toNat - 71)
  else if c.isDigit then some (c.toNat + 4)
  else if c = '+' ∨ c = '-' then some 62
  else if c = '/' ∨ c = '_' then some 63
  else none

def bytesOf : List Nat → List UInt8
  | a :: b :: c :: d :: rest =>
    UInt8.ofNat (a * 4 + b / 16) :: UInt8.ofNat (b % 16 * 16 + c / 4) ::
      UInt8.ofNat (c % 4 * 64 + d) :: bytesOf rest
  | [a, b, c] => [UInt8.ofNat (a * 4 + b / 16), UInt8.ofNat (b % 16 * 16 + c / 4)]
  | [a, b] => [UInt8.ofNat (a * 4 + b / 16)]
  | _ => []

/-- The bytes of a text in base 64; characters outside the alphabet are passed over. -/
def decodeBytes (text : List Char) : List UInt8 :=
  bytesOf ((text.takeWhile (· ≠ '=')).filterMap sextet?)

def tagBase : String := "tag:yaml.org,2002:"

/-- The value of a scalar with a tag. A tag that does not fit the text, or that is not known, leaves
the text as it is; only a timestamp has to look like one. -/
def ofTag (version : Version) (tag : String) (text : List Char) : Option Scalar :=
  let orText (value : Option Scalar) : Option Scalar := some (value.getD (ofList text))
  let numeric (integer : Bool) : Option Scalar :=
    orText (if isInteger version text = integer then (number? version text).map number else none)
  if tag = tagBase ++ "null" then orText (if isNullText text then some null else none)
  else if tag = tagBase ++ "bool" then orText (boolean? version text)
  else if tag = tagBase ++ "int" then numeric true
  else if tag = tagBase ++ "float" then numeric false
  else if tag = tagBase ++ "binary" then some (bytes (decodeBytes text))
  else if tag = tagBase ++ "merge" then
    if version = .v11 && text ≠ ['<', '<'] then some (ofList text) else some merge
  else if tag = tagBase ++ "timestamp" then
    if Timestamp.isTimestamp text then some date
    else if version = .v11 then some (ofList text)
    else none
  else some (ofList text)

end Scalar

end Elevation.Yaml
