/-! Binary64 numbers as exact data: a sign, a significand and a power of two. A ratio is rounded to
the nearest number, a tie to the even significand. The decimal text of a number has the fewest
digits that read back, and of those the nearest to the number; positional notation is used below `10
^ 21` and down to `10 ^ -6`. -/

namespace Elevation

/-- A finite number is `significand * 2 ^ exponent`. It is kept with the exponent at its least
value, or else with a significand of 53 bits, so equal numbers have equal parts. -/
inductive Number where
  | finite (negative : Bool) (significand : Nat) (exponent : Int)
  | infinite (negative : Bool)
  | nan
  deriving DecidableEq, Repr

namespace Number

def leastExponent : Int := -1074

def greatestExponent : Int := 971

def zero (negative : Bool) : Number := .finite negative 0 leastExponent

def twoTo (n : Nat) : Nat := Nat.pow 2 n

def tenTo (n : Nat) : Nat := Nat.pow 10 n

/-- `num / den` rounded to an integer, a tie going to the even one. -/
def roundHalfEven (num den : Nat) : Nat :=
  let quotient := num / den
  let twice := 2 * (num % den)
  if twice < den then quotient
  else if den < twice then quotient + 1
  else quotient + quotient % 2

def scaled (num den : Nat) (exponent : Int) : Nat :=
  roundHalfEven (num * twoTo (-exponent).toNat) (den * twoTo exponent.toNat)

/-- The largest exponent that leaves at least 53 bits of `num / den`, but at least the least one. -/
def exponentFor (num den : Nat) : Int :=
  let guess : Int := (num.log2 : Int) - (den.log2 : Int) - 52
  let exponent :=
    if num * twoTo (-guess).toNat < den * twoTo guess.toNat * twoTo 52 then guess - 1 else guess
  max leastExponent exponent

def ofRatio (negative : Bool) (num den : Nat) : Number :=
  if num = 0 then zero negative
  else
    let exponent := exponentFor num den
    let rounded := scaled num den exponent
    let (significand, exponent) :=
      if rounded = twoTo 53 then (twoTo 52, exponent + 1) else (rounded, exponent)
    if greatestExponent < exponent then .infinite negative
    else .finite negative significand exponent

def ofNat (n : Nat) : Number := ofRatio false n 1

def decimalLength : Nat → Nat → Nat
  | 0, _ => 0
  | _, 0 => 0
  | fuel + 1, n => decimalLength fuel (n / 10) + 1

/-- The number nearest to `digits * 10 ^ power`. Powers far outside the finite range are decided by
the count of digits alone, so that no large power is ever computed. -/
def ofDecimal (negative : Bool) (digits : Nat) (power : Int) : Number :=
  if digits = 0 then zero negative
  else
    let magnitude : Int := decimalLength (digits.log2 + 1) digits + power
    if magnitude > 400 then .infinite negative
    else if magnitude < -400 then zero negative
    else ofRatio negative (digits * tenTo power.toNat) (tenTo (-power).toNat)

def isNaN : Number → Bool
  | .nan => true
  | _ => false

def same : Number → Number → Bool
  | .nan, _ => false
  | _, .nan => false
  | .finite _ 0 _, .finite _ 0 _ => true
  | a, b => a = b

structure Decimal where
  digits : Nat
  power : Int
  deriving DecidableEq, Repr

/-- The reals that round to `significand * 2 ^ exponent`, in quarter units of the last place; the
ends belong to the interval when the significand is even. -/
structure Interval where
  low : Nat
  high : Nat
  closed : Bool
  deriving DecidableEq, Repr

def interval (significand : Nat) (exponent : Int) : Interval :=
  let narrowBelow := significand = twoTo 52 ∧ leastExponent < exponent
  { low := 4 * significand - (if narrowBelow then 1 else 2)
    high := 4 * significand + 2
    closed := significand % 2 = 0 }

def compareDecimal (d : Decimal) (quarters : Nat) (exponent : Int) : Ordering :=
  let binary := exponent - 2
  compare (d.digits * tenTo d.power.toNat * twoTo (-binary).toNat)
    (quarters * twoTo binary.toNat * tenTo (-d.power).toNat)

def Interval.contains (i : Interval) (d : Decimal) (exponent : Int) : Bool :=
  match compareDecimal d i.low exponent, compareDecimal d i.high exponent with
  | .gt, .lt => true
  | .eq, .lt => i.closed
  | .gt, .eq => i.closed
  | _, _ => false

def floorAt (significand : Nat) (exponent power : Int) : Nat → Nat := fun scale =>
  (scale * significand * twoTo exponent.toNat * tenTo (-power).toNat) /
    (twoTo (-exponent).toNat * tenTo power.toNat)

/-- The decimal with `count` leading digits nearest to the number among those that read back. The
two neighbours of the number are tried; an exact tie goes to the even one. -/
def withDigits? (significand : Nat) (exponent magnitude : Int) (count : Nat) : Option Decimal :=
  let power := magnitude - count + 1
  let below : Decimal := ⟨floorAt significand exponent power 1, power⟩
  let above : Decimal := ⟨below.digits + 1, power⟩
  let range := interval significand exponent
  match range.contains below exponent, range.contains above exponent with
  | true, true =>
    let twice := floorAt significand exponent power 2
    let middle : Decimal := ⟨below.digits * 10 + 5, power - 1⟩
    match compareDecimal middle (4 * significand) exponent with
    | .gt => some below
    | .lt => some above
    | .eq => if twice % 4 = 1 then some below else some above
  | true, false => some below
  | false, true => some above
  | false, false => none

/-- The power of ten of the leading digit, found from the binary logarithm. -/
def magnitude (significand : Nat) (exponent : Int) : Int :=
  let guess : Int := Int.fdiv ((significand.log2 + exponent) * 30103) 100000
  if floorAt significand exponent (guess + 1) 1 ≥ 1 then guess + 1
  else if floorAt significand exponent guess 1 ≥ 1 then guess
  else guess - 1

def Decimal.trim : Nat → Decimal → Decimal
  | 0, d => d
  | fuel + 1, d => if d.digits % 10 = 0 then trim fuel ⟨d.digits / 10, d.power + 1⟩ else d

def shortest (significand : Nat) (exponent : Int) : Decimal :=
  let lead := magnitude significand exponent
  let found := (List.range 17).findSome? fun k => withDigits? significand exponent lead (k + 1)
  (found.getD ⟨floorAt significand exponent (lead - 16) 1, lead - 16⟩).trim 20

def digitText : Nat → Nat → List Char
  | 0, _ => []
  | _, 0 => []
  | fuel + 1, n => digitText fuel (n / 10) ++ [Char.ofNat (48 + n % 10)]

def natText (n : Nat) : String :=
  if n = 0 then "0" else String.ofList (digitText (n.log2 + 1) n)

def Decimal.scientific (d : Decimal) : String :=
  let digits := (natText d.digits).toList
  let count := digits.length
  let exponent : Int := count + d.power - 1
  let sign := if exponent < 0 then "e-" else "e+"
  let head := digits.take 1 ++ (if count = 1 then [] else '.' :: digits.drop 1)
  String.ofList head ++ sign ++ natText exponent.natAbs

def Decimal.text (d : Decimal) : String :=
  let digits := (natText d.digits).toList
  let count := digits.length
  let point : Int := count + d.power
  if count ≤ point ∧ point ≤ 21 then
    String.ofList (digits ++ List.replicate (point - count).toNat '0')
  else if 0 < point ∧ point ≤ 21 then
    String.ofList (digits.take point.toNat ++ '.' :: digits.drop point.toNat)
  else if -6 < point ∧ point ≤ 0 then
    "0." ++ String.ofList (List.replicate (-point).toNat '0' ++ digits)
  else d.scientific

def text : Number → String
  | .nan => "NaN"
  | .infinite negative => if negative then "-Infinity" else "Infinity"
  | .finite _ 0 _ => "0"
  | .finite negative significand exponent =>
    (if negative then "-" else "") ++ (shortest significand exponent).text

def scientific : Number → String
  | .finite _ 0 _ => "0e+0"
  | .finite negative significand exponent =>
    (if negative then "-" else "") ++ (shortest significand exponent).scientific
  | n => n.text

def integer? : Number → Option (Bool × Nat)
  | .finite negative significand exponent =>
    let unit := twoTo (-exponent).toNat
    if significand % unit = 0 then some (negative, significand / unit * twoTo exponent.toNat)
    else none
  | _ => none

end Number

end Elevation
