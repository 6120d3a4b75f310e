/-
# Floats

A double with its infinities and its NaN, and what `float` reads from a text. A finite
double is its value, and the value of a text is the nearest double.
-/

import DealFinder.Rag.Language
import DealFinder.Shop.Rounding

namespace DealFinder.Feeds

open DealFinder.Math DealFinder.Rag

/-- A float. -/
inductive Double
  | nan
  | inf (negative : Bool)
  | finite (x : ℚ)
  deriving DecidableEq

namespace Double

/-- `bool(x)`. -/
def truthy (x : Double) : Bool := x ≠ .finite 0

/-- `x < y`, never of a NaN. -/
def less : Double → Double → Bool
  | nan, _ => false
  | _, nan => false
  | inf negative, inf negative' => negative && !negative'
  | inf negative, finite _ => negative
  | finite _, inf negative => !negative
  | finite x, finite y => x < y

/-- `x <= y`, never of a NaN. -/
def atMost (x y : Double) : Bool := x ≠ .nan && y ≠ .nan && !less y x

/-- `-x`. -/
def neg : Double → Double
  | nan => nan
  | inf negative => inf !negative
  | finite x => finite (-x)

/-- `round(x, 2)`. -/
def roundCents : Double → Double
  | finite x => finite (Shop.roundTo 2 x)
  | x => x

/-- The binary exponent of a number. -/
def exponent (x : ℚ) : ℤ :=
  let e : ℤ := (Nat.log2 x.num.natAbs : ℤ) - Nat.log2 x.den
  if (2 : ℚ) ^ e ≤ |x| then e else e - 1

/-- The distance of the doubles around a number. -/
def spacing (x : ℚ) : ℚ := 2 ^ max (exponent x - 52) (-1074)

/-- The nearest double, the even one of two. -/
def nearest (x : ℚ) : Double :=
  let size := Shop.roundHalfEven (|x| / spacing x) * spacing x
  if 2 ^ 1024 ≤ size then .inf (x < 0) else .finite (if x < 0 then -size else size)

/-- `x - y`. -/
def sub : Double → Double → Double
  | nan, _ => nan
  | _, nan => nan
  | inf negative, inf negative' => if negative = negative' then nan else inf negative
  | inf negative, finite _ => inf negative
  | finite _, inf negative => inf !negative
  | finite x, finite y => nearest (x - y)

/-- `x / y`, for a divisor that is not zero. -/
def div : Double → Double → Double
  | nan, _ => nan
  | _, nan => nan
  | inf _, inf _ => nan
  | inf negative, finite y => inf (negative ^^ decide (y < 0))
  | finite _, inf _ => finite 0
  | finite x, finite y => nearest (x / y)

/-- A price to compute with: a finite number above zero. -/
def Usable : Double → Prop
  | finite x => 0 < x
  | _ => False

@[simp]
theorem atMost_finite (x y : ℚ) : (finite x).atMost (finite y) = decide (x ≤ y) := by
  have hless : decide (y < x) = !decide (x ≤ y) := by
    rw [← decide_not]
    exact decide_eq_decide.2 not_le.symm
  simp [atMost, less, hless]

end Double

/-! ## The grammar -/

/-- A text without its underscores, each of which stands between two digits. -/
def dropUnderscores : Option Char → List Char → Option (List Char)
  | last, [] => if last = some '_' then none else some []
  | last, x :: rest =>
      if x = '_' then
        if last.any Char.isDigit then dropUnderscores (some '_') rest else none
      else if last = some '_' ∧ !x.isDigit then none
      else (dropUnderscores (some x) rest).map fun rest => x :: rest

/-- The number that some digits spell. -/
def digitsNumber (digits : List Char) : ℕ :=
  digits.foldl (fun n x => 10 * n + (x.toNat - '0'.toNat)) 0

/-- An exponent, with its letter. None stands for zero. -/
def readExponent : List Char → Option ℤ
  | [] => some 0
  | x :: rest =>
      let (negative, digits) := match rest with
        | '-' :: digits => (true, digits)
        | '+' :: digits => (false, digits)
        | digits => (false, digits)
      if (x = 'e' ∨ x = 'E') ∧ digits ≠ [] ∧ digits.all Char.isDigit then
        some (if negative then -digitsNumber digits else digitsNumber digits)
      else none

/-- A decimal number without its sign. -/
def readDecimal (text : List Char) : Option ℚ :=
  let whole := text.takeWhile Char.isDigit
  let (cents, rest) := match text.dropWhile Char.isDigit with
    | '.' :: rest => (rest.takeWhile Char.isDigit, rest.dropWhile Char.isDigit)
    | rest => ([], rest)
  if whole = [] ∧ cents = [] then none
  else (readExponent rest).map fun e : ℤ =>
    digitsNumber (whole ++ cents) * (10 : ℚ) ^ (e - (cents.length : ℤ))

/-- A number without its sign. -/
def readUnsigned (text : List Char) : Option Double :=
  let low := text.map Char.toLower
  if low = "nan".toList then some .nan
  else if low = "inf".toList ∨ low = "infinity".toList then some (.inf false)
  else (readDecimal text).map Double.nearest

/-- A number with its sign. -/
def readSigned : List Char → Option Double
  | '-' :: text => (readUnsigned text).map Double.neg
  | '+' :: text => readUnsigned text
  | text => readUnsigned text

/-- A decimal digit of any script as the one of ASCII. -/
def asciiDigit (lang : Language) (x : Char) : Char :=
  match lang.decimal x with
  | some d => Char.ofNat ('0'.toNat + d)
  | none => x

/-- `float(s)`, of a text. A text that is no number raises. -/
def readFloat (lang : Language) (s : String) : Option Double :=
  (dropUnderscores none ((strip s).toList.map (asciiDigit lang))).bind readSigned

/-- Digits, a point and an exponent are read, and what overflows is infinite. -/
example : readFloat plainLanguage " 1_2.50e1 " = some (.finite 125) := by decide +kernel

example : readFloat plainLanguage "-1e400" = some (.inf true) := by decide +kernel

end DealFinder.Feeds
