import WorkflowCondition.Binary64.Rounding

/-!
# Reading numerals

The two readers of number texts: `readInteger?` for integers of 64 bits and `readBinary64?` for
binary64 numbers. Both take an optional sign and ASCII digits and refuse a text with anything left
over. A decimal is read exactly and rounded once.
-/

namespace WorkflowCondition

/-- The value of decimal digits, the most significant first. -/
def decimalValue (digits : List Char) : Nat :=
  digits.foldl (fun n c => 10 * n + (c.toNat - '0'.toNat)) 0

/-- A text of digits alone, and at least one of them. -/
def isDigits (cs : List Char) : Bool :=
  !cs.isEmpty && cs.all Char.isDigit

/-- Whether a minus sign stands in front, and what follows the sign, if there is one. -/
def splitSign : List Char → Bool × List Char
  | '-' :: rest => (true, rest)
  | '+' :: rest => (false, rest)
  | cs => (false, cs)

/-- The integer that a sign and digits stand for. -/
def integerValue? (cs : List Char) : Option Int :=
  let (negative, digits) := splitSign cs
  if isDigits digits then
    some (if negative then -(decimalValue digits : Int) else decimalValue digits)
  else none

/-- An integer numeral, refused outside of the 64-bit range. -/
def readInteger? (s : String) : Option Int64 :=
  match integerValue? s.toList with
  | some n =>
    if h : Int64.minValue.toInt ≤ n ∧ n ≤ Int64.maxValue.toInt then
      some (Int64.ofIntLE n h.1 h.2)
    else none
  | none => none

/-- The exponent part of a decimal; where there is none the exponent is zero. -/
def exponent? : List Char → Option Int
  | [] => some 0
  | c :: rest => if c = 'e' || c = 'E' then integerValue? rest else none

/-- A decimal without sign as `digits * 10 ^ exponent`. Digits may be missing on one side of the
point, not on both. -/
def decimal? (cs : List Char) : Option (Nat × Int) :=
  let whole := cs.takeWhile Char.isDigit
  let rest := cs.dropWhile Char.isDigit
  let (fraction, rest) :=
    match rest with
    | '.' :: rest => (rest.takeWhile Char.isDigit, rest.dropWhile Char.isDigit)
    | rest => ([], rest)
  if whole.isEmpty && fraction.isEmpty then none
  else (exponent? rest).map fun e => (decimalValue (whole ++ fraction), e - fraction.length)

/-- Ten to the power `n`. -/
def powerOfTen (n : Nat) : Nat :=
  Nat.pow 10 n

/-- How many decimal digits a number is written with. -/
def decimalLength (n : Nat) : Nat :=
  (Nat.toDigits 10 n).length

namespace Binary64

/-- The code nearest to `digits * 10 ^ exponent`. A number of at least `10 ^ 400` is out of range
and one below `10 ^ -400` is zero, so the powers that are computed stay small. -/
def nearestDecimal (digits : Nat) (exponent : Int) : Nat :=
  let size := exponent + decimalLength digits
  if digits = 0 || size < -400 then 0
  else if 400 < size then infinityCode
  else if 0 ≤ exponent then nearestCode (digits * powerOfTen exponent.toNat * one) 1
  else nearestCode (digits * one) (powerOfTen exponent.natAbs)

end Binary64

/-- The texts, in any case, that stand for what is no decimal. -/
def specialBinary64? (negative : Bool) (cs : List Char) : Option Binary64 :=
  let name := String.ofList (cs.map Char.toLower)
  if name = "inf" || name = "infinity" then some (.infinite negative)
  else if name = "nan" then some .nan
  else none

/-- A binary64 numeral. One out of range is infinite. -/
def readBinary64? (s : String) : Option Binary64 :=
  let (negative, cs) := splitSign s.toList
  match decimal? cs with
  | some (digits, exponent) =>
    some (Binary64.ofCode negative (Binary64.nearestDecimal digits exponent))
  | none => specialBinary64? negative cs

end WorkflowCondition
