import WorkflowCondition.Numeral.Reading

/-!
# The shortest decimal of a binary64 number

A binary64 number is written with the fewest digits that read back to it, and of the decimals with
that many digits with the nearest. `shortestDecimal` finds these digits in exact arithmetic. A
`FloatFormat` says how they are laid out, and `FloatFormat.render` writes them.
-/

namespace WorkflowCondition

/-- Which of two equally near decimals is taken. -/
inductive Tie where
  | even
  | up
deriving DecidableEq, Repr

/-- A candidate on the grid of multiples of `step` for a number that lies between `low` and `high`:
the nearest of the two neighbours of `value` on the grid that lie in the interval, as a multiple of
`step`. `low` and `high` are doubled, and they belong to the interval if `closed` holds. -/
def nearestOnGrid (tie : Tie) (low value high step : Nat) (closed : Bool) : Option Nat :=
  let below := value / step
  let above := below + 1
  let inside (n : Nat) : Bool :=
    let x := 2 * (n * step)
    if closed then low ≤ x && x ≤ high else low < x && x < high
  match inside below, inside above with
  | false, false => none
  | true, false => some below
  | false, true => some above
  | true, true =>
    let down := value - below * step
    let up := above * step - value
    if down < up then some below
    else if up < down then some above
    else match tie with
      | .even => some (below + below % 2)
      | .up => some above

/-- A number without its trailing zeros, and how many they were. -/
def stripZeros (n : Nat) : Nat × Nat :=
  if _h : 0 < n ∧ n % 10 = 0 then
    let (m, k) := stripZeros (n / 10)
    (m, k + 1)
  else (n, 0)
termination_by n
decreasing_by omega

/-- All quantities of the search are scaled by `10 ^ gridScale`, so that they are natural numbers.
-/
def gridScale : Nat :=
  400

/-- The first grid that has a decimal for the magnitude numbered `code`, from the grid with
`exponent` as the decimal exponent of its step on to finer ones, `room` of them. -/
def searchGrids (tie : Tie) (code : Nat) : (room : Nat) → (exponent : Int) → Nat × Int
  | 0, exponent => (0, exponent)
  | room + 1, exponent =>
    let scale := powerOfTen gridScale
    let value := Binary64.magnitude code
    let low := (Binary64.magnitude (code - 1) + value) * scale
    let high := (value + Binary64.magnitude (code + 1)) * scale
    let step := powerOfTen (exponent + gridScale).toNat * Binary64.one
    match nearestOnGrid tie low (value * scale) high step (code % 2 == 0) with
    | some n =>
      let (digits, zeros) := stripZeros n
      (digits, exponent + zeros)
    | none => searchGrids tie code room (exponent - 1)

/-- The decimal exponent of the first digit of the magnitude numbered `code`. -/
def leadingExponent (code : Nat) : Int :=
  let scaled := Binary64.magnitude code * powerOfTen gridScale / Binary64.one
  (decimalLength scaled : Int) - 1 - gridScale

/-- The shortest decimal `digits * 10 ^ exponent` that reads back to the magnitude numbered `code`,
which is not zero. Seventeen digits are always enough. -/
def shortestDecimal (tie : Tie) (code : Nat) : Nat × Int :=
  searchGrids tie code 17 (leadingExponent code)

/-- How a number is laid out. A number whose first digit has a decimal exponent from `lowest` to
`highest` is written positionally, with at least one digit behind the point; any other is written
with an exponent. -/
structure FloatFormat where
  lowest : Int
  highest : Int
  /-- Whether a positive exponent has a plus sign. -/
  plus : Bool
  tie : Tie

/-- Digits with a point so that the first digit has the decimal exponent `leading`. -/
def positional (digits : String) (leading : Int) : String :=
  let zeros (n : Nat) : String := .ofList (List.replicate n '0')
  if leading < 0 then
    "0." ++ zeros (leading.natAbs - 1) ++ digits
  else
    let whole := leading.toNat + 1
    let cs := digits.toList
    if cs.length ≤ whole then digits ++ zeros (whole - cs.length) ++ ".0"
    else .ofList (cs.take whole) ++ "." ++ .ofList (cs.drop whole)

/-- Digits with a point behind the first one and the exponent `leading`. -/
def scientific (plus : Bool) (digits : String) (leading : Int) : String :=
  let cs := digits.toList
  let point := if cs.length ≤ 1 then "" else "."
  let sign := if plus && 0 ≤ leading then "+" else ""
  .ofList (cs.take 1) ++ point ++ .ofList (cs.drop 1) ++ "e" ++ sign ++ toString leading

namespace FloatFormat

/-- The text of a magnitude. -/
def renderCode (format : FloatFormat) (code : Nat) : String :=
  if code = 0 then "0.0"
  else
    let (n, exponent) := shortestDecimal format.tie code
    let digits := toString n
    let leading := exponent + digits.length - 1
    if format.lowest ≤ leading && leading ≤ format.highest then positional digits leading
    else scientific format.plus digits leading

/-- The text of a finite number. A zero keeps its sign. -/
def render (format : FloatFormat) (x : Binary64.Finite) : String :=
  (if x.negative then "-" else "") ++ format.renderCode x.code

end FloatFormat

end WorkflowCondition
