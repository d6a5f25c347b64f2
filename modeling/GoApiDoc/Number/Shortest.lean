/-
Shortest decimals: the fewest digits that read back as a given double precision number.

The reals that round to `m * 2 ^ q` form an interval around it, which contains its ends exactly
when `m` is even.  For one digit, two digits and so on up to seventeen, the two neighbours of the
number on the decimal grid of that many digits are tested against the interval; the first grid with
a hit wins, and of two hits the nearer one, the even one on a tie.

* `Decimal` — digits and a power of ten;
* `Double.shortest` — the decimal of a finite number other than zero;
* `NumberStyle`, `Double.render` — how a format lays the digits out.
-/

import GoApiDoc.Number.Double

set_option autoImplicit false

namespace GoApiDoc

/-- The decimal `digits * 10 ^ power`. -/
structure Decimal where
  digits : Nat
  power : Int
deriving DecidableEq

namespace Double

/-! ### The interval of a number -/

/-- The number with the interval that rounds to it, in units of `2 ^ (q - 2)`. -/
structure Interval where
  low : Nat
  mid : Nat
  high : Nat
  closed : Bool
  place : Int

/-- The interval of a finite number.  Below a power of two the spacing is halved. -/
def interval (x : Double) : Interval :=
  let m := x.significand
  let below := if m = Nat.pow 2 52 ∧ 1 < x.biased then 1 else 2
  { low := 4 * m - below
    mid := 4 * m
    high := 4 * m + 2
    closed := m % 2 == 0
    place := x.exponent - 2 }

/-- The factors that bring the unit `10 ^ s` and the unit `2 ^ place` to a common measure. -/
def Interval.scale (i : Interval) (s : Int) : Nat × Nat :=
  (Nat.pow 10 s.toNat * Nat.pow 2 (-i.place).toNat,
    Nat.pow 10 (-s).toNat * Nat.pow 2 i.place.toNat)

/-- The decimal `c * 10 ^ s` lies in the interval. -/
def Interval.holds (i : Interval) (s : Int) (c : Nat) : Bool :=
  let (a, b) := i.scale s
  if i.closed then i.low * b ≤ c * a && c * a ≤ i.high * b
  else i.low * b < c * a && c * a < i.high * b

/-- The decimal of the number on the grid of step `10 ^ s`, if the grid meets the interval. -/
def Interval.onGrid (i : Interval) (s : Int) : Option Decimal :=
  let (a, b) := i.scale s
  let c := i.mid * b / a
  let r := i.mid * b % a
  let down : Decimal := ⟨c, s⟩
  let up : Decimal := ⟨c + 1, s⟩
  match c != 0 && i.holds s c, i.holds s (c + 1) with
  | true, true =>
    if 2 * r < a then some down
    else if a < 2 * r then some up
    else if c % 2 = 0 then some down else some up
  | true, false => some down
  | false, true => some up
  | false, false => none

/-- The power of ten of the leading digit of a finite number other than zero. -/
def leadingPower (x : Double) : Int :=
  let reached (p : Int) : Bool :=
    Nat.pow 10 p.toNat * Nat.pow 2 (-x.exponent).toNat ≤
      x.significand * Nat.pow 2 x.exponent.toNat * Nat.pow 10 (-p).toNat
  let guess := ((x.significand.log2 : Int) + x.exponent) * 30103 / 100000
  if reached (guess + 1) then guess + 1 else if reached guess then guess else guess - 1

/-- Moves trailing zeros of the digits into the power, at most `fuel` of them. -/
def dropZeros : Nat → Decimal → Decimal
  | 0, d => d
  | fuel + 1, d =>
    if d.digits != 0 && d.digits % 10 == 0 then dropZeros fuel ⟨d.digits / 10, d.power + 1⟩ else d

/-- The first hit on the grids of `k` digits and more, with `fuel` grids left to try. -/
def searchGrids (i : Interval) (leading : Int) (k : Nat) : Nat → Decimal
  | 0 => ⟨i.mid, 0⟩
  | fuel + 1 =>
    match i.onGrid (leading - k + 1) with
    | some d => dropZeros 20 d
    | none => searchGrids i leading (k + 1) fuel

/-- The shortest decimal that reads back as a finite number other than zero, without its sign. -/
def shortest (x : Double) : Decimal := searchGrids x.interval x.leadingPower 1 17

end Double

/-! ### Layout -/

/-- How a text format writes double precision numbers. -/
structure NumberStyle where
  plus : String
  notANumber : String
  infinite : String
  negativeInfinite : String

/-- The digits of a decimal with a point after the first `k` of them, `k` being positive and less
than their number. -/
def pointAfter (k : Nat) (digits : List Char) : List Char :=
  digits.take k ++ '.' :: digits.drop k

/-- A decimal in positional notation from one hundred-thousandth up to sixteen digits before the
point, and with an exponent elsewhere. -/
def Decimal.layout (style : NumberStyle) (d : Decimal) : List Char :=
  let digits := Nat.toDigits 10 d.digits
  let point : Int := (digits.length : Int) + d.power
  if 0 ≤ d.power ∧ point ≤ 16 then digits ++ List.replicate d.power.toNat '0' ++ ['.', '0']
  else if 0 < point ∧ point ≤ 16 then pointAfter point.toNat digits
  else if -5 < point ∧ point ≤ 0 then
    ['0', '.'] ++ List.replicate (-point).toNat '0' ++ digits
  else
    let mantissa := if digits.length = 1 then digits else pointAfter 1 digits
    let e := point - 1
    let sign := if e < 0 then ['-'] else style.plus.toList
    mantissa ++ 'e' :: sign ++ Nat.toDigits 10 e.natAbs

def Double.render (style : NumberStyle) (x : Double) : String :=
  if x.isNaN then style.notANumber
  else if !x.isFinite then
    if x.isNegative then style.negativeInfinite else style.infinite
  else
    let body := if x.isZero then ['0', '.', '0'] else x.shortest.layout style
    String.ofList (if x.isNegative then '-' :: body else body)

end GoApiDoc
