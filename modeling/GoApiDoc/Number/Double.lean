/-
Double precision numbers, held as their 64 bits.

A number of this format is `(-1) ^ s * m * 2 ^ q` with a significand `m < 2 ^ 53`, an infinity, or
not a number.  Holding the bits makes equality of schemas decidable and keeps the two zeros and the
non-numbers apart; every rule that matters here is exact arithmetic on `m` and `q`.

* `Double.significand`, `Double.exponent` — the two parts of a finite number;
* `Double.ofRatio` — the nearest number to a fraction, ties to the even significand;
* `Double.ofInt`, `Double.truncated` — from and to the integers;
* `Double.isIntegral` — no fractional part.
-/

set_option autoImplicit false

namespace GoApiDoc

/-- A double precision number. -/
structure Double where
  bits : UInt64
deriving DecidableEq

namespace Double

/-! ### Parts -/

def isNegative (x : Double) : Bool := x.bits.toNat / Nat.pow 2 63 == 1

def biased (x : Double) : Nat := x.bits.toNat / Nat.pow 2 52 % Nat.pow 2 11

def fraction (x : Double) : Nat := x.bits.toNat % Nat.pow 2 52

def isFinite (x : Double) : Bool := x.biased != 2047

def isNaN (x : Double) : Bool := x.biased == 2047 && x.fraction != 0

/-- The significand `m` of a finite number. -/
def significand (x : Double) : Nat :=
  if x.biased = 0 then x.fraction else Nat.pow 2 52 + x.fraction

/-- The exponent `q` of a finite number. -/
def exponent (x : Double) : Int :=
  if x.biased = 0 then -1074 else (x.biased : Int) - 1075

/-! ### Rounding -/

/-- `num / den` rounded to the nearest natural number, ties to the even one. -/
def roundDiv (num den : Nat) : Nat :=
  let q := num / den
  let r := num % den
  if 2 * r < den then q
  else if den < 2 * r then q + 1
  else if q % 2 = 0 then q else q + 1

/-- The exponent of the last binary place of the number next to `num / den`. -/
def placeOf (num den : Nat) : Int :=
  let guess : Int := (num.log2 : Int) - den.log2
  let reaches := den * Nat.pow 2 guess.toNat ≤ num * Nat.pow 2 (-guess).toNat
  let top := if reaches then guess else guess - 1
  max (-1074) (top - 52)

/-- The bits of the non-negative number nearest to `num / den`; too large a fraction gives the bits
of infinity. -/
def ratioBits (num den : Nat) : Nat :=
  if num = 0 then 0
  else
    let q := placeOf num den
    let m := roundDiv (num * Nat.pow 2 (-q).toNat) (den * Nat.pow 2 q.toNat)
    let bits :=
      if m < Nat.pow 2 52 then m else (q + 1075).toNat * Nat.pow 2 52 + (m - Nat.pow 2 52)
    min bits (2047 * Nat.pow 2 52)

def withSign (negative : Bool) (bits : Nat) : Double :=
  ⟨UInt64.ofNat (if negative then bits + Nat.pow 2 63 else bits)⟩

/-- The number nearest to `num / den`, with the given sign. -/
def ofRatio (negative : Bool) (num den : Nat) : Double := withSign negative (ratioBits num den)

def infinity (negative : Bool) : Double := withSign negative (2047 * Nat.pow 2 52)

def nan (negative : Bool) : Double := withSign negative (2047 * Nat.pow 2 52 + Nat.pow 2 51)

def ofInt (i : Int) : Double := ofRatio (decide (i < 0)) i.natAbs 1

/-! ### Integers among the numbers -/

/-- The number has no fractional part; infinities and non-numbers do not count. -/
def isIntegral (x : Double) : Bool :=
  x.isFinite && (0 ≤ x.exponent || x.significand % Nat.pow 2 (-x.exponent).toNat == 0)

def truncated (x : Double) : Int :=
  let magnitude : Nat :=
    x.significand * Nat.pow 2 x.exponent.toNat / Nat.pow 2 (-x.exponent).toNat
  if x.isNegative then -magnitude else magnitude

/-! ### Arithmetic -/

def toFloat (x : Double) : Float := Float.ofBits x.bits

def ofFloat (x : Float) : Double := ⟨x.toBits⟩

def neg (x : Double) : Double :=
  withSign (!x.isNegative) (x.bits.toNat % Nat.pow 2 63)

def add (x y : Double) : Double := ofFloat (x.toFloat + y.toFloat)

def sub (x y : Double) : Double := ofFloat (x.toFloat - y.toFloat)

def mul (x y : Double) : Double := ofFloat (x.toFloat * y.toFloat)

def div (x y : Double) : Double := ofFloat (x.toFloat / y.toFloat)

def isZero (x : Double) : Bool := x.bits.toNat % Nat.pow 2 63 == 0

/-- The place of a number in the order, where the two zeros are one; non-numbers have none. -/
def orderKey (x : Double) : Int :=
  let magnitude : Nat := x.bits.toNat % Nat.pow 2 63
  if x.isNegative then -magnitude else magnitude

/-- Comparison; there is none with a non-number. -/
def compare? (x y : Double) : Option Ordering :=
  if x.isNaN || y.isNaN then none else some (compare x.orderKey y.orderKey)

end Double

end GoApiDoc
