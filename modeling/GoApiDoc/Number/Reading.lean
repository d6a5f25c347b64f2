/-
Reading numbers from text.

* `Number.readIntIn?`, `Number.readNatIn?` — an integer within bounds, with or without a sign, in any
  base;
* `Number.readInt64?` — a decimal integer of 64 bits;
* `Number.readDouble?` — a decimal fraction, rounded to double precision.
-/

import GoApiDoc.Number.Double

set_option autoImplicit false

namespace GoApiDoc.Number

/-! ### Digits -/

def digitValue? (c : Char) : Option Nat :=
  if '0' ≤ c ∧ c ≤ '9' then some (c.toNat - '0'.toNat)
  else if 'a' ≤ c ∧ c ≤ 'z' then some (c.toNat - 'a'.toNat + 10)
  else if 'A' ≤ c ∧ c ≤ 'Z' then some (c.toNat - 'A'.toNat + 10)
  else none

/-- The value of digits in base `radix` that continue a number with value `value`. -/
def readDigits (radix : Nat) (value : Nat) : List Char → Option Nat
  | [] => some value
  | c :: cs =>
    match digitValue? c with
    | some d => if d < radix then readDigits radix (value * radix + d) cs else none
    | none => none

/-- A number in base `radix` with at least one digit. -/
def readNat? (radix : Nat) : List Char → Option Nat
  | [] => none
  | c :: cs => readDigits radix 0 (c :: cs)

/-! ### Integers -/

/-- An optional sign and the rest; the sign is `true` when negative. -/
def readSign : List Char → Bool × List Char
  | '+' :: cs => (false, cs)
  | '-' :: cs => (true, cs)
  | cs => (false, cs)

/-- A signed number in base `radix` between `low` and `high`. -/
def readIntIn? (radix : Nat) (low high : Int) (cs : List Char) : Option Int :=
  let (negative, digits) := readSign cs
  match readNat? radix digits with
  | some n =>
    let i : Int := if negative then -n else n
    if low ≤ i ∧ i ≤ high then some i else none
  | none => none

/-- A number without a minus sign in base `radix`, at most `high`. -/
def readNatIn? (radix : Nat) (high : Nat) (cs : List Char) : Option Nat :=
  let digits := match cs with
    | '+' :: rest => rest
    | cs => cs
  match readNat? radix digits with
  | some n => if n ≤ high then some n else none
  | none => none

def minInt64 : Int := -(Int.pow 2 63)

def maxInt64 : Int := Int.pow 2 63 - 1

def readInt64? (s : String) : Option Int := readIntIn? 10 minInt64 maxInt64 s.toList

/-! ### Fractions -/

def spanDigits (cs : List Char) : List Char × List Char :=
  (cs.takeWhile Char.isDigit, cs.dropWhile Char.isDigit)

def digitsValue (cs : List Char) : Nat :=
  cs.foldl (fun n c => n * 10 + (c.toNat - '0'.toNat)) 0

/-- The number `digits * 10 ^ power` rounded; powers beyond the range of the format are not
expanded. -/
def scaled (negative : Bool) (digits : Nat) (power : Int) : Double :=
  if digits = 0 then Double.ofRatio negative 0 1
  else
    let size : Int := (Nat.toDigits 10 digits).length + power
    if 400 < size then Double.infinity negative
    else if size < -400 then Double.ofRatio negative 0 1
    else Double.ofRatio negative (digits * Nat.pow 10 power.toNat) (Nat.pow 10 (-power).toNat)

/-- The exponent at the end of a decimal: nothing, or a mark, an optional sign and digits. -/
def readExponent? : List Char → Option Int
  | [] => some 0
  | c :: cs =>
    if c == 'e' || c == 'E' then
      let (negative, digits) := readSign cs
      match readNat? 10 digits with
      | some n => some (if negative then -n else n)
      | none => none
    else none

/-- A decimal fraction without sign: digits with at most one point among, before or after them,
and an exponent. -/
def readUnsigned? (negative : Bool) (cs : List Char) : Option Double :=
  let (whole, rest) := spanDigits cs
  let (part, rest) := match rest with
    | '.' :: rest => spanDigits rest
    | rest => ([], rest)
  if whole.isEmpty && part.isEmpty then none
  else
    match readExponent? rest with
    | some e => some (scaled negative (digitsValue (whole ++ part)) (e - part.length))
    | none => none

/-- A number with an optional sign: a decimal fraction, or infinity or a non-number by name in any
letter case. -/
def readDouble? (s : String) : Option Double :=
  let (negative, cs) := readSign s.toList
  let name := String.ofList (cs.map Char.toLower)
  if name = "inf" ∨ name = "infinity" then some (Double.infinity negative)
  else if name = "nan" then some (Double.nan negative)
  else readUnsigned? negative cs

end GoApiDoc.Number
