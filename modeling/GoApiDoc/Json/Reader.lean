/-
Reading JSON.

The reader is a recursive descent over the characters.  Its fuel is the length of the text, which is
enough because every call consumes a character.  Two modes exist: a value that is kept is read
strictly, with its nesting bounded, its numbers in range and its surrogates paired, whereas a value
that is passed over only has to be well formed.

* `Json.Mode` — the two modes;
* `Json.readString`, `Json.readValue` — a string and a value at the beginning of a text;
* `Json.parse?` — a whole text as one canonical value;
* `Json.ofText` — the same, a text that is not JSON being a string.
-/

import GoApiDoc.Json.Value
import GoApiDoc.Number.Reading

set_option autoImplicit false

namespace GoApiDoc.Json

/-- How carefully a value is read. -/
inductive Mode where
  | keep
  | skip
deriving DecidableEq

/-! ### White space and literals -/

def isSpace (c : Char) : Bool := c == ' ' || c == '\n' || c == '\t' || c == '\r'

/-- The text from its first character that is not white space. -/
def skipSpace (cs : List Char) : List Char := cs.dropWhile isSpace

def expect (lit : List Char) (cs : List Char) : Option (List Char) :=
  match lit, cs with
  | [], cs => some cs
  | _ :: _, [] => none
  | a :: lit, c :: cs => if a = c then expect lit cs else none

/-! ### Strings -/

def readHex4 : List Char → Option (Nat × List Char)
  | a :: b :: c :: d :: cs => (Number.readDigits 16 0 [a, b, c, d]).map fun n => (n, cs)
  | _ => none

def isHighSurrogate (n : Nat) : Bool := 0xD800 ≤ n && n ≤ 0xDBFF

def isLowSurrogate (n : Nat) : Bool := 0xDC00 ≤ n && n ≤ 0xDFFF

/-- The character after a backslash and `u`, and the rest.  A value that is passed over may hold
unpaired surrogates. -/
def readUnicode (mode : Mode) (cs : List Char) : Option (Char × List Char) :=
  match readHex4 cs with
  | none => none
  | some (n, rest) =>
    if isHighSurrogate n || isLowSurrogate n then
      match mode with
      | .skip => some ('?', rest)
      | .keep =>
        if isLowSurrogate n then none
        else
          match rest with
          | '\\' :: 'u' :: rest' =>
            match readHex4 rest' with
            | some (m, rest'') =>
              if isLowSurrogate m then
                some (Char.ofNat (0x10000 + (n - 0xD800) * 0x400 + (m - 0xDC00)), rest'')
              else none
            | none => none
          | _ => none
    else some (Char.ofNat n, rest)

def simpleEscape? (c : Char) : Option Char :=
  match c with
  | '"' => some '"'
  | '\\' => some '\\'
  | '/' => some '/'
  | 'b' => some '\x08'
  | 'f' => some '\x0c'
  | 'n' => some '\n'
  | 'r' => some '\r'
  | 't' => some '\t'
  | _ => none

/-- The rest of a string after its opening quote; `acc` holds the characters read, backwards. -/
def readStringFrom (mode : Mode) (acc : List Char) : Nat → List Char → Option (String × List Char)
  | 0, _ => none
  | _, [] => none
  | fuel + 1, c :: cs =>
    if c == '"' then some (String.ofList acc.reverse, cs)
    else if c == '\\' then
      match cs with
      | [] => none
      | e :: rest =>
        match simpleEscape? e with
        | some d => readStringFrom mode (d :: acc) fuel rest
        | none =>
          if e == 'u' then
            match readUnicode mode rest with
            | some (d, rest') => readStringFrom mode (d :: acc) fuel rest'
            | none => none
          else none
    else if c.toNat < 32 then none
    else readStringFrom mode (c :: acc) fuel cs

/-- A string at the beginning of the text, its opening quote included. -/
def readString (mode : Mode) : List Char → Option (String × List Char)
  | '"' :: cs => readStringFrom mode [] (cs.length + 1) cs
  | _ => none

/-! ### Numbers -/

def maxWord : Nat := Nat.pow 2 64 - 1

/-- Digits appended to `value` as long as the result fits a word: the value reached, the number of
digits taken, and the rest. -/
def takeDigits (value count : Nat) : List Char → Nat × Nat × List Char
  | [] => (value, count, [])
  | c :: cs =>
    if c.isDigit then
      let next := value * 10 + (c.toNat - '0'.toNat)
      if maxWord < next then (value, count, c :: cs) else takeDigits next (count + 1) cs
    else (value, count, c :: cs)

/-- `significand * 10 ^ power` by one rounded multiplication or division, or several divisions when
the power is out of the range of the format.  Overflow is an error. -/
def scaleBy (significand : Double) : Nat → Int → Option Double
  | 0, _ => some significand
  | fuel + 1, power =>
    if power.natAbs ≤ 308 then
      let ten := Number.scaled false 1 power.natAbs
      if 0 ≤ power then
        let x := significand.mul ten
        if x.isFinite then some x else none
      else some (significand.div ten)
    else if significand.isZero then some significand
    else if 0 ≤ power then none
    else scaleBy (significand.div (Number.scaled false 1 308)) fuel (power + 308)

/-- A number from its sign, a significand of at most 64 bits and a power of ten; a number that is
passed over is not computed. -/
def ofParts (mode : Mode) (negative : Bool) (significand : Nat) (power : Int) : Option Json :=
  match mode with
  | .skip => some null
  | .keep =>
    match scaleBy (Double.ofInt significand) 8 power with
    | some x => some (double (if negative then x.neg else x))
    | none => none

/-- The bound on a written exponent, beyond which its digits are no longer counted. -/
def maxExponent : Nat := Nat.pow 2 31 - 1

/-- The number whose exponent mark has just been read, and the rest. -/
def readExponentPart (mode : Mode) (negative : Bool) (significand : Nat) (power : Int)
    (cs : List Char) : Option (Json × List Char) :=
  let (minus, cs) := Number.readSign cs
  let (digits, rest) := Number.spanDigits cs
  if digits.isEmpty then none
  else
    let e := Number.digitsValue digits
    if mode = .keep ∧ maxExponent < e then
      if significand ≠ 0 ∧ !minus then none
      else some (double (Double.ofRatio negative 0 1), rest)
    else
      (ofParts mode negative significand (if minus then power - e else power + e)).map
        fun v => (v, rest)

def readAfterDigits (mode : Mode) (negative : Bool) (significand : Nat) (power : Int)
    (cs : List Char) : Option (Json × List Char) :=
  match cs with
  | c :: rest =>
    if c == 'e' || c == 'E' then readExponentPart mode negative significand power rest
    else (ofParts mode negative significand power).map fun v => (v, cs)
  | [] => (ofParts mode negative significand power).map fun v => (v, cs)

/-- The number whose decimal point has just been read, and the rest.  Digits beyond the capacity of
the significand are dropped. -/
def readFraction (mode : Mode) (negative : Bool) (significand : Nat) (power : Int)
    (cs : List Char) : Option (Json × List Char) :=
  let (digits, count, rest) := takeDigits significand 0 cs
  if count = 0 ∧ !(match rest with | c :: _ => c.isDigit | [] => false) then none
  else
    readAfterDigits mode negative digits (power - count) (rest.dropWhile Char.isDigit)

def ofDigits (negative : Bool) (n : Nat) : Json :=
  if !negative then int n
  else if n = 0 ∨ Nat.pow 2 63 < n then double (Double.ofInt n).neg
  else int (-n)

def readNumber (mode : Mode) (cs : List Char) : Option (Json × List Char) :=
  let (negative, cs) := match cs with
    | '-' :: rest => (true, rest)
    | cs => (false, cs)
  match cs with
  | [] => none
  | c :: rest =>
    if !c.isDigit then none
    else if c == '0' && (match rest with | d :: _ => d.isDigit | [] => false) then none
    else
      let (n, _, after) := takeDigits 0 0 cs
      let extra := after.takeWhile Char.isDigit
      let after := after.dropWhile Char.isDigit
      match after with
      | '.' :: more => readFraction mode negative n extra.length more
      | d :: more =>
        if d == 'e' || d == 'E' then readExponentPart mode negative n extra.length more
        else if extra.isEmpty then some (ofDigits negative n, after)
        else (ofParts mode negative n extra.length).map fun v => (v, after)
      | [] =>
        if extra.isEmpty then some (ofDigits negative n, after)
        else (ofParts mode negative n extra.length).map fun v => (v, after)

/-! ### Values -/

def depthLimit : Nat := 128

mutual

/-- A value at the beginning of the text, `depth` levels deep. -/
def readValue (mode : Mode) (depth : Nat) : Nat → List Char → Option (Json × List Char)
  | 0, _ => none
  | fuel + 1, cs =>
    match skipSpace cs with
    | [] => none
    | c :: rest =>
      if c == '"' then (readString mode (c :: rest)).map fun (s, r) => (str s, r)
      else if c == '\x7b' then
        if mode = .keep ∧ depthLimit ≤ depth + 1 then none
        else
          match skipSpace rest with
          | '\x7d' :: r => some (obj [], r)
          | r => (readMembers mode (depth + 1) fuel r).map fun (ms, r) => (obj ms, r)
      else if c == '[' then
        if mode = .keep ∧ depthLimit ≤ depth + 1 then none
        else
          match skipSpace rest with
          | ']' :: r => some (arr [], r)
          | r => (readItems mode (depth + 1) fuel r).map fun (vs, r) => (arr vs, r)
      else if c == 'n' then (expect "ull".toList rest).map fun r => (null, r)
      else if c == 't' then (expect "rue".toList rest).map fun r => (bool true, r)
      else if c == 'f' then (expect "alse".toList rest).map fun r => (bool false, r)
      else readNumber mode (c :: rest)

/-- The items of an array up to and including its closing bracket. -/
def readItems (mode : Mode) (depth : Nat) : Nat → List Char → Option (List Json × List Char)
  | 0, _ => none
  | fuel + 1, cs =>
    match readValue mode depth fuel cs with
    | none => none
    | some (v, r) =>
      match skipSpace r with
      | ',' :: r => (readItems mode depth fuel r).map fun (vs, r) => (v :: vs, r)
      | ']' :: r => some ([v], r)
      | _ => none

/-- The members of an object up to and including its closing brace. -/
def readMembers (mode : Mode) (depth : Nat) :
    Nat → List Char → Option (List (String × Json) × List Char)
  | 0, _ => none
  | fuel + 1, cs =>
    match readString mode (skipSpace cs) with
    | none => none
    | some (k, r) =>
      match skipSpace r with
      | ':' :: r =>
        match readValue mode depth fuel r with
        | none => none
        | some (v, r) =>
          match skipSpace r with
          | ',' :: r => (readMembers mode depth fuel r).map fun (ms, r) => ((k, v) :: ms, r)
          | '\x7d' :: r => some ([(k, v)], r)
          | _ => none
      | _ => none

end

def fuelFor (cs : List Char) : Nat := 2 * cs.length + 2

def parse? (s : String) : Option Json :=
  let cs := s.toList
  match readValue .keep 0 (fuelFor cs) cs with
  | some (v, rest) => if (skipSpace rest).isEmpty then some v.canonical else none
  | none => none

/-- The value written in a text, or the text itself if it is not JSON. -/
def ofText (s : String) : Json := (parse? s).getD (.str s)

end GoApiDoc.Json
