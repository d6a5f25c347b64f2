/-
Strings in YAML.

A string can be written in four styles.  The plain style has no marks around it, so it is only used
where the text is not mistaken for another value or for the structure of the document; single
quotes hold everything printable, double quotes hold everything; and a block holds lines.

* `Yaml.isReserved` — texts that denote another value when they are plain;
* `Yaml.isPlain`, `Yaml.isQuotable`, `Yaml.isBlock` — what the first three styles can hold;
* `Yaml.Style.of` — the style of a string;
* `Yaml.scalarText` — the string in its style.
-/

import GoApiDoc.Number.Reading
import GoApiDoc.Text.Split

set_option autoImplicit false

namespace GoApiDoc.Yaml

/-! ### Characters -/

def isBreak (c : Char) : Bool :=
  let n := c.toNat
  n == 0x0A || n == 0x0D || n == 0x85 || n == 0x2028 || n == 0x2029

/-- A character that can stand for itself: a line feed, the visible ones of ASCII, and what lies
beyond the control characters above them, without the byte order mark and the two non-characters
that end the first plane. -/
def isPrintable (c : Char) : Bool :=
  let n := c.toNat
  n == 0x0A || (0x20 ≤ n && n ≤ 0x7E) ||
    (0xA0 ≤ n && n != 0xFEFF && n != 0xFFFE && n != 0xFFFF)

/-- Two neighbours of which the first satisfies `p` and the second `q`. -/
def hasPair (p q : Char → Bool) : List Char → Bool
  | c :: d :: cs => (p c && q d) || hasPair p q (d :: cs)
  | _ => false

/-! ### Texts that denote other values -/

def readMarked? : List Char → Option Nat
  | '0' :: 'x' :: digits => Number.readNat? 16 digits
  | '0' :: 'o' :: digits => Number.readNat? 8 digits
  | '0' :: 'b' :: digits => Number.readNat? 2 digits
  | _ => none

/-- An integer of at most 128 bits after the mark of its base. -/
def isMarkedInteger (cs : List Char) : Bool :=
  match cs with
  | '-' :: rest => (readMarked? rest).any fun n => n ≤ Nat.pow 2 127
  | '+' :: rest => (readMarked? rest).any fun n => n < Nat.pow 2 128
  | cs => (readMarked? cs).any fun n => n < Nat.pow 2 128

def isSpecialNumber (s : String) : Bool :=
  [".inf", ".Inf", ".INF", "+.inf", "+.Inf", "+.INF", "-.inf", "-.Inf", "-.INF",
    ".nan", ".NaN", ".NAN"].contains s

def isDecimal (s : String) : Bool :=
  !Text.hasPrefix "++" s && !Text.hasPrefix "+-" s &&
    (Number.readDouble? s).any fun x => x.isFinite

/-- Digits of which the first of several is a zero. -/
def isPaddedDigits (cs : List Char) : Bool :=
  match (Number.readSign cs).2 with
  | '0' :: d :: digits => (d :: digits).all Char.isDigit
  | _ => false

/-- The text denotes null, a truth value or a number when it is plain, or looks like a number. -/
def isReserved (s : String) : Bool :=
  ["", "~", "null", "Null", "NULL", "true", "True", "TRUE", "false", "False", "FALSE"].contains s ||
    isMarkedInteger s.toList || isDecimal s || isSpecialNumber s || isPaddedDigits s.toList

/-! ### What the styles can hold -/

/-- A character that gives a plain text another meaning when it is the first. -/
def isIndicator (c : Char) : Bool := "#,[]\x7b\x7d&*!|>'\"%@\x60".toList.contains c

def hasKeyMark : List Char → Bool
  | [] => false
  | [c] => c == ':'
  | c :: d :: cs => (c == ':' && d == ' ') || hasKeyMark (d :: cs)

/-- The beginning of the text has another meaning: an indicator, a mark between documents, or a mark
of an item or a key. -/
def hasLeadingMark (cs : List Char) : Bool :=
  match cs with
  | '-' :: '-' :: '-' :: _ => true
  | '.' :: '.' :: '.' :: _ => true
  | ['-'] => true
  | '-' :: ' ' :: _ => true
  | ['?'] => true
  | '?' :: ' ' :: _ => true
  | c :: _ => isIndicator c
  | [] => false

def hasOuterSpace (cs : List Char) : Bool := cs.head? == some ' ' || cs.getLast? == some ' '

def isPlain (cs : List Char) : Bool :=
  cs.all isPrintable && !cs.any isBreak && !hasOuterSpace cs && !hasLeadingMark cs &&
    !hasKeyMark cs && !hasPair (· == ' ') (· == '#') cs

/-- Single quotes can hold the text: all of it is printable, and no space stands at a line end. -/
def isQuotable (cs : List Char) : Bool :=
  cs.all isPrintable && !hasPair (· == ' ') isBreak cs && !hasPair isBreak (· == ' ') cs

/-- A block can hold the text: all of it is printable, and no line ends with a space. -/
def isBlock (cs : List Char) : Bool :=
  cs.all isPrintable && !hasPair (· == ' ') isBreak cs && cs.getLast? != some ' '

/-- How a string is written. -/
inductive Style where
  | plain
  | single
  | double
  | block
deriving DecidableEq

/-- The style of a string: a block for several lines, the plain style where it is admitted, or else
the simplest quotes. -/
def Style.of (s : String) : Style :=
  let cs := s.toList
  if cs.contains '\n' then (if isBlock cs then block else double)
  else if !isReserved s && isPlain cs then plain
  else if isQuotable cs then single
  else double

/-! ### Texts of the styles -/

def pad (indent : Nat) : List Char := List.replicate indent ' '

/-- The text within single quotes; lines after the first are indented. -/
def singleBody (indent : Nat) (lineStart : Bool) : List Char → List Char
  | [] => if lineStart then pad indent else []
  | c :: cs =>
    if isBreak c then c :: singleBody indent true cs
    else
      (if lineStart then pad indent else []) ++ (if c == '\'' then ['\'', '\''] else [c]) ++
        singleBody indent false cs

/-- A number in upper-case hexadecimal digits, at least `width` of them. -/
def hexDigits (width n : Nat) : List Char :=
  let digits := (Nat.toDigits 16 n).map Char.toUpper
  List.replicate (width - digits.length) '0' ++ digits

/-- What follows the backslash of a character that has an escape of its own. -/
def shortEscape? (c : Char) : Option Char :=
  match c.toNat with
  | 0x00 => some '0'
  | 0x07 => some 'a'
  | 0x08 => some 'b'
  | 0x09 => some 't'
  | 0x0A => some 'n'
  | 0x0B => some 'v'
  | 0x0C => some 'f'
  | 0x0D => some 'r'
  | 0x1B => some 'e'
  | 0x22 => some '"'
  | 0x5C => some '\\'
  | 0x85 => some 'N'
  | 0x2028 => some 'L'
  | 0x2029 => some 'P'
  | _ => none

def doubleChar (c : Char) : List Char :=
  match shortEscape? c with
  | some d => ['\\', d]
  | none =>
    if isPrintable c then [c]
    else if c.toNat ≤ 0xFF then '\\' :: 'x' :: hexDigits 2 c.toNat
    else if c.toNat ≤ 0xFFFF then '\\' :: 'u' :: hexDigits 4 c.toNat
    else '\\' :: 'U' :: hexDigits 8 c.toNat

/-- The lines of a block, each indented unless it is empty. -/
def blockBody (indent : Nat) (lineStart : Bool) : List Char → List Char
  | [] => if lineStart then [] else ['\n']
  | c :: cs =>
    if isBreak c then c :: blockBody indent true cs
    else (if lineStart then pad indent else []) ++ c :: blockBody indent false cs

/-- How a block keeps the end of its last line: one end is the rule. -/
def chomping (cs : List Char) : List Char :=
  match cs.reverse with
  | [] => ['-']
  | [c] => if isBreak c then ['+'] else ['-']
  | c :: d :: _ => if isBreak c then (if isBreak d then ['+'] else []) else ['-']

/-- The indentation of a block, given if its first line does not show it. -/
def indentHint (cs : List Char) : List Char :=
  match cs with
  | c :: _ => if c == ' ' || isBreak c then ['2'] else []
  | [] => []

/-- The string in its style, up to the end of its last line, where lines after the first are
indented. -/
def scalarChars (indent : Nat) (s : String) : List Char :=
  let cs := s.toList
  match Style.of s with
  | .plain => cs ++ ['\n']
  | .single => '\'' :: singleBody indent false cs ++ ['\'', '\n']
  | .double => '"' :: cs.flatMap doubleChar ++ ['"', '\n']
  | .block => '|' :: indentHint cs ++ chomping cs ++ '\n' :: blockBody indent true cs

def scalarText (indent : Nat) (s : String) : String := String.ofList (scalarChars indent s)

def inlineText (s : String) : String := String.ofList (scalarChars 0 s).dropLast

end GoApiDoc.Yaml
