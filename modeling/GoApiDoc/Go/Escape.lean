/-
Escape sequences of Go string and rune literals.

* `Go.unescapeChars`, `Go.unescape` — the text that the body of a literal stands for.
-/

import GoApiDoc.Go.Token
import GoApiDoc.Number.Reading

set_option autoImplicit false

namespace GoApiDoc.Go

def simpleEscape? (c : Char) : Option Char :=
  match c with
  | 'a' => some '\x07'
  | 'b' => some '\x08'
  | 'f' => some '\x0c'
  | 'n' => some '\n'
  | 'r' => some '\r'
  | 't' => some '\t'
  | 'v' => some '\x0b'
  | '\\' => some '\\'
  | '\'' => some '\''
  | '"' => some '"'
  | _ => none

/-- The number of digits after the letter of a numeric escape. -/
def digitCount? (c : Char) : Option Nat :=
  match c with
  | 'x' => some 2
  | 'u' => some 4
  | 'U' => some 8
  | _ => none

def maxCode : Nat := Nat.pow 2 32 - 1

def ofCode? (n : Nat) : Option Char := if n.isValidChar then some (Char.ofNat n) else none

/-- The character that stands for a code point that does not exist. -/
def replacement : Char := Char.ofNat 0xFFFD

def numericEscape (letter : Char) (digits : List Char) : Except EscapeFault Char :=
  match Number.readNatIn? 16 maxCode digits with
  | none => .error (.badDigits letter (String.ofList digits))
  | some code =>
    match ofCode? code with
    | some c => .ok c
    | none => .error (.badCodePoint code)

def octalEscape (digits : List Char) : Except EscapeFault Char :=
  match Number.readNatIn? 8 maxCode digits with
  | none => .error (.badOctal (String.ofList digits))
  | some code => .ok ((ofCode? code).getD replacement)

def unescapeChars : List Char → Except EscapeFault (List Char)
  | [] => .ok []
  | c :: cs =>
    if c ≠ '\\' then (unescapeChars cs).map (c :: ·)
    else
      match cs with
      | [] => .error .unfinished
      | e :: rest =>
        match simpleEscape? e with
        | some d => (unescapeChars rest).map (d :: ·)
        | none =>
          match digitCount? e with
          | some n =>
            match numericEscape e (rest.take n) with
            | .ok d => (unescapeChars (rest.drop n)).map (d :: ·)
            | .error fault => .error fault
          | none =>
            if '0' ≤ e ∧ e ≤ '7' then
              match octalEscape (e :: rest.take 2) with
              | .ok d => (unescapeChars (rest.drop 2)).map (d :: ·)
              | .error fault => .error fault
            else .error (.unknown e)
termination_by cs => cs.length
decreasing_by all_goals simp; try omega

def unescape (s : String) : Except EscapeFault String :=
  (unescapeChars s.toList).map String.ofList

end GoApiDoc.Go
