/-
Patterns: sequences of pieces, each a run of characters of one class.

A text may match a pattern in several ways; the first piece that has a choice takes its favourite
length for which the rest matches, then the second piece, and so on.

* `Text.Piece` — a class of characters with bounds on the length of the run;
* `Text.Pattern.match?` — the runs of the pieces at the beginning of a text, and the rest.
-/

import GoApiDoc.Text.Blank
import GoApiDoc.Text.Word

set_option autoImplicit false

namespace GoApiDoc.Text

/-- A run of characters of one class. -/
structure Piece where
  admits : Char → Bool
  least : Nat
  /-- The greatest length of the run, if there is one. -/
  most : Option Nat
  greedy : Bool

namespace Piece

def char (c : Char) : Piece := ⟨(· == c), 1, some 1, true⟩

def some (admits : Char → Bool) : Piece := ⟨admits, 1, none, true⟩

/-- Any number of characters of a class, as many as possible. -/
def many (admits : Char → Bool) : Piece := ⟨admits, 0, none, true⟩

def few (admits : Char → Bool) : Piece := ⟨admits, 1, none, false⟩

/-- The length of the longest run at the beginning of a text. -/
def longest (p : Piece) (cs : List Char) : Nat :=
  let n := (cs.takeWhile p.admits).length
  match p.most with
  | none => n
  | .some m => min n m

/-- The possible lengths of the run at the beginning of a text, the preferred ones first. -/
def lengths (p : Piece) (cs : List Char) : List Nat :=
  let ascending := (List.range (p.longest cs + 1)).drop p.least
  if p.greedy then ascending.reverse else ascending

end Piece

abbrev Pattern := List Piece

namespace Pattern

/-- The runs of the pieces at the beginning of a text and the rest of the text. -/
def match? : Pattern → List Char → Option (List (List Char) × List Char)
  | [], cs => some ([], cs)
  | p :: ps, cs =>
    (p.lengths cs).findSome? fun n =>
      (match? ps (cs.drop n)).map fun (runs, rest) => (cs.take n :: runs, rest)

end Pattern

/-! ### Classes -/

def isInk (c : Char) : Bool := !isBlank c

def isSpaceOrTab (c : Char) : Bool := c == ' ' || c == '\t'

def isOneOf (chars : String) (c : Char) : Bool := chars.toList.contains c

end GoApiDoc.Text
