/-
Comment groups: runs of comments with neither a token nor an empty line between them.

* `Go.CommentGroup`, `Go.CommentGroup.lines`, `Go.CommentGroup.text` — a group and what it says;
* `Go.CommentMap` — the groups of a file with their place;
* `Go.CommentMap.docBefore`, `Go.CommentMap.onLine` — the group that documents what begins on a
  line, and the group that follows a token on a line.
-/

import GoApiDoc.Go.Token
import GoApiDoc.Text.Split

set_option autoImplicit false

namespace GoApiDoc.Go

/-- Comments that belong together. -/
structure CommentGroup where
  comments : List String
  /-- The line of the first comment's first character. -/
  startLine : Nat
  endLine : Nat
deriving DecidableEq

/-! ### The text of a group -/

def dropOpeners : List Char → List Char
  | '/' :: '*' :: cs => dropOpeners cs
  | cs => cs

/-- The reversed text without the comment closers it begins with. -/
def dropClosers : List Char → List Char
  | '/' :: '*' :: cs => dropClosers cs
  | cs => cs

def commentLines (comment : String) : List String :=
  match Text.stripPrefix "//" comment with
  | some body => [body]
  | none =>
    let body := (dropClosers (dropOpeners comment.toList).reverse).reverse
    Text.lines (String.ofList body)

namespace CommentGroup

def lines (g : CommentGroup) : List String := g.comments.flatMap commentLines

def isToolLine (line : String) : Bool := Text.hasPrefix "go:" line || Text.hasPrefix "+build" line

/-- The lines the way a reader sees them: trimmed, without instructions to tools, joined by line
ends. -/
def text (g : CommentGroup) : String :=
  Text.trim ("\n".intercalate ((g.lines.map Text.trim).filter fun l => !isToolLine l))

end CommentGroup

/-! ### The groups of a file -/

/-- A group and whether it follows a token on its first line. -/
structure PlacedGroup where
  group : CommentGroup
  /-- It follows a token on its first line. -/
  trailing : Bool
deriving DecidableEq

abbrev CommentMap := List PlacedGroup

/-- A comment goes on with the group that `last` ended: no token stands between them, no line is
left empty, and a group that follows a token is only continued on its own line. -/
def continues (groupTrailing : Bool) (last next : Comment) : Bool :=
  !next.trailing && last.tokenIndex == next.tokenIndex && next.startLine ≤ last.endLine + 1 &&
    (!groupTrailing || next.startLine == last.endLine)

def PlacedGroup.ofComment (c : Comment) : PlacedGroup :=
  ⟨⟨[c.text], c.startLine, c.endLine⟩, c.trailing⟩

def PlacedGroup.add (g : PlacedGroup) (c : Comment) : PlacedGroup :=
  { g with group := { g.group with comments := g.group.comments ++ [c.text], endLine := c.endLine } }

/-- The groups of the remaining comments, where `current` is the open group and `last` its last
comment. -/
def groupFrom (current : PlacedGroup) (last : Comment) : List Comment → CommentMap
  | [] => [current]
  | c :: cs =>
    if continues current.trailing last c then groupFrom (current.add c) c cs
    else current :: groupFrom (.ofComment c) c cs

def groupComments : List Comment → CommentMap
  | [] => []
  | c :: cs => groupFrom (.ofComment c) c cs

namespace CommentMap

/-- The last group satisfying `p`. -/
def findLast (p : PlacedGroup → Bool) (m : CommentMap) : Option CommentGroup :=
  (m.reverse.find? p).map (·.group)

/-- The group on lines of its own that ends just above the line. -/
def docBefore (m : CommentMap) (line : Nat) : Option CommentGroup :=
  m.findLast fun g => !g.trailing && g.group.endLine + 1 == line

def onLine (m : CommentMap) (line : Nat) : Option CommentGroup :=
  m.findLast fun g => g.trailing && g.group.startLine == line

end CommentMap

end GoApiDoc.Go
