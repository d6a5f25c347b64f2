/-
Blanks: white space in text, and text without the white space around it.

* `Text.isBlank` — the characters with the white-space property;
* `Text.trimStart`, `Text.trimEnd`, `Text.trim` — removing blanks at one end or at both;
* `Text.words` — the pieces between blanks.

The functions come in two spellings, one on lists of characters, which carries the recursion, and
one on strings.  `dropTrailing_dropTrailing` says that a second trimming at the end changes
nothing.
-/

set_option autoImplicit false

namespace GoApiDoc.Text

/-! ### White space -/

/-- White space: tab to carriage return, the space, and the separators of the wider alphabet. -/
def isBlank (c : Char) : Bool :=
  let n := c.toNat
  (9 ≤ n && n ≤ 13) || n == 0x20 || n == 0x85 || n == 0xA0 || n == 0x1680 ||
    (0x2000 ≤ n && n ≤ 0x200A) || n == 0x2028 || n == 0x2029 || n == 0x202F || n == 0x205F ||
    n == 0x3000

/-! ### Trimming -/

/-- The text from its first character that does not satisfy `p`. -/
def dropLeading (p : Char → Bool) (cs : List Char) : List Char := cs.dropWhile p

/-- The text up to its last character that does not satisfy `p`. -/
def dropTrailing (p : Char → Bool) : List Char → List Char
  | [] => []
  | c :: cs =>
    match dropTrailing p cs with
    | [] => if p c then [] else [c]
    | d :: ds => c :: d :: ds

def trimStart (cs : List Char) : List Char := dropLeading isBlank cs

def trimEnd (cs : List Char) : List Char := dropTrailing isBlank cs

def trimChars (cs : List Char) : List Char := trimEnd (trimStart cs)

def trim (s : String) : String := String.ofList (trimChars s.toList)

/-- The string without leading characters `c`. -/
def trimStartOf (c : Char) (s : String) : String :=
  String.ofList (dropLeading (· == c) s.toList)

/-- The string without trailing characters `c`. -/
def trimEndOf (c : Char) (s : String) : String :=
  String.ofList (dropTrailing (· == c) s.toList)

/-- The string without characters satisfying `p` at either end. -/
def trimMatching (p : Char → Bool) (s : String) : String :=
  String.ofList (dropTrailing p (dropLeading p s.toList))

theorem dropTrailing_dropTrailing (p : Char → Bool) (cs : List Char) :
    dropTrailing p (dropTrailing p cs) = dropTrailing p cs := by
  induction cs with
  | nil => rfl
  | cons c cs ih =>
    rw [dropTrailing]
    cases h : dropTrailing p cs with
    | nil => by_cases hp : p c <;> simp [hp, dropTrailing]
    | cons d ds =>
      rw [h] at ih
      simp only
      rw [dropTrailing, ih]

/-! ### Words -/

/-- The maximal runs of non-blank characters, `word` holding the run read so far, backwards. -/
def wordsFrom (word : List Char) : List Char → List (List Char)
  | [] => if word.isEmpty then [] else [word.reverse]
  | c :: cs =>
    if isBlank c then
      if word.isEmpty then wordsFrom [] cs else word.reverse :: wordsFrom [] cs
    else wordsFrom (c :: word) cs

def words (s : String) : List String := (wordsFrom [] s.toList).map String.ofList

end GoApiDoc.Text
