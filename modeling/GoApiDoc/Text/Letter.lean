/-
Letters: upper and lower case over the whole alphabet, and the naming rules built on them.

* `Text.isUpper`, `Text.isLower` — the case properties;
* `Text.lowered` — the small form of a character, which may be two characters long;
* `Text.lowerCamel`, `Text.snake` — property names made from identifiers;
* `Text.isExported` — the visibility rule of Go identifiers.

ASCII is decided by comparison and the rest by tables, so a statement about ASCII text never meets
a table.
-/

import GoApiDoc.Text.Split

set_option autoImplicit false

namespace GoApiDoc.Text

/-! ### Tables -/

/-- The run that a number belongs to.  A run is given by the gap to the end of the one before it, the
number of its members and their step. -/
def findRun {α : Type} (run : α → Nat × Nat × Nat) : List α → Nat → Option α
  | [], _ => none
  | a :: runs, n =>
    let (gap, count, step) := run a
    let last := gap + step * (count - 1)
    if last < n then findRun run runs (n - last - 1)
    else if gap ≤ n && (n - gap) % step == 0 then some a
    else none

/-- The upper-case characters above ASCII, as gap, number of members and step of each run. -/
def upperRuns : List (Nat × Nat × Nat) :=
  [(64,23,1),(1,7,1),(33,28,2),(2,8,2),(2,24,2),(0,3,2),(3,2,1),(1,2,2),(0,2,2),(0,2,1),(2,4,1),
   (1,2,1),(1,3,1),(3,2,1),(1,2,1),(1,3,2),(0,2,2),(2,2,2),(0,2,2),(0,2,1),(1,2,2),(0,1,1),(3,1,1),
   (7,1,1),(2,1,1),(2,1,1),(2,8,2),(2,9,2),(2,1,1),(2,2,2),(0,2,1),(1,29,2),(7,2,1),(1,2,1),(2,2,2),
   (0,3,1),(1,4,2),(289,2,2),(3,1,1),(8,1,1),(6,2,2),(0,2,1),(1,2,2),(0,2,2),(0,16,1),(1,9,1),
   (35,1,1),(2,3,1),(3,12,2),(5,1,1),(2,2,2),(0,1,1),(2,51,1),(48,17,2),(9,28,2),(0,7,2),(2,48,2),
   (2,38,1),(2889,38,1),(1,1,1),(5,1,1),(722,86,1),(2195,1,1),(6,43,1),(2,3,1),(320,75,2),(9,49,2),
   (9,8,1),(8,6,1),(10,8,1),(8,8,1),(8,6,1),(11,4,2),(8,8,1),(72,4,1),(12,4,1),(12,4,1),(12,5,1),
   (11,4,1),(262,1,1),(4,1,1),(3,3,1),(2,3,1),(2,1,1),(3,5,1),(6,4,2),(0,3,1),(2,4,1),(10,2,1),
   (5,1,1),(26,16,1),(19,1,1),(818,26,1),(1840,48,1),(48,2,2),(0,2,1),(2,4,2),(0,3,1),(1,1,1),
   (2,1,1),(8,3,1),(1,49,2),(8,2,2),(4,1,1),(31053,23,2),(19,14,2),(135,7,2),(3,31,2),(10,3,2),
   (0,5,2),(4,2,2),(2,2,2),(3,11,2),(0,4,1),(1,5,1),(1,8,2),(0,3,1),(1,2,2),(0,9,2),(24,1,1),
   (22315,26,1),(1221,40,1),(136,36,1),(156,11,1),(1,15,1),(1,7,1),(1,2,1),(1770,51,1),(157,22,1),
   (2874,32,1),(21888,32,1),(64,25,1),(25927,26,1),(26,26,1),(26,26,1),(26,2,2),(0,1,1),(2,1,1),
   (2,2,1),(2,4,1),(1,8,1),(26,26,1),(26,2,1),(1,4,1),(2,8,1),(1,7,1),(27,2,1),(1,4,1),(1,5,1),
   (1,1,1),(3,7,1),(27,26,1),(26,26,1),(26,26,1),(26,26,1),(26,26,1),(26,26,1),(30,25,1),(33,25,1),
   (33,25,1),(33,25,1),(33,25,1),(33,1,1),(4405,34,1),(2062,26,1),(6,26,1),(6,26,1)]

/-- The lower-case characters above ASCII, as gap, number of members and step of each run. -/
def lowerRuns : List (Nat × Nat × Nat) :=
  [(42,1,1),(10,1,1),(4,1,1),(36,24,1),(1,8,1),(1,28,2),(0,9,2),(0,24,2),(2,3,2),(0,2,1),(2,2,2),
   (2,1,1),(3,2,1),(4,1,1),(2,1,1),(3,3,1),(2,1,1),(2,3,2),(2,2,2),(0,2,2),(2,1,1),(3,2,2),(2,2,1),
   (2,3,1),(6,1,1),(2,1,1),(2,9,2),(0,10,2),(0,1,1),(2,2,2),(3,30,2),(0,6,1),(2,1,1),(2,2,1),
   (1,1,1),(4,5,2),(0,68,1),(2,35,1),(7,2,1),(30,5,1),(96,1,1),(43,2,2),(3,1,1),(2,4,1),(18,1,1),
   (27,35,1),(1,2,1),(3,3,1),(1,12,2),(0,4,1),(1,1,1),(2,1,1),(2,2,1),(51,48,1),(1,17,2),(9,27,2),
   (2,7,2),(0,49,2),(48,41,1),(2887,43,1),(1,4,1),(760,6,1),(2178,9,1),(1,1,1),(117,192,1),
   (65,75,2),(0,8,1),(1,49,2),(0,8,1),(8,6,1),(10,8,1),(8,8,1),(8,6,1),(10,8,1),(8,8,1),(8,14,1),
   (2,8,1),(8,8,1),(8,8,1),(8,5,1),(1,2,1),(6,1,1),(3,3,1),(1,2,1),(8,4,1),(2,2,1),(8,8,1),(10,3,1),
   (1,2,1),(121,1,1),(13,1,1),(16,13,1),(109,1,1),(3,2,1),(3,1,1),(27,1,1),(4,1,1),(4,1,1),(2,2,1),
   (8,4,1),(4,1,1),(33,16,1),(4,1,1),(843,26,1),(1862,48,1),(1,1,1),(3,2,1),(1,3,2),(4,2,2),(0,2,2),
   (0,7,1),(3,50,2),(0,1,1),(7,2,2),(4,1,1),(12,38,1),(1,1,1),(5,1,1),(30995,23,2),(19,14,2),
   (0,2,1),(133,7,2),(0,2,1),(1,31,2),(0,9,1),(1,2,2),(2,5,2),(4,2,2),(2,2,2),(0,2,1),(1,10,2),
   (5,1,1),(5,8,2),(4,2,2),(2,8,2),(21,4,1),(1,2,2),(0,2,1),(821,43,1),(1,14,1),(6,80,1),
   (20288,7,1),(12,5,1),(1065,26,1),(1229,40,1),(136,36,1),(155,11,1),(1,15,1),(1,7,1),(1,2,1),
   (451,1,1),(2,3,1),(1,42,1),(1,9,1),(1285,51,1),(125,22,1),(2874,32,1),(21888,32,1),(59,25,1),
   (25926,26,1),(26,7,1),(1,18,1),(26,26,1),(26,4,1),(1,2,2),(0,6,1),(1,11,1),(26,26,1),(26,26,1),
   (26,26,1),(26,26,1),(26,26,1),(26,26,1),(26,26,1),(26,26,1),(26,28,1),(28,25,1),(1,6,1),
   (26,25,1),(1,6,1),(26,25,1),(1,6,1),(26,25,1),(1,6,1),(26,25,1),(1,6,1),(1,1,1),(1844,10,1),
   (1,20,1),(6,6,1),(261,62,1),(2228,34,1)]

/-- Runs of characters above ASCII that have a single lower-case form, with the distance to it. -/
def loweringRuns : List (Nat × Nat × Nat × Int) :=
  [(64,23,1,32),(1,7,1,32),(33,24,2,1),(3,3,2,1),(2,8,2,1),(2,23,2,1),(1,1,1,-121),(0,3,2,1),
   (3,1,1,210),(0,2,2,1),(1,1,1,206),(0,1,1,1),(1,2,1,205),(0,1,1,1),(2,1,1,79),(0,1,1,202),
   (0,1,1,203),(0,1,1,1),(1,1,1,205),(0,1,1,207),(1,1,1,211),(0,1,1,209),(0,1,1,1),(3,1,1,211),
   (0,1,1,213),(1,1,1,214),(0,3,2,1),(1,1,1,218),(0,1,1,1),(1,1,1,218),(2,1,1,1),(1,1,1,218),
   (0,1,1,1),(1,2,1,217),(0,2,2,1),(1,1,1,219),(0,1,1,1),(3,1,1,1),(7,1,1,2),(0,1,1,1),(1,1,1,2),
   (0,1,1,1),(1,1,1,2),(0,9,2,1),(2,9,2,1),(2,1,1,2),(0,2,2,1),(1,1,1,-97),(0,1,1,-56),(0,20,2,1),
   (1,1,1,-130),(1,9,2,1),(7,1,1,10795),(0,1,1,1),(1,1,1,-163),(0,1,1,10792),(2,1,1,1),(1,1,1,-195),
   (0,1,1,69),(0,1,1,71),(0,5,2,1),(289,2,2,1),(3,1,1,1),(8,1,1,116),(6,1,1,38),(1,3,1,37),
   (1,1,1,64),(1,2,1,63),(1,17,1,32),(1,9,1,32),(35,1,1,8),(8,12,2,1),(5,1,1,-60),(2,1,1,1),
   (1,1,1,-7),(0,1,1,1),(2,3,1,-130),(0,16,1,80),(0,32,1,32),(48,17,2,1),(9,27,2,1),(1,1,1,15),
   (0,7,2,1),(2,48,2,1),(2,38,1,48),(2889,38,1,7264),(1,1,1,7264),(5,1,1,7264),(722,80,1,38864),
   (0,6,1,8),(2195,1,1,1),(6,43,1,-3008),(2,3,1,-3008),(320,75,2,1),(9,1,1,-7615),(1,48,2,1),
   (9,8,1,-8),(8,6,1,-8),(10,8,1,-8),(8,8,1,-8),(8,6,1,-8),(11,4,2,-8),(8,8,1,-8),(24,8,1,-8),
   (8,8,1,-8),(8,8,1,-8),(8,2,1,-8),(0,2,1,-74),(0,1,1,-9),(11,4,1,-86),(0,1,1,-9),(11,2,1,-8),
   (0,2,1,-100),(12,2,1,-8),(0,2,1,-112),(0,1,1,-7),(11,2,1,-128),(0,2,1,-126),(0,1,1,-9),
   (297,1,1,-7517),(3,1,1,-8383),(0,1,1,-8262),(6,1,1,28),(45,16,1,16),(19,1,1,1),(818,26,1,26),
   (1840,48,1,48),(48,1,1,1),(1,1,1,-10743),(0,1,1,-3814),(0,1,1,-10727),(2,3,2,1),(1,1,1,-10780),
   (0,1,1,-10749),(0,1,1,-10783),(0,1,1,-10782),(1,1,1,1),(2,1,1,1),(8,2,1,-10815),(0,50,2,1),
   (8,2,2,1),(4,1,1,1),(31053,23,2,1),(19,14,2,1),(135,7,2,1),(3,31,2,1),(10,2,2,1),(1,1,1,-35332),
   (0,5,2,1),(4,1,1,1),(1,1,1,-42280),(2,2,2,1),(3,10,2,1),(1,1,1,-42308),(0,1,1,-42319),
   (0,1,1,-42315),(0,1,1,-42305),(0,1,1,-42308),(1,1,1,-42258),(0,1,1,-42282),(0,1,1,-42261),
   (0,1,1,928),(0,8,2,1),(1,1,1,-48),(0,1,1,-42307),(0,1,1,-35384),(0,2,2,1),(1,1,1,-42343),
   (0,8,2,1),(1,1,1,-42561),(24,1,1,1),(22315,26,1,32),(1221,40,1,40),(136,36,1,40),(156,11,1,39),
   (1,15,1,39),(1,7,1,39),(1,2,1,39),(1770,51,1,64),(157,22,1,32),(2874,32,1,32),(21888,32,1,32),
   (64,25,1,27),(31303,34,1,34)]

def inRuns (runs : List (Nat × Nat × Nat)) (c : Char) : Bool :=
  (findRun id runs (c.toNat - 128)).isSome

/-! ### Case -/

def isUpper (c : Char) : Bool :=
  if c.toNat < 128 then c.isUpper else inRuns upperRuns c

def isLower (c : Char) : Bool :=
  if c.toNat < 128 then c.isLower else inRuns lowerRuns c

/-- The small form of a character.  The capital `I` with a dot is the only one whose small form
has two characters. -/
def lowered (c : Char) : List Char :=
  let n := c.toNat
  if n < 128 then [c.toLower]
  else if n == 0x130 then ['i', Char.ofNat 0x307]
  else
    match findRun (fun (gap, count, step, _) => (gap, count, step)) loweringRuns (n - 128) with
    | some (_, _, _, distance) => [Char.ofNat (Int.ofNat n + distance).toNat]
    | none => [c]

/-! ### Names -/

/-- Lowers capitals as long as nothing but capitals came before. -/
def lowerLeading : List Char → List Char
  | [] => []
  | c :: cs => if isUpper c then lowered c ++ lowerLeading cs else c :: cs

/-- Lowers the leading run of capitals: `ID` becomes `id` and `UserID` becomes `userID`. -/
def lowerCamel (s : String) : String := String.ofList (lowerLeading s.toList)

/-- Lowers every character after `previous`, with an underscore before a capital next to a small
letter. -/
def snakeFrom (previous : Char) : List Char → List Char
  | [] => []
  | c :: cs =>
    let beforeSmall := match cs with
      | d :: _ => isLower d
      | [] => false
    (if isUpper c && (beforeSmall || isLower previous) then ['_'] else []) ++
      (lowered c ++ snakeFrom c cs)

/-- Words joined by underscores: `UserID` becomes `user_id` and `HTTPServer` becomes
`http_server`. -/
def snake (s : String) : String :=
  match s.toList with
  | [] => ""
  | c :: cs => String.ofList (lowered c ++ snakeFrom c cs)

def isExported (name : String) : Bool :=
  match name.toList with
  | c :: _ => isUpper c
  | [] => false

/-- The path with its separators replaced by underscores, fit for a definition name. -/
def pathAsName (path : String) : String :=
  String.ofList (path.toList.map fun c => if c == '/' || c == '.' || c == '\\' then '_' else c)

end GoApiDoc.Text
