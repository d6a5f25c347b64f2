/-
Struct tags.

A tag is a sequence of entries `key:"value"` with blanks between them.  A quote and a backslash
inside a value stand after a backslash.

* `Tag.entries` — the entries up to the first place that does not read as one;
* `Tag.lookup?` — the decoded value of the first entry with a key.
-/

import GoApiDoc.Go.Escape
import GoApiDoc.Text.Split

set_option autoImplicit false

namespace GoApiDoc

namespace Text

theorem breakAt_length {p : Char → Bool} {cs before after : List Char} {c : Char}
    (h : breakAt p cs = some (before, c, after)) : after.length < cs.length := by
  induction cs generalizing before with
  | nil => simp [breakAt] at h
  | cons d ds ih =>
    rw [breakAt] at h
    split at h
    · simp only [Option.some.injEq, Prod.mk.injEq] at h
      obtain ⟨_, _, rfl⟩ := h
      exact Nat.lt_succ_self _
    · simp only [Option.map_eq_some_iff, Prod.exists, Prod.mk.injEq] at h
      obtain ⟨b, _, a, hb, _, rfl, rfl⟩ := h
      exact Nat.lt_succ_of_lt (ih hb)

theorem dropLeading_length (p : Char → Bool) (cs : List Char) :
    (dropLeading p cs).length ≤ cs.length := (List.dropWhile_sublist p).length_le

end Text

namespace Tag

/-! ### Entries -/

def isControl (c : Char) : Bool := c.toNat < 0x20 || (0x7f ≤ c.toNat && c.toNat < 0xa0)

def endsKey (c : Char) : Bool := c == ':' || c == ' ' || c == '"' || isControl c

/-- The text up to the next quote that does not stand after a backslash, and the rest. -/
def closeQuote (escaped : Bool) : List Char → Option (List Char × List Char)
  | [] => none
  | c :: cs =>
    if c = '"' ∧ escaped = false then some ([], cs)
    else
      (closeQuote (c == '\\' && !escaped) cs).map fun (body, rest) => (c :: body, rest)

theorem closeQuote_length {escaped : Bool} {cs body rest : List Char}
    (h : closeQuote escaped cs = some (body, rest)) : rest.length < cs.length := by
  induction cs generalizing escaped body with
  | nil => simp [closeQuote] at h
  | cons c cs ih =>
    rw [closeQuote] at h
    split at h
    · simp only [Option.some.injEq, Prod.mk.injEq] at h
      obtain ⟨_, rfl⟩ := h
      exact Nat.lt_succ_self _
    · simp only [Option.map_eq_some_iff, Prod.exists, Prod.mk.injEq] at h
      obtain ⟨b, r, hb, _, rfl⟩ := h
      exact Nat.lt_succ_of_lt (ih hb)

/-- The first entry of a tag, its value still encoded, and the rest of the tag. -/
def nextPair? (cs : List Char) : Option ((List Char × List Char) × List Char) :=
  match Text.breakAt endsKey (Text.dropLeading (· == ' ') cs) with
  | some (key@(_ :: _), ':', '"' :: rest) =>
    (closeQuote false rest).map fun (body, rest) => ((key, body), rest)
  | _ => none

theorem nextPair?_length {cs rest : List Char} {entry : List Char × List Char}
    (h : nextPair? cs = some (entry, rest)) : rest.length < cs.length := by
  unfold nextPair? at h
  split at h
  · next heq =>
    simp only [Option.map_eq_some_iff, Prod.exists, Prod.mk.injEq] at h
    obtain ⟨b, r, hb, _, rfl⟩ := h
    have hbreak := Text.breakAt_length heq
    have hdrop := Text.dropLeading_length (· == ' ') cs
    have hclose := closeQuote_length hb
    simp only [List.length_cons] at hbreak
    omega
  · cases h

/-- The entries of a tag up to the first place that does not read as one. -/
def entries (cs : List Char) : List (List Char × List Char) :=
  match h : nextPair? cs with
  | some (entry, rest) =>
    have : rest.length < cs.length := nextPair?_length h
    entry :: entries rest
  | none => []
termination_by cs.length

/-! ### Look-up -/

/-- The decoded value of the first entry with a key; a value that cannot be decoded is none. -/
def lookup? (tag key : String) : Option String :=
  match (entries tag.toList).find? fun e => e.1 == key.toList with
  | some (_, body) => (Go.unescape (String.ofList body)).toOption
  | none => none

/-- The value of a key, empty if there is none. -/
def get (tag key : String) : String := (lookup? tag key).getD ""

end Tag

end GoApiDoc
