/-
Struct tags in their usual layout.

An entry is written as its key, a colon and its value between quotes, where a quote and a backslash
of the value stand behind a backslash.  The end of a value is searched and its escapes are read in
two passes over the text; they agree since both take a backslash together with what it precedes.

* `Tag.lookup?_written` — **look-up inverts the layout**.
-/

import GoApiDoc.Field.Tag
import GoApiDoc.Proofs.Text

set_option autoImplicit false

namespace GoApiDoc.Tag

/-! ### Values -/

/-- A quote and a backslash are written behind a backslash. -/
def escape : List Char → List Char
  | [] => []
  | c :: cs => if c = '"' ∨ c = '\\' then '\\' :: c :: escape cs else c :: escape cs

/-- The quote behind a written value is the first that no backslash hides. -/
theorem closeQuote_escape (value rest : List Char) :
    closeQuote false (escape value ++ '"' :: rest) = some (escape value, rest) := by
  induction value with
  | nil => rfl
  | cons c cs ih =>
    rw [escape]
    split
    · -- the backslash hides `c`, and `c` hides nothing
      simp [closeQuote, ih]
    · next hc =>
      rw [not_or] at hc
      simp [closeQuote, hc.1, beq_eq_false_iff_ne.2 hc.2, ih]

theorem unescapeChars_escape (value : List Char) : Go.unescapeChars (escape value) = .ok value := by
  induction value with
  | nil => simp [escape, Go.unescapeChars]
  | cons c cs ih =>
    rw [escape]
    split
    · next hc =>
      rcases hc with rfl | rfl <;> simp [Go.unescapeChars, Go.simpleEscape?, ih, Except.map]
    · next hc =>
      rw [not_or] at hc
      rw [Go.unescapeChars.eq_def]
      simp [hc.2, ih, Except.map]

/-! ### Entries -/

/-- An entry as it is written, with the spaces in front of it. -/
structure Entry where
  spaces : Nat
  key : String
  value : String
  key_ne : key.toList ≠ []
  key_free : ∀ c ∈ key.toList, c ≠ ' ' ∧ c ≠ ':' ∧ c ≠ '"' ∧ isControl c = false

namespace Entry

def text (e : Entry) : List Char :=
  List.replicate e.spaces ' ' ++ e.key.toList ++ ':' :: '"' :: (escape e.value.toList ++ ['"'])

/-- The key and the written value, as the entries of a tag are read. -/
def raw (e : Entry) : List Char × List Char := (e.key.toList, escape e.value.toList)

theorem endsKey_eq_false (e : Entry) {c : Char} (hc : c ∈ e.key.toList) : endsKey c = false := by
  obtain ⟨hspace, hcolon, hquote, hcontrol⟩ := e.key_free c hc
  simp [endsKey, hspace, hcolon, hquote, hcontrol]

end Entry

/-- The text of a tag: entries, and spaces behind the last of them. -/
def written (es : List Entry) (spaces : Nat) : List Char :=
  es.flatMap Entry.text ++ List.replicate spaces ' '

theorem dropLeading_replicate (n : Nat) (cs : List Char) :
    Text.dropLeading (· == ' ') (List.replicate n ' ' ++ cs) = Text.dropLeading (· == ' ') cs := by
  induction n with
  | zero => rfl
  | succ n ih => rw [List.replicate_succ, List.cons_append, ← ih]; rfl

theorem nextPair?_text (e : Entry) (rest : List Char) :
    nextPair? (e.text ++ rest) = some (e.raw, rest) := by
  obtain ⟨c, cs, hkey⟩ := List.exists_cons_of_ne_nil e.key_ne
  have hdrop : Text.dropLeading (· == ' ') (e.text ++ rest) =
      e.key.toList ++ ':' :: ('"' :: (escape e.value.toList ++ '"' :: rest)) := by
    have hc : c ≠ ' ' := (e.key_free c (hkey ▸ (.head _))).1
    rw [Entry.text, List.append_assoc, List.append_assoc, dropLeading_replicate, hkey]
    simp [Text.dropLeading, hc]
  have hbreak := Text.breakAt_append (p := endsKey) (c := ':')
    ('"' :: (escape e.value.toList ++ '"' :: rest)) (fun d hd => e.endsKey_eq_false hd) rfl
  rw [nextPair?, hdrop, hbreak, hkey]
  simp only [closeQuote_escape, Option.map_some, Entry.raw, hkey]

theorem nextPair?_spaces (n : Nat) : nextPair? (List.replicate n ' ') = none := by
  rw [nextPair?, ← List.append_nil (List.replicate n ' '), dropLeading_replicate]
  rfl

theorem entries_written (es : List Entry) (spaces : Nat) :
    entries (written es spaces) = es.map Entry.raw := by
  induction es with
  | nil =>
    rw [entries]
    split
    · next h => cases (nextPair?_spaces spaces).symm.trans h
    · rfl
  | cons e es ih =>
    have hnext : nextPair? (written (e :: es) spaces) = some (e.raw, written es spaces) := by
      rw [written, List.flatMap_cons, List.append_assoc]
      exact nextPair?_text e _
    rw [entries]
    split
    · next h =>
      cases hnext.symm.trans h
      rw [ih, List.map_cons]
    · next h => cases hnext.symm.trans h

/-! ### Look-up -/

/-- **Look-up inverts the layout**: for entries with any values, and any number of spaces in front
of each of them and behind the last, a key is found exactly if an entry has it, and its value is
that of the first such entry. -/
theorem lookup?_written (es : List Entry) (spaces : Nat) (key : String) :
    lookup? (String.ofList (written es spaces)) key =
      (es.find? fun e => e.key == key).map Entry.value := by
  have hkeys : ((fun e : List Char × List Char => e.1 == key.toList) ∘ Entry.raw) =
      fun e => e.key == key := by
    funext e
    rw [Bool.eq_iff_iff]
    simp [Entry.raw, String.toList_inj]
  rw [lookup?, String.toList_ofList, entries_written, List.find?_map, hkeys]
  cases es.find? fun e => e.key == key with
  | none => rfl
  | some e => simp [Entry.raw, Go.unescape, unescapeChars_escape, Except.map, Except.toOption]

end GoApiDoc.Tag
