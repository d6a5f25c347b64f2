/-
Trimming and cutting text.

* `Text.dropTrailing_begins`, `Text.mem_of_mem_trim` — what is left of a trimmed text;
* `Text.trim_trim`, `Text.dropTrailing_of_forall` — when trimming changes nothing;
* `Text.breakAt_append`, `Text.splitOnce_append`, `Text.stripSuffix_append` — a text that was put
  together is cut where it was joined;
* `Text.isWord_of_isBlank`, `Text.isAlphanumeric_of_isBlank` — a blank ends a word;
* `Text.toLower_eq_at` — the sign for annotations has no other form.
-/

import GoApiDoc.Text.Split
import GoApiDoc.Text.Word

set_option autoImplicit false

namespace GoApiDoc.Text

variable {p : Char → Bool} {c d : Char} {cs : List Char} {s : String} {before after : List Char}

/-! ### Trimming -/

theorem dropTrailing_begins (p : Char → Bool) (cs : List Char) : dropTrailing p cs <+: cs := by
  induction cs with
  | nil => exact List.prefix_refl []
  | cons c cs ih =>
    rw [dropTrailing]
    split
    · split
      · exact List.nil_prefix
      · exact List.prefix_append [c] cs
    · next d ds hd =>
      rw [hd] at ih
      exact List.cons_prefix_cons.2 ⟨rfl, ih⟩

theorem dropTrailing_append (cs : List Char) (hc : p c = false) :
    dropTrailing p (cs ++ [c]) = cs ++ [c] := by
  induction cs with
  | nil => simp [dropTrailing, hc]
  | cons d cs ih =>
    rw [List.cons_append, dropTrailing, ih]
    cases hcs : cs ++ [c] with
    | nil => simp at hcs
    | cons e es => rfl

theorem dropTrailing_of_forall (h : ∀ c ∈ cs, p c = false) : dropTrailing p cs = cs := by
  rcases List.eq_nil_or_concat cs with rfl | ⟨init, c, rfl⟩
  · rfl
  · rw [List.concat_eq_append] at h ⊢
    exact dropTrailing_append init (h c (by simp))

/-- Removing characters at the end leaves the beginning of a text without such characters there. -/
theorem dropLeading_dropTrailing (p : Char → Bool) (cs : List Char) :
    dropLeading p (dropTrailing p (dropLeading p cs)) = dropTrailing p (dropLeading p cs) := by
  have hprefix := dropTrailing_begins p (dropLeading p cs)
  cases htrimmed : dropTrailing p (dropLeading p cs) with
  | nil => rfl
  | cons c rest =>
    rw [htrimmed] at hprefix
    obtain ⟨tail, htail⟩ := hprefix
    have hc : p c = false := by
      have hhead := List.head?_dropWhile_not p cs
      unfold dropLeading at htail
      rw [← htail] at hhead
      simpa using hhead
    rw [dropLeading, List.dropWhile_cons_of_neg (by simp [hc])]

theorem trimChars_of_forall (h : ∀ c ∈ cs, isBlank c = false) : trimChars cs = cs := by
  have hstart : trimStart cs = cs := by
    cases cs with
    | nil => rfl
    | cons c cs => exact List.dropWhile_cons_of_neg (by simp [h c List.mem_cons_self])
  rw [trimChars, hstart, trimEnd, dropTrailing_of_forall h]

theorem trim_trim (s : String) : trim (trim s) = trim s := by
  unfold trim trimChars trimEnd trimStart
  rw [String.toList_ofList, dropLeading_dropTrailing, dropTrailing_dropTrailing]

theorem mem_of_mem_trim (h : c ∈ (trim s).toList) : c ∈ s.toList := by
  rw [trim, String.toList_ofList] at h
  exact (List.dropWhile_sublist isBlank).subset ((dropTrailing_begins _ _).subset h)

/-! ### Cutting -/

theorem hasPrefix_iff {p : String} : hasPrefix p s = true ↔ p.toList <+: s.toList := by
  unfold hasPrefix stripPrefix
  rw [Option.isSome_map]
  generalize p.toList = ps
  generalize s.toList = cs
  fun_induction dropPrefix? ps cs with
  | case1 cs | case2 a p => simp
  | case3 p c cs ih => simp [ih, List.cons_prefix_cons]
  | case4 a p c cs hne => simp [List.cons_prefix_cons, hne]

theorem stripPrefix_append (p s : String) : stripPrefix p (p ++ s) = some s := by
  have hdrop : ∀ ps cs : List Char, dropPrefix? ps (ps ++ cs) = some cs := by
    intro ps cs
    induction ps with
    | nil => rw [List.nil_append, dropPrefix?]
    | cons a ps ih => rw [List.cons_append, dropPrefix?, if_pos rfl, ih]
  rw [stripPrefix, String.toList_append, hdrop, Option.map_some, String.ofList_toList]

/-- A text does not begin with `p` if a character of `p` would have to stand where none does. -/
theorem dropPrefix?_eq_none {p : List Char} (hp : d ∈ p) (hbefore : d ∉ before)
    (hafter : ∀ c ∈ after.head?, c ∉ p) : dropPrefix? p (before ++ after) = none := by
  induction before generalizing p with
  | nil =>
    cases p with
    | nil => cases hp
    | cons a p =>
      cases after with
      | nil => rfl
      | cons c after =>
        rw [List.nil_append, dropPrefix?, if_neg]
        exact fun h => hafter c rfl (h ▸ (.head _))
  | cons c before ih =>
    cases p with
    | nil => cases hp
    | cons a p =>
      rw [List.cons_append, dropPrefix?]
      split
      · next hac =>
        subst hac
        have hne : d ≠ a := fun h => hbefore (h ▸ (.head _))
        exact ih ((List.mem_cons.1 hp).resolve_left hne) (fun h => hbefore (.tail _ h))
          fun c hc h => hafter c hc (.tail _ h)
      · rfl

theorem breakAt_begins (h : breakAt p cs = some (before, c, after)) : before <+: cs := by
  induction cs generalizing before with
  | nil => cases h
  | cons a cs ih =>
    rw [breakAt] at h
    split at h
    · cases h
      exact List.nil_prefix
    · obtain ⟨⟨before', c', after'⟩, hb, heq⟩ := Option.map_eq_some_iff.1 h
      cases heq
      exact List.cons_prefix_cons.2 ⟨rfl, ih hb⟩

/-- The first word of a line is its beginning. -/
theorem splitAttribute_begins (line : String) : (splitAttribute line).1.toList <+: line.toList := by
  unfold splitAttribute
  split
  · next word c rest hb =>
    rw [String.toList_ofList]
    exact breakAt_begins hb
  · exact List.prefix_refl _

theorem breakAt_append (after : List Char) (hbefore : ∀ d ∈ before, p d = false) (hc : p c = true) :
    breakAt p (before ++ c :: after) = some (before, c, after) := by
  induction before with
  | nil => simp [breakAt, hc]
  | cons d before ih =>
    have hd := hbefore d (.head _)
    rw [List.cons_append, breakAt, ih fun e he => hbefore e (List.mem_cons_of_mem _ he)]
    simp [hd]

theorem breakAt_eq_none (h : ∀ c ∈ cs, p c = false) : breakAt p cs = none := by
  induction cs with
  | nil => rfl
  | cons c cs ih =>
    rw [breakAt, ih fun d hd => h d (List.mem_cons_of_mem _ hd)]
    simp [h c List.mem_cons_self]

theorem beq_eq_false_of_notMem (h : d ∉ cs) : ∀ c ∈ cs, (c == d) = false := by
  intro c hc
  rw [beq_eq_false_iff_ne]
  rintro rfl
  exact h hc

theorem splitOnce_append {t : String} (h : d ∉ s.toList) :
    splitOnce d (s ++ String.singleton d ++ t) = some (s, t) := by
  have hlist : (s ++ String.singleton d ++ t).toList = s.toList ++ d :: t.toList := by simp
  rw [splitOnce, hlist, breakAt_append _ (beq_eq_false_of_notMem h) (by simp)]
  simp

theorem splitOnce_eq_none (h : d ∉ s.toList) : splitOnce d s = none := by
  rw [splitOnce, breakAt_eq_none (beq_eq_false_of_notMem h)]
  rfl

theorem splitLast_eq_none (h : d ∉ s.toList) : splitLast d s = none := by
  rw [splitLast, breakAt_eq_none (beq_eq_false_of_notMem (by simpa using h))]
  rfl

theorem stripSuffix_append (s : String) (d : Char) :
    stripSuffix (String.singleton d) (s ++ String.singleton d) = some s := by
  have hlist : (s ++ String.singleton d).toList.reverse = d :: s.toList.reverse := by simp
  rw [stripSuffix, hlist]
  simp [dropPrefix?]

/-! ### Words -/

/-- The code points of the blanks. -/
def blankCodes : List Nat :=
  List.range' 9 5 ++ [0x20, 0x85, 0xA0, 0x1680] ++ List.range' 0x2000 11 ++
    [0x2028, 0x2029, 0x202F, 0x205F, 0x3000]

theorem mem_blankCodes (h : isBlank c = true) : c.toNat ∈ blankCodes := by
  simp only [isBlank, Bool.or_eq_true, Bool.and_eq_true, decide_eq_true_eq, beq_iff_eq] at h
  simp only [blankCodes, List.mem_append, List.mem_range'_1, List.mem_cons, List.not_mem_nil]
  omega

theorem isWord_of_isBlank (h : isBlank c = true) : isWord c = false := by
  have hcodes : ∀ n ∈ blankCodes, isWord (Char.ofNat n) = false := by decide +kernel
  exact Char.ofNat_toNat c ▸ hcodes _ (mem_blankCodes h)

theorem isBlank_of_isWord (h : isWord c = true) : isBlank c = false := by
  rw [Bool.eq_false_iff]
  exact fun hblank => Bool.false_ne_true ((isWord_of_isBlank hblank).symm.trans h)

theorem isAlphanumeric_of_isBlank (h : isBlank c = true) : isAlphanumeric c = false := by
  have hcodes : ∀ n ∈ blankCodes, isAlphanumeric (Char.ofNat n) = false := by decide +kernel
  exact Char.ofNat_toNat c ▸ hcodes _ (mem_blankCodes h)

/-! ### Small letters -/

/-- No capital letter has the sign for annotations as its small form. -/
theorem toLower_eq_at (h : c.toLower = '@') : c = '@' := by
  unfold Char.toLower at h
  split at h
  · next hc =>
    have hval : (c.val + ('a'.val - 'A'.val)).toNat = '@'.val.toNat :=
      congrArg (fun c => c.val.toNat) h
    have hlow := UInt32.le_iff_toNat_le.1 hc.1
    have hhigh := UInt32.le_iff_toNat_le.1 hc.2
    simp at hval hlow hhigh
    omega
  · exact h

end GoApiDoc.Text
