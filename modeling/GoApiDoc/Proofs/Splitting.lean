/-
Cutting text at delimiters outside brackets.

A text that closes the brackets it opens, and whose delimiters all stand inside them, goes to one
piece, wherever it stands.  Such texts can be put together, and put between brackets.

* `Text.splitNested_intercalate` — **texts that were joined are cut where they were joined**.
* `Text.joinWith_splitUnlessNested` — **cutting and joining are inverse to each other**.
-/

import GoApiDoc.Text.Split

set_option autoImplicit false

namespace GoApiDoc.Text

variable {d c left right : Char} {depth : Int} {cs ds : List Char} {pieces : List (List Char)}

/-- The text goes to one piece, at this depth, and leaves the depth as it is. -/
def Passed (d : Char) (depth : Int) (cs : List Char) : Prop :=
  ∀ rest, splitNested d depth (cs ++ rest) = cs.foldr consHead (splitNested d depth rest)

theorem passed_nil : Passed d depth [] := fun _ => rfl

theorem Passed.append (hcs : Passed d depth cs) (hds : Passed d depth ds) :
    Passed d depth (cs ++ ds) := by
  intro rest
  rw [List.append_assoc, hcs, hds, List.foldr_append]

theorem passed_singleton (hleft : isOpening c = false) (hright : isClosing c = false)
    (h : ¬(c = d ∧ depth = 0)) : Passed d depth [c] := by
  intro rest
  simp [splitNested, hleft, hright, h]

/-- Characters that neither delimit nor are brackets. -/
theorem passed_of_forall (h : ∀ c ∈ cs, c ∉ [d, '(', '[', '\x7b', ')', ']', '\x7d']) :
    Passed d depth cs := by
  induction cs with
  | nil => exact passed_nil
  | cons c cs ih =>
    have hc := h c (.head _)
    simp only [List.mem_cons, List.not_mem_nil, or_false, not_or] at hc
    refine (passed_singleton ?_ ?_ fun hd => hc.1 hd.1).append (ih fun e he => h e (.tail _ he))
    · simp [isOpening, hc]
    · simp [isClosing, hc]

/-- A delimiter between brackets. -/
theorem passed_delimiter (hleft : isOpening d = false) (hright : isClosing d = false)
    (h : 0 < depth) : Passed d depth [d] :=
  passed_singleton hleft hright fun hd => by omega

theorem Passed.bracketed (hleft : isOpening left = true) (hright : isClosing right = true)
    (hopen : isOpening right = false) (h : Passed d (depth + 1) cs) :
    Passed d depth (left :: (cs ++ [right])) := by
  intro rest
  have hclose : splitNested d (depth + 1) (right :: rest) =
      consHead right (splitNested d depth rest) := by
    simp [splitNested, hopen, hright]
  rw [List.cons_append, splitNested, if_pos hleft, List.append_assoc, h, List.singleton_append,
    hclose, List.foldr_cons, List.foldr_append]
  rfl

theorem foldr_consHead (cs p : List Char) (ps : List (List Char)) :
    cs.foldr consHead (p :: ps) = (cs ++ p) :: ps := by
  induction cs with
  | nil => rfl
  | cons c cs ih => rw [List.foldr_cons, ih]; rfl

theorem Passed.splitNested_eq (h : Passed d 0 cs) : splitNested d 0 cs = [cs] := by
  have hsplit := h []
  rwa [List.append_nil, splitNested, foldr_consHead, List.append_nil] at hsplit

theorem Passed.splitNested_append (h : Passed d 0 cs) (hleft : isOpening d = false)
    (hright : isClosing d = false) (rest : List Char) :
    splitNested d 0 (cs ++ d :: rest) = cs :: splitNested d 0 rest := by
  rw [h, splitNested]
  simp [hleft, hright, foldr_consHead]

/-- **Texts that were joined are cut where they were joined.** -/
theorem splitNested_intercalate (hleft : isOpening d = false) (hright : isClosing d = false) (hne : pieces ≠ []) (h : ∀ p ∈ pieces, Passed d 0 p) :
    splitNested d 0 ([d].intercalate pieces) = pieces := by
  induction pieces with
  | nil => exact absurd rfl hne
  | cons p pieces ih =>
    have hp := h p (.head _)
    cases pieces with
    | nil => rw [List.intercalate_singleton, hp.splitNested_eq]
    | cons q pieces =>
      rw [List.intercalate_cons_cons, List.append_assoc, List.singleton_append,
        hp.splitNested_append hleft hright,
        ih (List.cons_ne_nil _ _) fun e he => h e (List.mem_cons_of_mem _ he)]

theorem passed_intercalate (hleft : isOpening d = false) (hright : isClosing d = false)
    (hdepth : 0 < depth) (h : ∀ p ∈ pieces, Passed d depth p) :
    Passed d depth ([d].intercalate pieces) := by
  induction pieces with
  | nil => exact passed_nil
  | cons p pieces ih =>
    have hp := h p (.head _)
    cases pieces with
    | nil => rwa [List.intercalate_singleton]
    | cons q pieces =>
      rw [List.intercalate_cons_cons]
      exact (hp.append (passed_delimiter hleft hright hdepth)).append
        (ih fun e he => h e (.tail _ he))

/-! ### Texts that were cut -/

theorem splitNested_ne_nil (d : Char) (depth : Int) (cs : List Char) :
    splitNested d depth cs ≠ [] := by
  have hcons : ∀ (c : Char) (ps : List (List Char)), consHead c ps ≠ [] := by
    rintro c (_ | ⟨p, ps⟩) <;> exact List.cons_ne_nil _ _
  cases cs with
  | nil => exact List.cons_ne_nil _ _
  | cons c cs =>
    rw [splitNested]
    split
    · exact hcons _ _
    split
    · exact hcons _ _
    · split
      · exact List.cons_ne_nil _ _
      · exact hcons _ _

/-- **A text that was cut is put together again by its delimiter**, at whatever depth it began. -/
theorem intercalate_splitNested (d : Char) (depth : Int) (cs : List Char) :
    [d].intercalate (splitNested d depth cs) = cs := by
  have hhead : ∀ (c : Char) {ps : List (List Char)}, ps ≠ [] →
      [d].intercalate (consHead c ps) = c :: [d].intercalate ps := by
    rintro c (_ | ⟨p, _ | ⟨q, ps⟩⟩) hne
    · exact absurd rfl hne
    · simp [consHead]
    · simp [consHead, List.intercalate_cons_cons]
  induction cs generalizing depth with
  | nil => simp [splitNested]
  | cons c cs ih =>
    rw [splitNested]
    split
    · rw [hhead c (splitNested_ne_nil _ _ _), ih]
    split
    · rw [hhead c (splitNested_ne_nil _ _ _), ih]
    split
    case _ hd =>
      obtain ⟨p, ps, hps⟩ := List.exists_cons_of_ne_nil (splitNested_ne_nil d depth cs)
      rw [hps, List.intercalate_cons_cons, ← hps, ih, hd.1]
      rfl
    · rw [hhead c (splitNested_ne_nil _ _ _), ih]

/-- The number of opening brackets less that of closing ones. -/
def level (cs : List Char) : Int := cs.countP isOpening - cs.countP isClosing

theorem level_cons (c : Char) (cs : List Char) : level (c :: cs) = level [c] + level cs := by
  simp only [level, List.countP_cons, List.countP_nil]
  omega

/-- A text that closes as many brackets as it opens, in whatever order, and has no delimiter where
as many are closed as are open. -/
structure IsPiece (d : Char) (p : List Char) : Prop where
  level_eq : level p = 0
  nested : ∀ i < p.length, p[i]? = some d → level (p.take i) ≠ 0

/-- A text without delimiters at depth zero goes to one piece, behind which the depth has changed by
its level. -/
theorem splitNested_nested
    (h : ∀ i < cs.length, cs[i]? = some d → depth + level (cs.take i) ≠ 0) (rest : List Char) :
    splitNested d depth (cs ++ rest) =
      cs.foldr consHead (splitNested d (depth + level cs) rest) := by
  induction cs generalizing depth with
  | nil => simp [level]
  | cons c cs ih =>
    have htail : ∀ i < cs.length, cs[i]? = some d →
        depth + level [c] + level (cs.take i) ≠ 0 := by
      intro i hi hd
      have hne := h (i + 1) (by simpa using hi) (by simpa using hd)
      rwa [List.take_succ_cons, level_cons, ← Int.add_assoc] at hne
    rw [List.cons_append, splitNested, List.foldr_cons, level_cons, ← Int.add_assoc, ← ih htail]
    by_cases hopen : isOpening c = true
    · have hclose : isClosing c = false := by
        simp only [isOpening, Bool.or_eq_true, beq_iff_eq] at hopen
        rcases hopen with (rfl | rfl) | rfl <;> rfl
      simp [level, hopen, hclose]
    · by_cases hclose : isClosing c = true
      · simp [level, hopen, hclose, Int.sub_eq_add_neg]
      · -- The delimiter itself would stand at depth zero.
        have hd : ¬(c = d ∧ depth = 0) := by
          rintro ⟨rfl, rfl⟩
          exact h 0 (Nat.succ_pos _) rfl rfl
        simp [level, hopen, hclose, hd]

theorem IsPiece.passed {p : List Char} (h : IsPiece d p) : Passed d 0 p := by
  intro rest
  rw [splitNested_nested (by simpa using h.nested), h.level_eq, Int.zero_add]

/-- **Cutting and joining are inverse to each other.**  Whatever the delimiter, a text that was cut is
got back by joining the pieces.  For a delimiter that is no bracket, pieces that were joined are got
back by cutting, if each of them closes as many brackets as it opens and has no delimiter outside
them. -/
theorem joinWith_splitUnlessNested (d : Char) :
    (∀ s : String, joinWith (String.singleton d) (splitUnlessNested d s) = s) ∧
      (isOpening d = false → isClosing d = false → ∀ pieces : List String, pieces ≠ [] →
        (∀ p ∈ pieces, IsPiece d p.toList) →
        splitUnlessNested d (joinWith (String.singleton d) pieces) = pieces) := by
  have hlists : ∀ pieces : List String, (joinWith (String.singleton d) pieces).toList =
      [d].intercalate (pieces.map String.toList) := by
    intro pieces
    rw [joinWith, String.toList_intercalate, String.toList_singleton]
  refine ⟨fun s => ?_, fun hopen hclose pieces hne h => ?_⟩
  · rw [← String.toList_inj, hlists, splitUnlessNested, List.map_map]
    have hid : String.toList ∘ String.ofList = id := funext fun cs => String.toList_ofList
    rw [hid, List.map_id, intercalate_splitNested]
  · have hpieces : ∀ p ∈ pieces.map String.toList, Passed d 0 p :=
      List.forall_mem_map.2 fun p hp => (h p hp).passed
    rw [splitUnlessNested, hlists,
      splitNested_intercalate hopen hclose (by simpa using hne) hpieces, List.map_map]
    have hid : String.ofList ∘ String.toList = id := funext fun s => String.ofList_toList
    rw [hid, List.map_id]

theorem splitUnlessNested_joinWith_comma :
    splitUnlessNested ',' (joinWith (String.singleton ',') ["m[a,b]", "", "),(é"]) =
      ["m[a,b]", "", "),(é"] := by
  refine (joinWith_splitUnlessNested ',').2 rfl rfl _ (List.cons_ne_nil _ _) fun p hp => ?_
  simp only [List.mem_cons, List.not_mem_nil, or_false] at hp
  rcases hp with rfl | rfl | rfl <;> exact ⟨by decide, by decide⟩

end GoApiDoc.Text
