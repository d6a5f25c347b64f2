/-
Tables: finite maps from names, listed in the order of the names.

A table is a list of pairs whose keys increase strictly, so that two tables with the same entries
are the same list, and printing a table needs no sorting.  `Table.Sorted` states the order and every
operation here keeps it.

* `Table.get?`, `Table.insert`, `Table.erase`, `Table.modify`, `Table.extend` — the operations;
* `Table.get?_insert` — what a look-up finds after an insertion;
* `Table.sorted_insert` — insertion keeps the order.
-/

set_option autoImplicit false

namespace GoApiDoc

abbrev Table (α : Type) := List (String × α)

namespace Table

variable {α β : Type}

/-! ### Operations -/

def get? (k : String) : Table α → Option α
  | [] => none
  | (k', v) :: t => if k = k' then some v else get? k t

/-- Stores a value under a name, in place of the value stored there before. -/
def insert (k : String) (v : α) : Table α → Table α
  | [] => [(k, v)]
  | (k', v') :: t =>
    if k = k' then (k, v) :: t
    else if k < k' then (k, v) :: (k', v') :: t
    else (k', v') :: insert k v t

def erase (k : String) : Table α → Table α
  | [] => []
  | (k', v) :: t => if k = k' then t else (k', v) :: erase k t

def contains (k : String) (t : Table α) : Bool := (t.get? k).isSome

/-- Changes the value stored under a name, `fresh` standing for a missing one. -/
def modify (k : String) (fresh : α) (f : α → α) (t : Table α) : Table α :=
  t.insert k (f ((t.get? k).getD fresh))

/-- Stores all entries of a list, the later ones on top of the earlier ones. -/
def extend (t : Table α) (entries : List (String × α)) : Table α :=
  entries.foldl (fun t e => t.insert e.1 e.2) t

/-- The table with the given entries, the last of equal names winning. -/
def ofEntries (entries : List (String × α)) : Table α := extend [] entries

def keys (t : Table α) : List String := t.map (·.1)

def values (t : Table α) : List α := t.map (·.2)

def mapValues (f : α → β) (t : Table α) : Table β := t.map fun e => (e.1, f e.2)

/-! ### Order -/

def Sorted (t : Table α) : Prop := t.Pairwise fun a b => a.1 < b.1

theorem mem_insert_imp {k : String} {v : α} {t : Table α} {e : String × α}
    (h : e ∈ t.insert k v) : e = (k, v) ∨ e ∈ t := by
  induction t with
  | nil => exact Or.inl (by simpa [insert] using h)
  | cons a t ih =>
    obtain ⟨k', v'⟩ := a
    rw [insert] at h
    split at h
    · rcases List.mem_cons.1 h with h | h
      · exact Or.inl h
      · exact Or.inr (List.mem_cons_of_mem _ h)
    · split at h
      · exact (List.mem_cons.1 h).imp id id
      · rcases List.mem_cons.1 h with h | h
        · exact Or.inr (h ▸ List.mem_cons_self)
        · exact (ih h).imp id (List.mem_cons_of_mem _)

/-- Insertion keeps the order of the names. -/
theorem sorted_insert {k : String} {v : α} {t : Table α} (h : Sorted t) :
    Sorted (t.insert k v) := by
  induction t with
  | nil => simp [insert, Sorted]
  | cons a t ih =>
    obtain ⟨k', v'⟩ := a
    have hhead := (List.pairwise_cons.1 h).1
    have htail := (List.pairwise_cons.1 h).2
    rw [insert]
    split
    · next heq =>
      subst heq
      exact List.pairwise_cons.2 ⟨hhead, htail⟩
    · next hne =>
      split
      · next hlt =>
        refine List.pairwise_cons.2 ⟨?_, h⟩
        intro e he
        rcases List.mem_cons.1 he with rfl | he
        · exact hlt
        · exact String.lt_trans hlt (hhead e he)
      · next hnlt =>
        refine List.pairwise_cons.2 ⟨?_, ih htail⟩
        intro e he
        rcases mem_insert_imp he with rfl | he
        · exact Decidable.byContradiction fun hge =>
            hne (String.le_antisymm (String.not_lt.1 hge) (String.not_lt.1 hnlt))
        · exact hhead e he

/-! ### Look-up -/

/-- After an insertion the name inserted holds the new value and every other name what it held. -/
theorem get?_insert (k k' : String) (v : α) (t : Table α) :
    (t.insert k v).get? k' = if k' = k then some v else t.get? k' := by
  induction t with
  | nil => simp [insert, get?]
  | cons a t ih =>
    obtain ⟨k₀, v₀⟩ := a
    rw [insert]
    split
    · next heq => subst heq; simp only [get?]; split <;> rfl
    · next hne =>
      split
      · simp only [get?]
      · simp only [get?, ih]
        by_cases h₀ : k' = k₀
        · subst h₀; simp [Ne.symm hne]
        · simp [h₀]

end Table

end GoApiDoc
