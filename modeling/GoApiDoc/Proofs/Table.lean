/-
Look-up in tables.

`GoApiDoc/Table.lean` says what a look-up finds after an insertion.  Here are the same for a removal,
which needs the names to be listed once only, and the links between look-up, keys and entries.

* `Table.get?_erase` — after a removal the name removed holds nothing, every other name what it held;
* `Table.sorted_erase` — removal keeps the order;
* `Table.mem_keys_iff`, `Table.mem_of_get?`, `Table.get?_of_mem` — keys and entries as look-up sees
  them;
* `Table.mem_extend` — where the entries of an extended table come from;
* `Table.eq_of_get?_iff` — a table is determined by its look-ups;
* `Table.perm_ofEntries` — entries with distinct names are only put in order.
-/

import GoApiDoc.Table

set_option autoImplicit false

namespace GoApiDoc.Table

variable {α β : Type} {k : String} {v : α} {t t' : Table α} {entries : List (String × α)}
  {e : String × α}

/-! ### Entries and keys -/

theorem mem_of_get? (h : t.get? k = some v) : (k, v) ∈ t := by
  induction t with
  | nil => simp [get?] at h
  | cons a t ih =>
    obtain ⟨k', v'⟩ := a
    rw [get?] at h
    split at h
    · next heq =>
      subst heq
      cases h
      exact .head _
    · exact .tail _ (ih h)

/-- In a table in order each entry is found under its name. -/
theorem get?_of_mem (ht : t.Sorted) (h : (k, v) ∈ t) : t.get? k = some v := by
  induction t with
  | nil => cases h
  | cons a t ih =>
    obtain ⟨k', v'⟩ := a
    have hhead := (List.pairwise_cons.1 ht).1
    rcases List.mem_cons.1 h with heq | hmem
    · cases heq
      simp [get?]
    have hne : k ≠ k' := by
      rintro rfl
      exact String.lt_irrefl k (hhead (k, v) hmem)
    rw [get?, if_neg hne]
    exact ih (List.pairwise_cons.1 ht).2 hmem

/-- The keys are the names under which a look-up finds something. -/
theorem mem_keys_iff : k ∈ t.keys ↔ ∃ v, t.get? k = some v := by
  constructor
  · intro h
    induction t with
    | nil => simp [keys] at h
    | cons a t ih =>
      obtain ⟨k', v'⟩ := a
      by_cases hk : k = k'
      · exact ⟨v', by simp [get?, hk]⟩
      · have htail : k ∈ keys t := by simpa [keys, hk] using h
        obtain ⟨v, hv⟩ := ih htail
        exact ⟨v, by simp [get?, hk, hv]⟩
  · rintro ⟨v, hv⟩
    exact List.mem_map.2 ⟨(k, v), mem_of_get? hv, rfl⟩

theorem contains_iff_mem_keys : t.contains k = true ↔ k ∈ t.keys := by
  rw [contains, Option.isSome_iff_exists, mem_keys_iff]

/-- An entry of an extended table is one of the table or one of the entries added. -/
theorem mem_extend (h : e ∈ t.extend entries) : e ∈ t ∨ e ∈ entries := by
  induction entries generalizing t with
  | nil => exact .inl h
  | cons a entries ih =>
    rcases ih h with h | h
    · rcases mem_insert_imp h with rfl | h
      · exact .inr (.head _)
      · exact .inl h
    · exact .inr (.tail _ h)

theorem forall_mem_insert {P : String × α → Prop} (hv : P (k, v)) (ht : ∀ e ∈ t, P e) :
    ∀ e ∈ t.insert k v, P e := by
  intro e he
  rcases mem_insert_imp he with rfl | he
  · exact hv
  · exact ht e he

theorem eq_of_perm (h : t.Perm t') (ht : t.Sorted) (ht' : t'.Sorted) : t = t' :=
  h.eq_of_pairwise
    (fun _ _ _ _ hab hba => absurd (String.lt_trans hab hba) (String.lt_irrefl _)) ht ht'

/-- Sorted tables with the same entries are equal. -/
theorem eq_of_get?_iff (ht : t.Sorted) (ht' : t'.Sorted)
    (h : ∀ k v, t.get? k = some v ↔ t'.get? k = some v) : t = t' := by
  have hmem : ∀ {t : Table α}, t.Sorted → ∀ {e : String × α}, e ∈ t ↔ t.get? e.1 = some e.2 :=
    fun ht => ⟨fun he => get?_of_mem ht he, fun he => mem_of_get? he⟩
  have hnodup : ∀ {t : Table α}, t.Sorted → t.Nodup := by
    intro t ht
    refine .imp ?_ ht
    rintro e _ hlt rfl
    exact String.lt_irrefl _ hlt
  have hperm : t.Perm t' := (List.perm_ext_iff_of_nodup (hnodup ht) (hnodup ht')).2 fun e => by
    rw [hmem ht, hmem ht', h]
  exact eq_of_perm hperm ht ht'

/-! ### Removal -/

theorem mem_of_mem_erase (h : e ∈ t.erase k) : e ∈ t := by
  induction t with
  | nil => exact h
  | cons a t ih =>
    obtain ⟨k', v⟩ := a
    rw [erase] at h
    split at h
    · exact .tail _ h
    · rcases List.mem_cons.1 h with rfl | h
      · exact .head _
      · exact .tail _ (ih h)

theorem sorted_erase (h : Sorted t) : Sorted (t.erase k) := by
  induction t with
  | nil => exact h
  | cons a t ih =>
    obtain ⟨k', v⟩ := a
    have hhead := (List.pairwise_cons.1 h).1
    have htail := (List.pairwise_cons.1 h).2
    rw [erase]
    split
    · exact htail
    · exact List.pairwise_cons.2 ⟨fun e he => hhead e (mem_of_mem_erase he), ih htail⟩

theorem get?_eq_none_of_lt (h : ∀ e ∈ t, k < e.1) : t.get? k = none := by
  cases hv : t.get? k with
  | none => rfl
  | some v => exact absurd (h _ (mem_of_get? hv)) (String.lt_irrefl k)

theorem get?_erase {k' : String} (h : Sorted t) :
    (t.erase k).get? k' = if k' = k then none else t.get? k' := by
  induction t with
  | nil => simp [erase, get?]
  | cons a t ih =>
    obtain ⟨k₀, v₀⟩ := a
    have hhead := (List.pairwise_cons.1 h).1
    have htail := (List.pairwise_cons.1 h).2
    rw [erase]
    split
    · next heq =>
      subst heq
      by_cases hk : k' = k
      · subst hk
        simp [get?_eq_none_of_lt hhead]
      · simp [get?, hk]
    · next hne =>
      simp only [get?, ih htail]
      by_cases h₀ : k' = k₀
      · subst h₀
        simp [Ne.symm hne]
      · simp [h₀]

/-! ### Distinct names -/

theorem keys_mapValues (f : α → β) (t : Table α) : (t.mapValues f).keys = t.keys := by
  simp [keys, mapValues, Function.comp_def]

theorem sorted_mapValues (f : α → β) (h : t.Sorted) : (t.mapValues f).Sorted :=
  List.pairwise_map.2 h

theorem nodup_keys (h : t.Sorted) : t.keys.Nodup := by
  refine List.pairwise_map.2 (h.imp fun hlt heq => ?_)
  rw [heq] at hlt
  exact String.lt_irrefl _ hlt

theorem mem_keys_of_mem (h : e ∈ t) : e.1 ∈ t.keys :=
  List.mem_map.2 ⟨e, h, rfl⟩

theorem perm_insert (h : k ∉ t.keys) : (t.insert k v).Perm ((k, v) :: t) := by
  induction t with
  | nil => exact .refl _
  | cons a t ih =>
    obtain ⟨k', v'⟩ := a
    rw [keys, List.map_cons, List.mem_cons, not_or] at h
    rw [insert, if_neg h.1]
    split
    · exact .refl _
    · exact ((ih h.2).cons _).trans (.swap _ _ _)

theorem perm_extend (h : (keys (entries ++ t)).Nodup) : (t.extend entries).Perm (entries ++ t) := by
  induction entries generalizing t with
  | nil => exact .refl _
  | cons e entries ih =>
    have hperm : (entries ++ e :: t).Perm (e :: entries ++ t) := List.perm_middle
    have hkeys : (keys (entries ++ e :: t)).Nodup := (hperm.map _).nodup_iff.2 h
    have he : e.1 ∉ keys t := by
      rw [keys, List.map_append, List.map_cons] at hkeys
      exact (List.nodup_cons.1 (List.nodup_append.1 hkeys).2.1).1
    have hinsert : (entries ++ t.insert e.1 e.2).Perm (entries ++ e :: t) :=
      (perm_insert he).append_left entries
    exact ((ih ((hinsert.map _).nodup_iff.2 hkeys)).trans hinsert).trans hperm

theorem perm_ofEntries (h : (keys entries).Nodup) : (ofEntries entries).Perm entries := by
  have hperm : (extend [] entries).Perm (entries ++ []) := perm_extend (by rwa [List.append_nil])
  rwa [List.append_nil] at hperm

theorem sorted_extend (h : t.Sorted) (entries : List (String × α)) : (t.extend entries).Sorted := by
  induction entries generalizing t with
  | nil => exact h
  | cons e entries ih => exact ih (sorted_insert h)

theorem ofEntries_eq_self (h : t.Sorted) : ofEntries t = t :=
  eq_of_perm (perm_ofEntries (nodup_keys h)) (sorted_extend .nil t) h

end GoApiDoc.Table
