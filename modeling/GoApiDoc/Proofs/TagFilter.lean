/-
Which tags the filter sees, and which tags an operation has.

The filter looks at a comment before it is read, for the words behind `@tags`; reading the comment
finds these words again.  The two look at a line in different ways: only reading passes over slashes
at the beginning of a line, as they are left when a comment begins with three of them.  So an
operation has all the tags that the filter saw, and those behind slashes besides.

* `scannedTags_eq` — **the filter sees the tags of every line but those that begin with a slash**.
-/

import GoApiDoc.Proofs.Route

set_option autoImplicit false

namespace GoApiDoc

/-! ### The word for tags -/

namespace Text

/-- A text whose first word is one for tags begins with the sign for annotations. -/
theorem begins_of_tagsWord {text : String}
    (h : asciiLower (splitAttribute text).1 = "@tags") : ∃ rest, text.toList = '@' :: rest := by
  obtain ⟨tail, htail⟩ := splitAttribute_begins text
  have hword : (splitAttribute text).1.toList.map Char.toLower = "@tags".toList := by
    rw [← h, asciiLower, String.toList_ofList]
  cases hcs : (splitAttribute text).1.toList with
  | nil =>
    rw [hcs] at hword
    cases hword
  | cons c cs =>
    rw [hcs] at hword htail
    obtain rfl := toLower_eq_at (List.cons.inj hword).1
    exact ⟨cs ++ tail, htail.symm⟩

end Text

/-! ### Lines -/

/-- The line begins with a slash. -/
def isSlashed (line : String) : Bool := Text.hasPrefix "/" (Text.trim line)

/-- The tags that the filter sees in a line. -/
def scannedTags (line : String) : List String :=
  if Text.eqIgnoreCase (Text.splitAttribute (Text.trim line)).1 "@tags" then
    Text.commaList (Text.splitAttribute (Text.trim line)).2
  else []

theorem commentTags_eq_flatMap (lines : List String) :
    commentTags lines = lines.flatMap scannedTags := rfl

theorem eqIgnoreCase_tags_iff {word : String} :
    Text.eqIgnoreCase word "@tags" = true ↔ Text.asciiLower word = "@tags" := by
  have hsmall : Text.asciiLower "@tags" = "@tags" := by decide
  rw [Text.eqIgnoreCase, hsmall, beq_iff_eq]

variable {line : String}

theorem scannedTags_of_slashed (h : isSlashed line = true) : scannedTags line = [] := by
  unfold scannedTags
  split
  · next hword =>
    obtain ⟨rest, hrest⟩ := Text.begins_of_tagsWord (eqIgnoreCase_tags_iff.1 hword)
    have hslash := Text.hasPrefix_iff.1 h
    rw [hrest] at hslash
    cases (List.cons_prefix_cons.1 hslash).1
  · rfl

theorem lineText_of_not_slashed (h : isSlashed line = false) :
    Annotating.lineText line = Text.trim line := by
  have hdrop : Text.trimStartOf '/' (Text.trim line) = Text.trim line := by
    unfold Text.trimStartOf Text.dropLeading
    cases hcs : (Text.trim line).toList with
    | nil => rw [← String.toList_inj, String.toList_ofList, hcs, List.dropWhile_nil]
    | cons c cs =>
      have hc : ¬ (c == '/') = true := by
        intro hc
        have hslash : isSlashed line = true := by
          refine Text.hasPrefix_iff.2 ?_
          rw [hcs, beq_iff_eq.1 hc]
          exact ⟨cs, rfl⟩
        rw [h] at hslash
        cases hslash
      rw [List.dropWhile_cons, if_neg hc, ← hcs, String.ofList_toList]
  rw [Annotating.lineText, hdrop, Text.trim_trim]

/-- **The filter sees the tags of a line** unless the line begins with a slash. -/
theorem scannedTags_eq (line : String) :
    scannedTags line = if isSlashed line then [] else tagsOfLine line := by
  cases h : isSlashed line with
  | true => exact scannedTags_of_slashed h
  | false =>
    rw [if_neg Bool.false_ne_true]
    unfold scannedTags tagsOfLine annotation?
    rw [lineText_of_not_slashed h]
    by_cases hword : Text.asciiLower (Text.splitAttribute (Text.trim line)).1 = "@tags"
    · obtain ⟨rest, hrest⟩ := Text.begins_of_tagsWord hword
      have hat : Text.hasPrefix "@" (Text.trim line) = true :=
        Text.hasPrefix_iff.2 ⟨rest, hrest.symm⟩
      rw [if_pos (eqIgnoreCase_tags_iff.2 hword), if_pos hat]
      simp [hword]
    · rw [if_neg (mt eqIgnoreCase_tags_iff.1 hword)]
      split
      · next rest heq =>
        split at heq
        · exact absurd (congrArg Prod.fst (Option.some.inj heq)) hword
        · cases heq
      · rfl

/-! ### Comments -/

variable {lines : List String} {t : String}

theorem scannedTags_sublist (line : String) : (scannedTags line).Sublist (tagsOfLine line) := by
  rw [scannedTags_eq]
  split
  · exact List.nil_sublist _
  · exact List.Sublist.refl _

/-- All tags that the filter sees are tags of the comment, in their order. -/
theorem commentTags_sublist (lines : List String) :
    (commentTags lines).Sublist (lines.flatMap tagsOfLine) := by
  rw [commentTags_eq_flatMap]
  induction lines with
  | nil => exact List.nil_sublist _
  | cons line lines ih =>
    rw [List.flatMap_cons, List.flatMap_cons]
    exact (scannedTags_sublist line).append ih

/-- **The filter sees all tags of a comment** exactly if none stands in a line that begins with a
slash. -/
theorem commentTags_eq_iff : commentTags lines = lines.flatMap tagsOfLine ↔
    ∀ line ∈ lines, isSlashed line = true → tagsOfLine line = [] := by
  constructor
  · intro h line hline hslashed
    -- a line that lost its tags makes the whole shorter
    obtain ⟨before, after, rfl⟩ := List.append_of_mem hline
    have hlength := congrArg List.length h
    have hbefore := (commentTags_sublist before).length_le
    have hafter := (commentTags_sublist after).length_le
    rw [commentTags_eq_flatMap] at hlength hbefore hafter
    simp only [List.flatMap_append, List.flatMap_cons, List.length_append,
      scannedTags_of_slashed hslashed, List.length_nil] at hlength
    exact List.eq_nil_of_length_eq_zero (by omega)
  · intro h
    have hlines : ∀ line ∈ lines, scannedTags line = tagsOfLine line := by
      intro line hline
      rw [scannedTags_eq]
      split
      · next hslashed => exact (h line hline hslashed).symm
      · rfl
    rw [commentTags_eq_flatMap, List.flatMap_def, List.flatMap_def, List.map_congr_left hlines]

/-- A tag that the filter does not see stands in lines that begin with a slash only. -/
theorem isSlashed_of_not_mem_commentTags (hline : line ∈ lines)
    (ht : t ∈ tagsOfLine line) (hnot : t ∉ commentTags lines) : isSlashed line = true := by
  cases h : isSlashed line with
  | true => rfl
  | false =>
    refine absurd ?_ hnot
    rw [commentTags_eq_flatMap]
    refine List.mem_flatMap.2 ⟨line, hline, ?_⟩
    rwa [scannedTags_eq, h, if_neg Bool.false_ne_true]

/-! ### The filter -/

namespace TagFilter

variable {f : TagFilter}

theorem keeps_allowed (h : f.keeps lines = true) (hallowed : f.allowed ≠ []) :
    ∃ t ∈ commentTags lines, t ∈ f.allowed := by
  have hempty : f.allowed.isEmpty = false := by simpa using hallowed
  rw [keeps, isEmpty, hempty, Bool.false_and, Bool.false_or, allows, hempty, Bool.false_or,
    Bool.and_eq_true] at h
  obtain ⟨t, ht, hin⟩ := List.any_eq_true.1 h.2
  exact ⟨t, ht, List.contains_iff_mem.1 hin⟩

theorem keeps_excluded (h : f.keeps lines = true) (ht : t ∈ f.excluded) :
    t ∉ commentTags lines := by
  have hempty : f.excluded.isEmpty = false := by simpa using List.ne_nil_of_mem ht
  rw [keeps, isEmpty, hempty, Bool.and_false, Bool.false_or, allows, Bool.and_eq_true,
    Bool.not_eq_true'] at h
  intro hseen
  have hany : (commentTags lines).any (fun t => f.excluded.contains t) = true :=
    List.any_eq_true.2 ⟨t, hseen, List.contains_iff_mem.2 ht⟩
  rw [h.1] at hany
  cases hany

end TagFilter

/-! ### The document -/

namespace Project

/-- **The tags of operations.**  A comment that is read gives its operation the tags of all its
lines.  The filter sees them in their order, all of them exactly if none stands in a line that begins
with a slash.  So an operation of a document has an allowed tag if the filter names any, and a tag
that the filter excludes stands, in the comment of the operation, in lines that begin with a slash
only. -/
theorem tags_filtered_unless_slashed (p : Project) :
    (∀ ctx lines g e g', readEndpoint ctx lines g = .ok (e, g') →
      e.operation.tags = lines.flatMap tagsOfLine ∧
      (commentTags lines).Sublist e.operation.tags ∧
      (commentTags lines = e.operation.tags ↔
        ∀ line ∈ lines, isSlashed line = true → tagsOfLine line = [])) ∧
    (∀ doc m path o, p.build = .ok doc → doc.operation? m path = some o →
      ∃ main r, p.registry = .ok (main, r) ∧ ∃ c ∈ functionComments r.parseTypes,
        c.Declares m path ∧ o.tags = c.lines.flatMap tagsOfLine ∧
        (p.settings.tags.allowed ≠ [] → ∃ t ∈ o.tags, t ∈ p.settings.tags.allowed) ∧
        ∀ t ∈ p.settings.tags.excluded, ∀ line ∈ c.lines,
          t ∈ tagsOfLine line → isSlashed line = true) := by
  refine ⟨fun ctx lines g e g' hread => ?_, fun doc m path o hbuild ho => ?_⟩
  · obtain ⟨-, -, -, htags⟩ := readEndpoint_declared (c := ⟨ctx.file, lines⟩) hread
    rw [htags]
    exact ⟨rfl, commentTags_sublist lines, commentTags_eq_iff⟩
  · obtain ⟨v, a, hasm, rfl⟩ := build_eq_ok_iff.1 hbuild
    obtain ⟨main, r, hr, hv, hfold⟩ := assemble_eq_ok_iff.1 hasm
    rcases Assembly.addComments_boundAt hfold m path with
      ⟨before, c, after, a₁, o', hsplit, hc, -, -, ho', hdesc⟩ | ⟨-, hsame⟩
    · obtain rfl : o = o' := Option.some.inj (ho.symm.trans ho')
      obtain ⟨e, g, route, hread, -, rfl⟩ := hdesc
      obtain ⟨-, -, -, htags⟩ := readEndpoint_declared hread
      have hmem : c ∈ operationComments r.parseTypes := by
        rw [hsplit]
        exact List.mem_append_right _ List.mem_cons_self
      refine ⟨main, r, hr, c, (List.mem_filter.1 hmem).1, hc.2, htags, ?_, ?_⟩
      · intro hallowed
        obtain ⟨t, ht, hin⟩ := TagFilter.keeps_allowed hc.1 hallowed
        exact ⟨t, htags ▸ (commentTags_sublist c.lines).subset ht, hin⟩
      · intro t ht line hline htag
        exact isSlashed_of_not_mem_commentTags hline htag (TagFilter.keeps_excluded hc.1 ht)
    · cases hsame.symm.trans ho

/-- An operation with an excluded tag behind a slash, and one with the tag in an ordinary line. -/
def slashedTag : Project :=
  { ofSource "package m\n/// @Tags admin\n// @Router /users [get]\nfunc A()\x7b\x7d
// @Tags admin\n// @Router /roles [get]\nfunc B()\x7b\x7d" with
    settings := { tags := TagFilter.parse "!admin" } }

set_option maxRecDepth 100000 in
/-- The filter does not see the tag behind the slash, and the operation is in the document. -/
theorem tags_filtered_unless_slashed_admin :
    (∃ e g, readEndpoint ⟨Assets.ofTables [] [], 0, "csv"⟩ ["/ @Tags admin"]
        (.fresh {} {}) = .ok (e, g) ∧ e.operation.tags = ["admin"] ∧
      commentTags ["/ @Tags admin"] ≠ e.operation.tags) ∧
    (∃ doc o, ∃ c : OperationComment, slashedTag.build = .ok doc ∧
      doc.operation? .get "/users" = some o ∧
      doc.operation? .get "/roles" = none ∧ o.tags = ["admin"] ∧
      "admin" ∈ slashedTag.settings.tags.excluded ∧ o.tags = c.lines.flatMap tagsOfLine ∧
      ∀ line ∈ c.lines, "admin" ∈ tagsOfLine line → isSlashed line = true) := by
  obtain ⟨hread, hdoc⟩ := tags_filtered_unless_slashed slashedTag
  constructor
  · have hlines : (readEndpoint ⟨Assets.ofTables [] [], 0, "csv"⟩ ["/ @Tags admin"]
        (.fresh {} {})).toOption.map (fun e => e.1.operation.tags) = some ["admin"] := by
      decide +kernel
    cases hr : readEndpoint ⟨Assets.ofTables [] [], 0, "csv"⟩ ["/ @Tags admin"] (.fresh {} {}) with
    | error e =>
      rw [hr] at hlines
      cases hlines
    | ok eg =>
      rw [hr] at hlines
      obtain ⟨hall, -, hiff⟩ := hread _ _ _ _ _ hr
      have htags : eg.1.operation.tags = ["admin"] := Option.some.inj hlines
      refine ⟨eg.1, eg.2, rfl, htags, fun heq => ?_⟩
      have hnone := hiff.1 heq _ (List.mem_singleton_self _) (by decide +kernel)
      rw [htags, List.flatMap_singleton, hnone] at hall
      cases hall
  · have hbuild : slashedTag.build.toOption.map (fun d =>
        ((d.operation? .get "/users").map (·.tags), (d.operation? .get "/roles").isSome)) =
          some (some ["admin"], false) := by
      decide +kernel
    cases hb : slashedTag.build with
    | error e =>
      rw [hb] at hbuild
      cases hbuild
    | ok doc =>
      rw [hb] at hbuild
      simp only [Except.toOption, Option.map_some, Option.some.injEq, Prod.mk.injEq,
        Option.map_eq_some_iff] at hbuild
      obtain ⟨⟨o, ho, htags⟩, hnone⟩ := hbuild
      obtain ⟨main, r, -, c, -, -, hc, -, hexcluded⟩ := hdoc doc .get "/users" o hb ho
      have hadmin : "admin" ∈ slashedTag.settings.tags.excluded := by decide +kernel
      exact ⟨doc, o, c, rfl, ho, by simpa using hnone, htags, hadmin, hc, hexcluded "admin" hadmin⟩

end Project

end GoApiDoc
