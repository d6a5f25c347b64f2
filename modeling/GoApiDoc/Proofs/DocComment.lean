/-
Comments above items.

A comment group is attached to an item by line numbers alone.  What these say about the order in the
text is found while the tokens are read: a comment stands behind some tokens and in front of all
others, and the tokens behind it begin no earlier than it ends.  So nothing stands between a group and
its item but what shares a line with the end of the group or with the beginning of the item.  A group
can begin behind a token on its line, if this is a semicolon or has begun on an earlier line.

* `Go.comments_above_items` — **where the comment group of an item stands**.
-/

import Mathlib
import GoApiDoc.Proofs.Parsing

set_option autoImplicit false

namespace GoApiDoc.Go

variable {tokens : List Token} {t : Token} {source : String} {comments : List Comment}
  {g : CommentGroup}

/-! ### Tokens in the text -/

/-- The number of the token that the lexeme is, and the line it ends on. -/
def Lexed.mark (s : Lexed) : Lexeme → List (Nat × Nat)
  | .blank | .newline | .lineComment _ | .blockComment _ _ => []
  | .token _ _ lines => [(s.tokens.length, s.line + lines)]

/-- The tokens that stand in the rest of a text: their numbers, and the lines they end on. -/
def writtenFrom (s : Lexed) : List Char → List (Nat × Nat)
  | [] => []
  | c :: cs =>
    match lexeme c cs with
    | .error _ => []
    | .ok (l, k) => s.mark l ++ writtenFrom (s.step l) (cs.drop k)
termination_by cs => cs.length
decreasing_by simp only [List.length_drop, List.length_cons]; omega

/-- The tokens that stand in a text: their numbers, and the lines they end on. -/
def written (source : String) : List (Nat × Nat) := writtenFrom .start source.toList

/-! ### Comments between tokens -/

/-- The semicolon that is inserted at the end of a line. -/
def Token.IsInserted (t : Token) : Prop := t.kind = .semicolon ∧ t.text = "\n"

/-- How a comment stands to the tokens, of which those in `w` stand in the text. -/
structure Comment.Placed (tokens : List Token) (w : List (Nat × Nat)) (c : Comment) : Prop where
  span : c.startLine ≤ c.endLine
  index : c.tokenIndex ≤ tokens.length
  before : ∀ i t, i < c.tokenIndex → tokens[i]? = some t → t.line ≤ c.startLine
  after : ∀ i t, c.tokenIndex ≤ i → tokens[i]? = some t → t.IsInserted ∨ c.endLine ≤ t.line
  alone : c.trailing = false → ∀ p ∈ w, p.1 < c.tokenIndex → p.2 = c.startLine →
    (c.tokenIndex - 1, c.startLine) ∈ w ∧ ∃ t, tokens[c.tokenIndex - 1]? = some t ∧
      (t.kind = .semicolon ∨ t.line < c.startLine)

theorem forall_getElem?_push {φ : Nat → Token → Prop} (h : ∀ i u, tokens[i]? = some u → φ i u)
    (ht : φ tokens.length t) (i : Nat) (u : Token) (hu : (tokens ++ [t])[i]? = some u) : φ i u := by
  rcases Nat.lt_trichotomy i tokens.length with hlt | rfl | hgt
  · rw [List.getElem?_append_left hlt] at hu
    exact h i u hu
  · cases List.getElem?_concat_length.symm.trans hu
    exact ht
  · have hlt := (List.getElem?_eq_some_iff.1 hu).1
    rw [List.length_append, List.length_singleton] at hlt
    omega

/-- One more token behind the comment. -/
theorem Comment.Placed.push {w w' : List (Nat × Nat)} {c : Comment} (h : c.Placed tokens w)
    (ht : t.IsInserted ∨ c.endLine ≤ t.line) (hsub : w ⊆ w')
    (hw : ∀ p ∈ w', p ∈ w ∨ tokens.length ≤ p.1) : c.Placed (tokens ++ [t]) w' := by
  have hindex := h.index
  refine ⟨h.span, ?_, fun i u hi hu => ?_, fun i u hi hu => ?_, fun htrailing p hp hlt hline => ?_⟩
  · rw [List.length_append]
    omega
  · rw [List.getElem?_append_left (by omega)] at hu
    exact h.before i u hi hu
  · exact forall_getElem?_push (fun j u hu hj => h.after j u hj hu) (fun _ => ht) i u hu hi
  · obtain hp | hp := hw p hp
    · obtain ⟨hlast, u, hu, hkind⟩ := h.alone htrailing p hp hlt hline
      refine ⟨hsub hlast, u, ?_, hkind⟩
      rw [List.getElem?_append_left (by omega), hu]
    · omega

/-- What holds while the tokens are read, of which those in `w` stand in the text. -/
structure Lexed.Tidy (s : Lexed) (w : List (Nat × Nat)) : Prop where
  lines : ∀ t ∈ s.tokens, t.line ≤ s.line
  sorted : s.tokens.Pairwise fun t u => u.line ≤ t.line
  ends : ∀ p ∈ w, p.1 < s.tokens.length ∧ p.2 ≤ s.line ∧
    (p.2 = s.line → (s.tokens.length - 1, s.line) ∈ w)
  all : ∀ i t, s.tokens.reverse[i]? = some t → t.IsInserted ∨ ∃ e, t.line ≤ e ∧ (i, e) ∈ w
  comments : ∀ c ∈ s.comments, c.endLine ≤ s.line ∧ c.Placed s.tokens.reverse w

namespace Lexed

variable {s : Lexed} {w : List (Nat × Nat)}

theorem tidy_start : start.Tidy [] :=
  ⟨List.forall_mem_nil _, .nil, List.forall_mem_nil _, by rintro _ _ ⟨⟩, List.forall_mem_nil _⟩

theorem Tidy.forward (h : s.Tidy w) (n : Nat) : Tidy { s with line := s.line + n } w := by
  refine ⟨fun t ht => ?_, h.sorted, fun p hp => ?_, h.all, fun c hc => ⟨?_, (h.comments c hc).2⟩⟩
  · exact Nat.le_trans (h.lines t ht) (Nat.le_add_right _ _)
  · obtain ⟨hlt, hle, hlast⟩ := h.ends p hp
    refine ⟨hlt, Nat.le_trans hle (Nat.le_add_right _ _), fun heq => ?_⟩
    obtain rfl : n = 0 := by dsimp only at heq; omega
    exact hlast heq
  · exact Nat.le_trans (h.comments c hc).1 (Nat.le_add_right _ _)

theorem Tidy.addComment (h : s.Tidy w) (text : String) (lines : Nat) :
    (s.addComment text lines).Tidy w := by
  refine ⟨(h.forward lines).lines, h.sorted, (h.forward lines).ends, h.all,
    List.forall_mem_cons.2 ⟨⟨Nat.le_refl _, ?_⟩, (h.forward lines).comments⟩⟩
  refine ⟨Nat.le_add_right _ _, ?_, fun i t _ ht => ?_, fun i t hi ht => ?_,
    fun htrailing p hp _ hline => ?_⟩
  · exact Nat.le_of_eq List.length_reverse.symm
  · exact h.lines t (List.mem_reverse.1 (List.mem_of_getElem? ht))
  · have hlt := (List.getElem?_eq_some_iff.1 ht).1
    rw [List.length_reverse] at hlt
    exact absurd hlt (Nat.not_lt.2 hi)
  · obtain ⟨hlt, -, hlast⟩ := h.ends p hp
    refine ⟨hlast hline, ?_⟩
    cases htokens : s.tokens with
    | nil =>
      rw [htokens] at hlt
      cases hlt
    | cons t ts =>
      refine ⟨t, by simp [Lexed.addComment, htokens], ?_⟩
      have hle := h.lines t (htokens ▸ (.head _))
      simp only [onTokenLine, htokens, Bool.and_eq_false_iff, beq_eq_false_iff_ne,
        bne_eq_false_iff_eq] at htrailing
      exact htrailing.symm.imp_right fun hne => Nat.lt_of_le_of_ne hle hne

theorem endLine_cases (s : Lexed) : s.endLine = s ∨ ∃ t ∈ s.tokens.head?,
    s.endLine = { s with tokens := ⟨.semicolon, "\n", t.line⟩ :: s.tokens } := by
  unfold Lexed.endLine
  split
  · next t ts htokens =>
    split
    · exact .inr ⟨t, by simp [htokens], rfl⟩
    · exact .inl rfl
  · exact .inl rfl

/-- A semicolon can be inserted once the line has ended on which the last token ends. -/
theorem Tidy.endLine (h : s.Tidy w) (hends : ∀ p ∈ w, p.2 < s.line) : s.endLine.Tidy w := by
  obtain heq | ⟨t, ht, heq⟩ := s.endLine_cases
  · rwa [heq]
  have hle : ∀ u ∈ s.tokens, u.line ≤ t.line := by
    obtain ⟨ts, htokens⟩ := List.head?_eq_some_iff.1 ht
    have hsorted := h.sorted
    rw [htokens] at hsorted ⊢
    exact List.forall_mem_cons.2 ⟨Nat.le_refl _, fun u hu => List.rel_of_pairwise_cons hsorted hu⟩
  rw [heq]
  refine ⟨List.forall_mem_cons.2 ⟨h.lines t (List.mem_of_mem_head? ht), h.lines⟩,
    h.sorted.cons hle, fun p hp => ?_, ?_, fun c hc => ⟨(h.comments c hc).1, ?_⟩⟩
  · exact ⟨Nat.lt_succ_of_lt (h.ends p hp).1, (h.ends p hp).2.1,
      fun hline => absurd hline (Nat.ne_of_lt (hends p hp))⟩
  · rw [List.reverse_cons]
    exact forall_getElem?_push h.all (.inl ⟨rfl, rfl⟩)
  · rw [List.reverse_cons]
    exact (h.comments c hc).2.push (.inl ⟨rfl, rfl⟩) (.refl w) fun p hp => .inl hp

theorem Tidy.token (h : s.Tidy w) (kind : Token.Kind) (text : String) (lines : Nat) :
    (s.step (.token kind text lines)).Tidy (w ++ s.mark (.token kind text lines)) := by
  have hline : s.line ≤ s.line + lines := Nat.le_add_right _ _
  have hlast : (s.tokens.length, s.line + lines) ∈ w ++ s.mark (.token kind text lines) :=
    List.mem_append_right _ (List.mem_singleton_self _)
  refine ⟨List.forall_mem_cons.2 ⟨hline, (h.forward lines).lines⟩, h.sorted.cons h.lines,
    List.forall_mem_append.2 ⟨fun p hp => ?_, List.forall_mem_singleton.2 ?_⟩, ?_,
    fun c hc => ⟨?_, ?_⟩⟩
  · exact ⟨Nat.lt_succ_of_lt (h.ends p hp).1, Nat.le_trans (h.ends p hp).2.1 hline, fun _ => hlast⟩
  · exact ⟨Nat.lt_succ_self _, Nat.le_refl _, fun _ => hlast⟩
  · rw [step, List.reverse_cons]
    refine forall_getElem?_push (fun i t ht => (h.all i t ht).imp_right fun ⟨e, he, hmem⟩ =>
      ⟨e, he, List.mem_append_left _ hmem⟩) (.inr ⟨_, hline, ?_⟩)
    rwa [List.length_reverse]
  · exact Nat.le_trans (h.comments c hc).1 hline
  · rw [step, List.reverse_cons]
    refine (h.comments c hc).2.push (.inr (h.comments c hc).1) (List.subset_append_left _ _) ?_
    refine List.forall_mem_append.2 ⟨fun p hp => .inl hp, List.forall_mem_singleton.2 (.inr ?_)⟩
    exact Nat.le_of_eq List.length_reverse

theorem step_newline (s : Lexed) :
    s.step .newline = Lexed.endLine { s with line := s.line + 1 } := by
  obtain ⟨line, _ | ⟨t, ts⟩, comments⟩ := s
  · rfl
  · unfold Lexed.step Lexed.endLine
    dsimp only
    split <;> rfl

theorem Tidy.step (h : s.Tidy w) (l : Lexeme) : (s.step l).Tidy (w ++ s.mark l) := by
  have hends : ∀ p ∈ w, p.2 ≤ s.line := fun p hp => (h.ends p hp).2.1
  cases l with
  | blank => simpa [mark, Lexed.step] using h
  | newline =>
    have hnext := (h.forward 1).endLine fun p hp => Nat.lt_succ_of_le (hends p hp)
    rwa [mark, List.append_nil, step_newline]
  | lineComment text => simpa [mark, Lexed.step] using h.addComment text 0
  | blockComment text lines =>
    rw [mark, List.append_nil, Lexed.step]
    split
    · exact h.addComment text lines
    · next hlines =>
      exact (h.addComment text lines).endLine fun p hp =>
        Nat.lt_of_le_of_lt (hends p hp) (Nat.lt_add_of_pos_right (Nat.pos_of_ne_zero hlines))
  | token kind text lines => exact h.token kind text lines

/-- The end of the text: the tokens are those at the end of a line, and the mark of the end. -/
theorem Tidy.finish (h : s.Tidy w) :
    (s.finish.tokens.reverse.Pairwise fun t u => t.line ≤ u.line) ∧
      (∀ i t, s.finish.tokens.reverse[i]? = some t →
        t.IsInserted ∨ t.kind = .eof ∨ ∃ e, t.line ≤ e ∧ (i, e) ∈ w) ∧
      ∀ c ∈ s.finish.comments.reverse, c.Placed s.finish.tokens.reverse w := by
  have hend := h.step .newline
  rw [mark, List.append_nil] at hend
  have hline : s.endLine.line = s.line ∧ s.endLine.comments = s.comments ∧
      ∀ t ∈ s.endLine.tokens, t.line ≤ s.line := by
    obtain heq | ⟨t, ht, heq⟩ := s.endLine_cases
    · rw [heq]
      exact ⟨rfl, rfl, h.lines⟩
    · rw [heq]
      exact ⟨rfl, rfl, List.forall_mem_cons.2 ⟨h.lines t (List.mem_of_mem_head? ht), h.lines⟩⟩
  obtain ⟨hline, hcomments, hlines⟩ := hline
  unfold Lexed.finish
  rw [List.pairwise_reverse, List.reverse_cons]
  refine ⟨hend.sorted.cons (hline ▸ hlines), ?_, fun c hc => ?_⟩
  · exact forall_getElem?_push (fun i t ht => (hend.all i t ht).imp_right .inr) (.inr (.inl rfl))
  · have hc' := List.mem_reverse.1 hc
    refine (hend.comments c hc').2.push (.inr ?_) (.refl w) fun p hp => .inl hp
    rw [hline]
    exact (h.comments c (hcomments ▸ hc')).1

theorem tidy_lexFrom {cs : List Char} {s' : Lexed} (h : s.Tidy w) (hlex : lexFrom s cs = .ok s') :
    ∃ s₀ : Lexed, s₀.Tidy (w ++ writtenFrom s cs) ∧ s' = s₀.finish := by
  fun_induction lexFrom s cs generalizing w with
  | case1 s =>
    cases hlex
    exact ⟨s, by rwa [writtenFrom, List.append_nil], rfl⟩
  | case2 => cases hlex
  | case3 s c cs l k hl ih =>
    rw [writtenFrom, hl, ← List.append_assoc]
    exact ih (h.step l) hlex

end Lexed

/-- **Where comments stand between the tokens of a text.** -/
theorem placed_lex (h : lex source = .ok (tokens, comments)) :
    (tokens.Pairwise fun t u => t.line ≤ u.line) ∧
      (∀ i t, tokens[i]? = some t →
        t.IsInserted ∨ t.kind = .eof ∨ ∃ e, t.line ≤ e ∧ (i, e) ∈ written source) ∧
      ∀ c ∈ comments, c.Placed tokens (written source) := by
  cases hlex : lexFrom .start source.toList with
  | error e =>
    rw [lex, hlex] at h
    cases h
  | ok s' =>
    rw [lex, hlex] at h
    cases h
    obtain ⟨s, hs, rfl⟩ := Lexed.tidy_lexFrom Lexed.tidy_start hlex
    exact hs.finish

/-! ### Groups -/

/-- The first and the last comment of a group, with no token between them. -/
structure PlacedGroup.Of (p : PlacedGroup) (first last : Comment) : Prop where
  text : p.group.comments.head? = some first.text
  startLine : p.group.startLine = first.startLine
  endLine : p.group.endLine = last.endLine
  trailing : p.trailing = first.trailing
  tokenIndex : last.tokenIndex = first.tokenIndex

theorem of_groupFrom {all cs : List Comment} {current : PlacedGroup} {first last : Comment}
    (h : current.Of first last) (hfirst : first ∈ all) (hlast : last ∈ all) (hcs : cs ⊆ all) :
    ∀ p ∈ groupFrom current last cs, ∃ first ∈ all, ∃ last ∈ all, p.Of first last := by
  induction cs generalizing current first last with
  | nil => exact List.forall_mem_singleton.2 ⟨first, hfirst, last, hlast, h⟩
  | cons c cs ih =>
    obtain ⟨hc, hcs⟩ := List.cons_subset.1 hcs
    rw [groupFrom]
    split
    · next hcontinues =>
      simp only [continues, Bool.and_eq_true, beq_iff_eq] at hcontinues
      refine ih ⟨?_, h.startLine, rfl, h.trailing, ?_⟩ hfirst hc hcs
      · rw [PlacedGroup.add, List.head?_append, h.text]
        rfl
      · exact hcontinues.1.1.2.symm.trans h.tokenIndex
    · exact List.forall_mem_cons.2 ⟨⟨first, hfirst, last, hlast, h⟩,
        ih ⟨rfl, rfl, rfl, rfl, rfl⟩ hc hc hcs⟩

theorem of_groupComments :
    ∀ p ∈ groupComments comments, ∃ first ∈ comments, ∃ last ∈ comments, p.Of first last := by
  cases comments with
  | nil => exact List.forall_mem_nil _
  | cons c cs =>
    exact of_groupFrom ⟨rfl, rfl, rfl, rfl, rfl⟩ (.head _) (.head _) (List.subset_cons_self c cs)

theorem mem_of_docBefore {m : CommentMap} {line : Nat} (h : m.docBefore line = some g) :
    ∃ p ∈ m, p.group = g ∧ p.trailing = false ∧ g.endLine + 1 = line := by
  obtain ⟨p, hp, rfl⟩ := Option.map_eq_some_iff.1 h
  have hmem := List.mem_reverse.1 (List.mem_of_find?_eq_some hp)
  have hfound := List.find?_some hp
  simp only [Bool.and_eq_true, Bool.not_eq_true', beq_iff_eq] at hfound
  exact ⟨p, hmem, rfl, hfound⟩

/-! ### Groups above items -/

/-- The group stands above token `k`: it begins with the comment `first` and ends on the line above.
The tokens between them, the inserted semicolons aside, begin on the last line of the group or on
the line of token `k`.  If a token in front of the group ends on its first line, then the last such
token does, and it is a semicolon or has begun on an earlier line. -/
structure CommentGroup.Above (source : String) (tokens : List Token) (first : Comment) (k : Nat)
    (g : CommentGroup) : Prop where
  text : g.comments.head? = some first.text
  startLine : g.startLine = first.startLine
  index : first.tokenIndex ≤ k
  line : ∃ t, tokens[k]? = some t ∧ g.endLine + 1 = t.line
  between : ∀ i t, first.tokenIndex ≤ i → i < k → tokens[i]? = some t →
    t.IsInserted ∨ t.line = g.endLine ∨ t.line = g.endLine + 1
  alone : ∀ p ∈ written source, p.1 < first.tokenIndex → p.2 = g.startLine →
    (first.tokenIndex - 1, g.startLine) ∈ written source ∧
      ∃ t, tokens[first.tokenIndex - 1]? = some t ∧ (t.kind = .semicolon ∨ t.line < g.startLine)

theorem above_of_docBefore (hlex : lex source = .ok (tokens, comments)) {k : Nat}
    (ht : tokens[k]? = some t) (hdoc : (groupComments comments).docBefore t.line = some g) :
    ∃ first ∈ comments, g.Above source tokens first k := by
  obtain ⟨hsorted, -, hplaced⟩ := placed_lex hlex
  obtain ⟨p, hp, rfl, htrailing, hline⟩ := mem_of_docBefore hdoc
  obtain ⟨first, hfirst, last, hlast, hof⟩ := of_groupComments p hp
  have hindex : first.tokenIndex ≤ k := by
    rw [← hof.tokenIndex]
    refine Nat.not_lt.1 fun hlt => ?_
    have hbefore := (hplaced last hlast).before k t hlt ht
    have hspan := (hplaced last hlast).span
    rw [hof.endLine] at hline
    omega
  refine ⟨first, hfirst, hof.text, hof.startLine, hindex, ⟨t, ht, hline⟩, fun i u hi hk hu => ?_, ?_⟩
  · refine ((hplaced last hlast).after i u (hof.tokenIndex ▸ hi) hu).imp_right fun hle => ?_
    have hle' : u.line ≤ t.line := by
      obtain ⟨hik, rfl⟩ := List.getElem?_eq_some_iff.1 hu
      obtain ⟨hkl, rfl⟩ := List.getElem?_eq_some_iff.1 ht
      exact List.pairwise_iff_getElem.1 hsorted i k hik hkl hk
    rw [hof.endLine] at hline ⊢
    omega
  · rw [hof.startLine]
    exact (hplaced first hfirst).alone (hof.trailing ▸ htrailing)

/-- **Where the comment group of an item stands.**  Every declaration, every line of a group, every
type within a function and every field of a struct type that has a comment group begins at a token
above which the group stands.  The tokens that stand in the text are all but the inserted semicolons
and the mark of the end. -/
theorem comments_above_items {source : String} {file : File} (h : fileOfText source = .ok file) :
    ∃ tokens comments, lex source = .ok (tokens, comments) ∧
      (∀ i t, tokens[i]? = some t →
        t.IsInserted ∨ t.kind = .eof ∨ ∃ e, t.line ≤ e ∧ (i, e) ∈ written source) ∧
      ∀ d ∈ file.decls, d.Parsed fun item => ∀ g, item.doc = some g → g ∈ file.comments ∧
        ∃ first ∈ comments, ∃ k line,
          Begins (groupComments comments) ⟨tokens.drop k, line⟩ item ∧
          g.Above source tokens first k := by
  obtain ⟨tokens, comments, hlex, hcomments, hparsed⟩ := parsed_fileOfText h
  refine ⟨tokens, comments, hlex, (placed_lex hlex).2.1, hparsed _ ?_⟩
  rintro item ⟨⟨rest, line⟩, hin, hbegins, hdoc⟩ g hg
  rw [hdoc] at hg
  obtain ⟨p, hp, rfl, -, hline⟩ := mem_of_docBefore hg
  refine ⟨hcomments ▸ List.mem_map_of_mem hp, ?_⟩
  have hrest : tokens.drop (tokens.length - rest.length) = rest :=
    (List.suffix_iff_eq_drop.1 hin).symm
  cases hrest' : rest with
  | nil =>
    rw [hrest'] at hline
    cases hline
  | cons t ts =>
    rw [hrest'] at hg hrest hbegins
    have ht : tokens[tokens.length - (t :: ts).length]? = some t := by
      rw [← List.head?_drop, hrest]
      rfl
    obtain ⟨first, hfirst, habove⟩ := above_of_docBefore hlex ht hg
    exact ⟨first, hfirst, _, line, by rwa [hrest], habove⟩

/-- A comment behind a string that began on the line before, and two declarations on one line. -/
def crowded : String :=
  "package m\n\nvar x = \x60a\nb\x60 // x\nfunc F() \x7b\x7d\n\n// A\ntype A int; type B int\n"

/-- The function has the comment behind the string, and the second type that of the first one. -/
theorem comments_above_items_crowded :
    (6, 4) ∈ written crowded ∧ ∃ file f a b, fileOfText crowded = .ok file ∧
      file.decls = [.func f, .type a, .type b] ∧ b.doc = a.doc ∧ f.doc = some ⟨["// x"], 4, 4⟩ ∧
      ∃ tokens comments, lex crowded = .ok (tokens, comments) ∧ ∃ first ∈ comments, ∃ k line,
        Begins (groupComments comments) ⟨tokens.drop k, line⟩ (.func f) ∧
        CommentGroup.Above crowded tokens first k ⟨["// x"], 4, 4⟩ := by
  have hstring : (written crowded)[5]? = some (6, 4) := by cbv
  refine ⟨List.mem_of_getElem? hstring, ?_⟩
  let int : TypeExpr := .ident "int"
  let about : Option CommentGroup := some ⟨["// A"], 7, 7⟩
  have hfile : fileOfText crowded = .ok ⟨"m", [],
      [.func ⟨"F", false, some ⟨["// x"], 4, 4⟩, [], 5⟩, .type ⟨"A", [], false, int, about, none, 8⟩,
        .type ⟨"B", [], false, int, about, none, 8⟩], [⟨["// x"], 4, 4⟩, ⟨["// A"], 7, 7⟩]⟩ := by
    cbv
  refine ⟨_, _, _, _, hfile, rfl, rfl, rfl, ?_⟩
  obtain ⟨tokens, comments, hlex, -, hdecls⟩ := comments_above_items hfile
  obtain ⟨hitem, -⟩ := hdecls _ List.mem_cons_self
  exact ⟨tokens, comments, hlex, (hitem _ rfl).2⟩

end GoApiDoc.Go
