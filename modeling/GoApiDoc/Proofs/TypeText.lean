/-
Types read back from their text.

The text of a type is put together from names, brackets and reserved words, and it is read in two
steps, first as words and then as a type.  In the first step no word runs into the next one, for
behind a name there is always a bracket, a point or a comma.  In the second step a square bracket may
begin a slice, an array, the key of a map or a list of type arguments; which of them it is can be told
from what stands before and behind it.

* `Go.TypeExpr.typeOfText_text` — **a type is read back from its text**.
-/

import GoApiDoc.Proofs.Wording

set_option autoImplicit false

namespace GoApiDoc.Go

variable {c : Char} {name : String} {t : TypeExpr}

namespace TypeExpr

/-! ### Legible types -/

/-- The type is a name, with or without its package. -/
def isName : TypeExpr → Bool
  | ident _ | qualified _ _ => true
  | _ => false

/-- The types that are made of names, type arguments, pointers, slices, arrays, maps, channels in both
directions, and the interface and the struct without content. -/
inductive Legible : TypeExpr → Prop where
  | ident {name : String} (hname : IsWord name .ident name) : Legible (.ident name)
  | qualified {package name : String} (hpackage : IsWord package .ident package)
    (hname : IsWord name .ident name) : Legible (.qualified package name)
  | generic {base : TypeExpr} {args : List TypeExpr} (hbase : Legible base)
    (hname : base.isName = true) (hargs : ∀ a ∈ args, Legible a) : Legible (.generic base args)
  | pointer {elem : TypeExpr} (helem : Legible elem) : Legible (.pointer elem)
  | slice {elem : TypeExpr} (helem : Legible elem) : Legible (.slice elem)
  | array {elem : TypeExpr} (helem : Legible elem) : Legible (.array elem)
  | map {key value : TypeExpr} (hkey : Legible key) (hvalue : Legible value) :
    Legible (.map key value)
  | chan {elem : TypeExpr} (helem : Legible elem) : Legible (.chan .both elem)
  | interface : Legible (.interface 0 [])
  | struct : Legible (.struct [])

/-! ### Words -/

mutual

/-- The words that a type is written with. -/
def words : TypeExpr → List Word
  | ident name => [(.ident, name)]
  | qualified package name => [(.ident, package), (.punct, "."), (.ident, name)]
  | generic base args =>
    base.words ++ (.punct, "[") :: ([(.punct, ",")].intercalate (wordLists args) ++ [(.punct, "]")])
  | pointer elem => (.punct, "*") :: elem.words
  | slice elem => (.punct, "[") :: (.punct, "]") :: elem.words
  | array elem => (.punct, "[") :: (.punct, "...") :: (.punct, "]") :: elem.words
  | map key value =>
    (.keyword, "map") :: (.punct, "[") :: (key.words ++ (.punct, "]") :: value.words)
  | chan _ elem => (.keyword, "chan") :: elem.words
  | interface _ _ => [(.keyword, "interface"), (.punct, "\x7b"), (.punct, "\x7d")]
  | struct _ => [(.keyword, "struct"), (.punct, "\x7b"), (.punct, "\x7d")]
  | func | tilde _ | union _ | resolved _ => []

/-- The words of several types. -/
def wordLists : List TypeExpr → List (List Word)
  | [] => []
  | t :: ts => t.words :: wordLists ts

end

/-! ### From the text to the words -/

/-- The text does not go on with a letter or a digit. -/
def EndsName (rest : List Char) : Prop := ∀ c ∈ rest.head?, isIdentChar c = false

theorem endsName_nil : EndsName [] := by
  intro c hc
  cases hc

theorem endsName_cons {rest : List Char} (hc : isIdentChar c = false) : EndsName (c :: rest) := by
  rintro d ⟨⟩
  exact hc

theorem reads_letters {cs : List Char} (hname : name.toList = c :: cs) (hc : isIdentStart c = true)
    (hcs : cs.all isIdentChar = true) :
    Reads name.toList [(if keywords.contains name then .keyword else .ident, name)] EndsName := by
  rw [hname]
  refine reads_of_lexeme 0 fun rest hrest => lexeme_of_tokenAt ?_
  have hrest' : rest.takeWhile isIdentChar = [] := by
    cases rest with
    | nil => rfl
    | cons d ds => exact List.takeWhile_cons_of_neg (by simp [hrest d rfl])
  have htake : (cs ++ rest).takeWhile isIdentChar = cs := by
    rw [List.takeWhile_append_of_pos (List.all_eq_true.1 hcs), hrest', List.append_nil]
  have htoken : TokenAt c (cs ++ rest) (if keywords.contains name then .keyword else .ident) name 0
      ((cs ++ rest).takeWhile isIdentChar).length :=
    .name hc (by rw [htake, ← hname, String.ofList_toList])
  rwa [htake] at htoken

theorem reads_name (h : IsWord name .ident name) : Reads name.toList [(.ident, name)] EndsName := by
  obtain ⟨c, cs, hname, hc, hcs, hkey⟩ := isWord_ident_iff.1 h
  have hreads := reads_letters hname hc (List.all_eq_true.2 hcs)
  rwa [hkey] at hreads

theorem reads_star : Reads ['*'] [(.punct, "*")] fun rest => ∃ d ds, rest = d :: ds ∧ '=' ≠ d := by
  refine reads_of_lexeme 0 ?_
  rintro rest ⟨d, ds, rfl, hd⟩
  have hop : findOperator ('*' :: d :: ds) = some "*" := by
    simp [findOperator, operators, Text.dropPrefix?, hd]
  rw [List.nil_append, lexeme_plain (by decide) rfl, hop]
  rfl

theorem reads_point :
    Reads ['.'] [(.punct, ".")] fun rest => ∃ d ds, rest = d :: ds ∧ isIdentStart d = true := by
  refine reads_of_lexeme 0 ?_
  rintro rest ⟨d, ds, rfl, hd⟩
  have hpoint : '.' ≠ d := by
    rintro rfl
    cases hd
  have hnumber : startsNumber '.' (d :: ds) = false := by
    simp [startsNumber, isDigit_of_isIdentStart hd]
  have hop : findOperator ('.' :: d :: ds) = some "." := by
    simp [findOperator, operators, Text.dropPrefix?, hpoint]
  rw [List.nil_append, lexeme_plain (by decide) rfl, hop, hnumber]
  rfl

/-- The signs that no further character makes longer. -/
theorem reads_sign {sign : String} (h : sign ∈ ["[", "]", ",", "...", "\x7b", "\x7d"]) :
    Reads sign.toList [(.punct, sign)] fun _ => True := by
  simp only [List.mem_cons, List.not_mem_nil, or_false] at h
  rcases h with rfl | rfl | rfl | rfl | rfl | rfl <;> exact reads_of_lexeme 0 fun _ _ => rfl

theorem reads_keyword (h : name ∈ ["map", "chan", "interface", "struct"]) :
    Reads name.toList [(.keyword, name)] EndsName := by
  simp only [List.mem_cons, List.not_mem_nil, or_false] at h
  rcases h with rfl | rfl | rfl | rfl <;> exact reads_letters rfl (by decide) (by decide)

theorem reads_texts {ts : List TypeExpr} (h : ∀ t ∈ ts, Reads t.text.toList t.words EndsName) :
    Reads (",".intercalate (texts ts)).toList ([(.punct, ",")].intercalate (wordLists ts))
      EndsName := by
  induction ts with
  | nil => exact reads_nil.mono fun _ _ => trivial
  | cons t ts ih =>
    have ht := h t (.head _)
    cases ts with
    | nil => simpa [texts, wordLists] using ht
    | cons u us =>
      have hrest := ih fun v hv => h v (.tail _ hv)
      have hcomma : Reads ",".toList [(.punct, ",")] _ := reads_sign (by decide)
      simp only [texts, wordLists, String.intercalate_cons_cons, List.intercalate_cons_cons,
        String.toList_append] at hrest ⊢
      exact (ht.append hcomma fun _ _ => endsName_cons rfl).append hrest fun _ _ => trivial

/-- The text of a type begins with a letter, a star or a square bracket. -/
theorem Legible.exists_text_eq (h : t.Legible) : ∃ c cs, t.text.toList = c :: cs ∧ '=' ≠ c := by
  induction h with
  | ident hname | qualified hname =>
    obtain ⟨c, cs, htext, hc, -⟩ := isWord_ident_iff.1 hname
    have heq : '=' ≠ c := by
      rintro rfl
      cases hc
    simp [text, htext, heq]
  | generic hbase hname hargs ihbase ihargs =>
    obtain ⟨c, cs, htext, hc⟩ := ihbase
    simp [text, htext, hc]
  | interface | struct => exact ⟨_, _, rfl, by decide⟩
  | pointer | slice | array | map | chan => simp [text]

/-- **The text of a type is read as its words.** -/
theorem Legible.reads (h : t.Legible) : Reads t.text.toList t.words EndsName := by
  have hopen : Reads "[".toList [(.punct, "[")] _ := reads_sign (by decide)
  have hclose : Reads "]".toList [(.punct, "]")] _ := reads_sign (by decide)
  have hdots : Reads "...".toList [(.punct, "...")] _ := reads_sign (by decide)
  have hleft : Reads "\x7b".toList [(.punct, "\x7b")] _ := reads_sign (by decide)
  have hright : Reads "\x7d".toList [(.punct, "\x7d")] _ := reads_sign (by decide)
  have hbraces := hleft.append hright fun _ _ => trivial
  induction h with
  | ident hname => exact reads_name hname
  | qualified hpackage hname =>
    obtain ⟨c, cs, htext, hc, -⟩ := isWord_ident_iff.1 hname
    rw [text, words, String.toList_append, String.toList_append]
    refine ((reads_name hpackage).append reads_point ?_).append (reads_name hname) ?_
    · exact fun _ _ => endsName_cons rfl
    · exact fun rest _ => ⟨c, cs ++ rest, by rw [htext]; rfl, hc⟩
  | generic hbase hname hargs ihbase ihargs =>
    have hhead := ihbase.append hopen fun _ _ => endsName_cons rfl
    have hlist := (reads_texts ihargs).append hclose fun _ _ => endsName_cons rfl
    have h : Reads _ _ EndsName := (hhead.append hlist fun _ _ => trivial).mono fun _ _ => trivial
    simpa [text, words] using h
  | pointer helem ih =>
    obtain ⟨c, cs, htext, hc⟩ := helem.exists_text_eq
    rw [text, words, String.toList_append]
    exact reads_star.append ih fun rest _ => ⟨c, cs ++ rest, by rw [htext]; rfl, hc⟩
  | slice helem ih =>
    rw [text, words, String.toList_append]
    exact (hopen.append hclose fun _ _ => trivial).append ih fun _ _ => trivial
  | array helem ih =>
    have hbrackets := (hopen.append hdots fun _ _ => trivial).append hclose fun _ _ => trivial
    rw [text, words, String.toList_append]
    exact hbrackets.append ih fun _ _ => trivial
  | map hkey hvalue ihkey ihvalue =>
    have hmap : Reads "map".toList [(.keyword, "map")] _ := reads_keyword (by decide)
    have hhead := (hmap.append hopen fun _ _ => endsName_cons rfl).append ihkey fun _ _ => trivial
    have h := (hhead.append hclose fun _ _ => endsName_cons rfl).append ihvalue fun _ _ => trivial
    simpa [text, words] using h
  | chan helem ih =>
    have hchan : Reads "chan".toList [(.keyword, "chan")] _ := reads_keyword (by decide)
    rw [text, words, String.toList_append]
    exact (hchan.append reads_blank fun _ _ => endsName_cons rfl).append ih fun _ _ => trivial
  | interface =>
    have h : Reads "interface".toList [(.keyword, "interface")] _ := reads_keyword (by decide)
    exact (h.append hbraces fun _ _ => endsName_cons rfl).mono fun _ _ => trivial
  | struct =>
    have h : Reads "struct".toList [(.keyword, "struct")] _ := reads_keyword (by decide)
    exact (h.append hbraces fun _ _ => endsName_cons rfl).mono fun _ _ => trivial

/-- The words of a type begin with a name, a reserved word, a star or a square bracket. -/
theorem Legible.exists_words_eq (h : t.Legible) :
    ∃ w ws, t.words = w :: ws ∧ (w.1 = .punct → w.2 = "*" ∨ w.2 = "[") := by
  induction h with
  | generic hbase hname hargs ihbase ihargs =>
    obtain ⟨w, ws, hwords, hw⟩ := ihbase
    exact ⟨w, _, by rw [words, hwords]; rfl, hw⟩
  | ident | qualified | pointer | slice | array | map | chan | interface | struct => simp [words]

end TypeExpr

/-! ### From the words to the type -/

variable {t : TypeExpr} {m : CommentMap} {fuel : Nat} {cur : Cursor} {ws : List Word}

theorem TypeExpr.Legible.exists_fuel (h : t.Legible) (fuel : Nat)
    (hfuel : t.words.length ≤ fuel) : ∃ k, fuel = k + 1 := by
  obtain ⟨w, ws, hwords, -⟩ := h.exists_words_eq
  rw [hwords, List.length_cons] at hfuel
  exact Nat.exists_eq_add_one_of_ne_zero (Nat.ne_zero_of_lt hfuel)

theorem TypeExpr.Legible.head?_words_append (h : t.Legible) {p : String}
    (hp : p ∉ ["*", "["]) : (t.words ++ ws).head? ≠ some (.punct, p) := by
  obtain ⟨w, vs, hwords, hw⟩ := h.exists_words_eq
  rw [hwords]
  rintro ⟨⟩
  simp_all

/-- The words go on with neither a point nor a square bracket, which would continue a name. -/
def EndsType (ws : List Word) : Prop :=
  ws.head? ≠ some (.punct, ".") ∧ ws.head? ≠ some (.punct, "[")

/-- A name is read up to its type arguments. -/
theorem parseType_name (m : CommentMap) (fuel : Nat) (h : t.Legible) (hname : t.isName = true)
    (hcur : cur.words = t.words ++ ws) (hws : ws.head? ≠ some (.punct, ".")) :
    ∃ cur' : Cursor, cur'.words = ws ∧ parseType m (fuel + 1) cur =
      if cur'.atPunct "[" then do
        let (args, c) ← parseTypeArgs m fuel cur'.advance
        .ok (.generic t args, c)
      else .ok (t, cur') := by
  cases h with
  | ident hword =>
    have hnext : cur.advance.words = ws := Cursor.words_advance hcur Token.Kind.noConfusion
    refine ⟨cur.advance, hnext, ?_⟩
    rw [parseType]
    simp only [Cursor.kind_peek hcur, Cursor.text_peek hcur, Cursor.eat_eq_none hnext hws]
    rfl
  | qualified hpackage hword =>
    have hpoint := Cursor.words_advance hcur Token.Kind.noConfusion
    have hselected := Cursor.words_advance hpoint Token.Kind.noConfusion
    have hnext := Cursor.words_advance hselected Token.Kind.noConfusion
    refine ⟨cur.advance.advance.advance, hnext, ?_⟩
    rw [parseType]
    simp only [Cursor.kind_peek hcur, Cursor.text_peek hcur, Cursor.eat_of_words hpoint,
      Cursor.ident_of_words hselected]
    rfl
  | _ => cases hname

/-- The type is read from its words, with any fuel from their number on and whatever follows that
does not continue a name. -/
def TypeExpr.ReadsBack (m : CommentMap) (t : TypeExpr) : Prop :=
  ∀ fuel cur ws, t.words.length ≤ fuel → cur.words = t.words ++ ws → EndsType ws →
    ∃ cur' : Cursor, parseType m fuel cur = .ok (t, cur') ∧ cur'.words = ws

theorem parseTypeArgs_words {args : List TypeExpr} (fuel : Nat) (h : ∀ a ∈ args, a.Legible)
    (hback : ∀ a ∈ args, TypeExpr.ReadsBack m a)
    (hfuel : ([(.punct, ",")].intercalate (TypeExpr.wordLists args)).length < fuel)
    (hcur : cur.words =
      [(.punct, ",")].intercalate (TypeExpr.wordLists args) ++ (.punct, "]") :: ws) :
    ∃ cur' : Cursor, parseTypeArgs m fuel cur = .ok (args, cur') ∧ cur'.words = ws := by
  induction args generalizing fuel cur with
  | nil =>
    obtain ⟨fuel, rfl⟩ := Nat.exists_eq_add_one_of_ne_zero (Nat.ne_zero_of_lt hfuel)
    refine ⟨cur.advance, ?_, Cursor.words_advance hcur Token.Kind.noConfusion⟩
    rw [parseTypeArgs]
    simp only [Cursor.eat_of_words hcur]
  | cons a args ih =>
    obtain ⟨fuel, rfl⟩ := Nat.exists_eq_add_one_of_ne_zero (Nat.ne_zero_of_lt hfuel)
    have ha := h a List.mem_cons_self
    have hback' := hback a List.mem_cons_self
    cases args with
    | nil =>
      simp only [TypeExpr.wordLists, List.intercalate_singleton] at hfuel hcur
      have hclose : cur.eat "]" = none :=
        Cursor.eat_eq_none hcur (ha.head?_words_append (by decide))
      obtain ⟨cur', heq, hcur'⟩ :=
        hback' fuel cur _ (Nat.le_of_lt_succ hfuel) hcur (by simp [EndsType])
      have hcomma : cur'.eat "," = none := Cursor.eat_eq_none hcur' (by simp)
      refine ⟨cur'.advance, ?_, Cursor.words_advance hcur' Token.Kind.noConfusion⟩
      rw [parseTypeArgs, hclose]
      simp only [heq, hcomma, Cursor.expect_of_words hcur', bind, Except.bind]
    | cons b args =>
      simp only [TypeExpr.wordLists, List.intercalate_cons_cons, List.append_assoc,
        List.length_append, List.length_singleton] at hfuel hcur ih
      have hclose : cur.eat "]" = none :=
        Cursor.eat_eq_none hcur (ha.head?_words_append (by decide))
      obtain ⟨cur', heq, hcur'⟩ :=
        hback' fuel cur _ (by omega) hcur (by simp [EndsType])
      have hnext := Cursor.words_advance hcur' Token.Kind.noConfusion
      obtain ⟨cur'', heq', hcur''⟩ := ih fuel (fun c hc => h c (List.mem_cons_of_mem _ hc))
        (fun c hc => hback c (List.mem_cons_of_mem _ hc)) (by omega) hnext
      refine ⟨cur'', ?_, hcur''⟩
      rw [parseTypeArgs, hclose]
      simp only [heq, Cursor.eat_of_words hcur', heq', bind, Except.bind]

theorem TypeExpr.readsBack_name (m : CommentMap) (h : t.Legible) (hname : t.isName = true) :
    ReadsBack m t := by
  intro fuel cur ws hfuel hcur hws
  obtain ⟨fuel, rfl⟩ := h.exists_fuel fuel hfuel
  obtain ⟨cur', hcur', heq⟩ := parseType_name m fuel h hname hcur hws.1
  refine ⟨cur', ?_, hcur'⟩
  rw [heq, if_neg]
  rw [Cursor.atPunct_iff, hcur']
  exact hws.2

theorem parseInterface_close (h : cur.words = (.punct, "\x7d") :: ws) :
    parseInterface m (fuel + 1) cur = .ok ((0, []), cur.advance) := by
  rw [parseInterface]
  simp only [Cursor.skipSemicolons_eq_self h Token.Kind.noConfusion, Cursor.eat_of_words h]

theorem parseFields_close (h : cur.words = (.punct, "\x7d") :: ws) :
    parseFields m (fuel + 1) cur = .ok ([], cur.advance) := by
  rw [parseFields]
  simp only [Cursor.skipSemicolons_eq_self h Token.Kind.noConfusion, Cursor.eat_of_words h]

/-- **The words of a type are read as the type.** -/
theorem TypeExpr.Legible.readsBack (h : t.Legible) (m : CommentMap) : ReadsBack m t := by
  induction h with
  | ident hword => exact readsBack_name m (.ident hword) rfl
  | qualified hpackage hword => exact readsBack_name m (.qualified hpackage hword) rfl
  | generic hbase hname hargs ihbase ihargs =>
    intro fuel cur ws hfuel hcur hws
    simp only [words, List.append_assoc, List.cons_append, List.nil_append, List.length_append,
      List.length_cons] at hfuel hcur
    obtain ⟨fuel, rfl⟩ := hbase.exists_fuel fuel (by omega)
    obtain ⟨cur₁, hcur₁, heq₁⟩ := parseType_name m fuel hbase hname hcur (by simp)
    obtain ⟨cur₂, heq₂, hcur₂⟩ := parseTypeArgs_words fuel hargs ihargs (by omega)
      (Cursor.words_advance hcur₁ Token.Kind.noConfusion)
    refine ⟨cur₂, ?_, hcur₂⟩
    rw [heq₁, if_pos, heq₂]
    · rfl
    · rw [Cursor.atPunct_iff, hcur₁]
      rfl
  | pointer helem ih =>
    intro fuel cur ws hfuel hcur hws
    obtain ⟨fuel, rfl⟩ := Legible.exists_fuel (.pointer helem) fuel hfuel
    have hnext := Cursor.words_advance hcur Token.Kind.noConfusion
    obtain ⟨cur₁, heq, hcur₁⟩ := ih fuel _ ws (Nat.le_of_succ_le_succ hfuel) hnext hws
    refine ⟨cur₁, ?_, hcur₁⟩
    rw [parseType]
    simp only [Cursor.kind_peek hcur, Cursor.text_peek hcur, heq]
    rfl
  | slice helem ih =>
    intro fuel cur ws hfuel hcur hws
    obtain ⟨fuel, rfl⟩ := Legible.exists_fuel (.slice helem) fuel hfuel
    have hclose := Cursor.words_advance hcur Token.Kind.noConfusion
    have hnext := Cursor.words_advance hclose Token.Kind.noConfusion
    obtain ⟨cur₁, heq, hcur₁⟩ :=
      ih fuel _ ws (Nat.le_of_succ_le (Nat.le_of_succ_le_succ hfuel)) hnext hws
    refine ⟨cur₁, ?_, hcur₁⟩
    rw [parseType]
    simp only [Cursor.kind_peek hcur, Cursor.text_peek hcur, Cursor.eat_of_words hclose, heq]
    rfl
  | array helem ih =>
    intro fuel cur ws hfuel hcur hws
    obtain ⟨fuel, rfl⟩ := Legible.exists_fuel (.array helem) fuel hfuel
    have hdots := Cursor.words_advance hcur Token.Kind.noConfusion
    have hclose := Cursor.words_advance hdots Token.Kind.noConfusion
    have hnext := Cursor.words_advance hclose Token.Kind.noConfusion
    have hslice : cur.advance.eat "]" = none := Cursor.eat_eq_none hdots (by simp)
    simp only [words, List.length_cons] at hfuel
    obtain ⟨cur₁, heq, hcur₁⟩ := ih fuel _ ws (by omega) hnext hws
    refine ⟨cur₁, ?_, hcur₁⟩
    rw [parseType]
    simp only [Cursor.kind_peek hcur, Cursor.text_peek hcur, hslice, Cursor.eat_of_words hdots,
      Cursor.expect_of_words hclose, heq, bind, Except.bind]
    rfl
  | map hkey hvalue ihkey ihvalue =>
    intro fuel cur ws hfuel hcur hws
    obtain ⟨fuel, rfl⟩ := Legible.exists_fuel (.map hkey hvalue) fuel hfuel
    simp only [words, List.length_cons, List.length_append, List.cons_append,
      List.append_assoc] at hfuel hcur
    have hopen := Cursor.words_advance hcur Token.Kind.noConfusion
    have hnext := Cursor.words_advance hopen Token.Kind.noConfusion
    obtain ⟨cur₁, heq₁, hcur₁⟩ := ihkey fuel _ _ (by omega) hnext (by simp [EndsType])
    have hnext₁ := Cursor.words_advance hcur₁ Token.Kind.noConfusion
    obtain ⟨cur₂, heq₂, hcur₂⟩ := ihvalue fuel _ ws (by omega) hnext₁ hws
    refine ⟨cur₂, ?_, hcur₂⟩
    rw [parseType]
    simp only [Cursor.kind_peek hcur, Cursor.text_peek hcur, Cursor.expect_of_words hopen,
      Cursor.expect_of_words hcur₁, heq₂, bind, Except.bind, heq₁]
    rfl
  | chan helem ih =>
    intro fuel cur ws hfuel hcur hws
    obtain ⟨fuel, rfl⟩ := Legible.exists_fuel (.chan helem) fuel hfuel
    have hnext := Cursor.words_advance hcur Token.Kind.noConfusion
    have harrow : cur.advance.eat "<-" = none :=
      Cursor.eat_eq_none hnext (helem.head?_words_append (by decide))
    obtain ⟨cur₁, heq, hcur₁⟩ := ih fuel _ ws (Nat.le_of_succ_le_succ hfuel) hnext hws
    refine ⟨cur₁, ?_, hcur₁⟩
    rw [parseType]
    simp only [Cursor.kind_peek hcur, Cursor.text_peek hcur, harrow, heq]
    rfl
  | interface =>
    intro fuel cur ws hfuel hcur hws
    obtain ⟨k, rfl⟩ : ∃ k, fuel = k + 2 := Nat.exists_eq_add_of_le' (Nat.le_of_succ_le hfuel)
    have hopen := Cursor.words_advance hcur Token.Kind.noConfusion
    have hclose := Cursor.words_advance hopen Token.Kind.noConfusion
    refine ⟨_, ?_, Cursor.words_advance hclose Token.Kind.noConfusion⟩
    rw [parseType]
    simp only [Cursor.kind_peek hcur, Cursor.text_peek hcur, Cursor.expect_of_words hopen, bind,
      Except.bind, parseInterface_close hclose]
    rfl
  | struct =>
    intro fuel cur ws hfuel hcur hws
    obtain ⟨k, rfl⟩ : ∃ k, fuel = k + 2 := Nat.exists_eq_add_of_le' (Nat.le_of_succ_le hfuel)
    have hopen := Cursor.words_advance hcur Token.Kind.noConfusion
    have hclose := Cursor.words_advance hopen Token.Kind.noConfusion
    refine ⟨_, ?_, Cursor.words_advance hclose Token.Kind.noConfusion⟩
    rw [parseType]
    simp only [Cursor.kind_peek hcur, Cursor.text_peek hcur, Cursor.expect_of_words hopen, bind,
      Except.bind, parseFields_close hclose]
    rfl

/-- The text of a type is read up to its end. -/
theorem TypeExpr.Legible.parses (h : t.Legible) : ∃ tokens cur, lex t.text = .ok (tokens, []) ∧
    parseType (groupComments []) (parserFuel tokens.length) ⟨tokens, 0⟩ = .ok (t, cur) ∧
      cur.skipSemicolons.atKind .eof = true := by
  obtain ⟨tokens, ws, hlex, hwords, hend⟩ := lex_of_reads h.reads endsName_nil
  have hfuel : t.words.length ≤ parserFuel tokens.length := by
    have hlength := congrArg List.length hwords
    rw [List.length_map, List.length_append] at hlength
    rw [parserFuel]
    omega
  have hws : EndsType ws := by
    rcases hend with rfl | rfl <;> simp [EndsType]
  obtain ⟨cur, heq, hcur⟩ := h.readsBack (groupComments []) _ ⟨tokens, 0⟩ ws hfuel hwords hws
  exact ⟨tokens, cur, hlex, heq, Cursor.atKind_eof_of_isEnd (hcur ▸ hend)⟩

/-- **A type is read back from its text.** -/
theorem TypeExpr.typeOfText_text (h : t.Legible) : typeOfText t.text = .ok t := by
  obtain ⟨tokens, cur, hlex, heq, heof⟩ := h.parses
  simp only [typeOfText, openSource, hlex, bind, Except.bind, heq]
  exact if_pos heof

/-- A map to slices of a generic type of another package, with a channel, an array, an empty
interface and an empty list of arguments among its arguments. -/
theorem TypeExpr.typeOfText_text_nested :
    ∃ t : TypeExpr, t.text = "map[k][]*p.Of[chan T,[...]any,interface\x7b\x7d,Set[]]" ∧
      t.Legible ∧ typeOfText t.text = .ok t := by
  have hword : ∀ name ∈ ["k", "p", "Of", "T", "any", "Set"], IsWord name .ident name := by
    simp only [List.forall_mem_cons]
    refine ⟨?_, ?_, ?_, ?_, ?_, ?_, by simp⟩ <;> exact ⟨_, _, _, rfl, rfl⟩
  have hname : ∀ name ∈ ["k", "p", "Of", "T", "any", "Set"], Legible (.ident name) :=
    fun name h => .ident (hword name h)
  have hbase : Legible (.qualified "p" "Of") := .qualified (hword _ (by decide)) (hword _ (by decide))
  have hargs : ∀ a ∈ [TypeExpr.chan .both (.ident "T"), .array (.ident "any"), .interface 0 [],
      .generic (.ident "Set") []], Legible a := by
    simp only [List.forall_mem_cons]
    exact ⟨.chan (hname _ (by decide)), .array (hname _ (by decide)), .interface,
      .generic (hname _ (by decide)) rfl (by simp), by simp⟩
  have h : Legible (.map (.ident "k") (.slice (.pointer (.generic (.qualified "p" "Of") _)))) :=
    .map (hname _ (by decide)) (.slice (.pointer (.generic hbase rfl hargs)))
  exact ⟨_, by simp [text, texts], h, typeOfText_text h⟩

end GoApiDoc.Go
