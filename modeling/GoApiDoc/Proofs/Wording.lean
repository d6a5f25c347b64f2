/-
Texts put together from words.

A word is a token without its line.  Written one after the other, words are read again as they were
written, unless one of them runs into the next: a name goes on as long as letters follow it, a number
as long as digits do, and an operator may be the beginning of a longer one.  A blank ends all of them.

* `Go.TokenAt.append_blank` — **a token that is all of a text is read in front of a blank as well**;
* `Go.lex_of_reads` — **the tokens of a text that is put together from words**.
-/

import Mathlib
import GoApiDoc.Go.Parser.Types

set_option autoImplicit false

namespace GoApiDoc.Go

variable {c : Char} {cs : List Char} {kind : Token.Kind} {text : String} {lines n : Nat}
  {op : String} {digits : Token.Kind × Nat} {before before' : List Char → Prop}

/-! ### The token at the beginning of a text -/

/-- A number begins here. -/
def startsNumber (c : Char) (cs : List Char) : Bool :=
  c.isDigit || (c == '.' && (cs.head?).any Char.isDigit)

/-- A comment begins here. -/
def startsComment (c : Char) (cs : List Char) : Bool :=
  c == '/' && (cs.head? == some '/' || cs.head? == some '*')

/-- The characters that neither begin a number, nor a name, nor an operator. -/
def delimiters : List Char := [' ', '\t', '\r', '\n', '"', '\x60', '\'']

/-- The token at the beginning of the text `c :: cs`, with its kind, its text, the line ends in it
and the number of its characters in `cs`. -/
inductive TokenAt (c : Char) (cs : List Char) : Token.Kind → String → Nat → Nat → Prop where
  | string {n : Nat} {text : List Char} (hc : c = '"') (hn : quoteLength? '"' cs = some n)
    (htext : unescapeChars (cs.take n) = .ok text) :
    TokenAt c cs .str (String.ofList text) 0 (n + 1)
  | raw {n : Nat} (hc : c = '\x60') (hn : rawLength? cs = some n) :
    TokenAt c cs .str (String.ofList ((cs.take n).filter (· ≠ '\r'))) (countLines (cs.take n))
      (n + 1)
  | rune {n : Nat} (hc : c = '\'') (hn : quoteLength? '\'' cs = some n) :
    TokenAt c cs .char (String.ofList (c :: cs.take (n + 1))) 0 (n + 1)
  | number {kind : Token.Kind} {n : Nat} (hc : startsNumber c cs = true)
    (hn : numberLength c cs = (kind, n)) : TokenAt c cs kind (String.ofList (c :: cs.take n)) 0 n
  | name {text : String} (hc : isIdentStart c = true)
    (htext : text = String.ofList (c :: cs.takeWhile isIdentChar)) :
    TokenAt c cs (if keywords.contains text then .keyword else .ident) text 0
      (cs.takeWhile isIdentChar).length
  | operator {op : String} (hnumber : startsNumber c cs = false)
    (hcomment : startsComment c cs = false) (hop : findOperator (c :: cs) = some op) :
    TokenAt c cs (if op == ";" then .semicolon else .punct) op 0 (op.length - 1)

theorem take_length_takeWhile (p : Char → Bool) (cs : List Char) :
    cs.take (cs.takeWhile p).length = cs.takeWhile p :=
  (List.prefix_iff_eq_take.1 (List.takeWhile_prefix p)).symm

/-! What begins with none of the delimiters is a number, a name or an operator. -/

theorem lexeme_plain (hc : c ∉ delimiters) (hcomment : startsComment c cs = false) :
    lexeme c cs =
      if startsNumber c cs then
        .ok (.token (numberLength c cs).1 (String.ofList (c :: cs.take (numberLength c cs).2)) 0,
          (numberLength c cs).2)
      else if isIdentStart c then
        .ok (.token
          (if keywords.contains (String.ofList (c :: cs.takeWhile isIdentChar)) then .keyword
            else .ident)
          (String.ofList (c :: cs.takeWhile isIdentChar)) 0, (cs.takeWhile isIdentChar).length)
      else
        match findOperator (c :: cs) with
        | some op => .ok (.token (if op == ";" then .semicolon else .punct) op 0, op.length - 1)
        | none => .error (.strayCharacter c) := by
  have hne : ∀ d ∈ delimiters, (c == d) = false := by
    intro d hd
    rw [beq_eq_false_iff_ne]
    rintro rfl
    exact hc hd
  rw [startsComment, Bool.and_or_distrib_left, Bool.or_eq_false_iff] at hcomment
  unfold lexeme
  simp only [hne ' ' (by decide), hne '\t' (by decide), hne '\r' (by decide), hne '\n' (by decide),
    hne '"' (by decide), hne '\x60' (by decide), hne '\'' (by decide), hcomment.1, hcomment.2,
    Bool.or_false, Bool.false_eq_true, if_false, startsNumber, take_length_takeWhile]
  rfl

theorem tokenAt_of_lexeme (h : lexeme c cs = .ok (.token kind text lines, n)) :
    TokenAt c cs kind text lines n := by
  unfold lexeme at h
  -- blanks, line ends and comments are no tokens
  split at h
  · cases h
  split at h
  · cases h
  split at h
  · cases h
  next hline =>
  split at h
  · split at h <;> cases h
  next hblock =>
  split at h
  · next hc =>
    split at h
    · cases h
    · next hn =>
      split at h
      · next htext =>
        cases h
        exact .string (by simpa using hc) hn htext
      · cases h
  split at h
  · next hc =>
    split at h
    · cases h
    · next hn =>
      cases h
      exact .raw (by simpa using hc) hn
  split at h
  · next hc =>
    split at h
    · cases h
    · next hn =>
      cases h
      exact .rune (by simpa using hc) hn
  split at h
  · next hc =>
    cases h
    exact .number hc rfl
  next hnumber =>
  split at h
  · next hc =>
    cases h
    simp only [take_length_takeWhile]
    exact .name hc rfl
  · split at h
    · next hop =>
      cases h
      refine .operator (Bool.eq_false_iff.2 hnumber) ?_ hop
      rw [startsComment, Bool.and_or_distrib_left, Bool.or_eq_false_iff]
      exact ⟨Bool.eq_false_iff.2 hline, Bool.eq_false_iff.2 hblock⟩
    · cases h

theorem isIdentStart_iff_toNat : isIdentStart c = true ↔
    c.toNat = 95 ∨ 65 ≤ c.toNat ∧ c.toNat ≤ 90 ∨ 97 ≤ c.toNat ∧ c.toNat ≤ 122 ∨ 128 ≤ c.toNat := by
  have halpha : c.isAlpha = true ↔
      (65 ≤ c.toNat ∧ c.toNat ≤ 90) ∨ (97 ≤ c.toNat ∧ c.toNat ≤ 122) := by
    simp only [Char.isAlpha, Char.isUpper, Char.isLower, Bool.or_eq_true, Bool.and_eq_true,
      decide_eq_true_eq]
    rfl
  have hunder : c = '_' ↔ c.toNat = 95 := Char.toNat_inj.symm
  simp only [isIdentStart, Bool.or_eq_true, beq_iff_eq, decide_eq_true_eq, halpha, hunder, or_assoc]

theorem isDigit_of_isIdentStart (hc : isIdentStart c = true) : c.isDigit = false := by
  rw [isIdentStart_iff_toNat] at hc
  rw [Bool.eq_false_iff, Ne, Char.isDigit_iff_toNat]
  have h0 : '0'.toNat = 48 := rfl
  have h9 : '9'.toNat = 57 := rfl
  omega

theorem head?_of_findOperator (h : findOperator (c :: cs) = some op) :
    op ∈ operators ∧ op.toList.head? = some c := by
  have hmem := List.mem_of_find?_eq_some h
  have hprefix := List.find?_some h
  have hne : ∀ op ∈ operators, op.toList ≠ [] := by decide
  cases hop : op.toList with
  | nil => exact absurd hop (hne op hmem)
  | cons d ds =>
    rw [hop, Text.dropPrefix?] at hprefix
    split at hprefix
    · next hd => exact ⟨hmem, congrArg some hd⟩
    · cases hprefix

/-- No operator begins with a delimiter or with a letter. -/
theorem plain_of_findOperator (h : findOperator (c :: cs) = some op) :
    c ∉ delimiters ∧ isIdentStart c = false := by
  have hall : (operators.all fun op => op.toList.head?.all fun d =>
      !delimiters.contains d && !isIdentStart d) = true := by decide
  obtain ⟨hmem, hhead⟩ := head?_of_findOperator h
  have hc := List.all_eq_true.1 hall op hmem
  simpa [hhead] using hc

theorem lexeme_of_tokenAt (h : TokenAt c cs kind text lines n) :
    lexeme c cs = .ok (.token kind text lines, n) := by
  cases h with
  | string hc hn htext =>
    simp [lexeme, hc, hn, htext]
  | raw hc hn | rune hc hn =>
    simp [lexeme, hc, hn]
  | number hc hn =>
    have hdelim : c ∉ delimiters := by
      intro hmem
      fin_cases hmem <;> cases hc
    have hcomment : startsComment c cs = false := by
      by_cases hslash : c = '/'
      · subst hslash
        cases hc
      · simp [startsComment, hslash]
    rw [lexeme_plain hdelim hcomment, if_pos hc, hn]
  | name hc htext =>
    have hne : ∀ d, isIdentStart d = false → c ≠ d := by
      rintro d hd rfl
      simp [hd] at hc
    have hdelim : c ∉ delimiters := by
      intro hmem
      fin_cases hmem <;> cases hc
    have hcomment : startsComment c cs = false := by simp [startsComment, hne '/' (by decide)]
    have hnumber : startsNumber c cs = false := by
      simp [startsNumber, isDigit_of_isIdentStart hc, hne '.' (by decide)]
    rw [lexeme_plain hdelim hcomment, hnumber, if_neg Bool.false_ne_true, if_pos hc, htext]
  | operator hnumber hcomment hop =>
    obtain ⟨hdelim, hletter⟩ := plain_of_findOperator hop
    rw [lexeme_plain hdelim hcomment, hnumber, hletter, if_neg Bool.false_ne_true,
      if_neg Bool.false_ne_true, hop]

/-! ### Tokens in front of blanks -/

theorem signLength_append_blank (cs rest : List Char) :
    signLength (cs ++ ' ' :: rest) = signLength cs := by
  cases cs with
  | nil | cons c cs => rfl

theorem signLength_le (cs : List Char) : signLength cs ≤ cs.length := by
  cases cs with
  | nil => exact Nat.le_refl _
  | cons c cs =>
    rw [signLength]
    split <;> simp

theorem decimalLength_append_blank (rest : List Char) (kind : Token.Kind) (skip : Nat)
    (cs : List Char) (h : skip ≤ cs.length) :
    decimalLength kind skip (cs ++ ' ' :: rest) = decimalLength kind skip cs := by
  fun_induction decimalLength kind skip cs with
  | case1 kind skip =>
    obtain rfl : skip = 0 := by simpa using h
    simp [decimalLength]
  | case2 kind c cs k k' n heq ih =>
    rw [List.cons_append, decimalLength, ih (by simpa using h), heq]
  | case3 kind c cs hc k' n heq ih =>
    rw [List.cons_append, decimalLength, if_pos hc, ih (Nat.zero_le _), heq]
  | case4 kind c cs hc hp k' n heq ih =>
    rw [List.cons_append, decimalLength, if_neg hc, if_pos hp, ih (Nat.zero_le _), heq]
  | case5 kind c cs hc hp he k' n heq ih =>
    rw [List.cons_append, decimalLength, if_neg hc, if_neg hp, if_pos he,
      signLength_append_blank, ih (signLength_le cs), heq]
  | case6 kind c cs hc hp he =>
    rw [List.cons_append, decimalLength, if_neg hc, if_neg hp, if_neg he]

/-- The kinds of numbers. -/
def numberKinds : List Token.Kind := [.int, .float, .imag]

theorem decimalLength_bounds (hkind : kind ∈ numberKinds) (skip : Nat) (cs : List Char) :
    (decimalLength kind skip cs).2 ≤ cs.length ∧ (decimalLength kind skip cs).1 ∈ numberKinds := by
  fun_induction decimalLength kind skip cs with
  | case1 | case6 => exact ⟨Nat.zero_le _, hkind⟩
  | case2 kind c cs k k' n heq ih | case3 kind c cs hc k' n heq ih => simpa [heq] using ih hkind
  | case4 kind c cs hc hp k' n heq ih => simpa [heq] using ih (by decide)
  | case5 kind c cs hc hp he k' n heq ih => simpa [heq] using ih (by decide)

theorem basedLength_append_blank (rest : List Char) (hex : Bool) (kind : Token.Kind) (skip : Nat)
    (cs : List Char) (h : skip ≤ cs.length) :
    basedLength hex kind skip (cs ++ ' ' :: rest) = basedLength hex kind skip cs := by
  fun_induction basedLength hex kind skip cs with
  | case1 kind skip =>
    obtain rfl : skip = 0 := by simpa using h
    have hblank : isHexDigit ' ' = false := by decide
    simp [basedLength, hblank]
  | case2 kind c cs k k' n heq ih =>
    rw [List.cons_append, basedLength, ih (by simpa using h), heq]
  | case3 kind c cs hc k' n heq ih =>
    rw [List.cons_append, basedLength, if_pos hc, ih (Nat.zero_le _), heq]
  | case4 kind c cs hc hp k' n heq ih =>
    rw [List.cons_append, basedLength, if_neg hc, if_pos hp, signLength_append_blank,
      ih (signLength_le cs), heq]
  | case5 kind c cs hc hp =>
    rw [List.cons_append, basedLength, if_neg hc, if_neg hp]

theorem basedLength_bounds (hkind : kind ∈ numberKinds) (hex : Bool) (skip : Nat)
    (cs : List Char) : (basedLength hex kind skip cs).2 ≤ cs.length ∧
      (basedLength hex kind skip cs).1 ∈ numberKinds := by
  fun_induction basedLength hex kind skip cs with
  | case1 | case5 => exact ⟨Nat.zero_le _, hkind⟩
  | case2 kind c cs k k' n heq ih | case3 kind c cs hc k' n heq ih => simpa [heq] using ih hkind
  | case4 kind c cs hc hp k' n heq ih => simpa [heq] using ih (by decide)

theorem quoteLength?_append {q : Char} (h : quoteLength? q cs = some n) (rest : List Char) :
    n < cs.length ∧ quoteLength? q (cs ++ rest) = some n := by
  fun_induction quoteLength? q cs generalizing n with
  | case1 | case2 | case3 => cases h
  | case4 c hn hb d cs ih =>
    obtain ⟨m, hm, rfl⟩ := Option.map_eq_some_iff.1 h
    obtain ⟨hlt, heq⟩ := ih hm
    refine ⟨by simpa using hlt, ?_⟩
    rw [List.cons_append, quoteLength?.eq_def]
    simp [hn, hb, heq]
  | case5 c cs hn hb hq =>
    cases h
    refine ⟨by simp, ?_⟩
    rw [List.cons_append, quoteLength?.eq_def]
    simp [hn, hb, hq]
  | case6 c cs hn hb hq ih =>
    obtain ⟨m, hm, rfl⟩ := Option.map_eq_some_iff.1 h
    obtain ⟨hlt, heq⟩ := ih hm
    refine ⟨by simpa using hlt, ?_⟩
    rw [List.cons_append, quoteLength?.eq_def]
    simp [hn, hb, hq, heq]

/-- The kind of a number and the number of its characters after the first, without the imaginary
unit. -/
def digitsLength (c : Char) (cs : List Char) : Token.Kind × Nat :=
  match c, cs with
  | '0', x :: rest =>
    if isBaseLetter x then
      let (kind, n) := basedLength (x == 'x' || x == 'X') .int 0 rest
      (kind, n + 1)
    else decimalLength .int 0 cs
  | '.', cs => decimalLength .float 0 cs
  | _, cs => decimalLength .int 0 cs

/-- The kind and the length of a number with the imaginary unit that may follow its digits. -/
def withUnit (cs : List Char) (digits : Token.Kind × Nat) : Token.Kind × Nat :=
  match cs.drop digits.2 with
  | 'i' :: _ => (.imag, digits.2 + 1)
  | _ => digits

theorem numberLength_eq (c : Char) (cs : List Char) :
    numberLength c cs = withUnit cs (digitsLength c cs) := rfl

theorem digitsLength_bounds (c : Char) (cs : List Char) :
    (digitsLength c cs).2 ≤ cs.length ∧ (digitsLength c cs).1 ∈ numberKinds := by
  unfold digitsLength
  split
  · split
    · exact (basedLength_bounds (by decide) _ _ _).imp_left Nat.succ_le_succ
    · exact decimalLength_bounds (by decide) _ _
  · exact decimalLength_bounds (by decide) _ _
  · exact decimalLength_bounds (by decide) _ _

theorem digitsLength_append_blank (c : Char) (cs rest : List Char) :
    digitsLength c (cs ++ ' ' :: rest) = digitsLength c cs := by
  by_cases hzero : c = '0'
  · subst hzero
    cases cs with
    | nil => rfl
    | cons x cs =>
      simp only [digitsLength, List.cons_append]
      rw [basedLength_append_blank rest _ _ _ cs (Nat.zero_le _)]
      rw [← List.cons_append, decimalLength_append_blank rest _ _ (x :: cs) (Nat.zero_le _)]
  · by_cases hpoint : c = '.'
    · subst hpoint
      exact decimalLength_append_blank rest _ _ cs (Nat.zero_le _)
    · unfold digitsLength
      split
      · exact absurd rfl hzero
      · exact absurd rfl hpoint
      · split
        · exact absurd rfl hzero
        · exact absurd rfl hpoint
        · exact decimalLength_append_blank rest _ _ cs (Nat.zero_le _)

theorem withUnit_append_blank (h : digits.2 ≤ cs.length) (rest : List Char) :
    withUnit (cs ++ ' ' :: rest) digits = withUnit cs digits := by
  unfold withUnit
  rw [List.drop_append_of_le_length h]
  cases cs.drop digits.2 with
  | nil => rfl
  | cons d ds =>
    by_cases hd : d = 'i'
    · subst hd
      rfl
    · simp [hd]

theorem numberLength_append_blank (c : Char) (cs rest : List Char) :
    numberLength c (cs ++ ' ' :: rest) = numberLength c cs := by
  rw [numberLength_eq, numberLength_eq, digitsLength_append_blank,
    withUnit_append_blank (digitsLength_bounds c cs).1]

theorem rawLength?_append (h : rawLength? cs = some n) (rest : List Char) :
    n < cs.length ∧ rawLength? (cs ++ rest) = some n := by
  unfold rawLength? at h ⊢
  dsimp only at h ⊢
  split at h
  · next hlt =>
    cases h
    refine ⟨hlt, ?_⟩
    have htake : (cs ++ rest).takeWhile (· ≠ '\x60') = cs.takeWhile (· ≠ '\x60') := by
      rw [List.takeWhile_append, if_neg (Nat.ne_of_lt hlt)]
    rw [htake, if_pos]
    simp only [List.length_append]
    omega
  · cases h

theorem isSome_dropPrefix?_append_blank {p : List Char} (hp : ' ' ∉ p) (cs rest : List Char) :
    (Text.dropPrefix? p (cs ++ ' ' :: rest)).isSome = (Text.dropPrefix? p cs).isSome := by
  induction p generalizing cs with
  | nil => simp [Text.dropPrefix?]
  | cons a p ih =>
    rw [List.mem_cons, not_or] at hp
    cases cs with
    | nil => simp [Text.dropPrefix?, Ne.symm hp.1]
    | cons c cs =>
      simp only [List.cons_append, Text.dropPrefix?]
      split
      · exact ih hp.2 cs
      · rfl

theorem findOperator_append_blank (cs rest : List Char) :
    findOperator (cs ++ ' ' :: rest) = findOperator cs := by
  have hblank : ∀ op ∈ operators, ' ' ∉ op.toList := by decide
  unfold findOperator
  refine List.find?_congr fun op hop => ?_
  exact isSome_dropPrefix?_append_blank (hblank op hop) cs rest

theorem numberLength_bounds (c : Char) (cs : List Char) :
    (numberLength c cs).2 ≤ cs.length ∧ (numberLength c cs).1 ∈ numberKinds := by
  have h := digitsLength_bounds c cs
  rw [numberLength_eq, withUnit]
  split
  · next hdrop =>
    have hlength := congrArg List.length hdrop
    simp only [List.length_drop, List.length_cons] at hlength
    exact ⟨by dsimp only; omega, by simp [numberKinds]⟩
  · exact h

theorem head?_append_blank (p : Char → Bool) (hp : p ' ' = false) (cs rest : List Char) :
    (cs ++ ' ' :: rest).head?.any p = cs.head?.any p := by
  cases cs with
  | nil => simp [hp]
  | cons d ds => rfl

theorem startsNumber_append_blank (c : Char) (cs rest : List Char) :
    startsNumber c (cs ++ ' ' :: rest) = startsNumber c cs := by
  rw [startsNumber, head?_append_blank _ rfl, startsNumber]

theorem startsComment_append_blank (c : Char) (cs rest : List Char) :
    startsComment c (cs ++ ' ' :: rest) = startsComment c cs := by
  cases cs with
  | nil => simp [startsComment]
  | cons d ds => rfl

theorem takeWhile_append_blank (cs rest : List Char) :
    (cs ++ ' ' :: rest).takeWhile isIdentChar = cs.takeWhile isIdentChar := by
  rw [List.takeWhile_append]
  split
  · next hall =>
    have hblank : isIdentChar ' ' = false := by decide
    rw [List.takeWhile_cons_of_neg (by simp [hblank]), List.append_nil]
    exact ((List.takeWhile_prefix isIdentChar).eq_of_length hall).symm
  · rfl

/-- **A blank ends every token**: what is read at the end of a text is read in front of a blank as
well. -/
theorem TokenAt.append_blank (h : TokenAt c cs kind text lines n) (rest : List Char) :
    TokenAt c (cs ++ ' ' :: rest) kind text lines n := by
  have htake : ∀ k ≤ cs.length, (cs ++ ' ' :: rest).take k = cs.take k :=
    fun k hk => List.take_append_of_le_length hk
  cases h with
  | string hc hn htext =>
    obtain ⟨hlt, happend⟩ := quoteLength?_append hn (' ' :: rest)
    refine .string hc happend ?_
    rw [htake _ (Nat.le_of_lt hlt), htext]
  | raw hc hn =>
    obtain ⟨hlt, happend⟩ := rawLength?_append hn (' ' :: rest)
    rw [← htake _ (Nat.le_of_lt hlt)]
    exact .raw hc happend
  | rune hc hn =>
    obtain ⟨hlt, happend⟩ := quoteLength?_append hn (' ' :: rest)
    rw [← htake _ hlt]
    exact .rune hc happend
  | number hc hn =>
    have hle := (numberLength_bounds c cs).1
    rw [hn] at hle
    rw [← htake _ hle]
    refine .number ?_ ?_
    · rw [startsNumber_append_blank, hc]
    · rw [numberLength_append_blank, hn]
  | name hc htext =>
    rw [← takeWhile_append_blank cs rest] at htext ⊢
    exact .name hc htext
  | operator hnumber hcomment hop =>
    refine .operator ?_ ?_ ?_
    · rw [startsNumber_append_blank, hnumber]
    · rw [startsComment_append_blank, hcomment]
    · rw [← List.cons_append, findOperator_append_blank, hop]

/-! ### Words -/

/-- A token without its line. -/
abbrev Word := Token.Kind × String

/-- The token without its line. -/
def Token.word (t : Token) : Word := (t.kind, t.text)

/-- The text `source` is one word: a token with the given kind and text that is all of it. -/
def IsWord (source : String) (kind : Token.Kind) (text : String) : Prop :=
  ∃ c cs lines, source.toList = c :: cs ∧ lexeme c cs = .ok (.token kind text lines, cs.length)

/-- A word that is a name: letters and digits, a letter first, and none of the reserved words. -/
theorem isWord_ident_iff {name : String} : IsWord name .ident name ↔
    ∃ c cs, name.toList = c :: cs ∧ isIdentStart c = true ∧ (∀ d ∈ cs, isIdentChar d = true) ∧
      keywords.contains name = false := by
  constructor
  · rintro ⟨c, cs, lines, hname, hlex⟩
    generalize hkind : Token.Kind.ident = kind, hlength : cs.length = n at hlex
    cases tokenAt_of_lexeme hlex with
    | string | raw | rune => cases hkind
    | number hc hn =>
      have hmem := (numberLength_bounds c cs).2
      simp [hn, ← hkind, numberKinds] at hmem
    | name hc htext =>
      refine ⟨c, cs, hname, hc, ?_, ?_⟩
      · rw [← List.takeWhile_eq_self_iff]
        exact (List.takeWhile_prefix isIdentChar).eq_of_length hlength.symm
      · by_contra hkey
        rw [Bool.not_eq_false] at hkey
        rw [if_pos hkey] at hkind
        cases hkind
    | operator =>
      split at hkind <;> cases hkind
  · rintro ⟨c, cs, hname, hc, hcs, hkey⟩
    have hall : cs.takeWhile isIdentChar = cs := List.takeWhile_eq_self_iff.2 hcs
    have htoken : TokenAt c cs (if keywords.contains name then .keyword else .ident) name 0
        (cs.takeWhile isIdentChar).length :=
      .name hc (by rw [hall, ← hname, String.ofList_toList])
    rw [hkey, hall] at htoken
    exact ⟨c, cs, 0, hname, lexeme_of_tokenAt htoken⟩

/-! ### Texts -/

/-- The second state is the first one with further words. -/
structure Lexed.Adds (words : List Word) (s s' : Lexed) : Prop where
  tokens : s'.tokens.map Token.word = words.reverse ++ s.tokens.map Token.word
  comments : s'.comments = s.comments

/-- The characters are read as the words, in front of every text that `before` admits. -/
def Reads (cs : List Char) (words : List Word) (before : List Char → Prop) : Prop :=
  ∀ s rest, before rest → ∃ s', Lexed.Adds words s s' ∧ lexFrom s (cs ++ rest) = lexFrom s' rest

variable {ws : List Word}

theorem Reads.append {ds : List Char} {vs : List Word}
    (h : Reads cs ws before) (h' : Reads ds vs before')
    (hbefore : ∀ rest, before' rest → before (ds ++ rest)) :
    Reads (cs ++ ds) (ws ++ vs) before' := by
  intro s rest hrest
  obtain ⟨s₁, hs₁, heq₁⟩ := h s (ds ++ rest) (hbefore rest hrest)
  obtain ⟨s₂, hs₂, heq₂⟩ := h' s₁ rest hrest
  refine ⟨s₂, ⟨?_, hs₂.comments.trans hs₁.comments⟩, ?_⟩
  · rw [hs₂.tokens, hs₁.tokens, List.reverse_append, List.append_assoc]
  · rw [List.append_assoc, heq₁, heq₂]

theorem Reads.mono (h : Reads cs ws before)
    (hbefore : ∀ rest, before' rest → before rest) : Reads cs ws before' :=
  fun s rest hrest => h s rest (hbefore rest hrest)

theorem reads_nil : Reads [] [] fun _ => True :=
  fun s _ _ => ⟨s, ⟨rfl, rfl⟩, rfl⟩

theorem reads_blank : Reads [' '] [] fun _ => True := by
  intro s rest _
  refine ⟨s, ⟨rfl, rfl⟩, ?_⟩
  rw [List.cons_append, lexFrom]
  rfl

/-- One token. -/
theorem reads_of_lexeme (lines : Nat)
    (h : ∀ rest, before rest → lexeme c (cs ++ rest) = .ok (.token kind text lines, cs.length)) :
    Reads (c :: cs) [(kind, text)] before := by
  intro s rest hrest
  refine ⟨s.step (.token kind text lines), ⟨rfl, rfl⟩, ?_⟩
  rw [List.cons_append, lexFrom, h rest hrest]
  simp

/-- The words at the end of a text: the mark of the end, and the end of the last statement before it
if there is one. -/
def IsEnd (words : List Word) : Prop :=
  words = [(.eof, "")] ∨ words = [(.semicolon, "\n"), (.eof, "")]

theorem isEnd_finish (s : Lexed) : ∃ ws, IsEnd ws ∧
    s.finish.tokens.reverse.map Token.word = s.tokens.reverse.map Token.word ++ ws := by
  unfold Lexed.finish Lexed.endLine
  dsimp only
  split
  · split
    · exact ⟨_, .inr rfl, by simp [Token.word]⟩
    · exact ⟨_, .inl rfl, by simp [Token.word]⟩
  · exact ⟨_, .inl rfl, by simp [Token.word]⟩

/-- **The tokens of a text that is put together from words.** -/
theorem lex_of_reads {source : String} {words : List Word}
    (h : Reads source.toList words before) (hend : before []) :
    ∃ tokens ws, lex source = .ok (tokens, []) ∧ tokens.map Token.word = words ++ ws ∧
      IsEnd ws := by
  obtain ⟨s, hs, hlex⟩ := h .start [] hend
  obtain ⟨ws, hws, hfinish⟩ := isEnd_finish s
  have hcomments : s.finish.comments = s.comments := by
    unfold Lexed.finish Lexed.endLine
    dsimp only
    split
    · split <;> rfl
    · rfl
  refine ⟨s.finish.tokens.reverse, ws, ?_, ?_, hws⟩
  · rw [lex, ← List.append_nil source.toList, hlex, lexFrom]
    simp [Except.map, hcomments, hs.comments, Lexed.start]
  · rw [hfinish, List.map_reverse, hs.tokens]
    simp [Lexed.start]

/-! ### Cursors -/

namespace Cursor

variable {cur : Cursor} {p name : String} {ws : List Word}

/-- The words that are left. -/
def words (cur : Cursor) : List Word := cur.rest.map Token.word

theorem kind_peek (h : cur.words = (kind, text) :: ws) : cur.peek.kind = kind := by
  obtain ⟨t, ts, hrest, hword, -⟩ := List.map_eq_cons_iff.1 h
  rw [peek, hrest]
  exact congrArg Prod.fst hword

theorem text_peek (h : cur.words = (kind, text) :: ws) : cur.peek.text = text := by
  obtain ⟨t, ts, hrest, hword, -⟩ := List.map_eq_cons_iff.1 h
  rw [peek, hrest]
  exact congrArg Prod.snd hword

theorem words_advance (h : cur.words = (kind, text) :: ws) (hkind : kind ≠ .eof) :
    cur.advance.words = ws := by
  obtain ⟨t, ts, hrest, hword, rfl⟩ := List.map_eq_cons_iff.1 h
  have hne : t.kind ≠ .eof := fun heof => hkind ((congrArg Prod.fst hword).symm.trans heof)
  simp [advance, hrest, hne, words]

theorem atPunct_iff : cur.atPunct p = true ↔ cur.words.head? = some (.punct, p) := by
  rw [atPunct, peek, words]
  cases cur.rest with
  | nil => simp [endToken, Token.isPunct]
  | cons t ts => simp [Token.isPunct, Token.word]

theorem eat_of_words (h : cur.words = (.punct, p) :: ws) : cur.eat p = some cur.advance :=
  if_pos (atPunct_iff.2 (by rw [h]; rfl))

theorem eat_eq_none (h : cur.words = ws) (hws : ws.head? ≠ some (.punct, p)) : cur.eat p = none :=
  if_neg fun hp => hws (h ▸ atPunct_iff.1 hp)

theorem expect_of_words (h : cur.words = (.punct, p) :: ws) : cur.expect p = .ok cur.advance := by
  rw [expect, eat_of_words h]

theorem ident_of_words (h : cur.words = (.ident, name) :: ws) :
    cur.ident = .ok (name, cur.advance) := by
  have hkind : cur.atKind .ident = true := by
    rw [atKind, kind_peek h]
    rfl
  rw [ident, if_pos hkind, text_peek h]

theorem skipSemicolons_eq_self (h : cur.words = (kind, text) :: ws) (hkind : kind ≠ .semicolon) :
    cur.skipSemicolons = cur := by
  obtain ⟨t, ts, hrest, hword, -⟩ := List.map_eq_cons_iff.1 h
  have hne : t.kind ≠ .semicolon := fun heq => hkind ((congrArg Prod.fst hword).symm.trans heq)
  rw [skipSemicolons, hrest, dropSemicolons, if_neg hne, ← hrest]

/-- At the end of a text there are at most semicolons left. -/
theorem atKind_eof_of_isEnd (h : IsEnd cur.words) : cur.skipSemicolons.atKind .eof = true := by
  obtain ⟨rest, line⟩ := cur
  rcases h with h | h
  · obtain ⟨t, ts, rfl, ht, hts⟩ := List.map_eq_cons_iff.1 h
    have hkind : t.kind = .eof := congrArg Prod.fst ht
    simp [skipSemicolons, dropSemicolons, hkind, atKind, peek]
  · obtain ⟨t, ts, rfl, ht, hts⟩ := List.map_eq_cons_iff.1 h
    obtain ⟨t', ts', rfl, ht', hts'⟩ := List.map_eq_cons_iff.1 hts
    have hkind : t.kind = .semicolon := congrArg Prod.fst ht
    have hkind' : t'.kind = .eof := congrArg Prod.fst ht'
    simp [skipSemicolons, dropSemicolons, hkind, hkind', atKind, peek]

end Cursor

end GoApiDoc.Go
