/-
Expressions read back from their text.

A binary operator takes what stands before it as its left operand as far as that binds no looser, and
what stands behind it as its right operand as far as that binds tighter.  An expression in which each
operation is placed so needs no parentheses of its own: it is read back from its words with a blank
between any two of them.

The reader of binary operations takes a first operand and then one operator after the other.  So an
expression is followed through it in this form: the reader has taken up the whole expression as the
left operand, and looks for a further operator behind it.

* `Go.Expr.exprOfText_words` — **a grouped expression is read back from its text**.
-/

import GoApiDoc.Proofs.Wording

set_option autoImplicit false

namespace GoApiDoc.Go

variable {op : BinaryOp} {sign source : String} {args : List Expr}

/-! ### Words -/

/-- The kind of the tokens of a kind of literals. -/
def LitKind.token : LitKind → Token.Kind
  | int => .int
  | float => .float
  | imag => .imag
  | char => .char
  | str => .str

theorem litKind?_token (kind : LitKind) : litKind? kind.token = some kind := by
  cases kind <;> rfl

/-- The sign of a unary operator. -/
def UnaryOp.text : UnaryOp → String
  | plus => "+"
  | neg => "-"
  | not => "!"
  | bitNot => "^"

theorem UnaryOp.ofText?_text (op : UnaryOp) : ofText? op.text = some op := by
  cases op <;> rfl

/-- The sign of a binary operator. -/
def BinaryOp.text : BinaryOp → String
  | add => "+"
  | sub => "-"
  | mul => "*"
  | div => "/"
  | rem => "%"
  | and => "&"
  | or => "|"
  | xor => "^"
  | andNot => "&^"
  | shl => "<<"
  | shr => ">>"
  | eq => "=="
  | ne => "!="
  | lt => "<"
  | le => "<="
  | gt => ">"
  | ge => ">="
  | logicalAnd => "&&"
  | logicalOr => "||"

theorem BinaryOp.ofText?_eq_some_iff : ofText? sign = some op ↔ sign = op.text := by
  constructor
  · intro h
    unfold ofText? at h
    split at h <;> cases h <;> rfl
  · rintro rfl
    cases op <;> rfl

namespace Expr

mutual

/-- The words that an expression is written with. -/
def words : Expr → List Word
  | lit kind value => [(kind.token, value)]
  | ident name => [(.ident, name)]
  | selector package name => [(.ident, package), (.punct, "."), (.ident, name)]
  | paren inner => (.punct, "(") :: (inner.words ++ [(.punct, ")")])
  | unary op operand => (.punct, op.text) :: operand.words
  | binary op lhs rhs => lhs.words ++ (.punct, op.text) :: rhs.words
  | call callee args =>
    callee.words ++ (.punct, "(") :: ([(.punct, ",")].intercalate (wordLists args) ++ [(.punct, ")")])
  | type _ | other => []

/-- The words of several expressions. -/
def wordLists : List Expr → List (List Word)
  | [] => []
  | e :: es => e.words :: wordLists es

end

/-! ### Grouping -/

/-- How tightly the outermost operation binds; what is no binary operation binds tighter than all of
them. -/
def precedence : Expr → Nat
  | binary op _ _ => op.precedence
  | _ => 6

/-- The expression is not a binary operation. -/
def isOperand : Expr → Bool
  | binary _ _ _ => false
  | _ => true

/-- The expression is neither a binary nor a unary operation. -/
def isPrimary : Expr → Bool
  | binary _ _ _ | unary _ _ => false
  | _ => true

/-- The expressions in which each operand can stand where it does without parentheses. -/
inductive Grouped : Expr → Prop where
  | lit (kind : LitKind) (value : String) : Grouped (.lit kind value)
  | ident (name : String) : Grouped (.ident name)
  | selector (package name : String) : Grouped (.selector package name)
  | paren {inner : Expr} (hinner : Grouped inner) : Grouped (.paren inner)
  | unary (op : UnaryOp) {operand : Expr} (hoperand : Grouped operand)
    (hop : operand.isOperand = true) : Grouped (.unary op operand)
  | binary (op : BinaryOp) {lhs rhs : Expr} (hlhs : Grouped lhs) (hrhs : Grouped rhs)
    (hleft : op.precedence ≤ lhs.precedence) (hright : op.precedence < rhs.precedence) :
    Grouped (.binary op lhs rhs)
  | call {callee : Expr} {args : List Expr} (hcallee : Grouped callee)
    (hprimary : callee.isPrimary = true) (hargs : ∀ a ∈ args, Grouped a) :
    Grouped (.call callee args)

/-! ### From the words to the expression -/

variable {m : CommentMap} {e : Expr} {fuel k least : Nat} {cur : Cursor} {ws : List Word}

/-- The words do not go on with a selector, a call or an index. -/
def EndsPrimary (ws : List Word) : Prop :=
  ws.head? ≠ some (.punct, ".") ∧ ws.head? ≠ some (.punct, "(") ∧ ws.head? ≠ some (.punct, "[")

/-- An operator that follows binds no tighter than `level`. -/
def BindsWithin (level : Nat) (ws : List Word) : Prop :=
  ∀ op : BinaryOp, ws.head? = some (.punct, op.text) → op.precedence ≤ level

theorem endsPrimary_operator (op : BinaryOp) : EndsPrimary ((.punct, op.text) :: ws) := by
  cases op <;> simp [EndsPrimary, BinaryOp.text]

theorem bindsWithin_operator {level : Nat} (h : op.precedence ≤ level) :
    BindsWithin level ((.punct, op.text) :: ws) := by
  intro op' hop'
  have htext : op.text = op'.text := by simpa using hop'
  have hop : op = op' :=
    Option.some.inj ((BinaryOp.ofText?_eq_some_iff.2 rfl).symm.trans
      (BinaryOp.ofText?_eq_some_iff.2 htext))
  exact hop ▸ h

/-- The reader of operands takes up the expression and goes on behind it. -/
def ReadsPrimary (m : CommentMap) (e : Expr) : Prop :=
  ∀ fuel k cur ws, 5 * e.words.length + k ≤ fuel → cur.words = e.words ++ ws →
    ∃ fuel' cur', k ≤ fuel' ∧ Cursor.words cur' = ws ∧
      parsePrimary m fuel cur = parsePrimaryRest m fuel' e cur'

/-- The reader of operations with one operand reads the expression. -/
def ReadsOperand (m : CommentMap) (e : Expr) : Prop :=
  ∀ fuel cur ws, 5 * e.words.length + 2 ≤ fuel → cur.words = e.words ++ ws → EndsPrimary ws →
    ∃ cur', Cursor.words cur' = ws ∧ parseUnary m fuel cur = .ok (e, cur')

/-- The reader of operations takes up the expression as a left operand and goes on behind it. -/
def ReadsExpr (m : CommentMap) (e : Expr) : Prop :=
  ∀ fuel k least cur ws, 5 * e.words.length + 3 + k ≤ fuel → cur.words = e.words ++ ws →
    least ≤ e.precedence → EndsPrimary ws → BindsWithin e.precedence ws →
    ∃ fuel' cur', k ≤ fuel' ∧ Cursor.words cur' = ws ∧
      parseBinary m fuel least cur = parseBinaryRest m fuel' least e cur'

/-- The expression is read by each of the readers that it can stand before. -/
structure ReadsBack (m : CommentMap) (e : Expr) : Prop where
  primary : e.isPrimary = true → ReadsPrimary m e
  operand : e.isOperand = true → ReadsOperand m e
  expr : ReadsExpr m e

/-! The loops end where nothing continues the expression. -/

theorem parsePrimaryRest_end (hcur : cur.words = ws) (hws : EndsPrimary ws) :
    parsePrimaryRest m (fuel + 1) e cur = .ok (e, cur) := by
  have hindex : ¬cur.atPunct "[" = true := by
    rw [Cursor.atPunct_iff, hcur]
    exact hws.2.2
  rw [parsePrimaryRest, Cursor.eat_eq_none hcur hws.1, Cursor.eat_eq_none hcur hws.2.1]
  exact if_neg hindex

theorem operator_eq_some_iff :
    (if cur.atKind .punct then BinaryOp.ofText? cur.peek.text else none) = some op ↔
      cur.words.head? = some (.punct, op.text) := by
  rw [Cursor.atKind, Cursor.peek, Cursor.words]
  cases cur.rest with
  | nil => simp [Cursor.endToken]
  | cons t ts => simp [Token.word, BinaryOp.ofText?_eq_some_iff]

theorem parseBinaryRest_end
    (h : ∀ op : BinaryOp, cur.words.head? = some (.punct, op.text) → op.precedence < least) :
    parseBinaryRest m (fuel + 1) least e cur = .ok (e, cur) := by
  rw [parseBinaryRest]
  split
  · rfl
  · next op hop => rw [if_pos (h op (operator_eq_some_iff.1 hop))]

theorem parseBinaryRest_operator (hcur : cur.words = (.punct, op.text) :: ws)
    (hleast : least ≤ op.precedence) :
    parseBinaryRest m (fuel + 1) least e cur =
      (parseBinary m fuel (op.precedence + 1) cur.advance >>= fun (rhs, c) =>
        parseBinaryRest m fuel least (.binary op e rhs) c) := by
  have hop := operator_eq_some_iff.2 (show cur.words.head? = some (.punct, op.text) by rw [hcur]; rfl)
  rw [parseBinaryRest, hop]
  exact if_neg (Nat.not_lt.2 hleast)

/-! Each reader hands an expression that begins with none of its own operators on to the next. -/

/-- An expression that begins with a sign begins with a parenthesis or, if it is an operation, with a
unary operator. -/
theorem Grouped.exists_words_eq (h : e.Grouped) : ∃ kind text ws, e.words = (kind, text) :: ws ∧
      (kind = .punct → text = "(" ∨ e.isPrimary = false ∧ ∃ op : UnaryOp, text = op.text) := by
  induction h with
  | lit kind value =>
    refine ⟨kind.token, value, [], rfl, fun hkind => ?_⟩
    cases kind <;> cases hkind
  | ident | selector | paren => simp [words]
  | unary op => exact ⟨_, _, _, rfl, fun _ => .inr ⟨rfl, op, rfl⟩⟩
  | binary op hlhs hrhs hleft hright ihlhs ihrhs =>
    obtain ⟨kind, text, ws, hwords, hkind⟩ := ihlhs
    refine ⟨kind, text, _, by rw [words, hwords]; rfl, fun hpunct => ?_⟩
    exact (hkind hpunct).imp_right fun hop => ⟨rfl, hop.2⟩
  | call hcallee hprimary hargs ihcallee ihargs =>
    obtain ⟨kind, text, ws, hwords, hkind⟩ := ihcallee
    refine ⟨kind, text, _, by rw [words, hwords]; rfl, fun hpunct => ?_⟩
    exact (hkind hpunct).imp_right fun hop => absurd (hprimary.symm.trans hop.1) (by decide)

theorem Grouped.head?_words_append (h : e.Grouped) :
    (e.words ++ ws).head? ≠ some (.punct, ")") := by
  obtain ⟨kind, text, vs, hwords, hkind⟩ := h.exists_words_eq
  rw [hwords]
  rintro ⟨⟩
  obtain hparen | ⟨-, op, hop⟩ := hkind rfl
  · simp at hparen
  · cases op <;> simp [UnaryOp.text] at hop

theorem readsOperand_of_primary (h : e.Grouped) (hprimary : e.isPrimary = true)
    (hreads : ReadsPrimary m e) : ReadsOperand m e := by
  intro fuel cur ws hfuel hcur hws
  obtain ⟨fuel, rfl⟩ := Nat.exists_eq_add_one_of_ne_zero (n := fuel) (by omega)
  obtain ⟨kind, text, vs, hwords, hkind⟩ := h.exists_words_eq
  obtain ⟨fuel', cur', hfuel', hcur', heq⟩ := hreads fuel 1 cur ws (by omega) hcur
  obtain ⟨fuel', rfl⟩ := Nat.exists_eq_add_one_of_ne_zero (Nat.ne_zero_of_lt hfuel')
  refine ⟨cur', hcur', ?_⟩
  rw [hwords] at hcur
  rw [parseUnary]
  simp only [Cursor.kind_peek hcur, Cursor.text_peek hcur]
  rw [heq, parsePrimaryRest_end hcur' hws]
  by_cases hpunct : kind = .punct
  · subst hpunct
    obtain rfl : text = "(" := (hkind rfl).resolve_right fun hop => by simp [hprimary] at hop
    rfl
  · exact if_pos (by simpa using hpunct)

theorem readsExpr_of_operand (hreads : ReadsOperand m e) : ReadsExpr m e := by
  intro fuel k least cur ws hfuel hcur hleast hws _
  obtain ⟨fuel, rfl⟩ := Nat.exists_eq_add_one_of_ne_zero (n := fuel) (by omega)
  obtain ⟨cur', hcur', heq⟩ := hreads fuel cur ws (by omega) hcur hws
  refine ⟨fuel, cur', by omega, hcur', ?_⟩
  rw [parseBinary, heq]
  rfl

theorem ReadsBack.of_primary (h : e.Grouped) (hprimary : e.isPrimary = true)
    (hreads : ReadsPrimary m e) : ReadsBack m e where
  primary _ := hreads
  operand _ := readsOperand_of_primary h hprimary hreads
  expr := readsExpr_of_operand (readsOperand_of_primary h hprimary hreads)

theorem ReadsBack.of_operand (hprimary : e.isPrimary = false) (hreads : ReadsOperand m e) :
    ReadsBack m e where
  primary h := absurd (h.symm.trans hprimary) (by decide)
  operand _ := hreads
  expr := readsExpr_of_operand hreads

/-! ### Whole expressions -/

/-- The words go on with a closing parenthesis, a comma or no sign at all. -/
def EndsExpr (ws : List Word) : Prop :=
  ∀ sign, ws.head? = some (.punct, sign) → sign = ")" ∨ sign = ","

theorem EndsExpr.endsPrimary (h : EndsExpr ws) : EndsPrimary ws := by
  refine ⟨fun hsign => ?_, fun hsign => ?_, fun hsign => ?_⟩ <;> simpa using h _ hsign

theorem EndsExpr.ne_operator (h : EndsExpr ws) (op : BinaryOp) :
    ws.head? ≠ some (.punct, op.text) := by
  intro hsign
  have hend := h _ hsign
  cases op <;> simp [BinaryOp.text] at hend

theorem endsExpr_cons (h : sign = ")" ∨ sign = ",") : EndsExpr ((.punct, sign) :: ws) := by
  rintro _ ⟨⟩
  exact h

theorem one_le_precedence (e : Expr) : 1 ≤ e.precedence := by
  cases e with
  | binary op lhs rhs => cases op <;> simp [precedence, BinaryOp.precedence]
  | _ => simp [precedence]

/-- In front of a closing parenthesis, a comma or the end the expression is all that is read. -/
theorem ReadsBack.parseBinary_eq (fuel : Nat) (h : ReadsBack m e) (hfuel : 5 * e.words.length + 4 ≤ fuel)
    (hcur : cur.words = e.words ++ ws) (hws : EndsExpr ws) :
    ∃ cur', Cursor.words cur' = ws ∧ parseBinary m fuel 1 cur = .ok (e, cur') := by
  obtain ⟨fuel', cur', hfuel', hcur', heq⟩ := h.expr fuel 1 1 cur ws hfuel hcur
    (one_le_precedence e) hws.endsPrimary fun op hop => absurd hop (hws.ne_operator op)
  obtain ⟨fuel', rfl⟩ := Nat.exists_eq_add_one_of_ne_zero (Nat.ne_zero_of_lt hfuel')
  refine ⟨cur', hcur', ?_⟩
  rw [heq]
  exact parseBinaryRest_end fun op hop => absurd (hcur' ▸ hop) (hws.ne_operator op)

theorem parseArgs_words (fuel : Nat) (hargs : ∀ a ∈ args, a.Grouped)
    (hback : ∀ a ∈ args, ReadsBack m a)
    (hfuel : 5 * ([(.punct, ",")].intercalate (wordLists args)).length + 5 ≤ fuel)
    (hcur : cur.words = [(.punct, ",")].intercalate (wordLists args) ++ (.punct, ")") :: ws) :
    ∃ cur', Cursor.words cur' = ws ∧ parseArgs m fuel cur = .ok (args, cur') := by
  induction args generalizing fuel cur with
  | nil =>
    obtain ⟨fuel, rfl⟩ := Nat.exists_eq_add_one_of_ne_zero (n := fuel) (by omega)
    refine ⟨cur.advance, Cursor.words_advance hcur Token.Kind.noConfusion, ?_⟩
    rw [parseArgs]
    simp only [Cursor.eat_of_words hcur]
  | cons a args ih =>
    obtain ⟨fuel, rfl⟩ := Nat.exists_eq_add_one_of_ne_zero (n := fuel) (by omega)
    have ha := hargs a (.head _)
    have hback' := hback a (.head _)
    cases args with
    | nil =>
      simp only [wordLists, List.intercalate_singleton] at hfuel hcur
      obtain ⟨cur', hcur', heq⟩ :=
        hback'.parseBinary_eq fuel (by omega) hcur (endsExpr_cons (.inl rfl))
      have hdots : cur'.eat "..." = none := Cursor.eat_eq_none hcur' (by simp)
      have hcomma : cur'.eat "," = none := Cursor.eat_eq_none hcur' (by simp)
      refine ⟨cur'.advance, Cursor.words_advance hcur' Token.Kind.noConfusion, ?_⟩
      rw [parseArgs, Cursor.eat_eq_none hcur ha.head?_words_append]
      simp only [heq, hdots, hcomma, Option.getD_none, Cursor.expect_of_words hcur', bind,
        Except.bind]
    | cons b args =>
      simp only [wordLists, List.intercalate_cons_cons, List.append_assoc,
        List.length_append, List.length_singleton] at hfuel hcur ih
      obtain ⟨cur', hcur', heq⟩ :=
        hback'.parseBinary_eq fuel (by omega) hcur (endsExpr_cons (.inr rfl))
      have hdots : cur'.eat "..." = none := Cursor.eat_eq_none hcur' (by simp)
      have hnext := Cursor.words_advance hcur' Token.Kind.noConfusion
      obtain ⟨cur'', hcur'', heq'⟩ := ih fuel (fun c hc => hargs c (.tail _ hc))
        (fun c hc => hback c (.tail _ hc)) (by omega) hnext
      refine ⟨cur'', hcur'', ?_⟩
      rw [parseArgs, Cursor.eat_eq_none hcur ha.head?_words_append]
      simp only [heq, hdots, Option.getD_none, Cursor.eat_of_words hcur', heq', bind, Except.bind]

/-! ### The readers, one expression at a time -/

theorem readsPrimary_lit (kind : LitKind) (value : String) : ReadsPrimary m (.lit kind value) := by
  intro fuel k cur ws hfuel hcur
  simp only [words, List.length_singleton] at hfuel
  obtain ⟨fuel, rfl⟩ := Nat.exists_eq_add_one_of_ne_zero (n := fuel) (by omega)
  have hkind : kind.token ≠ .eof := by cases kind <;> decide
  refine ⟨fuel, cur.advance, by omega, Cursor.words_advance hcur hkind, ?_⟩
  rw [parsePrimary]
  simp only [Cursor.kind_peek hcur, Cursor.text_peek hcur, litKind?_token]

theorem readsPrimary_ident (name : String) : ReadsPrimary m (.ident name) := by
  intro fuel k cur ws hfuel hcur
  simp only [words, List.length_singleton] at hfuel
  obtain ⟨fuel, rfl⟩ := Nat.exists_eq_add_one_of_ne_zero (n := fuel) (by omega)
  refine ⟨fuel, cur.advance, by omega, Cursor.words_advance hcur Token.Kind.noConfusion, ?_⟩
  rw [parsePrimary]
  simp only [Cursor.kind_peek hcur, Cursor.text_peek hcur]
  rfl

theorem readsPrimary_selector (package name : String) :
    ReadsPrimary m (.selector package name) := by
  intro fuel k cur ws hfuel hcur
  simp only [words, List.length_cons, List.length_nil] at hfuel
  -- The package is read as a name, and the selector behind it is added to it.
  obtain ⟨fuel₁, cur₁, hfuel₁, hcur₁, heq₁⟩ :=
    readsPrimary_ident (m := m) package fuel (k + 1) cur _ (by simp [words]; omega) hcur
  obtain ⟨fuel₁, rfl⟩ := Nat.exists_eq_add_one_of_ne_zero (Nat.ne_zero_of_lt hfuel₁)
  have hname := Cursor.words_advance hcur₁ Token.Kind.noConfusion
  refine ⟨fuel₁, _, by omega, Cursor.words_advance hname Token.Kind.noConfusion, ?_⟩
  rw [heq₁, parsePrimaryRest]
  simp only [Cursor.eat_of_words hcur₁, Cursor.ident_of_words hname, bind, Except.bind]
  rfl

theorem readsPrimary_paren (hback : ReadsBack m e) : ReadsPrimary m (.paren e) := by
  intro fuel k cur ws hfuel hcur
  simp only [words, List.length_cons, List.length_append, List.length_nil, List.cons_append,
    List.append_assoc, List.nil_append] at hfuel hcur
  obtain ⟨fuel, rfl⟩ := Nat.exists_eq_add_one_of_ne_zero (n := fuel) (by omega)
  have hnext := Cursor.words_advance hcur Token.Kind.noConfusion
  obtain ⟨cur', hcur', heq⟩ :=
    hback.parseBinary_eq fuel (by omega) hnext (endsExpr_cons (.inl rfl))
  refine ⟨fuel, _, by omega, Cursor.words_advance hcur' Token.Kind.noConfusion, ?_⟩
  rw [parsePrimary]
  simp only [Cursor.kind_peek hcur, Token.isPunct, Cursor.text_peek hcur, heq,
    Cursor.expect_of_words hcur', bind, Except.bind]
  rfl

theorem readsPrimary_call (hcallee : ReadsPrimary m e)
    (hargs : ∀ a ∈ args, a.Grouped) (hback : ∀ a ∈ args, ReadsBack m a) :
    ReadsPrimary m (.call e args) := by
  intro fuel k cur ws hfuel hcur
  simp only [words, List.length_cons, List.length_append, List.length_nil, List.cons_append,
    List.append_assoc, List.nil_append] at hfuel hcur
  generalize hlist : [(Token.Kind.punct, ",")].intercalate (wordLists args) = list at hfuel hcur
  obtain ⟨fuel₁, cur₁, hfuel₁, hcur₁, heq₁⟩ :=
    hcallee fuel (5 * list.length + 6 + k) cur _ (by omega) hcur
  obtain ⟨fuel₁, rfl⟩ := Nat.exists_eq_add_one_of_ne_zero (n := fuel₁) (by omega)
  have hpoint : cur₁.eat "." = none := Cursor.eat_eq_none hcur₁ (by simp)
  have hnext := Cursor.words_advance hcur₁ Token.Kind.noConfusion
  subst hlist
  obtain ⟨cur₂, hcur₂, heq₂⟩ := parseArgs_words fuel₁ hargs hback (by omega) hnext
  refine ⟨fuel₁, cur₂, by omega, hcur₂, ?_⟩
  rw [heq₁, parsePrimaryRest]
  simp only [hpoint, Cursor.eat_of_words hcur₁, heq₂, bind, Except.bind]

theorem readsOperand_unary (op : UnaryOp) (hoperand : ReadsOperand m e) :
    ReadsOperand m (.unary op e) := by
  intro fuel cur ws hfuel hcur hws
  simp only [words, List.length_cons] at hfuel
  obtain ⟨fuel, rfl⟩ := Nat.exists_eq_add_one_of_ne_zero (n := fuel) (by omega)
  have hnext := Cursor.words_advance hcur Token.Kind.noConfusion
  obtain ⟨cur', hcur', heq⟩ := hoperand fuel _ ws (by omega) hnext hws
  refine ⟨cur', hcur', ?_⟩
  rw [parseUnary]
  simp only [Cursor.kind_peek hcur, Cursor.text_peek hcur, UnaryOp.ofText?_text, heq, bind,
    Except.bind]
  rfl

theorem readsExpr_binary (op : BinaryOp) {lhs rhs : Expr} (hlhs : ReadsExpr m lhs)
    (hrhs : ReadsExpr m rhs) (hleft : op.precedence ≤ lhs.precedence)
    (hright : op.precedence < rhs.precedence) : ReadsExpr m (.binary op lhs rhs) := by
  intro fuel k least cur ws hfuel hcur hleast hws hbinds
  simp only [words, List.length_append, List.length_cons, List.append_assoc,
    List.cons_append] at hfuel hcur
  -- The operator ends the left operand, which binds at least as tightly.
  obtain ⟨fuel₁, cur₁, hfuel₁, hcur₁, heq₁⟩ :=
    hlhs fuel (5 * rhs.words.length + 5 + k) least cur _ (by omega) hcur (hleast.trans hleft)
      (endsPrimary_operator op) (bindsWithin_operator hleft)
  obtain ⟨fuel₁, rfl⟩ := Nat.exists_eq_add_one_of_ne_zero (n := fuel₁) (by omega)
  have hnext := Cursor.words_advance hcur₁ Token.Kind.noConfusion
  -- What follows ends the right operand as well, and is no operator that belongs to it.
  obtain ⟨fuel₂, cur₂, hfuel₂, hcur₂, heq₂⟩ :=
    hrhs fuel₁ 1 (op.precedence + 1) _ ws (by omega) hnext hright hws
      fun op' hop' => (hbinds op' hop').trans hright.le
  obtain ⟨fuel₂, rfl⟩ := Nat.exists_eq_add_one_of_ne_zero (n := fuel₂) (by omega)
  have hend : parseBinaryRest m (fuel₂ + 1) (op.precedence + 1) rhs cur₂ = .ok (rhs, cur₂) :=
    parseBinaryRest_end fun op' hop' => Nat.lt_succ_of_le (hbinds op' (hcur₂ ▸ hop'))
  refine ⟨fuel₁, cur₂, by omega, hcur₂, ?_⟩
  rw [heq₁, parseBinaryRest_operator hcur₁ hleast, heq₂, hend]
  rfl

/-- **The words of a grouped expression are read as the expression.** -/
theorem Grouped.readsBack (h : e.Grouped) (m : CommentMap) : ReadsBack m e := by
  induction h with
  | lit kind value => exact .of_primary (.lit kind value) rfl (readsPrimary_lit kind value)
  | ident name => exact .of_primary (.ident name) rfl (readsPrimary_ident name)
  | selector package name =>
    exact .of_primary (.selector package name) rfl (readsPrimary_selector package name)
  | paren hinner ih => exact .of_primary (.paren hinner) rfl (readsPrimary_paren ih)
  | unary op hoperand hop ih => exact .of_operand rfl (readsOperand_unary op (ih.operand hop))
  | binary op hlhs hrhs hleft hright ihlhs ihrhs =>
    exact ⟨Bool.noConfusion, Bool.noConfusion,
      readsExpr_binary op ihlhs.expr ihrhs.expr hleft hright⟩
  | call hcallee hprimary hargs ihcallee ihargs =>
    exact .of_primary (.call hcallee hprimary hargs) rfl
      (readsPrimary_call (ihcallee.primary hprimary) hargs ihargs)

end Expr

/-! ### From the text to the words -/

/-- The text spells the word: a sign stands for itself, and a name or a literal is written in any way
in which it is read as that one token. -/
def Spells (source : String) (w : Word) : Prop :=
  if w.1 = .punct then source = w.2 else IsWord source w.1 w.2

theorem isWord_unaryOp (op : UnaryOp) : IsWord op.text .punct op.text := by
  cases op <;> exact ⟨_, _, _, rfl, rfl⟩

theorem isWord_binaryOp (op : BinaryOp) : IsWord op.text .punct op.text := by
  cases op <;> exact ⟨_, _, _, rfl, rfl⟩

theorem isWord_delimiter (h : sign ∈ [".", ",", "(", ")"]) : IsWord sign .punct sign := by
  simp only [List.mem_cons, List.not_mem_nil, or_false] at h
  rcases h with rfl | rfl | rfl | rfl <;> exact ⟨_, _, _, rfl, rfl⟩

theorem Expr.isWord_of_mem_wordLists
    (h : ∀ a ∈ args, (.punct, sign) ∈ a.words → IsWord sign .punct sign)
    (hsign : (.punct, sign) ∈ [(.punct, ",")].intercalate (wordLists args)) :
    IsWord sign .punct sign := by
  induction args with
  | nil => simp [wordLists] at hsign
  | cons a args ih =>
    have ha := h a (.head _)
    cases args with
    | nil => exact ha (by simpa [wordLists] using hsign)
    | cons b args =>
      simp only [wordLists, List.intercalate_cons_cons, List.mem_append,
        List.mem_singleton, Prod.mk.injEq, true_and] at hsign ih
      rcases hsign with (hsign | rfl) | hsign
      · exact ha hsign
      · exact isWord_delimiter (by decide)
      · exact ih (fun c hc => h c (.tail _ hc)) hsign

theorem Expr.Grouped.isWord_of_mem_words {e : Expr} (h : e.Grouped)
    (hsign : (.punct, sign) ∈ e.words) : IsWord sign .punct sign := by
  induction h with
  | lit kind value => cases kind <;> simp [words, LitKind.token] at hsign
  | ident name => simp [words] at hsign
  | selector package name =>
    obtain rfl : sign = "." := by simpa [words] using hsign
    exact isWord_delimiter (by decide)
  | paren hinner ih =>
    simp only [words, List.mem_cons, List.mem_append, Prod.mk.injEq, true_and, List.not_mem_nil,
      or_false] at hsign
    rcases hsign with rfl | hsign | rfl
    · exact isWord_delimiter (by decide)
    · exact ih hsign
    · exact isWord_delimiter (by decide)
  | unary op hoperand hop ih =>
    simp only [words, List.mem_cons, Prod.mk.injEq, true_and] at hsign
    rcases hsign with rfl | hsign
    · exact isWord_unaryOp op
    · exact ih hsign
  | binary op hlhs hrhs hleft hright ihlhs ihrhs =>
    simp only [words, List.mem_cons, List.mem_append, Prod.mk.injEq, true_and] at hsign
    rcases hsign with hsign | rfl | hsign
    · exact ihlhs hsign
    · exact isWord_binaryOp op
    · exact ihrhs hsign
  | call hcallee hprimary hargs ihcallee ihargs =>
    simp only [words, List.mem_cons, List.mem_append, Prod.mk.injEq, true_and, List.not_mem_nil,
      or_false] at hsign
    rcases hsign with hsign | rfl | hsign | rfl
    · exact ihcallee hsign
    · exact isWord_delimiter (by decide)
    · exact isWord_of_mem_wordLists ihargs hsign
    · exact isWord_delimiter (by decide)

theorem Spells.isWord {w : Word} (h : Spells source w)
    (hsign : w.1 = .punct → IsWord w.2 .punct w.2) : IsWord source w.1 w.2 := by
  unfold Spells at h
  split at h
  · next hw =>
    rw [h, hw]
    exact hsign hw
  · exact h

/-- The text is at its end, or goes on with a blank. -/
def EndsWord (rest : List Char) : Prop := rest = [] ∨ ∃ rest', rest = ' ' :: rest'

theorem IsWord.reads {text : String} {kind : Token.Kind} (h : IsWord source kind text) :
    Reads source.toList [(kind, text)] EndsWord := by
  obtain ⟨c, cs, lines, hsource, hlex⟩ := h
  rw [hsource]
  refine reads_of_lexeme lines ?_
  rintro _ (rfl | ⟨rest, rfl⟩)
  · rwa [List.append_nil]
  · exact lexeme_of_tokenAt ((tokenAt_of_lexeme hlex).append_blank rest)

/-- **Words with a blank between any two of them are read as these words.** -/
theorem reads_of_spells {sources : List String} {ws : List Word}
    (h : List.Forall₂ Spells sources ws)
    (hsigns : ∀ sign, (.punct, sign) ∈ ws → IsWord sign .punct sign) :
    Reads (" ".intercalate sources).toList ws EndsWord := by
  induction h with
  | nil => exact reads_nil.mono fun _ _ => trivial
  | @cons source w sources ws hsource hsources ih =>
    have hword := hsource.isWord fun hw => hsigns w.2 (hw ▸ (.head _))
    have hrest := ih fun sign hsign => hsigns sign (.tail _ hsign)
    cases hsources with
    | nil => simpa using hword.reads
    | cons hsource' hsources =>
      rw [String.intercalate_cons_cons, String.toList_append, String.toList_append]
      have hblank := hword.reads.append reads_blank fun rest _ => .inr ⟨rest, rfl⟩
      exact hblank.append hrest fun _ _ => trivial

/-- **A grouped expression is read back from its text**, whatever its names and literals are spelled
like, with a blank between any two words. -/
theorem Expr.exprOfText_words {e : Expr} (h : e.Grouped) {sources : List String}
    (hspells : List.Forall₂ Spells sources e.words) :
    exprOfText (" ".intercalate sources) = .ok e := by
  have hreads := reads_of_spells hspells fun sign hsign => h.isWord_of_mem_words hsign
  obtain ⟨tokens, ws, hlex, hwords, hend⟩ := lex_of_reads hreads (.inl rfl)
  have hfuel : 5 * e.words.length + 4 ≤ parserFuel tokens.length := by
    have hlength := congrArg List.length hwords
    rw [List.length_map, List.length_append] at hlength
    rw [parserFuel]
    omega
  have hws : EndsExpr ws := by
    rcases hend with rfl | rfl <;> simp [EndsExpr]
  have hcursor : Cursor.words ⟨tokens, 0⟩ = e.words ++ ws := hwords
  obtain ⟨cur, hcur, heq⟩ :=
    (h.readsBack (groupComments [])).parseBinary_eq _ hfuel hcursor hws
  have heof := Cursor.atKind_eof_of_isEnd (hcur ▸ hend)
  simp only [exprOfText, openSource, parseExpr, hlex, bind, Except.bind, heq]
  exact if_pos heof

/-- Operators of four levels, a call with a selected argument, a negation, a parenthesis and a string:
`a || -f(x, p.N) << 3 - ("s") == c`. -/
theorem Expr.exprOfText_words_mixed :
    exprOfText (" ".intercalate ["a", "||", "-", "f", "(", "x", ",", "p", ".", "N", ")", "<<", "3",
      "-", "(", "\"s\"", ")", "==", "c"]) =
      .ok (.binary .logicalOr (.ident "a") (.binary .eq
        (.binary .sub
          (.binary .shl (.unary .neg (.call (.ident "f") [.ident "x", .selector "p" "N"]))
            (.lit .int "3"))
          (.paren (.lit .str "s")))
        (.ident "c"))) := by
  have hargs : ∀ a ∈ [Expr.ident "x", .selector "p" "N"], a.Grouped := by
    simp only [List.forall_mem_cons]
    exact ⟨.ident _, .selector _ _, by simp⟩
  have hcall : Grouped (.unary .neg (.call (.ident "f") [.ident "x", .selector "p" "N"])) :=
    .unary _ (.call (.ident _) rfl hargs) rfl
  have hshift := Grouped.binary .shl hcall (.lit .int "3") (by decide) (by decide)
  have hsub := Grouped.binary .sub hshift (.paren (.lit .str "s")) (by decide) (by decide)
  have heq := Grouped.binary .eq hsub (.ident "c") (by decide) (by decide)
  refine exprOfText_words (.binary .logicalOr (.ident "a") heq (by decide) (by decide)) ?_
  have hname : ∀ name ∈ ["a", "f", "x", "p", "N", "c"], Spells name (.ident, name) := by
    simp only [List.forall_mem_cons]
    refine ⟨?_, ?_, ?_, ?_, ?_, ?_, by simp⟩ <;> exact ⟨_, _, _, rfl, rfl⟩
  have hsign : ∀ sign, Spells sign (.punct, sign) := fun sign => rfl
  have hnumber : Spells "3" (.int, "3") := ⟨_, _, _, rfl, rfl⟩
  have hstring : Spells "\"s\"" (.str, "s") := by
    have htext : unescapeChars ['s'] = .ok ['s'] := by simp [unescapeChars, Except.map]
    exact ⟨'"', ['s', '"'], 0, rfl, lexeme_of_tokenAt (.string rfl rfl htext)⟩
  simp [words, wordLists, UnaryOp.text, BinaryOp.text, LitKind.token, hname, hsign, hnumber, hstring]

end GoApiDoc.Go
