/-
What is read from tokens.

A reader only ever moves on, and never past the end of the source, so wherever it stops, an end of
all tokens is left.  Every cycle of readers passes a token, and sixteen units of fuel for each token
are more than any of them needs, so no reader runs out of fuel.

What a reader gives is put together from names: no type in it is named by its number.  And every
item that can have a comment above it, down to the fields of struct types within expressions, has been
read at one of the tokens, and has the comment group that ends just above the line of this token.

* `Go.ends_parseDecls`, `Go.parsesWith` — **no reader runs out of fuel**;
* `Go.parsed_fileOfText` — **all items of a file are located**.
-/

import GoApiDoc.Proofs.Outcome

set_option autoImplicit false

namespace GoApiDoc.Go

variable {m : CommentMap} {tokens : List Token} {fuel r s : Nat} {α β : Type}

/-! ### Cursors -/

/-- The cursor stands between the tokens, behind none that ends the source, and the fuel is enough
for what is left: sixteen units for every token, and some to spare. -/
structure Cursor.Fits (tokens : List Token) (fuel spare : Nat) (c : Cursor) : Prop where
  passed : ∃ before, before ++ c.rest = tokens ∧ ∀ t ∈ before, t.kind ≠ .eof
  enough : 16 * c.rest.length + spare ≤ fuel

namespace Cursor

variable {c c' : Cursor} {p : String} {ts : List Token}

theorem rest_eq_cons (h : c.peek.kind ≠ .eof) : c.rest = c.peek :: c.advance.rest := by
  cases hrest : c.rest with
  | nil => simp [peek, hrest, endToken] at h
  | cons t ts =>
    have ht : c.peek = t := by simp [peek, hrest]
    rw [ht] at h ⊢
    simp [advance, hrest, h]

theorem ne_eof_of_atKind {k : Token.Kind} (h : c.atKind k = true) (hk : k ≠ .eof) :
    c.peek.kind ≠ .eof := by
  rw [atKind, beq_iff_eq] at h
  exact h ▸ hk

theorem ne_eof_of_atPunct (h : c.atPunct p = true) : c.peek.kind ≠ .eof := by
  simp only [atPunct, Token.isPunct, Bool.and_eq_true] at h
  exact ne_eof_of_atKind h.1 (by decide)

theorem ne_eof_of_isKeyword (h : c.peek.isKeyword p = true) : c.peek.kind ≠ .eof := by
  simp only [Token.isKeyword, Bool.and_eq_true] at h
  exact ne_eof_of_atKind h.1 (by decide)

namespace Fits

theorem mono (h : c.Fits tokens fuel s) (hr : r ≤ s) : c.Fits tokens fuel r :=
  ⟨h.passed, Nat.le_trans (Nat.add_le_add_left hr _) h.enough⟩

theorem suffix (h : c.Fits tokens fuel r) : c.rest <:+ tokens := by
  obtain ⟨before, hbefore, -⟩ := h.passed
  exact ⟨before, hbefore⟩

/-- A unit of fuel less is enough for all but a unit to spare. -/
theorem lower (h : c.Fits tokens (fuel + 1) (r + 1)) : c.Fits tokens fuel r :=
  ⟨h.passed, Nat.le_of_succ_le_succ h.enough⟩

/-- Tokens that are passed leave their fuel. -/
theorem drop (h : c.Fits tokens fuel r) (hts : c.rest = ts ++ c'.rest)
    (hne : ∀ t ∈ ts, t.kind ≠ .eof) : c'.Fits tokens fuel (r + 16 * ts.length) := by
  obtain ⟨⟨before, hbefore, hpassed⟩, henough⟩ := h
  refine ⟨⟨before ++ ts, by rw [List.append_assoc, ← hts, hbefore], ?_⟩, ?_⟩
  · exact List.forall_mem_append.2 ⟨hpassed, hne⟩
  · rw [hts, List.length_append] at henough
    omega

theorem pass (h : c.Fits tokens fuel r) (hkind : c.peek.kind ≠ .eof) :
    c.advance.Fits tokens fuel (r + 16) := by
  have hrest : c.rest = [c.peek] ++ c.advance.rest := rest_eq_cons hkind
  exact h.drop hrest (List.forall_mem_singleton.2 hkind)

theorem eat (h : c.Fits tokens fuel r) (heat : c.eat p = some c') :
    c'.Fits tokens fuel (r + 16) := by
  unfold Cursor.eat at heat
  split at heat
  · next hp =>
    cases heat
    exact h.pass (ne_eof_of_atPunct hp)
  · cases heat

theorem skipSemicolons (h : c.Fits tokens fuel r) : c.skipSemicolons.Fits tokens fuel r := by
  have hdrop : ∀ ts : List Token, ∃ before, ts = before ++ dropSemicolons ts ∧
      ∀ t ∈ before, t.kind ≠ .eof := by
    intro ts
    induction ts with
    | nil => exact ⟨[], rfl, List.forall_mem_nil _⟩
    | cons t ts ih =>
      rw [dropSemicolons]
      split
      · next hkind =>
        obtain ⟨before, hbefore, hne⟩ := ih
        refine ⟨t :: before, congrArg (t :: ·) hbefore, List.forall_mem_cons.2 ⟨?_, hne⟩⟩
        simp [hkind]
      · exact ⟨[], rfl, List.forall_mem_nil _⟩
  obtain ⟨before, hbefore, hne⟩ := hdrop c.rest
  have hskip : c.skipSemicolons.Fits tokens fuel (r + 16 * before.length) := h.drop hbefore hne
  exact hskip.mono (by omega)

end Fits

theorem exists_of_closeBrackets {depth line : Nat}
    (h : closeBrackets depth line ts = some c) : ∃ t before, ts = t :: before ++ c.rest ∧
      ∀ u ∈ t :: before, u.kind ≠ .eof := by
  induction ts generalizing depth line with
  | nil => cases h
  | cons t ts ih =>
    rw [closeBrackets] at h
    split at h
    · cases h
    · next hkind =>
      have hrest : ∀ d l, closeBrackets d l ts = some c → ∃ u before,
          t :: ts = u :: before ++ c.rest ∧ ∀ v ∈ u :: before, v.kind ≠ .eof := by
        intro d l h
        obtain ⟨u, before, hbefore, hne⟩ := ih h
        exact ⟨t, u :: before, congrArg (t :: ·) hbefore, List.forall_mem_cons.2 ⟨hkind, hne⟩⟩
      dsimp only at h
      split at h
      · exact hrest _ _ h
      split at h
      · split at h
        · cases h
          exact ⟨t, [], rfl, List.forall_mem_singleton.2 hkind⟩
        · exact hrest _ _ h
      · exact hrest _ _ h

end Cursor

/-! ### Readers -/

/-- The reader does not run out of fuel, and what it gives satisfies the condition. -/
def Ends (x : Reading α) (φ : α → Prop) : Prop :=
  (∀ line, x ≠ .error ⟨line, .tooDeep⟩) ∧ ∀ a, x = .ok a → φ a

/-- The reader ends, between the tokens, with some fuel to spare. -/
abbrev Stays (tokens : List Token) (fuel r : Nat) (x : Reading Cursor) : Prop :=
  Ends x (Cursor.Fits tokens fuel r)

/-- The reader ends, between the tokens, with some fuel to spare, and what it gives satisfies the
condition. -/
abbrev Gives (tokens : List Token) (fuel r : Nat) (x : Reading (α × Cursor)) (φ : α → Prop) :
    Prop :=
  Ends x fun p => φ p.1 ∧ p.2.Fits tokens fuel r

section

variable {x : Reading (α × Cursor)} {φ ψ : α → Prop} {χ : β → Prop} {c : Cursor} {p : String}

theorem Ends.bind {y : Reading α} {f : α → Reading β} (hy : Ends y φ)
    (hf : ∀ a, φ a → Ends (f a) χ) : Ends (y >>= f) χ := by
  cases y with
  | error e => exact ⟨fun line h => hy.1 line (congrArg _ (Except.error.inj h)), by rintro _ ⟨⟩⟩
  | ok a => exact hf a (hy.2 a rfl)

theorem ends_ok {a : α} (ha : φ a) : Ends (.ok a) φ := by
  refine ⟨by rintro _ ⟨⟩, ?_⟩
  rintro _ ⟨⟩
  exact ha

theorem ends_error {e : SourceError} (he : e.fault ≠ .tooDeep) : Ends (.error e) φ := by
  refine ⟨?_, by rintro _ ⟨⟩⟩
  rintro line ⟨⟩
  exact he rfl

theorem ends_fail {fault : Fault} (h : fault ≠ .tooDeep := by simp) : Ends (c.fail fault) φ :=
  ends_error h

theorem Stays.ok (hc : c.Fits tokens fuel s) (hr : r ≤ s) :
    Stays tokens fuel r (.ok c) := ends_ok (hc.mono hr)

theorem Gives.ok {a : α} (ha : φ a) (hc : c.Fits tokens fuel s) (hr : r ≤ s) :
    Gives tokens fuel r (.ok (a, c)) φ := ends_ok ⟨ha, hc.mono hr⟩

theorem Stays.bind {y : Reading Cursor} {f : Cursor → Reading Cursor} (hy : Stays tokens fuel s y)
    (hf : ∀ c, c.Fits tokens fuel s → Stays tokens fuel r (f c)) : Stays tokens fuel r (y >>= f) :=
  Ends.bind hy hf

theorem Stays.gives {y : Reading Cursor} {f : Cursor → Reading (β × Cursor)}
    (hy : Stays tokens fuel s y) (hf : ∀ c, c.Fits tokens fuel s → Gives tokens fuel r (f c) χ) :
    Gives tokens fuel r (y >>= f) χ :=
  Ends.bind hy hf

theorem Gives.bind {f : α × Cursor → Reading (β × Cursor)} (hx : Gives tokens fuel s x φ)
    (hf : ∀ a c, φ a → c.Fits tokens fuel s → Gives tokens fuel r (f (a, c)) χ) :
    Gives tokens fuel r (x >>= f) χ :=
  Ends.bind hx fun p hp => hf p.1 p.2 hp.1 hp.2

theorem Gives.stays {f : α × Cursor → Reading Cursor} (hx : Gives tokens fuel s x φ)
    (hf : ∀ a c, c.Fits tokens fuel s → Stays tokens fuel r (f (a, c))) :
    Stays tokens fuel r (x >>= f) :=
  Ends.bind hx fun p hp => hf p.1 p.2 hp.2

/-- Two ways to begin, with the same continuation. -/
theorem Gives.either {b : Prop} [Decidable b] {y : Reading (α × Cursor)}
    {f : α × Cursor → Reading (β × Cursor)} (hx : Gives tokens fuel s x φ)
    (hy : Gives tokens fuel s y φ)
    (hf : ∀ a c, φ a → c.Fits tokens fuel s → Gives tokens fuel r (f (a, c)) χ) :
    Gives tokens fuel r (if b then x >>= f else y >>= f) χ := by
  split
  · exact hx.bind hf
  · exact hy.bind hf

theorem Ends.imp {y : Reading α} (hy : Ends y φ) (h : ∀ a, y = .ok a → φ a → ψ a) : Ends y ψ :=
  ⟨hy.1, fun a ha => h a ha (hy.2 a ha)⟩

theorem Gives.imp (hx : Gives tokens fuel r x φ) (h : ∀ a c, x = .ok (a, c) → φ a → ψ a) :
    Gives tokens fuel r x ψ :=
  Ends.imp hx fun p hp hφ => ⟨h p.1 p.2 hp hφ.1, hφ.2⟩

theorem Gives.mono (hx : Gives tokens fuel s x φ) (hr : r ≤ s) : Gives tokens fuel r x φ :=
  Ends.imp hx fun _ _ hp => ⟨hp.1, hp.2.mono hr⟩

theorem Stays.mono {y : Reading Cursor} (hy : Stays tokens fuel s y) (hr : r ≤ s) :
    Stays tokens fuel r y :=
  Ends.imp hy fun _ _ hc => hc.mono hr

/-- A unit of fuel more is one more to spare. -/
theorem Gives.lift (hx : Gives tokens fuel r x φ) : Gives tokens (fuel + 1) (r + 1) x φ :=
  Ends.imp hx fun _ _ hp => ⟨hp.1, hp.2.passed, Nat.succ_le_succ hp.2.enough⟩

theorem Stays.lift {y : Reading Cursor} (hy : Stays tokens fuel r y) :
    Stays tokens (fuel + 1) (r + 1) y :=
  Ends.imp hy fun _ _ hc => ⟨hc.passed, Nat.succ_le_succ hc.enough⟩

variable (hc : c.Fits tokens fuel r)

include hc

theorem stays_expect : Stays tokens fuel (r + 16) (c.expect p) := by
  unfold Cursor.expect
  split
  · next heat => exact .ok (hc.eat heat) (by omega)
  · exact ends_fail

theorem stays_endItem : Stays tokens fuel r (c.endItem p) := by
  unfold Cursor.endItem
  split
  · exact .ok hc.skipSemicolons (by omega)
  · split
    · exact .ok hc (by omega)
    · exact ends_fail

theorem stays_skipBalanced : Stays tokens fuel (r + 16) c.skipBalanced := by
  unfold Cursor.skipBalanced
  split
  · next hclose =>
    obtain ⟨t, before, hrest, hne⟩ := Cursor.exists_of_closeBrackets hclose
    exact .ok (hc.drop hrest hne) (by simp only [List.length_cons]; omega)
  · exact ends_fail

theorem gives_ident : Gives tokens fuel (r + 16) c.ident fun _ => True := by
  unfold Cursor.ident
  split
  · next hkind => exact .ok trivial (hc.pass (Cursor.ne_eof_of_atKind hkind (by decide))) (by omega)
  · exact ends_fail

omit hc in
theorem gives_moreNames (hc : c.Fits tokens fuel (r + 1)) :
    Gives tokens fuel (r + 1) (moreNames fuel c) fun _ => True := by
  induction fuel generalizing c r with
  | zero => exact absurd hc.enough (by omega)
  | succ fuel ih =>
    replace hc := hc.lower
    rw [moreNames]
    refine Gives.lift ?_
    split
    · exact .ok trivial hc (by omega)
    · next heat =>
      exact (gives_ident (hc.eat heat)).bind fun _ _ _ hc =>
        (ih hc).bind fun _ _ _ hc => .ok trivial hc (by omega)

theorem gives_parseNames : Gives tokens fuel (r + 16) (parseNames fuel c) fun _ => True :=
  (gives_ident hc).bind fun _ _ _ hc => (gives_moreNames hc).bind fun _ _ _ hc =>
    .ok trivial hc (by omega)

end

/-! ### Items -/

/-- What can have a comment above it. -/
inductive Item where
  | field (f : Field)
  | type (spec : TypeSpec)
  | value (spec : ValueSpec)
  | func (decl : FuncDecl)

/-- The comment group above the item. -/
def Item.doc : Item → Option CommentGroup
  | field f => f.doc
  | type spec => spec.doc
  | value spec => spec.doc
  | func decl => decl.doc

/-- The item is read from the token behind the cursor on: as the first field of a struct type or the
first line of a group, behind semicolons, or as a declaration with its keyword. -/
inductive Begins (m : CommentMap) : Cursor → Item → Prop
  | field {fuel : Nat} {c c' : Cursor} {f : Field} {fs : List Field}
      (h : parseFields m fuel c = .ok (f :: fs, c')) : Begins m c.skipSemicolons (.field f)
  | typeLine {fuel : Nat} {c c' : Cursor} {s : TypeSpec} {ss : List TypeSpec}
      (h : parseTypeSpecs m fuel c = .ok (s :: ss, c')) : Begins m c.skipSemicolons (.type s)
  | valueLine {fuel iota : Nat} {c c' : Cursor} {s : ValueSpec} {ss : List ValueSpec}
      (h : parseValueSpecs m fuel iota c = .ok (s :: ss, c')) :
      Begins m c.skipSemicolons (.value s)
  | type {fuel : Nat} {doc : Option CommentGroup} {c c' : Cursor} {s : TypeSpec}
      (hkey : c.peek.isKeyword "type" = true)
      (h : parseTypeSpec m fuel doc c.advance = .ok (s, c')) : Begins m c (.type s)
  | value {fuel : Nat} {doc : Option CommentGroup} {c c' : Cursor} {s : ValueSpec}
      (hkey : c.peek.isKeyword "const" = true)
      (h : parseValueSpec m fuel 0 doc c.advance = .ok (s, c')) : Begins m c (.value s)
  | func {fuel line : Nat} {doc : Option CommentGroup} {c c' : Cursor} {d : FuncDecl}
      (hkey : c.peek.isKeyword "func" = true)
      (h : parseFuncDecl m fuel doc line c.advance = .ok (d, c')) : Begins m c (.func d)

/-- The item begins at one of the tokens, and has the comment group above the line of this token. -/
def Located (m : CommentMap) (tokens : List Token) (item : Item) : Prop :=
  ∃ c : Cursor, c.rest <:+ tokens ∧ Begins m c item ∧ item.doc = m.docBefore c.peek.line

/-- What a reader of several items gives: it is enough that the first one has a property that makes
it one of the located items. -/
theorem gives_located {x : Reading (List α × Cursor)} {φ : α → Prop} (first : α → Prop)
    (hx : Gives tokens fuel r x fun as => ∀ a rest, as = a :: rest → first a ∧ ∀ b ∈ rest, φ b)
    (h : ∀ a rest c, x = .ok (a :: rest, c) → first a → φ a) :
    Gives tokens fuel r x (∀ a ∈ ·, φ a) := by
  refine hx.imp fun as c hac has => ?_
  cases as with
  | nil => exact List.forall_mem_nil _
  | cons a rest =>
    obtain ⟨ha, hrest⟩ := has a rest rfl
    exact List.forall_mem_cons.2 ⟨h a rest c hac ha, hrest⟩

/-! ### What types and expressions are put together from -/

/-- A type without numbers, all of whose fields, at any depth, satisfy a condition. -/
inductive TypeExpr.Parsed (φ : Item → Prop) : TypeExpr → Prop
  | ident (name : String) : Parsed φ (.ident name)
  | qualified (package name : String) : Parsed φ (.qualified package name)
  | generic {base : TypeExpr} {args : List TypeExpr} (hbase : Parsed φ base)
      (hargs : ∀ t ∈ args, Parsed φ t) : Parsed φ (.generic base args)
  | pointer {elem : TypeExpr} (h : Parsed φ elem) : Parsed φ (.pointer elem)
  | slice {elem : TypeExpr} (h : Parsed φ elem) : Parsed φ (.slice elem)
  | array {elem : TypeExpr} (h : Parsed φ elem) : Parsed φ (.array elem)
  | map {key value : TypeExpr} (hkey : Parsed φ key) (hvalue : Parsed φ value) :
      Parsed φ (.map key value)
  | chan (dir : ChanDir) {elem : TypeExpr} (h : Parsed φ elem) : Parsed φ (.chan dir elem)
  | func : Parsed φ .func
  | interface (methods : Nat) {embeds : List TypeExpr} (h : ∀ t ∈ embeds, Parsed φ t) :
      Parsed φ (.interface methods embeds)
  | struct {fields : List Field} (hφ : ∀ f ∈ fields, φ (.field f))
      (h : ∀ f ∈ fields, Parsed φ f.type) : Parsed φ (.struct fields)
  | tilde {elem : TypeExpr} (h : Parsed φ elem) : Parsed φ (.tilde elem)
  | union {terms : List TypeExpr} (h : ∀ t ∈ terms, Parsed φ t) : Parsed φ (.union terms)

/-- An expression all of whose types are without numbers and have fields that satisfy a condition. -/
inductive Expr.Parsed (φ : Item → Prop) : Expr → Prop
  | lit (kind : LitKind) (value : String) : Parsed φ (.lit kind value)
  | ident (name : String) : Parsed φ (.ident name)
  | selector (package name : String) : Parsed φ (.selector package name)
  | paren {inner : Expr} (h : Parsed φ inner) : Parsed φ (.paren inner)
  | unary (op : UnaryOp) {operand : Expr} (h : Parsed φ operand) : Parsed φ (.unary op operand)
  | binary (op : BinaryOp) {lhs rhs : Expr} (hlhs : Parsed φ lhs) (hrhs : Parsed φ rhs) :
      Parsed φ (.binary op lhs rhs)
  | call {callee : Expr} {args : List Expr} (hcallee : Parsed φ callee)
      (hargs : ∀ e ∈ args, Parsed φ e) : Parsed φ (.call callee args)
  | type {t : TypeExpr} (h : t.Parsed φ) : Parsed φ (.type t)
  | other : Parsed φ .other

theorem parsed_select {φ : Item → Prop} (e : Expr) (name : String) : (select e name).Parsed φ := by
  cases e with
  | ident package => exact .selector package name
  | _ => exact .other

/-! ### Types and expressions read from tokens -/

/-- The laws of the functions that read types and expressions.  What each of them needs to spare is
enough for the chain of calls down to the next token; those that pass a token leave its fuel. -/
structure ParsesWith (m : CommentMap) (tokens : List Token) (φ : Item → Prop) (fuel : Nat) :
    Prop where
  type : ∀ {r c}, c.Fits tokens fuel (r + 1) →
    Gives tokens fuel (r + 17) (parseType m fuel c) (·.Parsed φ)
  args : ∀ {r c}, c.Fits tokens fuel (r + 2) →
    Gives tokens fuel (r + 18) (parseTypeArgs m fuel c) (∀ t ∈ ·, t.Parsed φ)
  signature : ∀ {r c}, c.Fits tokens fuel (r + 1) →
    Stays tokens fuel (r + 17) (skipSignature m fuel c)
  interface : ∀ {r c}, c.Fits tokens fuel (r + 4) →
    Gives tokens fuel (r + 20) (parseInterface m fuel c) fun items => ∀ t ∈ items.2, t.Parsed φ
  constraint : ∀ {r c}, c.Fits tokens fuel (r + 3) →
    Gives tokens fuel (r + 19) (parseConstraint m fuel c) (·.Parsed φ)
  terms : ∀ {r c}, c.Fits tokens fuel (r + 1) →
    Gives tokens fuel (r + 1) (parseTerms m fuel c) (∀ t ∈ ·, t.Parsed φ)
  term : ∀ {r c}, c.Fits tokens fuel (r + 2) →
    Gives tokens fuel (r + 18) (parseTerm m fuel c) (·.Parsed φ)
  fields : ∀ {r c}, c.Fits tokens fuel (r + 2) →
    Gives tokens fuel (r + 18) (parseFields m fuel c) (∀ f ∈ ·, φ (.field f) ∧ f.type.Parsed φ)
  binary : ∀ {r c} least, c.Fits tokens fuel (r + 4) →
    Gives tokens fuel (r + 20) (parseBinary m fuel least c) (·.Parsed φ)
  binaryRest : ∀ {r c} least {lhs}, lhs.Parsed φ → c.Fits tokens fuel (r + 1) →
    Gives tokens fuel (r + 1) (parseBinaryRest m fuel least lhs c) (·.Parsed φ)
  unary : ∀ {r c}, c.Fits tokens fuel (r + 3) →
    Gives tokens fuel (r + 19) (parseUnary m fuel c) (·.Parsed φ)
  primary : ∀ {r c}, c.Fits tokens fuel (r + 2) →
    Gives tokens fuel (r + 18) (parsePrimary m fuel c) (·.Parsed φ)
  primaryRest : ∀ {r c e}, e.Parsed φ → c.Fits tokens fuel (r + 1) →
    Gives tokens fuel (r + 1) (parsePrimaryRest m fuel e c) (·.Parsed φ)
  exprs : ∀ {r c}, c.Fits tokens fuel (r + 5) →
    Gives tokens fuel (r + 21) (parseArgs m fuel c) (∀ e ∈ ·, e.Parsed φ)

section Step

variable {φ : Item → Prop} {c : Cursor} (ih : ParsesWith m tokens φ fuel) (least : Nat)

include ih

theorem gives_applied {base : TypeExpr} (hbase : base.Parsed φ) (hc : c.Fits tokens fuel r) :
    Gives tokens fuel r (if c.atPunct "[" then do
        let (args, c) ← parseTypeArgs m fuel c.advance
        .ok (.generic base args, c)
      else .ok (base, c)) (·.Parsed φ) := by
  split
  · next hp =>
    exact (ih.args (hc.pass (Cursor.ne_eof_of_atPunct hp))).bind fun _ _ hargs hc =>
      .ok (.generic hbase hargs) hc (by omega)
  · exact .ok hbase hc (by omega)

theorem gives_arrayElem (hc : c.Fits tokens fuel r) :
    Gives tokens fuel r (do
      let c ← c.expect "]"
      let (elem, c) ← parseType m fuel c
      .ok (TypeExpr.array elem, c)) (·.Parsed φ) :=
  (stays_expect hc).gives fun _ hc => (ih.type hc).bind fun _ _ helem hc =>
    .ok (.array helem) hc (by omega)

theorem gives_parseType (hc : c.Fits tokens fuel r) :
    Gives tokens fuel (r + 16) (parseType m (fuel + 1) c) (·.Parsed φ) := by
  rw [parseType]
  dsimp only
  split
  · next hkind =>
    replace hc := hc.pass (by simp [hkind])
    split
    · next heat =>
      exact (gives_ident (hc.eat heat)).bind fun _ _ _ hc =>
        gives_applied ih (.qualified _ _) (hc.mono (by omega))
    · exact gives_applied ih (.ident _) hc
  · next hkind =>
    replace hc := hc.pass (by simp [hkind])
    split
    · exact (ih.type hc).bind fun _ _ helem hc => .ok (.pointer helem) hc (by omega)
    split
    · split
      · next heat =>
        exact (ih.type (hc.eat heat)).bind fun _ _ helem hc => .ok (.slice helem) hc (by omega)
      · split
        · next heat => exact gives_arrayElem ih ((hc.eat heat).mono (by omega))
        · exact (ih.binary _ hc).bind fun _ _ _ hc => gives_arrayElem ih (hc.mono (by omega))
    · split
      · exact (ih.type hc).bind fun _ _ hinner hc =>
          (stays_expect hc).gives fun _ hc => .ok hinner hc (by omega)
      · split
        · split
          · exact ends_fail
          · next hchan =>
            have hc' := hc.pass (Cursor.ne_eof_of_isKeyword (by simpa using hchan))
            exact (ih.type hc').bind fun _ _ helem hc => .ok (.chan _ helem) hc (by omega)
        · exact ends_fail
  · next hkind =>
    replace hc := hc.pass (by simp [hkind])
    split
    · exact (stays_expect hc).gives fun _ hc => (ih.type hc).bind fun _ _ hkey hc =>
        (stays_expect hc).gives fun _ hc => (ih.type hc).bind fun _ _ hvalue hc =>
          .ok (.map hkey hvalue) hc (by omega)
    · split
      · refine (ih.type (r := r + 15) ?_).bind fun _ _ helem hc => .ok (.chan _ helem) hc (by omega)
        split
        · next heat => exact (hc.eat heat).mono (by omega)
        · exact hc
      · split
        · exact (ih.signature hc).gives fun _ hc => .ok .func hc (by omega)
        · split
          · exact (stays_expect hc).gives fun _ hc => (ih.interface hc).bind
              fun _ _ hembeds hc => .ok (.interface _ hembeds) hc (by omega)
          · split
            · exact (stays_expect hc).gives fun _ hc => (ih.fields hc).bind
                fun _ _ hfields hc => .ok (.struct (fun f hf => (hfields f hf).1)
                  fun f hf => (hfields f hf).2) hc (by omega)
            · exact ends_fail
  · exact ends_fail

theorem gives_parseTypeArgs (hc : c.Fits tokens fuel (r + 1)) :
    Gives tokens fuel (r + 17) (parseTypeArgs m (fuel + 1) c) (∀ t ∈ ·, t.Parsed φ) := by
  rw [parseTypeArgs]
  split
  · next heat => exact .ok (List.forall_mem_nil _) (hc.eat heat) (by omega)
  refine (ih.type hc).bind fun arg c harg hc => ?_
  dsimp only
  split
  · next heat =>
    exact (ih.args (hc.eat heat)).bind fun _ _ hargs hc =>
      .ok (List.forall_mem_cons.2 ⟨harg, hargs⟩) hc (by omega)
  · exact (stays_expect hc).gives fun _ hc => .ok (List.forall_mem_singleton.2 harg) hc (by omega)

theorem stays_skipSignature (hc : c.Fits tokens fuel r) :
    Stays tokens fuel (r + 16) (skipSignature m (fuel + 1) c) := by
  rw [skipSignature]
  split
  · exact ends_fail
  refine (stays_skipBalanced hc).bind fun c hc => ?_
  split
  · exact (stays_skipBalanced hc).mono (by omega)
  · split
    · exact (ih.type hc).stays fun _ _ hc => .ok hc (by omega)
    · exact .ok hc (by omega)

theorem gives_parseInterface (hc : c.Fits tokens fuel (r + 3)) :
    Gives tokens fuel (r + 19) (parseInterface m (fuel + 1) c)
      fun items => ∀ t ∈ items.2, t.Parsed φ := by
  rw [parseInterface]
  dsimp only
  split
  · next heat => exact .ok (List.forall_mem_nil _) (hc.skipSemicolons.eat heat) (by omega)
  split
  · next hmethod =>
    have hkind := (Bool.and_eq_true _ _ ▸ hmethod).1
    have hc' := hc.skipSemicolons.pass (Cursor.ne_eof_of_atKind hkind (by decide))
    exact (ih.signature hc').gives fun _ hc => (stays_endItem hc).gives fun _ hc =>
      (ih.interface hc).bind fun _ _ hitems hc => .ok hitems hc (by omega)
  · exact (ih.constraint hc.skipSemicolons).bind fun _ _ hembed hc =>
      (stays_endItem hc).gives fun _ hc => (ih.interface hc).bind fun _ _ hitems hc =>
        .ok (List.forall_mem_cons.2 ⟨hembed, hitems⟩) hc (by omega)

theorem gives_parseConstraint (hc : c.Fits tokens fuel (r + 2)) :
    Gives tokens fuel (r + 18) (parseConstraint m (fuel + 1) c) (·.Parsed φ) := by
  rw [parseConstraint]
  refine (ih.term hc).bind fun term c hterm hc => (ih.terms hc).bind fun terms c hterms hc => ?_
  dsimp only
  split
  · exact .ok hterm hc (by omega)
  · exact .ok (.union (List.forall_mem_cons.2 ⟨hterm, hterms⟩)) hc (by omega)

theorem gives_parseTerms (hc : c.Fits tokens fuel r) :
    Gives tokens fuel r (parseTerms m (fuel + 1) c) (∀ t ∈ ·, t.Parsed φ) := by
  rw [parseTerms]
  split
  · exact .ok (List.forall_mem_nil _) hc (by omega)
  · next heat =>
    exact (ih.term (hc.eat heat)).bind fun _ _ hterm hc => (ih.terms hc).bind
      fun _ _ hterms hc => .ok (List.forall_mem_cons.2 ⟨hterm, hterms⟩) hc (by omega)

theorem gives_parseTerm (hc : c.Fits tokens fuel (r + 1)) :
    Gives tokens fuel (r + 17) (parseTerm m (fuel + 1) c) (·.Parsed φ) := by
  rw [parseTerm]
  split
  · next heat =>
    exact (ih.type (hc.eat heat)).bind fun _ _ helem hc => .ok (.tilde helem) hc (by omega)
  · exact ih.type hc

theorem gives_parseFields (hφ : ∀ item, Located m tokens item → φ item)
    (hc : c.Fits tokens fuel (r + 1)) : Gives tokens fuel (r + 17) (parseFields m (fuel + 1) c)
      (∀ f ∈ ·, φ (.field f) ∧ f.type.Parsed φ) := by
  have hc' := hc.skipSemicolons
  refine gives_located
    (fun f => f.doc = m.docBefore c.skipSemicolons.peek.line ∧ f.type.Parsed φ) ?_
    fun f rest c' h hf => ⟨hφ _ ⟨_, hc'.suffix, .field h, hf.1⟩, hf.2⟩
  rw [parseFields]
  dsimp only
  split
  · next heat => exact .ok (by rintro _ _ ⟨⟩) (hc'.eat heat) (by omega)
  have hnames := (gives_parseNames hc').mono (r := r + 1) (by omega)
  refine .either (.ok trivial hc' (by omega)) hnames fun _ c _ hc =>
    (ih.type hc).bind fun type c htype hc => (stays_endItem (r := r + 17) ?_).gives fun _ hc =>
      (ih.fields hc).bind fun _ _ hfields hc => .ok ?_ hc (by omega)
  · dsimp only
    split
    · next hstr => exact (hc.pass (Cursor.ne_eof_of_atKind hstr (by decide))).mono (by omega)
    · exact hc
  · rintro _ _ ⟨⟩
    exact ⟨⟨rfl, htype⟩, hfields⟩

theorem gives_parseBinary (hc : c.Fits tokens fuel (r + 3)) :
    Gives tokens fuel (r + 19) (parseBinary m (fuel + 1) least c) (·.Parsed φ) := by
  rw [parseBinary]
  exact (ih.unary hc).bind fun lhs c hlhs hc => ih.binaryRest least hlhs hc

theorem gives_parseBinaryRest {lhs : Expr} (hlhs : lhs.Parsed φ) (hc : c.Fits tokens fuel r) :
    Gives tokens fuel r (parseBinaryRest m (fuel + 1) least lhs c) (·.Parsed φ) := by
  rw [parseBinaryRest]
  split
  · exact .ok hlhs hc (by omega)
  · next hop =>
    have hkind : c.peek.kind ≠ .eof := by
      split at hop
      · next hpunct => exact Cursor.ne_eof_of_atKind hpunct (by decide)
      · cases hop
    split
    · exact .ok hlhs hc (by omega)
    · exact (ih.binary _ (hc.pass hkind)).bind fun _ _ hrhs hc =>
        (ih.binaryRest _ (.binary _ hlhs hrhs) hc).mono (by omega)

theorem gives_parseUnary (hc : c.Fits tokens fuel (r + 2)) :
    Gives tokens fuel (r + 18) (parseUnary m (fuel + 1) c) (·.Parsed φ) := by
  rw [parseUnary]
  dsimp only
  split
  · exact ih.primary hc
  · next hpunct =>
    have hc' := hc.pass (by simp_all)
    split
    · exact (ih.unary hc').bind fun _ _ hoperand hc => .ok (.unary _ hoperand) hc (by omega)
    · split
      · exact (ih.unary hc').bind fun _ _ _ hc => .ok .other hc (by omega)
      · exact ih.primary hc

theorem gives_parsePrimary (hc : c.Fits tokens fuel (r + 1)) :
    Gives tokens fuel (r + 17) (parsePrimary m (fuel + 1) c) (·.Parsed φ) := by
  rw [parsePrimary]
  dsimp only
  split
  · next hlit =>
    have hkind : c.peek.kind ≠ .eof := by
      intro heof
      rw [heof] at hlit
      cases hlit
    exact ih.primaryRest (.lit _ _) (hc.pass hkind)
  · split
    · next hkind => exact ih.primaryRest (.ident _) (hc.pass (by simp [hkind]))
    · split
      · next hp =>
        exact (ih.binary _ (hc.pass (Cursor.ne_eof_of_atPunct hp))).bind fun _ _ hinner hc =>
          (stays_expect hc).gives fun _ hc => (ih.primaryRest (.paren hinner) hc).mono (by omega)
      · split
        · refine (ih.type hc).bind fun type c htype hc => ?_
          dsimp only
          split
          · exact (stays_skipBalanced hc).gives fun _ hc => .ok .other hc (by omega)
          · exact ih.primaryRest (.type htype) hc
        · exact ends_fail

theorem gives_parsePrimaryRest {e : Expr} (he : e.Parsed φ) (hc : c.Fits tokens fuel r) :
    Gives tokens fuel r (parsePrimaryRest m (fuel + 1) e c) (·.Parsed φ) := by
  rw [parsePrimaryRest]
  split
  · next heat =>
    exact (gives_ident (hc.eat heat)).bind fun _ _ _ hc =>
      (ih.primaryRest (parsed_select e _) hc).mono (by omega)
  · split
    · next heat =>
      exact (ih.exprs (hc.eat heat)).bind fun _ _ hargs hc =>
        (ih.primaryRest (.call he hargs) hc).mono (by omega)
    · split
      · exact (stays_skipBalanced hc).gives fun _ hc => (ih.primaryRest .other hc).mono (by omega)
      · exact .ok he hc (by omega)

theorem gives_parseArgs (hc : c.Fits tokens fuel (r + 4)) :
    Gives tokens fuel (r + 20) (parseArgs m (fuel + 1) c) (∀ e ∈ ·, e.Parsed φ) := by
  rw [parseArgs]
  split
  · next heat => exact .ok (List.forall_mem_nil _) (hc.eat heat) (by omega)
  refine (ih.binary _ hc).bind fun arg c harg hc => ?_
  dsimp only
  have hc' : ((c.eat "...").getD c).Fits tokens fuel (r + 20) := by
    cases heat : c.eat "..." with
    | none => exact hc
    | some c' => exact (hc.eat heat).mono (by omega)
  split
  · next heat =>
    exact (ih.exprs (hc'.eat heat)).bind fun _ _ hargs hc =>
      .ok (List.forall_mem_cons.2 ⟨harg, hargs⟩) hc (by omega)
  · exact (stays_expect hc').gives fun _ hc =>
      .ok (List.forall_mem_singleton.2 harg) hc (by omega)

end Step

/-- **Types and expressions are read without running out of fuel.** -/
theorem parsesWith {φ : Item → Prop} (hφ : ∀ item, Located m tokens item → φ item) (fuel : Nat) :
    ParsesWith m tokens φ fuel := by
  induction fuel with
  | zero =>
    have hzero : ∀ {r} {c : Cursor}, ¬c.Fits tokens 0 (r + 1) := by
      intro r c hc
      exact absurd hc.enough (by omega)
    constructor <;> intros
    all_goals exact absurd ‹_› hzero
  | succ fuel ih =>
    exact {
      type := fun hc => (gives_parseType ih hc.lower).lift
      args := fun hc => (gives_parseTypeArgs ih hc.lower).lift
      signature := fun hc => (stays_skipSignature ih hc.lower).lift
      interface := fun hc => (gives_parseInterface ih hc.lower).lift
      constraint := fun hc => (gives_parseConstraint ih hc.lower).lift
      terms := fun hc => (gives_parseTerms ih hc.lower).lift
      term := fun hc => (gives_parseTerm ih hc.lower).lift
      fields := fun hc => (gives_parseFields ih hφ hc.lower).lift
      binary := fun least hc => (gives_parseBinary ih least hc.lower).lift
      binaryRest := fun least _ hlhs hc => (gives_parseBinaryRest ih least hlhs hc.lower).lift
      unary := fun hc => (gives_parseUnary ih hc.lower).lift
      primary := fun hc => (gives_parsePrimary ih hc.lower).lift
      primaryRest := fun he hc => (gives_parsePrimaryRest ih he hc.lower).lift
      exprs := fun hc => (gives_parseArgs ih hc.lower).lift }

/-! ### What declarations are put together from -/

variable (φ : Item → Prop)

/-- The types in a type declaration are parsed. -/
def TypeSpec.Inner (s : TypeSpec) : Prop :=
  (∀ p ∈ s.params, p.constraint.Parsed φ) ∧ s.type.Parsed φ

/-- The type and the values in a line of a constant declaration are parsed. -/
def ValueSpec.Inner (s : ValueSpec) : Prop :=
  (∀ t ∈ s.type, t.Parsed φ) ∧ ∀ e ∈ s.values, e.Parsed φ

/-- A type declaration that satisfies the condition, with all fields in it. -/
def TypeSpec.Parsed (s : TypeSpec) : Prop := φ (.type s) ∧ s.Inner φ

/-- A line of a constant declaration that satisfies the condition, with all fields in it. -/
def ValueSpec.Parsed (s : ValueSpec) : Prop := φ (.value s) ∧ s.Inner φ

/-- A declaration all of whose items satisfy the condition. -/
def Decl.Parsed : Decl → Prop
  | type spec => spec.Parsed φ
  | const specs => ∀ s ∈ specs, s.Parsed φ
  | func decl => φ (.func decl) ∧ ∀ s ∈ decl.localTypes, s.Parsed φ

/-! ### Declarations read from tokens -/

section Declarations

variable {φ : Item → Prop} {c : Cursor}

theorem gives_parseImport (hc : c.Fits tokens fuel r) :
    Gives tokens fuel (r + 16) (parseImport c) fun _ => True := by
  have hpath : ∀ {s : Nat} (name : Option String) {c : Cursor}, c.Fits tokens fuel s →
      Gives tokens fuel (s + 16) (if c.atKind .str then .ok (⟨name, c.peek.text⟩, c.advance)
        else c.fail .noImportPath) fun _ : ImportSpec => True := by
    intro s name c hc
    split
    · next hstr => exact .ok trivial (hc.pass (Cursor.ne_eof_of_atKind hstr (by decide))) (by omega)
    · exact ends_fail
  unfold parseImport
  by_cases hident : c.atKind .ident = true
  · rw [if_pos hident]
    exact (hpath _ (hc.pass (Cursor.ne_eof_of_atKind hident (by decide)))).mono (by omega)
  rw [if_neg hident]
  by_cases hdot : c.atPunct "." = true
  · rw [if_pos hdot]
    exact (hpath _ (hc.pass (Cursor.ne_eof_of_atPunct hdot))).mono (by omega)
  · rw [if_neg hdot]
    exact hpath _ hc

theorem gives_parseImports (hc : c.Fits tokens fuel (r + 1)) :
    Gives tokens fuel (r + 17) (parseImports fuel c) fun _ => True := by
  induction fuel generalizing c r with
  | zero => exact absurd hc.enough (by omega)
  | succ fuel ih =>
    replace hc := hc.lower.skipSemicolons
    rw [parseImports]
    refine Gives.lift ?_
    dsimp only
    split
    · next heat => exact .ok trivial (hc.eat heat) (by omega)
    · exact (gives_parseImport hc).bind fun _ _ _ hc =>
        (stays_endItem hc).gives fun _ hc => (ih hc).bind fun _ _ _ hc => .ok trivial hc (by omega)

theorem gives_parseImportDecl (hc : c.Fits tokens fuel r) :
    Gives tokens fuel (r + 16) (parseImportDecl fuel c) fun _ => True := by
  unfold parseImportDecl
  split
  · next heat => exact (gives_parseImports (hc.eat heat)).mono (by omega)
  · exact (gives_parseImport hc).bind fun _ _ _ hc => .ok trivial hc (by omega)

theorem stays_skipStatement (hc : c.Fits tokens fuel (r + 1)) :
    Stays tokens fuel (r + 1) (skipStatement fuel c) := by
  induction fuel generalizing c r with
  | zero => exact absurd hc.enough (by omega)
  | succ fuel ih =>
    replace hc := hc.lower
    rw [skipStatement]
    refine Stays.lift ?_
    split
    · exact .ok hc (by omega)
    · next hend =>
      split
      · exact (stays_skipBalanced hc).bind fun _ hc => (ih hc).mono (by omega)
      · exact (ih (hc.pass (by simp_all [Cursor.atKind]))).mono (by omega)

theorem stays_skipVarDecl (hc : c.Fits tokens fuel (r + 1)) :
    Stays tokens fuel (r + 1) (skipVarDecl fuel c) := by
  unfold skipVarDecl
  split
  · exact (stays_skipBalanced hc).mono (by omega)
  · exact stays_skipStatement hc

theorem stays_skipIfAt (p : String) (hc : c.Fits tokens fuel r) :
    Stays tokens fuel r (skipIfAt p c) := by
  unfold skipIfAt
  split
  · exact (stays_skipBalanced hc).mono (by omega)
  · exact .ok hc (by omega)

theorem parsed_shareConstraints {ps : List (String × Option TypeExpr)}
    (h : ∀ q ∈ ps, ∀ t ∈ q.2, t.Parsed φ) : ∀ p ∈ shareConstraints ps, p.constraint.Parsed φ := by
  induction ps with
  | nil => exact List.forall_mem_nil _
  | cons q ps ih =>
    obtain ⟨name, constraint⟩ := q
    obtain ⟨hq, hps⟩ := List.forall_mem_cons.1 h
    rw [shareConstraints]
    refine List.forall_mem_cons.2 ⟨?_, ih hps⟩
    cases hc : constraint with
    | some t => exact hq t hc
    | none =>
      cases hrest : shareConstraints ps with
      | nil => exact .ident _
      | cons p rest => exact ih hps p (hrest ▸ (.head _))

variable (hφ : ∀ item, Located m tokens item → φ item) {o : Option TypeExpr}
  (doc : Option CommentGroup) (iota : Nat)

include hφ

omit hφ in
/-- The parameters behind a name and its constraint. -/
theorem gives_paramsFrom (ih : ∀ {r : Nat} {c : Cursor}, c.Fits tokens fuel (r + 1) →
      Gives tokens fuel (r + 1) (parseParamList m fuel c) (∀ q ∈ ·, ∀ t ∈ q.2, t.Parsed φ))
    (name : String) (ho : ∀ t ∈ o, t.Parsed φ) (hc : c.Fits tokens fuel r) :
    Gives tokens fuel r (match c.eat "," with
      | some c => do
        let p ← parseParamList m fuel c
        .ok ((name, o) :: p.1, p.2)
      | none => .ok ([(name, o)], c)) (∀ q ∈ ·, ∀ t ∈ q.2, t.Parsed φ) := by
  split
  · next heat =>
    refine (ih (hc.eat heat)).bind fun params c hparams hc => ?_
    exact .ok (List.forall_mem_cons.2 ⟨ho, hparams⟩) hc (by omega)
  · exact .ok (List.forall_mem_singleton.2 ho) hc (by omega)

theorem gives_parseParamList (hc : c.Fits tokens fuel (r + 1)) :
    Gives tokens fuel (r + 1) (parseParamList m fuel c) (∀ q ∈ ·, ∀ t ∈ q.2, t.Parsed φ) := by
  induction fuel generalizing c r with
  | zero => exact absurd hc.enough (by omega)
  | succ fuel ih =>
    replace hc := hc.lower
    rw [parseParamList]
    refine Gives.lift ?_
    split
    · exact .ok (List.forall_mem_nil _) hc (by omega)
    refine (gives_ident hc).bind fun name c _ hc => ?_
    dsimp only
    split
    · exact gives_paramsFrom ih name (o := none) (by rintro _ ⟨⟩) (hc.mono (by omega))
    · exact ((parsesWith hφ fuel).constraint hc).bind fun t c ht hc =>
        gives_paramsFrom ih name (o := some t) (by simpa using ht) (hc.mono (by omega))

theorem gives_parseTypeParams (hc : c.Fits tokens fuel r) :
    Gives tokens fuel r (parseTypeParams m fuel c) (∀ p ∈ ·, p.constraint.Parsed φ) :=
  (stays_expect hc).gives fun _ hc => (gives_parseParamList hφ hc).bind fun _ _ hparams hc =>
    (stays_expect hc).gives fun _ hc => .ok (parsed_shareConstraints hparams) hc (by omega)

theorem gives_parseTypeSpec (hc : c.Fits tokens fuel r) :
    Gives tokens fuel (r + 16) (parseTypeSpec m fuel doc c) fun s => s.doc = doc ∧ s.Inner φ := by
  refine (gives_ident hc).bind fun name c _ hc => .either (gives_parseTypeParams hφ hc)
    (.ok (List.forall_mem_nil _) hc (by omega)) fun params c hparams hc =>
      ((parsesWith hφ fuel).type (r := r + 15) ?_).bind fun _ _ htype hc =>
        .ok ⟨rfl, hparams, htype⟩ hc (by omega)
  split
  · next heat => exact (hc.eat heat).mono (by omega)
  · exact hc

theorem gives_parseTypeSpecs (hc : c.Fits tokens fuel (r + 1)) :
    Gives tokens fuel (r + 17) (parseTypeSpecs m fuel c) (∀ s ∈ ·, s.Parsed φ) := by
  induction fuel generalizing c r with
  | zero => exact absurd hc.enough (by omega)
  | succ fuel ih =>
    replace hc := hc.lower.skipSemicolons
    refine gives_located (fun s => s.doc = m.docBefore c.skipSemicolons.peek.line ∧ s.Inner φ) ?_
      fun s rest c' h hs => ⟨hφ _ ⟨_, hc.suffix, .typeLine h, hs.1⟩, hs.2⟩
    rw [parseTypeSpecs]
    refine Gives.lift ?_
    dsimp only
    split
    · next heat => exact .ok (by rintro _ _ ⟨⟩) (hc.eat heat) (by omega)
    · refine (gives_parseTypeSpec hφ _ hc).bind fun spec c hspec hc =>
        (stays_endItem hc).gives fun _ hc => (ih hc).bind fun _ _ hspecs hc => .ok ?_ hc (by omega)
      rintro _ _ ⟨⟩
      exact ⟨hspec, hspecs⟩

theorem gives_parseTypeDecl (hkey : c.peek.isKeyword "type" = true) (hc : c.Fits tokens fuel r) :
    Gives tokens fuel (r + 16) (parseTypeDecl m fuel (m.docBefore c.peek.line) c.advance)
      (∀ s ∈ ·, s.Parsed φ) := by
  have hc' := hc.pass (Cursor.ne_eof_of_isKeyword hkey)
  unfold parseTypeDecl
  split
  · next heat => exact (gives_parseTypeSpecs hφ (hc'.eat heat)).mono (by omega)
  · exact ((gives_parseTypeSpec hφ _ hc').imp fun s _ h hs =>
        (⟨hφ _ ⟨c, hc.suffix, .type hkey h, hs.1⟩, hs.2⟩ : s.Parsed φ)).bind
      fun _ _ hs hc => .ok (List.forall_mem_singleton.2 hs) hc (by omega)

theorem gives_moreValues (hc : c.Fits tokens fuel (r + 1)) :
    Gives tokens fuel (r + 1) (moreValues m fuel c) (∀ e ∈ ·, e.Parsed φ) := by
  induction fuel generalizing c r with
  | zero => exact absurd hc.enough (by omega)
  | succ fuel ih =>
    replace hc := hc.lower
    rw [moreValues]
    refine Gives.lift ?_
    split
    · exact .ok (List.forall_mem_nil _) hc (by omega)
    · next heat =>
      exact ((parsesWith hφ fuel).binary _ (hc.eat heat)).bind fun _ _ hvalue hc =>
        (ih hc).bind fun _ _ hvalues hc =>
          .ok (List.forall_mem_cons.2 ⟨hvalue, hvalues⟩) hc (by omega)

theorem gives_valuesOf (iota line : Nat) (doc : Option CommentGroup) (names : List String) (ho : ∀ t ∈ o, t.Parsed φ) (hc : c.Fits tokens fuel r) :
    Gives tokens fuel r (match c.eat "=" with
      | some c => do
        let p ← parseExpr m fuel c
        let q ← moreValues m fuel p.2
        let r ← .ok (p.1 :: q.1, q.2)
        .ok (ValueSpec.mk names o r.1 iota doc (m.onLine r.2.lastLine) line, r.2)
      | none => do
        let r ← .ok ([], c)
        .ok (ValueSpec.mk names o r.1 iota doc (m.onLine r.2.lastLine) line, r.2))
      fun s => s.doc = doc ∧ s.Inner φ := by
  split
  · next heat =>
    exact ((parsesWith hφ fuel).binary _ (hc.eat heat)).bind fun _ _ hvalue hc =>
      (gives_moreValues hφ hc).bind fun _ _ hvalues hc =>
        .ok ⟨rfl, ho, List.forall_mem_cons.2 ⟨hvalue, hvalues⟩⟩ hc (by omega)
  · exact .ok ⟨rfl, ho, List.forall_mem_nil _⟩ hc (by omega)

theorem gives_parseValueSpec (doc : Option CommentGroup) (hc : c.Fits tokens fuel r) :
    Gives tokens fuel (r + 16) (parseValueSpec m fuel iota doc c)
      fun s => s.doc = doc ∧ s.Inner φ := by
  refine (gives_parseNames hc).bind fun names c₁ _ hc => ?_
  dsimp only
  split
  · exact ((parsesWith hφ fuel).type hc).bind fun t c ht hc =>
      gives_valuesOf hφ iota _ doc names (o := some t) (by simpa using ht) (hc.mono (by omega))
  · exact gives_valuesOf hφ iota _ doc names (o := none) (by rintro _ ⟨⟩) hc

theorem gives_parseValueSpecs (hc : c.Fits tokens fuel (r + 1)) :
    Gives tokens fuel (r + 17) (parseValueSpecs m fuel iota c) (∀ s ∈ ·, s.Parsed φ) := by
  induction fuel generalizing iota c r with
  | zero => exact absurd hc.enough (by omega)
  | succ fuel ih =>
    replace hc := hc.lower.skipSemicolons
    refine gives_located (fun s => s.doc = m.docBefore c.skipSemicolons.peek.line ∧ s.Inner φ) ?_
      fun s rest c' h hs => ⟨hφ _ ⟨_, hc.suffix, .valueLine h, hs.1⟩, hs.2⟩
    rw [parseValueSpecs]
    refine Gives.lift ?_
    dsimp only
    split
    · next heat => exact .ok (by rintro _ _ ⟨⟩) (hc.eat heat) (by omega)
    refine (gives_parseValueSpec hφ iota _ hc).bind fun spec c hspec hc =>
      (stays_endItem hc).gives fun _ hc => (ih _ hc).bind fun _ _ hspecs hc =>
        .ok ?_ hc (by omega)
    rintro _ _ ⟨⟩
    exact ⟨hspec, hspecs⟩

theorem gives_parseConstDecl (hkey : c.peek.isKeyword "const" = true) (hc : c.Fits tokens fuel r) :
    Gives tokens fuel (r + 16) (parseConstDecl m fuel (m.docBefore c.peek.line) c.advance)
      (∀ s ∈ ·, s.Parsed φ) := by
  have hc' := hc.pass (Cursor.ne_eof_of_isKeyword hkey)
  unfold parseConstDecl
  split
  · next heat => exact (gives_parseValueSpecs hφ 0 (hc'.eat heat)).mono (by omega)
  · exact ((gives_parseValueSpec hφ 0 _ hc').imp fun s _ h hs =>
        (⟨hφ _ ⟨c, hc.suffix, .value hkey h, hs.1⟩, hs.2⟩ : s.Parsed φ)).bind
      fun _ _ hs hc => .ok (List.forall_mem_singleton.2 hs) hc (by omega)

theorem gives_parseBody (start depth : Nat) (fresh : Bool) (hc : c.Fits tokens fuel (r + 1)) :
    Gives tokens fuel (r + 17) (parseBody m start fuel depth fresh c) (∀ s ∈ ·, s.Parsed φ) := by
  induction fuel generalizing depth fresh c r with
  | zero => exact absurd hc.enough (by omega)
  | succ fuel ih =>
    replace hc := hc.lower
    rw [parseBody]
    refine Gives.lift ?_
    dsimp only
    split
    · exact ends_error (by simp)
    · next heof =>
      have hc' := hc.pass heof
      split
      · exact (ih _ _ hc').mono (by omega)
      split
      · next hkey =>
        simp only [Bool.and_eq_true] at hkey
        exact (gives_parseTypeDecl hφ hkey.1.1 hc).bind fun _ _ hspecs hc =>
          (ih _ _ hc).bind fun _ _ hmore hc =>
            .ok (List.forall_mem_append.2 ⟨hspecs, hmore⟩) hc (by omega)
      · split
        · exact (ih _ _ hc').mono (by omega)
        · split
          · split
            · split
              · exact .ok (List.forall_mem_nil _) hc' (by omega)
              · exact ends_error (by simp)
            · exact (ih _ _ hc').mono (by omega)
          · exact (ih _ _ hc').mono (by omega)

theorem gives_parseFuncDecl (line : Nat) (hc : c.Fits tokens fuel r) :
    Gives tokens fuel (r + 16) (parseFuncDecl m fuel doc line c)
      fun d => d.doc = doc ∧ ∀ s ∈ d.localTypes, s.Parsed φ := by
  refine (stays_skipIfAt _ hc).gives fun c₁ hc => (gives_ident hc).bind fun name c₂ _ hc =>
    (stays_skipIfAt _ hc).gives fun c₃ hc => ?_
  have hbody : ∀ c' : Cursor, c'.Fits tokens fuel (r + 16) →
      Gives tokens fuel (r + 16) (if c'.atPunct "\x7b" then do
          let p ← parseBody m c'.peek.line fuel 0 true c'.advance
          .ok (FuncDecl.mk name (c.atPunct "(") doc p.1 line, p.2)
        else do
          let p ← .ok ([], c')
          .ok (FuncDecl.mk name (c.atPunct "(") doc p.1 line, p.2))
        fun d => d.doc = doc ∧ ∀ s ∈ d.localTypes, s.Parsed φ := by
    intro c hc
    split
    · next hbrace =>
      exact (gives_parseBody hφ _ 0 true (hc.pass (Cursor.ne_eof_of_atPunct hbrace))).bind
        fun _ _ htypes hc => .ok ⟨rfl, htypes⟩ hc (by omega)
    · exact .ok ⟨rfl, List.forall_mem_nil _⟩ hc (by omega)
  dsimp only
  split
  · refine (stays_skipBalanced hc).gives fun c₄ hc => ?_
    split
    · exact (stays_skipBalanced hc).gives fun _ hc => hbody _ (hc.mono (by omega))
    · split
      · exact ((parsesWith hφ fuel).type hc).bind fun _ _ _ hc => hbody _ (hc.mono (by omega))
      · exact hbody _ (hc.mono (by omega))
  · exact ends_fail

theorem gives_parseDecl (hkind : c.peek.kind = .keyword) (hc : c.Fits tokens fuel r) :
    Gives tokens fuel (r + 16) (parseDecl m fuel c.peek c.advance)
      fun part => ∀ d ∈ part.decls, d.Parsed φ := by
  have hkeyword : ∀ k, (c.peek.text == k) = true → c.peek.isKeyword k = true := by
    intro k hk
    rw [Token.isKeyword, hkind, hk]
    rfl
  have hc' := hc.pass (by simp [hkind])
  unfold parseDecl
  dsimp only
  split
  · exact (gives_parseImportDecl hc').bind fun _ _ _ hc => .ok (List.forall_mem_nil _) hc (by omega)
  split
  · next htext =>
    exact (gives_parseTypeDecl hφ (hkeyword _ htext) hc).bind fun _ _ hspecs hc =>
      .ok (List.forall_mem_map.2 hspecs) hc (by omega)
  · split
    · next htext =>
      exact (gives_parseConstDecl hφ (hkeyword _ htext) hc).bind fun _ _ hspecs hc =>
        .ok (List.forall_mem_singleton.2 hspecs) hc (by omega)
    · split
      · exact (stays_skipVarDecl hc').gives fun _ hc => .ok (List.forall_mem_nil _) hc (by omega)
      · split
        · next htext =>
          exact ((gives_parseFuncDecl hφ _ _ hc').imp fun d _ h hd =>
              (⟨hφ _ ⟨c, hc.suffix, .func (hkeyword _ htext) h, hd.1⟩, hd.2⟩ :
                (Decl.func d).Parsed φ)).bind
            fun _ _ hd hc => .ok (List.forall_mem_singleton.2 hd) hc (by omega)
        · exact ends_fail

/-- **Declarations are read without running out of fuel.** -/
theorem ends_parseDecls (hc : c.Fits tokens fuel (r + 1)) :
    Ends (parseDecls m fuel c) fun part => ∀ d ∈ part.decls, d.Parsed φ := by
  induction fuel generalizing c r with
  | zero => exact absurd hc.enough (by omega)
  | succ fuel ih =>
    replace hc := hc.lower.skipSemicolons
    rw [parseDecls]
    dsimp only
    split
    · exact ends_ok (List.forall_mem_nil _)
    split
    · exact ends_fail
    · next hkind =>
      refine Ends.bind (gives_parseDecl hφ (Decidable.not_not.1 hkind) hc) fun p hp => ?_
      refine Ends.bind (ih hp.2) fun more hmore => ?_
      exact ends_ok (List.forall_mem_append.2 ⟨hp.1, hmore⟩)

end Declarations

/-! ### Whole texts -/

theorem Cursor.fits_start (tokens : List Token) :
    Cursor.Fits tokens (parserFuel tokens.length) 16 ⟨tokens, 0⟩ :=
  ⟨⟨[], rfl, List.forall_mem_nil _⟩, Nat.le_refl _⟩

/-- **All items of a file are located** between the tokens of its text. -/
theorem parsed_fileOfText {source : String} {f : File} (h : fileOfText source = .ok f) :
    ∃ tokens comments, lex source = .ok (tokens, comments) ∧
      f.comments = (groupComments comments).map (·.group) ∧
      ∀ φ : Item → Prop, (∀ item, Located (groupComments comments) tokens item → φ item) →
        ∀ d ∈ f.decls, d.Parsed φ := by
  obtain ⟨⟨c, m, fuel⟩, hopen, h⟩ := bind_eq_ok_iff.1 h
  obtain ⟨⟨tokens, comments⟩, hlex, hopen⟩ := bind_eq_ok_iff.1 hopen
  cases hopen
  refine ⟨tokens, comments, hlex, ?_⟩
  dsimp only at h
  split at h
  · cases h
  · next hkey =>
    obtain ⟨⟨name, c⟩, hname, h⟩ := bind_eq_ok_iff.1 h
    obtain ⟨part, hpart, h⟩ := bind_eq_ok_iff.1 h
    cases h
    have hc := (Cursor.fits_start tokens).skipSemicolons.pass
      (Cursor.ne_eof_of_isKeyword (by simpa using hkey))
    exact ⟨rfl, fun φ hφ => (ends_parseDecls hφ ((gives_ident hc).2 _ hname).2).2 part hpart⟩

end GoApiDoc.Go
