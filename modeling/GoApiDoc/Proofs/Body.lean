/-
The bodies of functions are passed over.

A body is read token by token, with the bracket depth and whether a statement can begin.  As long as
its brackets, of whichever kind, are balanced and no type is declared among its own statements, it
ends at the brace that closes it, whatever it consists of.  So a file goes on behind a function as
if the body were empty.

* `Go.IsBody` — balanced tokens without a type declared among the statements;
* `Go.parseDecls_body_irrel` — **the declarations behind a function do not depend on its body**.
-/

import Mathlib
import GoApiDoc.Proofs.Outcome

set_option autoImplicit false

namespace GoApiDoc.Go

variable {m : CommentMap} {u v w : List Token} {t close : Token} {start fuel depth line : Nat}
  {fresh : Bool}

/-- What the token adds to the bracket depth. -/
def Token.nesting (t : Token) : Int :=
  if t.isOpening then 1 else if t.isClosing then -1 else 0

/-- The bracket depth behind the tokens. -/
def nesting (ts : List Token) : Int := (ts.map Token.nesting).sum

/-- A statement can begin behind the tokens: there are none, or the last one is a semicolon. -/
def endStatement (ts : List Token) : Bool := ts.getLast?.all (·.kind == .semicolon)

/-- The tokens between the braces of a body: brackets are closed only when one is open, all of them
are closed in the end, and none of the statements of the body itself begins with `type`. -/
structure IsBody (w : List Token) : Prop where
  noEnd : ∀ t ∈ w, t.kind ≠ .eof
  nonneg : ∀ i ≤ w.length, 0 ≤ nesting (w.take i)
  closed : nesting w = 0
  noType : ∀ i < w.length, nesting (w.take i) = 0 → endStatement (w.take i) = true →
    (w.drop i).head?.all (!·.isKeyword "type") = true

/-- What is known behind the tokens `u` of a body: their depth, and that a type declaration would be
read only where a statement of the body can begin. -/
structure Scanned (u : List Token) (depth : Nat) (fresh : Bool) : Prop where
  depth_eq : nesting u = depth
  endStatement : depth = 0 → fresh = true → endStatement u = true

theorem nesting_append_singleton : nesting (u ++ [t]) = nesting u + t.nesting := by
  simp [nesting]

/-- A body is passed over token by token. -/
theorem parseBody_step (hw : IsBody (u ++ t :: v)) (hu : Scanned u depth fresh)
    (m : CommentMap) (start fuel line : Nat) (rest : List Token) :
    ∃ depth' fresh', Scanned (u ++ [t]) depth' fresh' ∧
      parseBody m start (fuel + 1) depth fresh ⟨t :: rest, line⟩ =
        parseBody m start fuel depth' fresh' ⟨rest, Cursor.passed line t⟩ := by
  have hend : t.kind ≠ .eof := hw.noEnd t (by simp)
  have hpeek : (⟨t :: rest, line⟩ : Cursor).peek = t := rfl
  have hadvance : (⟨t :: rest, line⟩ : Cursor).advance = ⟨rest, Cursor.passed line t⟩ := by
    simp [Cursor.advance, hend]
  have hlast : endStatement (u ++ [t]) = (t.kind == .semicolon) := by simp [endStatement]
  have hnonneg : 0 ≤ nesting (u ++ [t]) := by
    simpa [List.take_length_add_append] using hw.nonneg (u.length + 1) (by simp)
  rw [nesting_append_singleton, hu.depth_eq] at hnonneg
  rw [parseBody, hpeek, hadvance, if_neg hend]
  split
  · next hkind =>
    refine ⟨depth, true, ⟨?_, fun _ _ => by simp [hlast, hkind]⟩, rfl⟩
    simp [nesting_append_singleton, hu.depth_eq, Token.nesting, Token.isOpening, Token.isClosing,
      hkind]
  · split
    · next htype =>
      -- such a type would be declared by a statement of the body
      simp only [Bool.and_eq_true, beq_iff_eq] at htype
      obtain ⟨⟨hkey, rfl⟩, hfresh⟩ := htype
      have hno := hw.noType u.length (by simp) (by rw [List.take_left]; exact hu.depth_eq)
        (by rw [List.take_left]; exact hu.endStatement rfl hfresh)
      simp [hkey] at hno
    · split
      · next hopen =>
        refine ⟨depth + 1, _, ⟨?_, by simp⟩, rfl⟩
        simp [nesting_append_singleton, hu.depth_eq, Token.nesting, hopen]
      · next hopen =>
        split
        · next hclose =>
          have hminus : t.nesting = -1 := by simp [Token.nesting, hopen, hclose]
          rw [if_neg (by omega)]
          refine ⟨depth - 1, false, ⟨?_, by simp⟩, rfl⟩
          rw [nesting_append_singleton, hu.depth_eq, hminus]
          omega
        · next hclose =>
          refine ⟨depth, false, ⟨?_, by simp⟩, rfl⟩
          simp [nesting_append_singleton, hu.depth_eq, Token.nesting, hopen, hclose]

/-- What is left of a body is passed over up to the brace that closes it. -/
theorem parseBody_of_scanned (hclose : close.isPunct "\x7d" = true) (hw : IsBody (u ++ v))
    (hu : Scanned u depth fresh) (hfuel : v.length < fuel) (cont : List Token) :
    parseBody m start fuel depth fresh ⟨v ++ close :: cont, line⟩ =
      .ok ([], ⟨cont, close.line⟩) := by
  induction v generalizing u depth fresh fuel line with
  | nil =>
    obtain ⟨fuel, rfl⟩ := Nat.exists_eq_add_one_of_ne_zero (Nat.ne_zero_of_lt hfuel)
    obtain rfl : depth = 0 := by
      have hdepth := hw.closed
      rw [List.append_nil, hu.depth_eq] at hdepth
      omega
    simp only [Token.isPunct, Bool.and_eq_true, beq_iff_eq] at hclose
    simp [parseBody, Cursor.peek, Cursor.advance, Cursor.passed, Token.isKeyword, Token.isOpening,
      Token.isClosing, hclose]
  | cons t v ih =>
    obtain ⟨fuel, rfl⟩ := Nat.exists_eq_add_one_of_ne_zero (Nat.ne_zero_of_lt hfuel)
    obtain ⟨depth', fresh', hu', hstep⟩ :=
      parseBody_step hw hu m start fuel line (v ++ close :: cont)
    rw [List.cons_append, hstep]
    exact ih (by simpa using hw) hu' (by simpa using hfuel)

/-- A body is passed over up to the brace that closes it, and declares no type. -/
theorem parseBody_of_isBody (hclose : close.isPunct "\x7d" = true) (hw : IsBody w)
    (hfuel : w.length < fuel) (cont : List Token) :
    parseBody m start fuel 0 true ⟨w ++ close :: cont, line⟩ = .ok ([], ⟨cont, close.line⟩) :=
  parseBody_of_scanned (u := []) hclose hw ⟨rfl, fun _ _ => rfl⟩ hfuel cont

/-! ### Functions -/

/-- Passes the parameters of a function. -/
def passParams (c : Cursor) : Reading Cursor :=
  if c.atPunct "(" then c.skipBalanced else c.fail .expectedParameters

/-- Passes the results of a function, or its one result, if there are any. -/
def passResults (m : CommentMap) (fuel : Nat) (c : Cursor) : Reading Cursor :=
  if c.atPunct "(" then c.skipBalanced
  else if !c.atPunct "\x7b" && c.startsType then (·.2) <$> parseType m fuel c
  else .ok c

/-- The head of a function declaration behind its keyword, with the name in it. -/
def parseHead (m : CommentMap) (fuel : Nat) (c : Cursor) : Reading (String × Cursor) := do
  let c ← skipIfAt "(" c
  let (name, c) ← c.ident
  let c ← skipIfAt "[" c
  let c ← passParams c
  let c ← passResults m fuel c
  .ok (name, c)

/-- Behind the head of a function comes its body. -/
theorem parseFuncDecl_of_head {doc : Option CommentGroup} {name : String} {c c' : Cursor}
    (h : parseHead m fuel c = .ok (name, c')) (hbrace : c'.atPunct "\x7b" = true) :
    parseFuncDecl m fuel doc line c =
      (parseBody m c'.peek.line fuel 0 true c'.advance).map
        fun p => (⟨name, c.atPunct "(", doc, p.1, line⟩, p.2) := by
  obtain ⟨c₁, h₁, h⟩ := bind_eq_ok_iff.1 h
  obtain ⟨⟨name, c₂⟩, h₂, h⟩ := bind_eq_ok_iff.1 h
  obtain ⟨c₃, h₃, h⟩ := bind_eq_ok_iff.1 h
  obtain ⟨c₄, h₄, h⟩ := bind_eq_ok_iff.1 h
  obtain ⟨c₅, h₅, h⟩ := bind_eq_ok_iff.1 h
  cases h
  simp only [parseFuncDecl, h₁, h₂, h₃, bind, Except.bind]
  unfold passParams at h₄
  split at h₄
  · next hparams =>
    simp only [hparams, h₄, if_true]
    unfold passResults at h₅
    split at h₅
    · next hresults => simp only [hresults, h₅, hbrace, if_true, Except.map]
    · next hresults =>
      rw [if_neg hresults]
      split at h₅
      · next htype =>
        obtain ⟨⟨t, c⟩, ht, rfl⟩ := map_eq_ok_iff.1 h₅
        simp only [htype, ht, hbrace, if_true, Except.map]
      · next htype =>
        cases h₅
        rw [if_neg htype]
        simp only [hbrace, if_true, Except.map]
  · cases h₄

/-- **The body of a function is opaque.**  It is passed over up to the brace that closes it, and
declares no type; so if the head of a function ends before it, the function is read without any type
of its own, and the file goes on behind the body, whatever stands in it. -/
theorem parseDecls_body_irrel (hw : IsBody w) {brace : Token} (hbrace : brace.isPunct "\x7b" = true)
    (hclose : close.isPunct "\x7d" = true) (hfuel : w.length < fuel) (m : CommentMap)
    (cont : List Token) :
    (∀ start line, parseBody m start fuel 0 true ⟨w ++ close :: cont, line⟩ =
      .ok ([], ⟨cont, close.line⟩)) ∧
    ∀ (c : Cursor) name line, c.skipSemicolons.peek.isKeyword "func" = true →
      parseHead m fuel c.skipSemicolons.advance =
        .ok (name, ⟨brace :: (w ++ close :: cont), line⟩) →
      parseDecls m (fuel + 1) c = (parseDecls m fuel ⟨cont, close.line⟩).map fun more =>
        let line := c.skipSemicolons.peek.line
        ⟨more.imports, .func ⟨name, c.skipSemicolons.advance.atPunct "(", m.docBefore line, [], line⟩
          :: more.decls⟩ := by
  refine ⟨fun start line => parseBody_of_isBody hclose hw hfuel cont, ?_⟩
  intro c name line hkey hhead
  obtain ⟨hkind, htext⟩ : c.skipSemicolons.peek.kind = .keyword ∧
      c.skipSemicolons.peek.text = "func" := by
    simpa [Token.isKeyword] using hkey
  have hpass : (⟨brace :: (w ++ close :: cont), line⟩ : Cursor).advance =
      ⟨w ++ close :: cont, brace.line⟩ := by
    simp only [Token.isPunct, Bool.and_eq_true, beq_iff_eq] at hbrace
    simp [Cursor.advance, Cursor.passed, hbrace.1]
  have hfunc : ∀ doc start, parseFuncDecl m fuel doc start c.skipSemicolons.advance =
      .ok (⟨name, c.skipSemicolons.advance.atPunct "(", doc, [], start⟩, ⟨cont, close.line⟩) := by
    intro doc start
    rw [parseFuncDecl_of_head hhead hbrace, hpass, parseBody_of_isBody hclose hw hfuel cont]
    rfl
  rw [parseDecls]
  simp only [hkind, htext, parseDecl, hfunc, String.reduceBEq, Bool.false_eq_true, reduceCtorEq,
    ne_eq, not_true_eq_false, if_false, if_true, bind, Except.bind]
  cases parseDecls m fuel ⟨cont, close.line⟩ <;> rfl

/-- The body holds the word `type` twice: within braces, and at its own level behind them. -/
theorem parseDecls_body_irrel_nested :
    parseDecls [] 30 ⟨[⟨.keyword, "func", 1⟩, ⟨.ident, "f", 1⟩, ⟨.punct, "(", 1⟩, ⟨.punct, ")", 1⟩,
        ⟨.punct, "\x7b", 1⟩] ++ ([⟨.punct, "\x7b", 2⟩, ⟨.keyword, "type", 2⟩, ⟨.punct, "\x7d", 2⟩,
        ⟨.keyword, "type", 2⟩, ⟨.semicolon, "\n", 2⟩] ++ [⟨.punct, "\x7d", 3⟩, ⟨.eof, "", 3⟩]), 0⟩ =
      .ok ⟨[], [.func ⟨"f", false, none, [], 1⟩]⟩ :=
  (@parseDecls_body_irrel _ ⟨.punct, "\x7d", 3⟩ 29 ⟨by decide, by decide, by decide, by decide⟩
    ⟨.punct, "\x7b", 1⟩ (by decide) (by decide) (by decide) [] [⟨.eof, "", 3⟩]).2 _ _ _ rfl rfl

end GoApiDoc.Go
