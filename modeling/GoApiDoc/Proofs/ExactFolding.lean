/-
Integer operators on constants are exact up to the width of their type.

An operator on integers has a mathematical result: quotients are cut off toward zero, a left shift
multiplies by a power of two and a right shift divides by it and rounds down, and the bitwise
operators act on the endless two's complement.  What folding gives is that result itself where the
type has no width, and otherwise the one integer of the type that is congruent to it.

* `operators_exact` — **folded integers are exact up to the width**, and small results are folded.
-/

import Mathlib
import GoApiDoc.Constant.Fold

set_option autoImplicit false

namespace GoApiDoc.Constant

open Go (UnaryOp BinaryOp)

variable {n places : Nat} {op : BinaryOp}

/-! ### Reduction to a width -/

namespace IntKind

/-- The integer is one of the kind; those without a width have 128 bits. -/
def Holds : IntKind → Int → Prop
  | exact, i => minInt128 ≤ i ∧ i ≤ maxInt128
  | signed bits, i => -(2 ^ (bits - 1)) ≤ i ∧ i < 2 ^ (bits - 1)
  | unsigned bits, i => 0 ≤ i ∧ i < 2 ^ bits

instance (kind : IntKind) (i : Int) : Decidable (kind.Holds i) :=
  match kind with
  | exact => inferInstanceAs (Decidable (_ ∧ _))
  | signed _ => inferInstanceAs (Decidable (_ ∧ _))
  | unsigned _ => inferInstanceAs (Decidable (_ ∧ _))

/-- The second integer is one of the kind and agrees with the first up to the width. -/
def Reduced (kind : IntKind) (z j : Int) : Prop :=
  kind.Holds j ∧ match kind with
    | exact => j = z
    | signed bits | unsigned bits => j ≡ z [ZMOD 2 ^ bits]

/-- The kind is that of a machine integer, or has no width. -/
def IsMachine : IntKind → Prop
  | exact => True
  | signed bits | unsigned bits => 0 < bits ∧ bits ≤ 64

variable {kind : IntKind} {i j z : Int}

theorem holds_exact_iff : exact.Holds i ↔ -(2 ^ 127) ≤ i ∧ i < 2 ^ 127 := by
  have hmin : minInt128 = -(2 ^ 127) := rfl
  have hmax : maxInt128 = 2 ^ 127 - 1 := rfl
  simp only [Holds, hmin, hmax]
  omega

theorem Holds.reduced (h : kind.Holds i) : kind.Reduced i i := by
  refine ⟨h, ?_⟩
  cases kind with
  | exact => rfl
  | signed bits | unsigned bits => exact .refl i

theorem reduced_wrap (hkind : kind.IsMachine) (hz : kind = exact → exact.Holds z) :
    kind.Reduced z (kind.wrap z) := by
  cases kind with
  | exact => exact (hz rfl).reduced
  | signed bits =>
    obtain ⟨n, rfl⟩ : ∃ n, bits = n + 1 := ⟨bits - 1, by have := hkind.1; omega⟩
    have hpow : (2 : Int) ^ (n + 1) = 2 * 2 ^ n := by ring
    have hpos : 0 < 2 ^ (n + 1) := by positivity
    have hle := Int.le_bmod hpos (x := z)
    have hlt := Int.bmod_lt hpos (x := z)
    push_cast [hpow] at hle hlt
    refine ⟨⟨?_, ?_⟩, ?_⟩
    · change -(2 ^ n) ≤ z.bmod (2 ^ (n + 1))
      omega
    · change z.bmod (2 ^ (n + 1)) < 2 ^ n
      omega
    · change z.bmod (2 ^ (n + 1)) % 2 ^ (n + 1) = z % 2 ^ (n + 1)
      have hcongr : z.bmod (2 ^ (n + 1)) % (2 ^ (n + 1) : Nat) = z % (2 ^ (n + 1) : Nat) :=
        Int.bmod_emod
      push_cast at hcongr
      exact hcongr
  | unsigned bits =>
    have hpos : (0 : Int) < 2 ^ bits := by positivity
    exact ⟨⟨Int.emod_nonneg z hpos.ne', Int.emod_lt_of_pos z hpos⟩, Int.mod_modEq z (2 ^ bits)⟩

theorem Reduced.unique (hkind : kind.IsMachine) {j' : Int} (h : kind.Reduced z j)
    (h' : kind.Reduced z j') : j' = j := by
  cases kind with
  | exact => exact h'.2.trans h.2.symm
  | signed bits =>
    obtain ⟨n, rfl⟩ : ∃ n, bits = n + 1 := ⟨bits - 1, by have := hkind.1; omega⟩
    have hpow : (2 : Int) ^ (n + 1) = 2 * 2 ^ n := by ring
    have hdvd : (2 : Int) ^ (n + 1) ∣ j' - j := (h.2.trans h'.2.symm).dvd
    have hj : -(2 ^ n) ≤ j ∧ j < 2 ^ n := h.1
    have hj' : -(2 ^ n) ≤ j' ∧ j' < 2 ^ n := h'.1
    have habs : |j' - j| < 2 ^ (n + 1) := by
      rw [abs_lt, hpow]
      omega
    have := Int.eq_zero_of_abs_lt_dvd hdvd habs
    omega
  | unsigned bits =>
    have hdvd : (2 : Int) ^ bits ∣ j' - j := (h.2.trans h'.2.symm).dvd
    have hj : 0 ≤ j ∧ j < 2 ^ bits := h.1
    have hj' : 0 ≤ j' ∧ j' < 2 ^ bits := h'.1
    have habs : |j' - j| < 2 ^ bits := by
      rw [abs_lt]
      omega
    have := Int.eq_zero_of_abs_lt_dvd hdvd habs
    omega

theorem Reduced.iff_eq (hkind : kind.IsMachine) (h : kind.Reduced z j) (j' : Int) :
    kind.Reduced z j' ↔ j' = j :=
  ⟨h.unique hkind, fun hj => hj ▸ h⟩

/-- The integers of every kind have 128 bits. -/
theorem Holds.exact (hkind : kind.IsMachine) (h : kind.Holds i) : exact.Holds i := by
  rw [holds_exact_iff]
  cases kind with
  | exact => exact holds_exact_iff.1 h
  | signed bits =>
    have hpow : (2 : Int) ^ (bits - 1) ≤ 2 ^ 127 :=
      pow_le_pow_right₀ (by norm_num) (by have := hkind.2; omega)
    have hi : -(2 ^ (bits - 1)) ≤ i ∧ i < 2 ^ (bits - 1) := h
    omega
  | unsigned bits =>
    have hpow : (2 : Int) ^ bits ≤ 2 ^ 127 :=
      pow_le_pow_right₀ (by norm_num) (by have := hkind.2; omega)
    have hi : 0 ≤ i ∧ i < 2 ^ bits := h
    omega

/-- What lies between an integer of a kind and zero is of the kind, and so is what lies between a
negative one and minus one. -/
theorem Holds.between (h : kind.Holds i) (hup : 0 ≤ i → 0 ≤ j ∧ j ≤ i)
    (hdown : i < 0 → i ≤ j ∧ j ≤ 0) : kind.Holds j := by
  have hj : (i ≤ j ∧ j ≤ 0) ∨ (0 ≤ j ∧ j ≤ i) := by omega
  cases kind with
  | exact =>
    rw [holds_exact_iff] at h ⊢
    omega
  | signed bits =>
    have hi : -(2 ^ (bits - 1)) ≤ i ∧ i < 2 ^ (bits - 1) := h
    have hpos : (0 : Int) < 2 ^ (bits - 1) := by positivity
    refine ⟨?_, ?_⟩
    · omega
    · omega
  | unsigned bits =>
    have hi : 0 ≤ i ∧ i < 2 ^ bits := h
    refine ⟨?_, ?_⟩
    · omega
    · omega

end IntKind

open IntKind

theorem isMachine_ofBuiltin (name : String) : (ConstClass.ofBuiltin name).intKind.IsMachine := by
  unfold ConstClass.ofBuiltin
  split
  all_goals simp [ConstClass.intKind, IsMachine]

/-! ### Two's complement -/

theorem eq_of_testBit_eq {a b : Int} (h : ∀ k, a.testBit k = b.testBit k) : a = b := by
  -- a number and the complement of another differ in a bit beyond both
  have hmixed (m n : Nat) (hk : ∀ k, m.testBit k = !n.testBit k) : False := by
    have hm : m < 2 ^ (m + n) := by
      exact Nat.lt_two_pow_self.trans_le (Nat.pow_le_pow_right (by decide) (by omega))
    have hn : n < 2 ^ (m + n) := by
      exact Nat.lt_two_pow_self.trans_le (Nat.pow_le_pow_right (by decide) (by omega))
    have := hk (m + n)
    rw [Nat.testBit_lt_two_pow hm, Nat.testBit_lt_two_pow hn] at this
    cases this
  cases a with
  | ofNat m =>
    cases b with
    | ofNat n => exact congrArg Int.ofNat (Nat.eq_of_testBit_eq h)
    | negSucc n => exact (hmixed m n h).elim
  | negSucc m =>
    cases b with
    | ofNat n => exact (hmixed n m fun k => (h k).symm).elim
    | negSucc n =>
      have hmn : m = n := Nat.eq_of_testBit_eq fun k => Bool.not_inj (h k)
      rw [hmn]

/-- A bit of a number in two's complement; beyond the width it is the sign. -/
theorem testBit_toInt (x : BitVec n) (k : Nat) :
    x.toInt.testBit k = if k < n then x.getLsbD k else x.msb := by
  cases hmsb : x.msb with
  | false =>
    have hx : x.toInt = (x.toNat : Int) := BitVec.toInt_eq_toNat_of_msb hmsb
    rw [hx]
    change x.toNat.testBit k = _
    rw [BitVec.testBit_toNat]
    split
    · rfl
    · next hk => exact BitVec.getLsbD_of_ge x k (by omega)
  | true =>
    have hx : x.toInt = Int.negSucc (~~~x).toNat := by
      have hlt := x.isLt
      rw [BitVec.toInt_eq_msb_cond, if_pos hmsb, BitVec.toNat_not, Int.negSucc_eq]
      omega
    rw [hx]
    change (!(~~~x).toNat.testBit k) = _
    rw [BitVec.testBit_toNat, BitVec.getLsbD_not]
    split
    · next hk => simp [hk]
    · next hk => simp [hk]

/-- An operation on the bits of a width, in which the sign takes part as a bit, is the operation on the
endless two's complement. -/
theorem toInt_bitwise (g : Bool → Bool → Bool) {x y z : BitVec n} {c : Int}
    (hbit : ∀ k < n, z.getLsbD k = g (x.getLsbD k) (y.getLsbD k)) (hsign : z.msb = g x.msb y.msb)
    (hc : ∀ k, c.testBit k = g (x.toInt.testBit k) (y.toInt.testBit k)) : z.toInt = c := by
  apply eq_of_testBit_eq
  intro k
  rw [hc, testBit_toInt, testBit_toInt, testBit_toInt]
  split
  · next hk => exact hbit k hk
  · exact hsign

variable {a b i j z : Int}

theorem holds_onBits (f : BitVec 128 → BitVec 128 → BitVec 128) (a b : Int) :
    IntKind.exact.Holds (onBits f a b) := by
  rw [holds_exact_iff]
  exact ⟨BitVec.le_toInt _, BitVec.toInt_lt⟩

/-- An operation on 128 bits, given by what it does on bit vectors, on integers of 128 bits. -/
theorem onBits_eq {f : BitVec 128 → BitVec 128 → BitVec 128} {g : Int → Int → Int}
    (hf : ∀ x y, (f x y).toInt = g x.toInt y.toInt) (ha : IntKind.exact.Holds a)
    (hb : IntKind.exact.Holds b) : onBits f a b = g a b := by
  rw [holds_exact_iff] at ha hb
  have hself {i : Int} (hi : -(2 ^ 127) ≤ i ∧ i < 2 ^ 127) : (BitVec.ofInt 128 i).toInt = i := by
    rw [BitVec.toInt_ofInt]
    exact Int.bmod_eq_of_le_mul_two (by omega) (by omega)
  rw [onBits, hf, hself ha, hself hb]

theorem xor_ones {bits : Nat} (hi : 0 ≤ i ∧ i < 2 ^ bits) :
    i.xor (2 ^ bits - 1) = 2 ^ bits - 1 - i := by
  obtain ⟨m, rfl⟩ := Int.eq_ofNat_of_zero_le hi.1
  have hm : m < 2 ^ bits := by exact_mod_cast hi.2
  have hones : (2 : Int) ^ bits - 1 = ((2 ^ bits - 1 : Nat) : Int) := by
    rw [Nat.cast_sub Nat.one_le_two_pow]
    push_cast
    rfl
  have hxor : m ^^^ (2 ^ bits - 1) = 2 ^ bits - (m + 1) := by
    apply Nat.eq_of_testBit_eq
    intro k
    rw [Nat.testBit_xor, Nat.testBit_two_pow_sub_one, Nat.testBit_two_pow_sub_succ hm]
    by_cases hk : k < bits
    · simp [hk]
    · have hpow : m < 2 ^ k := hm.trans_le (Nat.pow_le_pow_right (by decide) (by omega))
      simp [hk, Nat.testBit_lt_two_pow hpow]
  have hval : ((m : Int).xor ((2 ^ bits - 1 : Nat) : Int)) = ((m ^^^ (2 ^ bits - 1) : Nat) : Int) :=
    rfl
  rw [hones, hval, hxor]
  omega

/-! ### Mathematical results -/

/-- The mathematical result of a unary operator. -/
def exactUnary? : UnaryOp → Int → Option Int
  | .plus, i => some i
  | .neg, i => some (-i)
  | .bitNot, i => some (-i - 1)
  | .not, _ => none

/-- The mathematical result of a binary operator, if the operator has one: nothing is divided by
zero or shifted by fewer than no places. -/
def exactBinary? (op : BinaryOp) (a b : Int) : Option Int :=
  match op with
  | .add => some (a + b)
  | .sub => some (a - b)
  | .mul => some (a * b)
  | .div => if b = 0 then none else some (a.tdiv b)
  | .rem => if b = 0 then none else some (a.tmod b)
  | .and => some (a.land b)
  | .or => some (a.lor b)
  | .xor => some (a.xor b)
  | .andNot => some (a.ldiff b)
  | .shl => if b < 0 then none else some (a * 2 ^ b.toNat)
  | .shr => if b < 0 then none else some (a.fdiv (2 ^ b.toNat))
  | _ => none

/-! ### Operators -/

theorem fitted?_eq_some : fitted? i = some j ↔ i = j ∧ IntKind.exact.Holds i := by
  unfold fitted?
  split
  · next h => simp [Holds, h]
  · next h => simp [Holds, h]

theorem holds_tmod (ha : IntKind.exact.Holds a) (b : Int) : IntKind.exact.Holds (a.tmod b) := by
  have habs : (a.tmod b).natAbs ≤ a.natAbs := by
    rw [Int.natAbs_tmod]
    exact Nat.mod_le _ _
  refine ha.between (fun hnonneg => ?_) (fun hneg => ?_)
  · have := Int.tmod_nonneg b hnonneg
    omega
  · have : 0 ≤ (-a).tmod b := Int.tmod_nonneg b (by omega)
    rw [Int.neg_tmod] at this
    omega

theorem intOp?_exact (ha : IntKind.exact.Holds a) (hb : IntKind.exact.Holds b)
    (h : intOp? op a b = some z) : exactBinary? op a b = some z ∧ IntKind.exact.Holds z := by
  cases op with
  | add | sub | mul =>
    obtain ⟨rfl, hz⟩ := fitted?_eq_some.1 h
    exact ⟨rfl, hz⟩
  | div =>
    by_cases hzero : b = 0
    · simp [intOp?, hzero] at h
    · rw [intOp?, if_neg hzero] at h
      obtain ⟨rfl, hz⟩ := fitted?_eq_some.1 h
      exact ⟨if_neg hzero, hz⟩
  | rem =>
    rw [intOp?] at h
    split at h
    · cases h
    · next hne =>
      cases h
      exact ⟨if_neg fun hzero => hne (.inl hzero), holds_tmod ha b⟩
  | and =>
    cases h
    refine ⟨congrArg some (onBits_eq (fun x y => ?_) ha hb).symm, holds_onBits _ _ _⟩
    exact toInt_bitwise and (fun k _ => BitVec.getLsbD_and) BitVec.msb_and (Int.testBit_land _ _)
  | or =>
    cases h
    refine ⟨congrArg some (onBits_eq (fun x y => ?_) ha hb).symm, holds_onBits _ _ _⟩
    exact toInt_bitwise or (fun k _ => BitVec.getLsbD_or) BitVec.msb_or (Int.testBit_lor _ _)
  | xor =>
    cases h
    refine ⟨congrArg some (onBits_eq (fun x y => ?_) ha hb).symm, holds_onBits _ _ _⟩
    exact toInt_bitwise xor (fun k _ => BitVec.getLsbD_xor) BitVec.msb_xor (Int.testBit_lxor _ _)
  | andNot =>
    cases h
    refine ⟨congrArg some (onBits_eq (fun x y => ?_) ha hb).symm, holds_onBits _ _ _⟩
    refine toInt_bitwise (fun p q => p && !q) (fun k hk => ?_) ?_ (Int.testBit_ldiff _ _)
    · simp [hk]
    · simp
  | _ => cases h

/-! ### Shifts -/

variable {kind : IntKind} {base count : Int}

/-- The number of bits of an integer without its sign. -/
def bitLength (base : Int) : Nat := if base = 0 then 0 else base.natAbs.log2 + 1

theorem natAbs_mul_two_pow_lt (h : base.natAbs.log2 + 1 + places ≤ n) :
    (base * 2 ^ places).natAbs < 2 ^ n := by
  rw [Int.natAbs_mul, Int.natAbs_pow]
  calc base.natAbs * 2 ^ places
      < 2 ^ (base.natAbs.log2 + 1) * 2 ^ places :=
        Nat.mul_lt_mul_of_pos_right Nat.lt_log2_self (by positivity)
    _ = 2 ^ (base.natAbs.log2 + 1 + places) := (pow_add _ _ _).symm
    _ ≤ 2 ^ n := Nat.pow_le_pow_right (by decide) h

/-- A width of a machine integer divides what is shifted by more places. -/
theorem reduced_zero (hkind : kind.IsMachine) (hwidth : kind ≠ .exact) (hplaces : 64 ≤ places) :
    kind.Reduced (base * 2 ^ places) 0 := by
  have hcongr {bits : Nat} (hbits : bits ≤ 64) : 0 ≡ base * 2 ^ places [ZMOD 2 ^ bits] := by
    refine (Int.modEq_zero_iff_dvd.2 (Dvd.dvd.mul_left ?_ base)).symm
    exact pow_dvd_pow 2 (hbits.trans hplaces)
  cases kind with
  | exact => exact absurd rfl hwidth
  | signed bits =>
    refine ⟨⟨?_, ?_⟩, hcongr hkind.2⟩
    · exact neg_nonpos.2 (by positivity)
    · exact pow_pos (by decide) _
  | unsigned bits => exact ⟨⟨le_rfl, pow_pos (by decide) _⟩, hcongr hkind.2⟩

/-- What a left shift gives: the product, which is small if the kind has no width, or nothing. -/
theorem shiftLeft?_cases (h : shiftLeft? kind base count = some j) :
    (j = kind.wrap (base * 2 ^ count.toNat) ∧
      (kind = .exact → base = 0 ∨ bitLength base + count < 127)) ∨
      kind ≠ .exact ∧ 128 ≤ count ∧ j = 0 := by
  simp only [shiftLeft?] at h
  by_cases hsmall : count < 127 ∧ (base = 0 ∨ bitLength base + count < 127)
  · rw [if_pos (by exact hsmall)] at h
    exact .inl ⟨(Option.some.inj h).symm, fun _ => hsmall.2⟩
  rw [if_neg (by exact hsmall)] at h
  split at h
  · cases h
  · next hwidth =>
    split at h
    · exact .inl ⟨(Option.some.inj h).symm, fun hexact => absurd hexact hwidth⟩
    · next hcount => exact .inr ⟨hwidth, by omega, (Option.some.inj h).symm⟩

/-- **A left shift** multiplies by a power of two, up to the width. -/
theorem shiftLeft?_reduced (hkind : kind.IsMachine) (hcount : 0 ≤ count)
    (h : shiftLeft? kind base count = some j) : kind.Reduced (base * 2 ^ count.toNat) j := by
  obtain ⟨rfl, hsmall⟩ | ⟨hwidth, hlarge, rfl⟩ := shiftLeft?_cases h
  · refine reduced_wrap hkind fun hexact => holds_exact_iff.2 ?_
    have hlt : (base * 2 ^ count.toNat).natAbs < 2 ^ 127 := by
      by_cases hbase : base = 0
      · simp [hbase]
      · have hlength := (hsmall hexact).resolve_left hbase
        rw [bitLength, if_neg hbase] at hlength
        exact natAbs_mul_two_pow_lt (by omega)
    omega
  · exact reduced_zero hkind hwidth (by omega)

/-- **A right shift** divides by a power of two and rounds down: beyond 127 places nothing is left
but the sign. -/
theorem shiftRight_eq (hbase : IntKind.exact.Holds base) (count : Int) :
    shiftRight base count = base.fdiv (2 ^ count.toNat) := by
  have hnonneg (n : Nat) : (0 : Int) ≤ 2 ^ n := by positivity
  rw [Int.fdiv_eq_ediv_of_nonneg _ (hnonneg _)]
  change base / 2 ^ (min count 127).toNat = base / 2 ^ count.toNat
  rcases le_or_gt count 127 with hle | hgt
  · rw [min_eq_left hle]
  rw [min_eq_right hgt.le, show (127 : Int).toNat = 127 from rfl]
  rw [holds_exact_iff] at hbase
  have hpow : (2 : Int) ^ 127 ≤ 2 ^ count.toNat :=
    pow_le_pow_right₀ (by norm_num) (by omega)
  rcases le_or_gt 0 base with hpos | hneg
  · rw [Int.ediv_eq_zero_of_lt hpos hbase.2, Int.ediv_eq_zero_of_lt hpos (hbase.2.trans_le hpow)]
  · have hsign {p : Int} (hp : 2 ^ 127 ≤ p) : base / p = -1 := by
      rw [Int.ediv_eq_iff_of_pos (by omega)]
      omega
    rw [hsign le_rfl, hsign hpow]

theorem holds_shiftRight (h : kind.Holds base) (count : Int) : kind.Holds (shiftRight base count) := by
  have hpos : (0 : Int) < 2 ^ (min count 127).toNat := by positivity
  change kind.Holds (base / 2 ^ (min count 127).toNat)
  refine h.between (fun hnonneg => ⟨Int.ediv_nonneg hnonneg hpos.le, ?_⟩) (fun hneg => ⟨?_, ?_⟩)
  · exact Int.ediv_le_self _ hnonneg
  · rw [Int.le_ediv_iff_mul_le hpos]
    nlinarith
  · exact (Int.ediv_neg_of_neg_of_pos hneg hpos).le

/-! ### Folding -/

variable {r : Registry} {c : ConstClass} {v : ConstValue} {t : ConstType}

/-- The class at the end of one step along the declarations. -/
theorem isMachine_following {o : Option (Go.TypeId × Option String)} {f : Go.TypeId → ConstClass}
    (h : ∀ id, (f id).intKind.IsMachine) :
    (match o with
      | some (next, _) => f next
      | none => ConstClass.other).intKind.IsMachine := by
  split
  · exact h _
  · trivial

theorem isMachine_classOfDeclared (r : Registry) (hops : Nat) (id : Go.TypeId) :
    (r.classOfDeclared hops id).intKind.IsMachine := by
  induction hops generalizing id with
  | zero => trivial
  | succ hops ih =>
    rw [Registry.classOfDeclared]
    split
    · trivial
    dsimp only
    split
    · split
      · exact isMachine_ofBuiltin _
      · exact isMachine_following ih
    · exact isMachine_following ih
    · trivial

/-- **The width of a type** is that of a machine integer. -/
theorem isMachine_classOf (r : Registry) (t : ConstType) : (r.classOf t).intKind.IsMachine := by
  cases t with
  | untyped | foreign text => trivial
  | builtin name => exact isMachine_ofBuiltin name
  | named id => exact isMachine_classOfDeclared r 8 id

theorem unary?_int_reduced {op : UnaryOp} (hkind : c.intKind.IsMachine) (hi : c.intKind.Holds i)
    (h : unary? op c (.int i) = some v) :
    ∃ z j, v = .int j ∧ exactUnary? op i = some z ∧ c.intKind.Reduced z j := by
  cases op with
  | plus =>
    cases h
    exact ⟨i, i, rfl, rfl, hi.reduced⟩
  | neg =>
    obtain ⟨j, hj, rfl⟩ := Option.map_eq_some_iff.1 h
    obtain ⟨rfl, hz⟩ := fitted?_eq_some.1 hj
    exact ⟨-i, _, rfl, rfl, reduced_wrap hkind fun _ => hz⟩
  | bitNot =>
    have hnot : IntKind.exact.Holds (-i - 1) := by
      have := holds_exact_iff.1 (hi.exact hkind)
      rw [holds_exact_iff]
      omega
    simp only [unary?] at h
    split at h
    · next bits hbits =>
      rw [hbits] at hi hkind ⊢
      cases h
      have hones : IntKind.exact.Holds (.pow 2 bits - 1) := by
        have hpow : (2 : Int) ^ bits ≤ 2 ^ 64 := pow_le_pow_right₀ (by norm_num) hkind.2
        have hpos : (0 : Int) < 2 ^ bits := by positivity
        rw [holds_exact_iff]
        change -(2 ^ 127) ≤ (2 : Int) ^ bits - 1 ∧ (2 : Int) ^ bits - 1 < 2 ^ 127
        omega
      have hvalue : onBits (· ^^^ ·) i (.pow 2 bits - 1) = 2 ^ bits - 1 - i := by
        rw [onBits_eq (fun x y => toInt_bitwise xor (fun k _ => BitVec.getLsbD_xor)
          BitVec.msb_xor (Int.testBit_lxor _ _)) (hi.exact hkind) hones]
        exact xor_ones hi
      refine ⟨-i - 1, _, rfl, rfl, ?_⟩
      rw [hvalue]
      refine ⟨⟨?_, ?_⟩, ?_⟩
      · have := hi.2
        omega
      · have := hi.1
        omega
      · refine (Int.modEq_iff_dvd.2 ⟨-1, ?_⟩)
        ring
    · cases h
      exact ⟨-i - 1, _, rfl, rfl, reduced_wrap hkind fun _ => hnot⟩
  | not => cases h

theorem arithmetic?_int_reduced (hkind : c.intKind.IsMachine)
    (ha : IntKind.exact.Holds a) (hb : IntKind.exact.Holds b)
    (h : arithmetic? op c (.int a) (.int b) = some v) :
    ∃ z j, v = .int j ∧ exactBinary? op a b = some z ∧ c.intKind.Reduced z j := by
  obtain ⟨z, hz, rfl⟩ := Option.map_eq_some_iff.1 h
  obtain ⟨hexact, hfits⟩ := intOp?_exact ha hb hz
  exact ⟨z, _, rfl, hexact, reduced_wrap hkind fun _ => hfits⟩

theorem shift?_int_reduced (hop : op = .shl ∨ op = .shr) (hkind : c.intKind.IsMachine) (ha : c.intKind.Holds a)
    (h : shift? op t c (.int a) (.int b) = some v) :
    ∃ z j, v = .int j ∧ exactBinary? op a b = some z ∧ c.intKind.Reduced z j := by
  by_cases hcount : 0 ≤ b
  · simp only [shift?, shiftCount?, shiftBase?, if_pos hcount] at h
    have hb : ¬ b < 0 := by omega
    rcases hop with rfl | rfl
    · obtain ⟨j, hj, rfl⟩ := Option.map_eq_some_iff.1 h
      exact ⟨_, j, rfl, if_neg hb, shiftLeft?_reduced hkind hcount hj⟩
    · cases h
      refine ⟨_, _, rfl, if_neg hb, ?_⟩
      rw [← shiftRight_eq (ha.exact hkind) b]
      exact (holds_shiftRight ha b).reduced
  · simp only [shift?, shiftCount?, if_neg hcount] at h
    cases h

/-- What a binary operator gives: a truth value, a shifted integer in the type of the left operand,
or a result in the type that the operands have. -/
theorem binary?_cases {classOf : ConstType → ConstClass} {l m w : Folded}
    (h : binary? classOf op l m = some w) : (∃ p, w = (ConstValue.bool p).untyped) ∨
      (∃ v, (op = .shl ∨ op = .shr) ∧
        shift? op l.type (classOf l.type) l.value m.value = some v ∧ w = ⟨v, l.type⟩) ∨
      ∃ t v, (t = l.type ∨ t = m.type) ∧ arithmetic? op (classOf t) l.value m.value = some v ∧
        w = ⟨v, t⟩ := by
  unfold binary? at h
  split at h
  · obtain ⟨v, hv, rfl⟩ := Option.map_eq_some_iff.1 h
    exact .inr (.inl ⟨v, .inl rfl, hv, rfl⟩)
  · obtain ⟨v, hv, rfl⟩ := Option.map_eq_some_iff.1 h
    exact .inr (.inl ⟨v, .inr rfl, hv, rfl⟩)
  -- comparisons and logical operators
  iterate 8
    obtain ⟨p, -, rfl⟩ := Option.map_eq_some_iff.1 ‹_›
    exact .inl ⟨p, rfl⟩
  · obtain ⟨v, hv, rfl⟩ := Option.map_eq_some_iff.1 h
    refine .inr (.inr ⟨_, v, ?_, hv, rfl⟩)
    by_cases ht : l.type = .untyped
    · exact .inr (if_pos ht)
    · exact .inl (if_neg ht)

theorem binary?_int_reduced {s u : ConstType} (ha : (r.classOf s).intKind.Holds a)
    (hb : (r.classOf t).intKind.Holds b)
    (h : binary? r.classOf op ⟨.int a, s⟩ ⟨.int b, t⟩ = some ⟨.int j, u⟩) :
    ∃ z, exactBinary? op a b = some z ∧ (r.classOf u).intKind.Reduced z j := by
  have hmachine := isMachine_classOf r
  obtain ⟨p, hp⟩ | ⟨v, hop, hv, hw⟩ | ⟨t', v, -, hv, hw⟩ := binary?_cases h
  · cases hp
  · cases hw
    obtain ⟨z, j', hj, hz⟩ := shift?_int_reduced hop (hmachine _) ha hv
    cases hj
    exact ⟨z, hz⟩
  · cases hw
    obtain ⟨z, j', hj, hz⟩ :=
      arithmetic?_int_reduced (hmachine _) (ha.exact (hmachine s)) (hb.exact (hmachine t)) hv
    cases hj
    exact ⟨z, hz⟩

/-! Nothing small is left unfolded. -/

theorem unary?_int_folds {op : UnaryOp} (c : ConstClass) (hz : exactUnary? op i = some z)
    (hfits : IntKind.exact.Holds z) : ∃ j, unary? op c (.int i) = some (.int j) := by
  cases op with
  | plus => exact ⟨i, rfl⟩
  | neg =>
    cases hz
    exact ⟨_, Option.map_eq_some_iff.2 ⟨_, fitted?_eq_some.2 ⟨rfl, hfits⟩, rfl⟩⟩
  | bitNot =>
    simp only [unary?]
    split
    · exact ⟨_, rfl⟩
    · exact ⟨_, rfl⟩
  | not => cases hz

theorem intOp?_folds (hz : exactBinary? op a b = some z) (ha : a.natAbs < 2 ^ 126)
    (hsmall : z.natAbs < 2 ^ 126) (hop : op ≠ .shl ∧ op ≠ .shr) : ∃ i, intOp? op a b = some i := by
  have hfits : IntKind.exact.Holds z := holds_exact_iff.2 (by omega)
  cases op with
  | add | sub | mul =>
    cases hz
    exact ⟨_, fitted?_eq_some.2 ⟨rfl, hfits⟩⟩
  | div =>
    rw [exactBinary?] at hz
    split at hz
    · cases hz
    · next hb =>
      cases hz
      exact ⟨_, (if_neg hb).trans (fitted?_eq_some.2 ⟨rfl, hfits⟩)⟩
  | rem =>
    rw [exactBinary?] at hz
    split at hz
    · cases hz
    · next hb =>
      have hmin : minInt128 = -(2 ^ 127) := rfl
      refine ⟨_, if_neg ?_⟩
      rintro (hzero | ⟨hleast, -⟩)
      · exact hb hzero
      · omega
  | and | or | xor | andNot => exact ⟨_, rfl⟩
  | shl | shr => simp at hop
  | _ => cases hz

theorem shiftLeft?_folds (kind : IntKind) (hcount : 0 ≤ count ∧ count < 127)
    (hsmall : (base * 2 ^ count.toNat).natAbs < 2 ^ 126) :
    ∃ j, shiftLeft? kind base count = some j := by
  have hlength : base = 0 ∨ bitLength base + count < 127 := by
    by_cases hbase : base = 0
    · exact .inl hbase
    have hlow : 2 ^ (base.natAbs.log2 + count.toNat) < 2 ^ 126 := by
      rw [Int.natAbs_mul, Int.natAbs_pow] at hsmall
      rw [pow_add]
      exact (Nat.mul_le_mul_right _ (Nat.log2_self_le (by omega))).trans_lt hsmall
    have := (Nat.pow_lt_pow_iff_right (by decide)).1 hlow
    rw [bitLength, if_neg hbase]
    omega
  refine ⟨kind.wrap (base * Int.pow 2 count.toNat), ?_⟩
  simp only [shiftLeft?]
  rw [if_pos (by exact ⟨hcount.2, hlength⟩)]

theorem binary?_int_folds (classOf : ConstType → ConstClass) (hz : exactBinary? op a b = some z)
    (ha : a.natAbs < 2 ^ 126) (hsmall : z.natAbs < 2 ^ 126) (hplaces : op = .shl → b < 127)
    (s t : ConstType) : ∃ j u, binary? classOf op ⟨.int a, s⟩ ⟨.int b, t⟩ = some ⟨.int j, u⟩ := by
  cases op with
  | eq | ne | lt | le | gt | ge | logicalAnd | logicalOr => cases hz
  | shl =>
    rw [exactBinary?] at hz
    split at hz
    · cases hz
    · next hb =>
      cases hz
      obtain ⟨j, hj⟩ :=
        shiftLeft?_folds (classOf s).intKind ⟨not_lt.1 hb, hplaces rfl⟩ hsmall
      exact ⟨j, s, by simp [binary?, shift?, shiftCount?, shiftBase?, not_lt.1 hb, hj]⟩
  | shr =>
    rw [exactBinary?] at hz
    split at hz
    · cases hz
    · next hb =>
      refine ⟨shiftRight a b, s, ?_⟩
      simp [binary?, shift?, shiftCount?, shiftBase?, not_lt.1 hb]
  | _ =>
    obtain ⟨i, hi⟩ := intOp?_folds hz ha hsmall (by simp)
    simp only [binary?, arithmetic?, hi]
    exact ⟨_, _, rfl⟩

/-- **Folded integers are exact up to the width** of their type: an operator on integers of their
types gives the mathematical result, reduced to the type of the result if that has a width, and no
other integer of the type is congruent to it.  An operation is left unfolded only if its result is
not small. -/
theorem operators_exact (r : Registry) :
    (∀ op t i j, (r.classOf t).intKind.Holds i →
      unary? op (r.classOf t) (.int i) = some (.int j) →
        ∃ z, exactUnary? op i = some z ∧ ∀ j', (r.classOf t).intKind.Reduced z j' ↔ j' = j) ∧
    (∀ op s t u a b j, (r.classOf s).intKind.Holds a → (r.classOf t).intKind.Holds b →
      binary? r.classOf op ⟨.int a, s⟩ ⟨.int b, t⟩ = some ⟨.int j, u⟩ →
        ∃ z, exactBinary? op a b = some z ∧ ∀ j', (r.classOf u).intKind.Reduced z j' ↔ j' = j) ∧
    (∀ op t i z, exactUnary? op i = some z → IntKind.exact.Holds z →
      ∃ j, unary? op (r.classOf t) (.int i) = some (.int j)) ∧
    (∀ op s t a b z, exactBinary? op a b = some z → a.natAbs < 2 ^ 126 → z.natAbs < 2 ^ 126 →
      (op = .shl → b < 127) →
        ∃ j u, binary? r.classOf op ⟨.int a, s⟩ ⟨.int b, t⟩ = some ⟨.int j, u⟩) := by
  refine ⟨?_, ?_, ?_, ?_⟩
  · intro op t i j hi h
    obtain ⟨z, j', hj, hz, hreduced⟩ := unary?_int_reduced (isMachine_classOf r t) hi h
    cases hj
    exact ⟨z, hz, hreduced.iff_eq (isMachine_classOf r t)⟩
  · intro op s t u a b j ha hb h
    obtain ⟨z, hz, hreduced⟩ := binary?_int_reduced ha hb h
    exact ⟨z, hz, hreduced.iff_eq (isMachine_classOf r u)⟩
  · intro op t i z hz hfits
    exact unary?_int_folds (r.classOf t) hz hfits
  · intro op s t a b z hz ha hsmall hplaces
    exact binary?_int_folds r.classOf hz ha hsmall hplaces s t

/-- In eight bits, 200 + 100 is 44, and 1 shifted by 130 places is nothing. -/
theorem operators_exact_uint8 :
    (∃ z, exactBinary? .add 200 100 = some z ∧ ∀ j, (IntKind.unsigned 8).Reduced z j ↔ j = 44) ∧
      ∃ z, exactBinary? .shl 1 130 = some z ∧ ∀ j, (IntKind.unsigned 8).Reduced z j ↔ j = 0 := by
  have hbinary := (operators_exact {}).2.1
  constructor
  · exact hbinary .add (.builtin "uint8") .untyped (.builtin "uint8") 200 100 44
      (by decide) (by decide) (by decide)
  · exact hbinary .shl (.builtin "uint8") .untyped (.builtin "uint8") 1 130 0
      (by decide) (by decide) (by decide)

end GoApiDoc.Constant
