/-
Instances found through text.

A generic type with its arguments can be looked up as it is written, or its base is looked up and
the instance is made for the arguments as types.  The first way cuts the text at its first bracket,
cuts the arguments at the commas outside brackets and reads each of them as a type.  The two agree,
since the text of an argument closes the brackets it opens, has no comma outside them, and is read
back as the argument.

* `Registry.findType_generic` — **the instance found through text is the one made for the types**.
-/

import GoApiDoc.Proofs.Argument
import GoApiDoc.Proofs.Qualifier
import GoApiDoc.Proofs.Splitting
import GoApiDoc.Proofs.TypeText

set_option autoImplicit false

namespace GoApiDoc

open Go (TypeId TypeExpr IsWord)

/-! ### Arguments -/

namespace Go.TypeExpr

variable {t : TypeExpr} {args : List TypeExpr} {name : String}

/-- A name: one word of letters and digits, so without blanks. -/
def IsName (name : String) : Prop :=
  IsWord name .ident name ∧ ∀ c ∈ name.toList, Text.isBlank c = false

/-- The types that are made of names, type arguments, pointers, slices, arrays and maps. -/
inductive Argument : TypeExpr → Prop
  | ident {name : String} (h : IsName name) : Argument (ident name)
  | qualified {package name : String} (hpackage : IsName package) (hname : IsName name) :
      Argument (qualified package name)
  | generic {base : TypeExpr} {args : List TypeExpr} (hbase : Argument base)
      (hname : base.isName = true) (hargs : ∀ a ∈ args, Argument a) : Argument (generic base args)
  | pointer {elem : TypeExpr} (h : Argument elem) : Argument (pointer elem)
  | slice {elem : TypeExpr} (h : Argument elem) : Argument (slice elem)
  | array {elem : TypeExpr} (h : Argument elem) : Argument (array elem)
  | map {key value : TypeExpr} (hkey : Argument key) (hvalue : Argument value) :
      Argument (map key value)

theorem Argument.legible (h : t.Argument) : t.Legible := by
  induction h with
  | ident h => exact .ident h.1
  | qualified hpackage hname => exact .qualified hpackage.1 hname.1
  | generic _ hname _ ihbase ihargs => exact .generic ihbase hname ihargs
  | pointer _ ih => exact .pointer ih
  | slice _ ih => exact .slice ih
  | array _ ih => exact .array ih
  | map _ _ ihkey ihvalue => exact .map ihkey ihvalue

theorem IsName.isIdentChar (h : IsName name) : ∀ c ∈ name.toList, isIdentChar c = true := by
  obtain ⟨c, cs, hname, hc, hcs, -⟩ := isWord_ident_iff.1 h.1
  have hfirst : Go.isIdentChar c = true := by
    simp only [isIdentStart, Go.isIdentChar, Char.isAlphanum, Bool.or_eq_true] at hc ⊢
    tauto
  rw [hname]
  exact List.forall_mem_cons.2 ⟨hfirst, hcs⟩

theorem IsName.notMem (h : IsName name) {d : Char}
    (hd : Go.isIdentChar d = false) : d ∉ name.toList := by
  intro hmem
  cases hd.symm.trans (h.isIdentChar d hmem)

/-- A base is looked up by a plain name. -/
theorem Argument.isPlainName_text (h : t.Argument) (hname : t.isName = true) :
    isPlainName t.text = true := by
  have hplain : ∀ {name : String}, IsName name →
      ∀ c ∈ name.toList, (c != '[' && c != '-') = true := by
    intro name h c hc
    have hopen : c ≠ '[' := ne_of_mem_of_not_mem hc (h.notMem (by decide))
    have hhyphen : c ≠ '-' := ne_of_mem_of_not_mem hc (h.notMem (by decide))
    simp [hopen, hhyphen]
  rw [isPlainName, List.all_eq_true]
  cases h with
  | ident h => exact hplain h
  | qualified hpackage h =>
    simp only [text, String.toList_append, List.forall_mem_append]
    exact ⟨⟨hplain hpackage, by simp⟩, hplain h⟩
  | _ => cases hname

theorem Argument.plain (h : t.Argument) : t.peel.2.Plain := by
  induction h with
  | ident h => exact .ident ((Argument.ident h).isPlainName_text rfl)
  | qualified hpackage hname =>
    exact .qualified ((Argument.qualified hpackage hname).isPlainName_text rfl)
  | generic hbase hname _ _ ihargs => exact .generic (hbase.isPlainName_text hname) ihargs
  | pointer _ ih | slice _ ih | array _ ih => exact ih
  | map => exact .literal rfl

/-! ### Their text -/

theorem toList_intercalate_texts (args : List TypeExpr) :
    (",".intercalate (texts args)).toList =
      [','].intercalate (args.map fun a => a.text.toList) := by
  have htexts : texts args = args.map text := by
    induction args with
    | nil => rfl
    | cons a args ih => rw [texts, ih, List.map_cons]
  rw [htexts, String.toList_intercalate, List.map_map]
  rfl

theorem isBlank_of_mem_intercalate {pieces : List (List Char)}
    (h : ∀ p ∈ pieces, ∀ c ∈ p, Text.isBlank c = false) :
    ∀ c ∈ [','].intercalate pieces, Text.isBlank c = false := by
  induction pieces with
  | nil => simp
  | cons p pieces ih =>
    obtain ⟨hp, hpieces⟩ := List.forall_mem_cons.1 h
    cases pieces with
    | nil => rwa [List.intercalate_singleton]
    | cons q pieces =>
      simp only [List.intercalate_cons_cons, List.forall_mem_append]
      exact ⟨⟨hp, by simp [Text.isBlank]⟩, ih hpieces⟩

theorem Argument.isBlank_text (h : t.Argument) : ∀ c ∈ t.text.toList, Text.isBlank c = false := by
  induction h with
  | ident h => exact h.2
  | qualified hpackage hname =>
    simp only [text, String.toList_append, List.forall_mem_append]
    exact ⟨⟨hpackage.2, by simp [Text.isBlank]⟩, hname.2⟩
  | @generic base args _ _ _ ihbase ihargs =>
    have hargs := isBlank_of_mem_intercalate (List.forall_mem_map.2 ihargs)
    simp only [text, String.toList_append, toList_intercalate_texts, List.forall_mem_append]
    exact ⟨⟨⟨ihbase, by simp [Text.isBlank]⟩, hargs⟩, by simp [Text.isBlank]⟩
  | pointer _ ih | slice _ ih | array _ ih =>
    simp only [text, String.toList_append, List.forall_mem_append]
    exact ⟨by simp [Text.isBlank], ih⟩
  | map _ _ ihkey ihvalue =>
    simp only [text, String.toList_append, List.forall_mem_append]
    exact ⟨⟨⟨by simp [Text.isBlank], ihkey⟩, by simp [Text.isBlank]⟩, ihvalue⟩

theorem Argument.trim_text (h : t.Argument) : Text.trim t.text = t.text := by
  rw [Text.trim, Text.trimChars_of_forall h.isBlank_text, String.ofList_toList]

theorem Argument.passed (h : t.Argument) {depth : Int} (hdepth : 0 ≤ depth) :
    Text.Passed ',' depth t.text.toList := by
  have hword : ∀ {name : String} {depth : Int}, IsName name →
      Text.Passed ',' depth name.toList := by
    intro name depth h
    refine Text.passed_of_forall fun c hc hmem => ?_
    have hsigns : ∀ d ∈ [',', '(', '[', '\x7b', ')', ']', '\x7d'], Go.isIdentChar d = false := by
      simp [Go.isIdentChar]
    exact h.notMem (hsigns c hmem) hc
  have hbrackets : ∀ {cs : List Char} {depth : Int}, Text.Passed ',' (depth + 1) cs →
      Text.Passed ',' depth ('[' :: (cs ++ [']'])) := fun h => h.bracketed rfl rfl rfl
  induction h generalizing depth with
  | ident h => exact hword h
  | qualified hpackage hname =>
    rw [text, String.toList_append, String.toList_append]
    exact ((hword hpackage).append (Text.passed_of_forall (by simp))).append (hword hname)
  | @generic base args _ _ _ ihbase ihargs =>
    have hargs : Text.Passed ',' (depth + 1) _ := Text.passed_intercalate rfl rfl (by omega)
      (List.forall_mem_map.2 fun a ha => ihargs a ha (by omega))
    rw [← toList_intercalate_texts] at hargs
    simpa [text] using (ihbase hdepth).append (hbrackets hargs)
  | pointer _ ih =>
    rw [text, String.toList_append]
    exact (Text.passed_of_forall (by simp)).append (ih hdepth)
  | slice _ ih =>
    rw [text, String.toList_append]
    exact (hbrackets Text.passed_nil).append (ih hdepth)
  | array _ ih =>
    rw [text, String.toList_append]
    have hdots : Text.Passed ',' (depth + 1) ['.', '.', '.'] := Text.passed_of_forall (by simp)
    exact (hbrackets hdots).append (ih hdepth)
  | map _ _ ihkey ihvalue =>
    have hkey := hbrackets (ihkey (Int.le_add_one hdepth))
    have hmap : Text.Passed ',' depth ['m', 'a', 'p'] := Text.passed_of_forall (by simp)
    simpa [text] using (hmap.append hkey).append (ihvalue hdepth)

end Go.TypeExpr

/-! ### Look-up -/

namespace Registry

variable {r : Registry} {file : FileId} {base : TypeExpr} {args : List TypeExpr} {id : TypeId}

/-- **Arguments are read back from their text.** -/
theorem argsOfText_texts (h : ∀ a ∈ args, a.Argument) :
    argsOfText (",".intercalate (TypeExpr.texts args)) = args := by
  cases hargs : args with
  | nil => decide
  | cons a as =>
    rw [← hargs]
    have hpieces : Text.splitUnlessNested ',' (",".intercalate (TypeExpr.texts args)) =
        args.map TypeExpr.text := by
      rw [Text.splitUnlessNested, TypeExpr.toList_intercalate_texts,
        Text.splitNested_intercalate rfl rfl (by simp [hargs])
          (List.forall_mem_map.2 fun a ha => (h a ha).passed (Int.le_refl 0)), List.map_map]
      simp [Function.comp_def]
    have htrim : (args.map TypeExpr.text).map Text.trim = args.map TypeExpr.text := by
      rw [List.map_map]
      exact List.map_congr_left fun a ha => (h a ha).trim_text
    have hfilter : (args.map TypeExpr.text).filter (fun a => !a.isEmpty) =
        args.map TypeExpr.text := by
      refine List.filter_eq_self.2 (List.forall_mem_map.2 fun a ha => ?_)
      obtain ⟨c, cs, htext, -⟩ := (h a ha).legible.exists_text_eq
      simp [← String.toList_inj, htext]
    rw [argsOfText, hpieces, htrim, hfilter, List.map_map]
    conv_rhs => rw [← List.map_id args]
    refine List.map_congr_left fun a ha => ?_
    obtain ⟨tokens, cur, hlex, hparse, heof⟩ := (h a ha).legible.parses
    simp [Go.typeOfText, Go.openSource, hlex, bind, Except.bind, hparse, heof]

theorem lookupType?_generic {x : Option String} (hbase : base.Argument) (hname : base.isName = true)
    (hargs : ∀ a ∈ args, a.Argument) (hid : r.lookupType? base.text file = some (id, x)) :
    r.lookupType? (TypeExpr.generic base args).text file =
      some (id, some (",".intercalate (TypeExpr.texts args))) := by
  have hopen : '[' ∉ base.text.toList := (notMem_of_isPlainName (hbase.isPlainName_text hname)).1
  have hbuiltin : isBuiltinType (TypeExpr.generic base args).text = false :=
    isBuiltinType_eq_false (.inr (by simp [TypeExpr.text]))
  rw [lookupType?, splitTypeArgs_trim hopen, hbase.trim_text] at hid
  split at hid
  · cases hid
  obtain ⟨id', hfound, heq⟩ := Option.map_eq_some_iff.1 hid
  cases heq
  rw [lookupType?, (TypeExpr.Argument.generic hbase hname hargs).trim_text, hbuiltin,
    TypeExpr.text, splitTypeArgs_append hopen]
  simp [hfound]

/-- **The instance found through text is the one made for the types**: for a base that stands for a
generic declaration, looking up the text gives the same type and leaves the same registry as making
the instance for the arguments. -/
theorem findType_generic {d : TypeDecl} {x : Option String} (hbase : base.Argument)
    (hname : base.isName = true) (hargs : ∀ a ∈ args, a.Argument)
    (hid : r.lookupType? base.text file = some (id, x)) (hd : r.types[id]? = some d)
    (hgeneric : d.isGeneric = true) :
    r.findType (TypeExpr.generic base args).text file = r.instantiate id args file := by
  have hplain : ∀ a ∈ args, a.peel.2.Plain := fun a ha => (hargs a ha).plain
  rw [instantiate_eq hplain, findType, instanceFuel, findTypeWith,
    lookupType?_generic hbase hname hargs hid]
  simp only [Option.map_some, hd, hgeneric, Option.getD_some, if_true, argsOfText_texts hargs]
  refine instantiateWith_eq (fun a ha r => resolveArgWith_eq (hplain a ha) ?_ r) id r
  have hle := TypeExpr.length_text_le_intercalate ha
  have hopen : "[".length = 1 := rfl
  rw [TypeExpr.text, String.length_append, String.length_append, String.length_append]
  omega

/-- A generic type with two parameters. -/
def pairs : Registry :=
  (({} : Registry).index ⟨"m.go", "m", .all, ⟨"m", [], [.type ⟨"Pair",
    [⟨"K", .ident "any"⟩, ⟨"V", .ident "any"⟩], false, .struct [], none, none, 0⟩], []⟩⟩).2.parseTypes

/-- An instance within an instance. -/
theorem findType_generic_nested : ∃ (args : List TypeExpr) (d : TypeDecl),
    (TypeExpr.generic (.ident "Pair") args).text = "Pair[string,[]Pair[int,bool]]" ∧
      (∀ a ∈ args, a.Argument) ∧ pairs.lookupType? "Pair" 0 = some (0, none) ∧
      pairs.types[0]? = some d ∧ d.isGeneric = true ∧
      pairs.findType "Pair[string,[]Pair[int,bool]]" 0 = pairs.instantiate 0 args 0 := by
  have hname : ∀ name ∈ ["Pair", "string", "int", "bool"], (TypeExpr.ident name).Argument := by
    simp only [List.forall_mem_cons]
    refine ⟨?_, ?_, ?_, ?_, by simp⟩ <;>
      exact .ident ⟨⟨_, _, _, rfl, rfl⟩, by simp [Text.isBlank]⟩
  have hpair : (TypeExpr.ident "Pair").Argument := hname _ (by simp)
  have hinner : ∀ a ∈ [TypeExpr.ident "int", .ident "bool"], a.Argument := by
    simp only [List.forall_mem_cons]
    exact ⟨hname _ (by simp), hname _ (by simp), by simp⟩
  let args : List TypeExpr :=
    [.ident "string", .slice (.generic (.ident "Pair") [.ident "int", .ident "bool"])]
  have hargs : ∀ a ∈ args, a.Argument := by
    simp only [args, List.forall_mem_cons]
    exact ⟨hname _ (by simp), .slice (.generic hpair rfl hinner), by simp⟩
  have hid : pairs.lookupType? "Pair" 0 = some (0, none) := by decide +kernel
  have hgeneric : (pairs.types[0]?.map TypeDecl.isGeneric) = some true := by decide +kernel
  obtain ⟨d, hd, hd'⟩ := Option.map_eq_some_iff.1 hgeneric
  have htext : (TypeExpr.generic (.ident "Pair") args).text = "Pair[string,[]Pair[int,bool]]" := by
    simp [args, TypeExpr.text, TypeExpr.texts]
  exact ⟨args, d, htext, hargs, hid, hd, hd', htext ▸ findType_generic hpair rfl hargs hid hd hd'⟩

end Registry

end GoApiDoc
