/-
**Locals are words.**

The name of a local comes from the name of its type, which may be any text.  What is written of it are small
letters, digits and underscores, the first of them a letter.  A word of the language, or one that the generated
code uses itself, ends in a letter.  A name that would be such a word gets an underscore, and a name that is
taken gets a number, so that neither of them is such a word again.

Main definitions:

* `Wiring.Text.IsWord` — a word that can be the name of a variable;
* `Wiring.Emit.Function.NamesLocals` — what a function owes to the names of its locals.

Main results:

* `Wiring.Text.isWord_snakeCase` — snake case makes words;
* `Wiring.Emit.variant_not_mem_reserved` — no variant of a local's name is reserved;
* `Wiring.Emit.render_namesLocals` — **the locals of rendered code have names of their own, and these are
  words**.
-/

import Wiring.Proofs.Emit.Statements

set_option autoImplicit false

namespace Wiring

namespace Text

/-! ### Words -/

/-- The characters of a word: small letters and digits of ASCII, and the underscore. -/
def isWordChar (c : Char) : Bool :=
  c.isLower || c.isDigit || c = '_'

/-- A word that can be the name of a variable. -/
structure IsWord (word : String) : Prop where
  chars : ∀ c ∈ word.toList, isWordChar c
  /-- It begins with a letter. -/
  head : ∃ c ∈ word.toList.head?, c.isLower

/-- Writing goes on at the end. -/
theorem IsWord.append {word more : String} (h : IsWord word) (hmore : ∀ c ∈ more.toList, isWordChar c) :
    IsWord (word ++ more) := by
  obtain ⟨c, hc, hlower⟩ := h.head
  refine ⟨fun d hd => ?_, c, ?_, hlower⟩
  · rw [String.toList_append, List.mem_append] at hd
    exact hd.elim (h.chars d) (hmore d)
  · rw [String.toList_append, List.head?_append, Option.mem_def.1 hc]
    rfl

theorem isWordChar_of_isLower {c : Char} (h : c.isLower) : isWordChar c := by
  rw [isWordChar, h]
  rfl

theorem isWordChar_of_isDigit {c : Char} (h : c.isDigit) : isWordChar c := by
  rw [isWordChar, h, Bool.or_true]
  rfl

/-! Letters and digits are told apart by their codes. -/

theorem isLower_iff {c : Char} : c.isLower ↔ 97 ≤ c.val.toNat ∧ c.val.toNat ≤ 122 := by
  change (decide ('a'.val ≤ c.val) && decide (c.val ≤ 'z'.val)) = true ↔ _
  rw [Bool.and_eq_true, decide_eq_true_eq, decide_eq_true_eq]
  exact and_congr UInt32.le_iff_toNat_le UInt32.le_iff_toNat_le

theorem isUpper_iff {c : Char} : c.isUpper ↔ 65 ≤ c.val.toNat ∧ c.val.toNat ≤ 90 := by
  change decide ('A'.val ≤ c.val ∧ c.val ≤ 'Z'.val) = true ↔ _
  rw [decide_eq_true_eq]
  exact and_congr UInt32.le_iff_toNat_le UInt32.le_iff_toNat_le

theorem isDigit_iff {c : Char} : c.isDigit ↔ 48 ≤ c.val.toNat ∧ c.val.toNat ≤ 57 := by
  change (decide ('0'.val ≤ c.val) && decide (c.val ≤ '9'.val)) = true ↔ _
  rw [Bool.and_eq_true, decide_eq_true_eq, decide_eq_true_eq]
  exact and_congr UInt32.le_iff_toNat_le UInt32.le_iff_toNat_le

theorem isLower_eq_false_of_isDigit {c : Char} (h : c.isDigit) : c.isLower = false := by
  rw [isDigit_iff] at h
  rw [← Bool.not_eq_true, isLower_iff]
  omega

/-- The small form of a capital is a small letter. -/
theorem isLower_toLower {c : Char} (h : c.isUpper) : c.toLower.isLower := by
  rw [isUpper_iff] at h
  rw [isLower_iff]
  unfold Char.toLower
  split
  case isTrue =>
    have hcode : (c.val + ('a'.val - 'A'.val)).toNat = c.val.toNat + 32 := by
      rw [UInt32.toNat_add]
      change (c.val.toNat + 32) % 4294967296 = c.val.toNat + 32
      omega
    change 97 ≤ (c.val + ('a'.val - 'A'.val)).toNat ∧ (c.val + ('a'.val - 'A'.val)).toNat ≤ 122
    omega
  case isFalse hother =>
    exact absurd ⟨UInt32.le_iff_toNat_le.2 h.1, UInt32.le_iff_toNat_le.2 h.2⟩ hother

/-- What is no capital stays as it is. -/
theorem toLower_eq_self {c : Char} (h : c.isUpper = false) : c.toLower = c := by
  unfold Char.toLower
  split
  case isTrue hupper =>
    have hcapital : c.isUpper :=
      isUpper_iff.2 ⟨UInt32.le_iff_toNat_le.1 hupper.1, UInt32.le_iff_toNat_le.1 hupper.2⟩
    exact absurd (h.symm.trans hcapital) Bool.false_ne_true
  case isFalse => rfl

/-- A letter or a digit in small form may stand in a word. -/
theorem isWordChar_toLower {c : Char} (h : c.isAlphanum) : isWordChar c.toLower := by
  cases hupper : c.isUpper with
  | true => exact isWordChar_of_isLower (isLower_toLower hupper)
  | false =>
      change ((c.isUpper || c.isLower) || c.isDigit) = true at h
      rw [hupper, Bool.false_or] at h
      rw [toLower_eq_self hupper, isWordChar, h]
      rfl

/-- What is written of a name, be it any text, may stand in a word. -/
theorem isWordChar_of_mem_snakeRev {name written : List Char} {before : Option Char}
    (h : ∀ c ∈ written, isWordChar c) : ∀ c ∈ snakeRev before written name, isWordChar c := by
  induction name generalizing before written with
  | nil => exact h
  | cons d rest ih =>
      have hgap : ∀ gap : Bool, ∀ c ∈ if gap then '_' :: written else written, isWordChar c := by
        intro gap c hc
        split at hc
        · rcases List.mem_cons.1 hc with rfl | hc
          · rfl
          · exact h c hc
        · exact h c hc
      rw [snakeRev]
      split
      next hd =>
        refine ih fun c hc => ?_
        rcases List.mem_cons.1 hc with rfl | hc
        · exact isWordChar_toLower hd
        · exact hgap _ c hc
      next => exact ih (hgap _)

theorem isWordChar_of_mem_snakeChars {name : List Char} {c : Char} (h : c ∈ snakeChars name) :
    isWordChar c := by
  rw [snakeChars, List.mem_reverse] at h
  exact isWordChar_of_mem_snakeRev (fun _ hd => absurd hd List.not_mem_nil) c
    ((List.dropWhile_suffix _).subset h)

/-- **Snake case makes words.** -/
theorem isWord_snakeCase (name : String) : IsWord (snakeCase name) := by
  rcases snakeCase_cases name with hfront | ⟨hparts, c, hhead, hdigit⟩
  · refine ⟨fun c hc => ?_, 'v', by rw [hfront, List.head?_cons]; rfl, by decide⟩
    rw [hfront, List.mem_cons, List.mem_cons] at hc
    rcases hc with rfl | rfl | hc
    · decide
    · decide
    · exact isWordChar_of_mem_snakeChars hc
  · have hchar : isWordChar c := isWordChar_of_mem_snakeChars (List.mem_of_mem_head? hhead)
    have hlower : c.isLower := by
      simpa [isWordChar, ne_underscore_of_head?_snakeChars hhead, hdigit] using hchar
    refine ⟨fun d hd => ?_, c, by rw [hparts]; exact hhead, hlower⟩
    rw [hparts] at hd
    exact isWordChar_of_mem_snakeChars hd

end Text

namespace Emit

open Text

/-! ### Names that are handed out -/

theorem isWord_localBase (type : TypeName) : IsWord (localBase type) := by
  simp only [localBase]
  split
  · exact (isWord_snakeCase _).append (List.all_eq_true.1 (by decide))
  · exact isWord_snakeCase _

/-- The digits of a number. -/
theorem isDigit_of_mem_toString {n : Nat} {c : Char} (h : c ∈ (toString n).toList) : c.isDigit := by
  have hdigits : (toString n).toList = Nat.toDigits 10 n := String.toList_ofList
  rw [hdigits] at h
  exact Nat.isDigit_of_mem_toDigits (by omega) (by omega) h

theorem all_not_isLower_toString (n : Nat) : ((toString n).toList.all fun c => !c.isLower) = true := by
  rw [List.all_eq_true]
  intro c hc
  rw [isLower_eq_false_of_isDigit (isDigit_of_mem_toString hc)]
  rfl

theorem isWord_variant {base : String} (h : IsWord base) : ∀ n, IsWord (variant base n)
  | 0 => h
  | _ + 1 => h.append fun _ hc => isWordChar_of_isDigit (isDigit_of_mem_toString hc)

/-- A reserved word ends in a letter. -/
theorem isLower_of_mem_reserved {word : String} (h : word ∈ reserved) :
    ∀ c ∈ word.toList.getLast?, c.isLower := by
  have hall : (reserved.all fun word => word.toList.getLast?.all Char.isLower) = true := by decide
  intro c hc
  have hlast := List.all_eq_true.1 hall word h
  rwa [Option.mem_def.1 hc] at hlast

/-- What goes on with something that is no letter does not end in one. -/
theorem exists_getLast?_append {more : String} (hmore : more ≠ "")
    (h : more.toList.all fun c => !c.isLower) (base : String) :
    ∃ c ∈ (base ++ more).toList.getLast?, c.isLower = false := by
  have hne : more.toList ≠ [] := fun hnil => hmore (String.toList_eq_nil_iff.1 hnil)
  have hlast : (base ++ more).toList.getLast? = some (more.toList.getLast hne) := by
    rw [String.toList_append, List.getLast?_append_of_ne_nil _ hne, List.getLast?_eq_some_getLast hne]
  have hother := List.all_eq_true.1 h _ (List.getLast_mem hne)
  exact ⟨_, hlast, by simpa using hother⟩

/-- A name that goes on with something that is no letter is not reserved. -/
theorem append_not_mem_reserved {more : String} (hmore : more ≠ "")
    (h : more.toList.all fun c => !c.isLower) (base : String) : base ++ more ∉ reserved := by
  intro hmem
  obtain ⟨c, hlast, hother⟩ := exists_getLast?_append hmore h base
  have hlower := isLower_of_mem_reserved hmem c hlast
  rw [hother] at hlower
  cases hlower

theorem localBase_not_mem_reserved (type : TypeName) : localBase type ∉ reserved := by
  simp only [localBase]
  split
  · exact append_not_mem_reserved (by decide) (by decide) _
  next hfree =>
    rw [List.contains_iff_mem] at hfree
    exact hfree

/-- **No variant of the name of a local is reserved.** -/
theorem variant_not_mem_reserved (type : TypeName) : ∀ n, variant (localBase type) n ∉ reserved
  | 0 => localBase_not_mem_reserved type
  | n + 1 => append_not_mem_reserved Nat.repr_ne_empty (all_not_isLower_toString (n + 2)) _

variable {taken : List String} {types : List TypeName} {pkg : Package} {injector : InjectorDecl}
  {plan : Plan} {code : String}

theorem of_mem_nameAll {e : TypeName × String} (h : e ∈ nameAll taken types) :
    IsWord e.2 ∧ e.2 ∉ reserved := by
  induction types generalizing taken with
  | nil => cases h
  | cons type rest ih =>
      rcases List.mem_cons.1 h with rfl | h
      · exact ⟨isWord_variant (isWord_localBase type) _, variant_not_mem_reserved type _⟩
      · exact ih h

/-- What a function owes to the names of its locals. -/
structure Function.NamesLocals (f : Function) (names : List String) : Prop where
  distinct : names.Nodup
  /-- None of them is the name of the function. -/
  apart : f.name ∉ names
  words : ∀ name ∈ names, IsWord name
  free : ∀ name ∈ names, name ∉ reserved

/-- **The locals of rendered code have names of their own, and these are words.**  Whatever the types of a plan
are called, if they are different, so are the names of their locals.  The parameters bear those of the inputs,
and the statements bind those of the steps with a provider. -/
theorem render_namesLocals (hdistinct : plan.types.Nodup) (hcode : render pkg injector plan = .ok code) :
    ∃ f, function? pkg injector plan = .ok f ∧ code = f.print ∧
      f.params.map Prod.fst = plan.inputs.map (fun b => (localsOf injector plan).name b.type) ∧
      f.steps.map Step.name =
        (plan.steps.filter Binding.isProvided).map (fun b => (localsOf injector plan).name b.type) ∧
      f.NamesLocals (plan.types.map (localsOf injector plan).name) := by
  obtain ⟨f, hf, hprint⟩ := of_map_eq_ok hcode
  obtain rfl := eq_functionOf hf
  have hnames : plan.types.map (localsOf injector plan).name =
      (nameAll (takenNames (snakeCase injector.name) plan) plan.types).map Prod.snd :=
    Locals.map_name_ofPlan hdistinct
  have hgiven : ∀ name ∈ plan.types.map (localsOf injector plan).name, IsWord name ∧ name ∉ reserved := by
    rw [hnames]
    intro name hname
    obtain ⟨e, he, rfl⟩ := List.mem_map.1 hname
    exact of_mem_nameAll he
  refine ⟨_, hf, hprint.symm, ?_, map_name_steps pkg injector plan, ?_, ?_, ?_, ?_⟩
  · rw [map_fst_params, List.map_map]
    rfl
  · rw [hnames]
    exact nodup_nameAll _ _
  · intro hmem
    obtain ⟨type, -, hname⟩ := List.mem_map.1 hmem
    refine name_localsOf_not_mem injector plan type ?_
    rw [hname]
    exact List.mem_cons_self
  · exact fun name hname => (hgiven name hname).1
  · exact fun name hname => (hgiven name hname).2

/-- A plan with types that are called alike. -/
def alikePlan : Plan where
  inputs := [⟨"a.Config", .input 0⟩, ⟨"Config2", .input 1⟩]
  steps := ["*b.Config", "Type", "x/y.Type_", "Type_2", "Init", "Cleanup", "&9", "Ω"].map fun type =>
    ⟨type, .provider { pkg := "alike", name := "Make", output := type }⟩
  outputs := ["Init"]

/-- The numbers and the underscores do not meet. -/
theorem render_namesLocals_alike :
    alikePlan.types.Nodup ∧
      ∃ f : Function, render { path := "alike" } { name := "Init" } alikePlan = .ok f.print ∧
        f.NamesLocals ["config", "config2", "config3", "type_", "type_2", "type_22", "init2", "cleanup_",
          "v_9", "v_"] := by
  have hdistinct : alikePlan.types.Nodup := by decide
  have hfunction : function? { path := "alike" } { name := "Init" } alikePlan =
      .ok (functionOf { path := "alike" } { name := "Init" } alikePlan) :=
    function?_eq_ok_iff.2 ⟨by decide, by decide, rfl⟩
  obtain ⟨f, hf, -, -, -, hlocals⟩ := render_namesLocals hdistinct (congrArg _ hfunction)
  obtain rfl := eq_functionOf hf
  have hnames : alikePlan.types.map (localsOf { name := "Init" } alikePlan).name =
      ["config", "config2", "config3", "type_", "type_2", "type_22", "init2", "cleanup_", "v_9", "v_"] := by
    decide +kernel
  exact ⟨hdistinct, _, congrArg _ hfunction, hnames ▸ hlocals⟩

end Emit

end Wiring
