/-
**The words of the language that a local can be called.**

The table of reserved words is written by hand, and the language has more words than the table: most of those
that it keeps for later are missing.  A local is a variant of the snake case of a type's name.  A variant with
an underscore or a number ends in no letter, so that only the snake case itself can be a word of the language,
and it is one exactly if the table misses it.

Main definitions:

* `Wiring.Emit.keywords` — the words of the language, those in use and those kept for later;
* `Wiring.Emit.unguarded` — those of them that a local can be called.

Main results:

* `Wiring.Emit.unguarded_of_variant_mem_keywords` — a variant that is a word of the language is the snake case
  itself, and the table misses it;
* `Wiring.Emit.mem_nameAll_of_localBase_eq` — a name that is free is handed out if a type has it;
* `Wiring.Emit.render_meetsKeywords` — **which words of the language the variables of rendered code are
  called**;
* `Wiring.Emit.local_named_try` — there are such.
-/

import Wiring.Proofs.Emit.Scopes

set_option autoImplicit false

namespace Wiring

namespace Emit

open Text

/-! ### Words of the language -/

/-- The words of the language: first those in use, then those that are kept for later. -/
def keywords : List String :=
  ["_", "as", "async", "await", "break", "const", "continue", "crate", "dyn", "else", "enum", "extern",
    "false", "fn", "for", "if", "impl", "in", "let", "loop", "match", "mod", "move", "mut", "pub", "ref",
    "return", "self", "Self", "static", "struct", "super", "trait", "true", "type", "unsafe", "use", "where",
    "while"] ++
  ["abstract", "become", "box", "do", "final", "gen", "macro", "override", "priv", "try", "typeof", "unsized",
    "virtual", "yield"]

/-- The words of the language that the table of reserved words misses. -/
def unguarded : List String :=
  ["abstract", "become", "do", "final", "gen", "macro", "override", "priv", "try", "typeof", "unsized",
    "virtual"]

/-- What the tables say, word by word.  Every word of the language is in one of the two tables, but for the two
that no local is called anyway, and ends in a letter, unless it is the blank. -/
theorem tables :
    (∀ word ∈ keywords, (word ∈ reserved ∨ word ∈ unguarded ∨ word ∈ ["_", "Self"]) ∧
      (word ≠ "_" → word.toList.getLast?.all Char.isLower)) ∧
    ∀ word ∈ unguarded, word ∈ keywords ∧ word ∉ reserved := by
  decide +kernel

theorem mem_keywords_of_mem_unguarded {word : String} (h : word ∈ unguarded) : word ∈ keywords :=
  (tables.2 word h).1

/-- A word of the language ends in a letter, unless it is the blank. -/
theorem isLower_of_mem_keywords {word : String} (h : word ∈ keywords) (hne : word ≠ "_") :
    ∀ c ∈ word.toList.getLast?, c.isLower := by
  intro c hc
  have hlast := (tables.1 word h).2 hne
  rwa [Option.mem_def.1 hc] at hlast

/-- A word that goes on with something that is no letter is not one of the language. -/
theorem append_not_mem_keywords {base more : String} (hbase : Lettered base) (hmore : more ≠ "")
    (h : more.toList.all fun c => !c.isLower) : base ++ more ∉ keywords := by
  intro hmem
  have hne : base ++ more ≠ "_" := fun hblank => not_lettered_blank (hblank ▸ hbase.append more)
  obtain ⟨c, hlast, hother⟩ := exists_getLast?_append hmore h base
  have hlower := isLower_of_mem_keywords hmem hne c hlast
  rw [hother] at hlower
  cases hlower

/-- A local whose name would be a word of the language has the snake case of its type's name. -/
theorem unguarded_of_localBase_mem_keywords {type : TypeName} (h : localBase type ∈ keywords) :
    localBase type = snakeCase (bareTypeName type) ∧ localBase type ∈ unguarded := by
  have hbase : localBase type = snakeCase (bareTypeName type) := by
    simp only [localBase] at h ⊢
    split
    case isTrue hreserved =>
      rw [if_pos hreserved] at h
      exact absurd h (append_not_mem_keywords (lettered_snakeCase _) (by decide) (by decide))
    case isFalse => rfl
  refine ⟨hbase, ?_⟩
  rcases (tables.1 _ h).1 with hreserved | hmissed | hother
  · exact absurd hreserved (localBase_not_mem_reserved type)
  · exact hmissed
  · -- Neither the blank nor a capital begins a word in snake case.
    obtain ⟨c, hc, hlower⟩ := (isWord_localBase type).head
    have hnone : ∀ word ∈ ["_", "Self"], word.toList.head?.all fun c => !c.isLower := by decide
    have hcapital := hnone _ hother
    rw [Option.mem_def.1 hc, Option.all_some, hlower] at hcapital
    cases hcapital

/-- What the table misses is not changed. -/
theorem localBase_eq_of_mem_unguarded {type : TypeName} {word : String} (hmissed : word ∈ unguarded)
    (hsnake : snakeCase (bareTypeName type) = word) : localBase type = word := by
  have hfree : ¬ reserved.contains word = true := by
    rw [List.contains_iff_mem]
    exact (tables.2 word hmissed).2
  simp only [localBase, hsnake]
  rw [if_neg hfree]

/-- **A variant that is a word of the language is the snake case itself, and the table misses it.** -/
theorem unguarded_of_variant_mem_keywords {type : TypeName} {n : Nat}
    (h : variant (localBase type) n ∈ keywords) :
    variant (localBase type) n = snakeCase (bareTypeName type) ∧ variant (localBase type) n ∈ unguarded := by
  cases n with
  | zero =>
      rw [variant] at h ⊢
      exact unguarded_of_localBase_mem_keywords h
  | succ n =>
      rw [variant] at h
      exact absurd h (append_not_mem_keywords (lettered_localBase type) Nat.repr_ne_empty
        (all_not_isLower_toString (n + 2)))

/-! ### Names that are handed out -/

variable {taken : List String} {types : List TypeName} {word : String}

theorem unguarded_of_mem_nameAll {e : TypeName × String} (h : e ∈ nameAll taken types)
    (hword : e.2 ∈ keywords) : e.2 = snakeCase (bareTypeName e.1) ∧ e.2 ∈ unguarded := by
  induction types generalizing taken with
  | nil => cases h
  | cons type rest ih =>
      rcases List.mem_cons.1 h with rfl | h
      · exact unguarded_of_variant_mem_keywords hword
      · exact ih h

/-- A base that is free is its own first variant. -/
theorem fresh_eq_self (h : word ∉ taken) : fresh taken word = word := by
  have hfind : (List.range (taken.length + 1)).find? (fun n => !taken.contains (variant word n)) = some 0 := by
    rw [List.range_succ_eq_map, List.find?_cons_of_pos]
    simpa [variant] using h
  rw [fresh, hfind]
  rfl

/-- **A name that is free is handed out if a type has it.**  The first of the types that would have this name
gets it, unless an earlier one has got it as a variant of its own. -/
theorem mem_nameAll_of_localBase_eq (hfree : word ∉ taken) (hbase : ∃ type ∈ types, localBase type = word) :
    word ∈ (nameAll taken types).map Prod.snd := by
  induction types generalizing taken with
  | nil =>
      obtain ⟨type, htype, -⟩ := hbase
      cases htype
  | cons type rest ih =>
      rw [nameAll, List.map_cons, List.mem_cons]
      -- Either the first type gets the name, or the name is still free for the others.
      by_cases hname : word = fresh taken (localBase type)
      · exact .inl hname
      · refine .inr (ih ?_ ?_)
        · rw [List.mem_cons, not_or]
          exact ⟨hname, hfree⟩
        · obtain ⟨other, hother, hword⟩ := hbase
          rcases List.mem_cons.1 hother with rfl | hother
          · rw [hword, fresh_eq_self hfree] at hname
            exact absurd rfl hname
          · exact ⟨other, hother, hword⟩

variable {pkg : Package} {injector : InjectorDecl} {plan : Plan} {code : String}

/-- Each type of a plan has a name that has been handed out to it. -/
theorem name_localsOf_mem_nameAll {type : TypeName} (htype : type ∈ plan.types) :
    (type, (localsOf injector plan).name type) ∈
      nameAll (takenNames (snakeCase injector.name) plan) plan.types := by
  have hkey := (map_fst_nameAll (takenNames (snakeCase injector.name) plan) plan.types).symm ▸ htype
  obtain ⟨before, word, after, hsplit, hlast⟩ := Table.exists_last_entry hkey
  have hname : (localsOf injector plan).name type = word := by
    have hget := Table.get?_foldl_put_append before word hlast {}
    rw [← hsplit] at hget
    exact congrArg (·.getD "_") hget
  rw [hname, hsplit]
  exact List.mem_append_right _ List.mem_cons_self

/-! ### The variables of a function -/

/-- The variables of a function are the locals of its types, and those that are the renderer's own. -/
theorem exists_type_of_mem_scope {name : String}
    (h : name ∈ (functionOf pkg injector plan).scope (functionOf pkg injector plan).steps) :
    (∃ type ∈ plan.types, (localsOf injector plan).name type = name) ∨ name ∈ ["cleanups", "cleanup"] := by
  rcases mem_scope_iff.1 h with hlocal | ⟨rfl, -⟩ | ⟨rfl, -⟩
  · left
    rw [map_fst_params, map_name_steps, List.mem_append, List.map_map, List.mem_map, List.mem_map] at hlocal
    rcases hlocal with ⟨b, hb, rfl⟩ | ⟨b, hb, rfl⟩
    · exact ⟨b.type, List.mem_map_of_mem (List.mem_append_left _ hb), rfl⟩
    · exact ⟨b.type, List.mem_map_of_mem (List.mem_append_right _ (List.mem_of_mem_filter hb)), rfl⟩
  · exact .inr (by decide)
  · exact .inr (by decide)

/-- The local of each type of a plan is a variable of its function, if all steps have a statement. -/
theorem name_mem_scope (hprovided : ∀ b ∈ plan.steps, b.isProvided) {type : TypeName}
    (htype : type ∈ plan.types) :
    (localsOf injector plan).name type ∈
      (functionOf pkg injector plan).scope (functionOf pkg injector plan).steps := by
  rw [mem_scope_iff, map_fst_params, map_name_steps, List.filter_eq_self.2 hprovided]
  obtain ⟨b, hb, rfl⟩ := List.mem_map.1 htype
  rcases List.mem_append.1 hb with hb | hb
  · exact .inl (List.mem_append_left _ (List.mem_map_of_mem (List.mem_map_of_mem hb)))
  · exact .inl (List.mem_append_right _ (List.mem_map.2 ⟨b, hb, rfl⟩))

/-- **Which words of the language the variables of rendered code are called.**  Such a variable is always a
local, its name is a word that the table of reserved words misses, and it is the snake case of the name of its
type.  In turn, each word that the table misses is the name of a variable, if it is the snake case of a type of
the plan and neither the function itself nor a function that it calls has it. -/
theorem render_meetsKeywords (hcode : render pkg injector plan = .ok code) :
    ∃ f, function? pkg injector plan = .ok f ∧ code = f.print ∧
      (∀ name ∈ f.scope f.steps, name ∈ keywords →
        name ∈ unguarded ∧ ∃ type ∈ plan.types, (localsOf injector plan).name type = name ∧
          snakeCase (bareTypeName type) = name) ∧
      (plan.types.Nodup → (∀ b ∈ plan.steps, b.isProvided) → ∀ word,
        word ∈ f.scope f.steps ∧ word ∈ keywords ↔
          word ∈ unguarded ∧ word ∉ takenNames (snakeCase injector.name) plan ∧
            ∃ type ∈ plan.types, snakeCase (bareTypeName type) = word) := by
  obtain ⟨f, hf, hprint⟩ := of_map_eq_ok hcode
  obtain rfl := eq_functionOf hf
  have hmeets : ∀ name ∈ (functionOf pkg injector plan).scope (functionOf pkg injector plan).steps,
      name ∈ keywords → name ∈ unguarded ∧ ∃ type ∈ plan.types, (localsOf injector plan).name type = name ∧
        snakeCase (bareTypeName type) = name := by
    intro name hname hword
    rcases exists_type_of_mem_scope hname with ⟨type, htype, rfl⟩ | hown
    · obtain ⟨hsnake, hmissed⟩ := unguarded_of_mem_nameAll (name_localsOf_mem_nameAll htype) hword
      exact ⟨hmissed, type, htype, rfl, hsnake.symm⟩
    · have hnone : ∀ word ∈ ["cleanups", "cleanup"], word ∉ keywords := by decide +kernel
      exact absurd hword (hnone name hown)
  refine ⟨_, hf, hprint.symm, hmeets, fun hdistinct hprovided word => ⟨?_, ?_⟩⟩
  · rintro ⟨hname, hword⟩
    obtain ⟨hmissed, type, htype, rfl, hsnake⟩ := hmeets word hname hword
    exact ⟨hmissed, name_localsOf_not_mem injector plan type, type, htype, hsnake⟩
  · rintro ⟨hmissed, hfree, type, htype, hsnake⟩
    refine ⟨?_, mem_keywords_of_mem_unguarded hmissed⟩
    have hgiven := mem_nameAll_of_localBase_eq hfree ⟨type, htype, localBase_eq_of_mem_unguarded hmissed hsnake⟩
    have hnames : (nameAll (takenNames (snakeCase injector.name) plan) plan.types).map Prod.snd =
        plan.types.map (localsOf injector plan).name := (Locals.map_name_ofPlan hdistinct).symm
    rw [hnames, List.mem_map] at hgiven
    obtain ⟨owner, howner, rfl⟩ := hgiven
    exact name_mem_scope hprovided howner

/-- A plan with types that are called like words of the language. -/
def lexicon : Plan where
  inputs := [⟨"Try", .input 0⟩, ⟨"Self", .input 1⟩]
  steps :=
    [("*x/y.Abstract", "Make"), ("Type", "Make"), ("Gen", "Gen"), ("&Do2", "Make")].map fun e =>
      ⟨e.1, .provider { pkg := "lexicon", name := e.2, output := e.1 }⟩
  outputs := ["Gen"]

/-- Of six words two come through, one of them as a pointer to a type of another package.  Two words are in the
table, one is the name of a function that is called, and one has a number of its own. -/
theorem render_meetsKeywords_lexicon :
    ∃ f : Function, render { path := "lexicon" } { name := "Init" } lexicon = .ok f.print ∧
      ∀ word, word ∈ f.scope f.steps ∧ word ∈ keywords ↔ word = "abstract" ∨ word = "try" := by
  have hfunction : function? { path := "lexicon" } { name := "Init" } lexicon =
      .ok (functionOf { path := "lexicon" } { name := "Init" } lexicon) :=
    function?_eq_ok_iff.2 ⟨by decide, by decide, rfl⟩
  obtain ⟨f, hf, -, -, hexactly⟩ := render_meetsKeywords (congrArg (Except.map Function.print) hfunction)
  obtain rfl := eq_functionOf hf
  have hwords : ∀ word ∈ unguarded, word ∉ takenNames (snakeCase "Init") lexicon ∧
      (∃ type ∈ lexicon.types, snakeCase (bareTypeName type) = word) ↔ word = "abstract" ∨ word = "try" := by
    decide +kernel
  have hthere : ∀ word, word = "abstract" ∨ word = "try" → word ∈ unguarded := by
    rintro word (rfl | rfl) <;> decide
  refine ⟨_, congrArg _ hfunction, fun word => ?_⟩
  rw [hexactly (by decide) (by decide) word]
  exact ⟨fun h => (hwords word h.1).1 h.2, fun h => ⟨hthere word h, (hwords word (hthere word h)).2 h⟩⟩

/-- A value of a type `Try` that is passed in and returned has a word of the language as its name. -/
theorem local_named_try :
    ∃ f : Function, render { path := "p" } { name := "Init", inputs := ["Try"], outputs := ["Try"] }
        { inputs := [⟨"Try", .input 0⟩], outputs := ["Try"] } = .ok f.print ∧
      f.params = [("try", "Try")] ∧ "try" ∈ keywords :=
  ⟨functionOf { path := "p" } { name := "Init", inputs := ["Try"], outputs := ["Try"] }
    { inputs := [⟨"Try", .input 0⟩], outputs := ["Try"] }, rfl, by decide +kernel, by decide +kernel⟩

end Emit

end Wiring
