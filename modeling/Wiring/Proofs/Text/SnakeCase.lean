/-
**Snake case makes words.**

Snake case keeps the letters and digits of ASCII, in lower case and in their order, and writes underscores
between some of them.  An underscore is written in front of a capital only behind the letter or digit that came
before, and for a separator only behind something that is no underscore, so that no two of them stand side by
side; those at the end are taken away.  A word that has this form is written as it stands.

Main definitions:

* `Wiring.Text.Spaced` — no two underscores stand side by side;
* `Wiring.Text.spelled`, `Wiring.Text.lettersOf` — a word without its underscores, and the letters and digits of
  a text in lower case;
* `Wiring.Text.Rendering` — the invariant that ties the end of what is written to the place in the text;
* `Wiring.Text.SnakeOf` — what snake case owes to a text.

Main results:

* `Wiring.Text.spaced_snakeRev`, `Wiring.Text.spelled_snakeRev` — writing keeps underscores apart, and every
  letter;
* `Wiring.Text.snakeChars_of_spaced` — **what has the form is left as it is**;
* `Wiring.Text.snakeCase_spells` — **snake case yields a word of its form for every text**.
-/

import Wiring.Proofs.Emit.Identifiers

set_option autoImplicit false

namespace Wiring.Text

variable {c : Char} {before : Option Char} {name written word : List Char}

/-! ### Letters and underscores -/

/-- No two underscores stand side by side. -/
def Spaced (word : List Char) : Prop :=
  word.IsChain fun a b => ¬(a = '_' ∧ b = '_')

theorem Spaced.cons (h : Spaced word) (hc : c = '_' → word.head? ≠ some '_') : Spaced (c :: word) := by
  refine List.isChain_cons.2 ⟨?_, h⟩
  rintro b hb ⟨hunder, rfl⟩
  exact hc hunder hb

theorem spaced_reverse : Spaced word.reverse ↔ Spaced word := by
  rw [Spaced, List.isChain_reverse, Spaced]
  simp only [and_comm]

/-- A word without its underscores. -/
def spelled (word : List Char) : List Char :=
  word.filter (· ≠ '_')

@[simp] theorem spelled_nil : spelled [] = [] := rfl

@[simp] theorem spelled_underscore : spelled ('_' :: word) = spelled word := rfl

theorem spelled_cons (hc : c ≠ '_') (word : List Char) : spelled (c :: word) = c :: spelled word := by
  simp [spelled, hc]

theorem spelled_reverse (word : List Char) : spelled word.reverse = (spelled word).reverse :=
  List.filter_reverse ..

/-- Underscores in front do not count. -/
theorem spelled_dropWhile (word : List Char) : spelled (word.dropWhile (· = '_')) = spelled word := by
  induction word with
  | nil => rfl
  | cons c rest ih =>
      by_cases hc : c = '_'
      · rw [hc, List.dropWhile_cons_of_pos (by simp), ih, spelled_underscore]
      · rw [List.dropWhile_cons_of_neg (by simpa using hc)]

/-- The letters and digits of a text, in lower case. -/
def lettersOf (name : List Char) : List Char :=
  (name.filter Char.isAlphanum).map Char.toLower

theorem lettersOf_cons (hc : c.isAlphanum) (name : List Char) :
    lettersOf (c :: name) = c.toLower :: lettersOf name := by
  rw [lettersOf, List.filter_cons_of_pos hc, List.map_cons, lettersOf]

theorem lettersOf_cons_of_not (hc : c.isAlphanum = false) (name : List Char) :
    lettersOf (c :: name) = lettersOf name := by
  rw [lettersOf, List.filter_cons_of_neg (by simp [hc]), lettersOf]

theorem lettersOf_eq_nil_iff : lettersOf name = [] ↔ ∀ c ∈ name, c.isAlphanum = false := by
  simp [lettersOf]

/-! ### Writing -/

/-- What is written of the text in front of a place: underscores stand apart, and behind a letter or a digit
its small form has been written last. -/
structure Rendering (before : Option Char) (written : List Char) : Prop where
  spaced : Spaced written
  last : ∀ b ∈ before, b.isAlphanum → written.head? = some b.toLower

/-- A letter or a digit is written in its small form, behind an underscore if a part begins there. -/
theorem Rendering.letter (h : Rendering before written) (hc : c.isAlphanum) (after : Option Char) :
    Rendering (some c)
      (c.toLower :: if c.isUpper && startsPart before after then '_' :: written else written) := by
  refine ⟨Spaced.cons ?_ fun hunder => absurd hunder (toLower_ne_underscore hc), ?_⟩
  · split
    case isTrue hgap =>
      obtain ⟨b, hb, halpha⟩ := exists_isAlphanum_of_startsPart (Bool.and_eq_true_iff.1 hgap).2
      refine h.spaced.cons fun _ hhead => ?_
      rw [h.last b hb halpha, Option.some_inj] at hhead
      exact toLower_ne_underscore halpha hhead
    case isFalse => exact h.spaced
  · intro b hb _
    rw [Option.mem_some.1 hb]
    rfl

/-- Anything else is written as an underscore, but not behind another one. -/
theorem Rendering.separator (h : Rendering before written) (hc : c.isAlphanum = false) :
    Rendering (some c)
      (if written ≠ [] && written.head? ≠ some '_' then '_' :: written else written) := by
  refine ⟨?_, ?_⟩
  · split
    case isTrue hgap => exact h.spaced.cons fun _ => of_decide_eq_true (Bool.and_eq_true_iff.1 hgap).2
    case isFalse => exact h.spaced
  · intro b hb halpha
    rw [← Option.mem_some.1 hb, hc] at halpha
    cases halpha

/-- Underscores stand apart in all that is written. -/
theorem spaced_snakeRev (h : Rendering before written) : Spaced (snakeRev before written name) := by
  induction name generalizing before written with
  | nil => exact h.spaced
  | cons c rest ih =>
      rw [snakeRev]
      cases hc : c.isAlphanum with
      | true => exact ih (h.letter hc rest.head?)
      | false => exact ih (h.separator hc)

/-- Without its underscores, what is written is the letters and digits. -/
theorem spelled_snakeRev (before : Option Char) (written name : List Char) :
    spelled (snakeRev before written name) = (lettersOf name).reverse ++ spelled written := by
  induction name generalizing before written with
  | nil => rfl
  | cons c rest ih =>
      have hgap : ∀ gap : Bool, spelled (if gap then '_' :: written else written) = spelled written := by
        intro gap
        cases gap <;> rfl
      rw [snakeRev]
      cases hc : c.isAlphanum with
      | true =>
          rw [if_pos rfl, ih, spelled_cons (toLower_ne_underscore hc), hgap, lettersOf_cons hc,
            List.reverse_cons, List.append_assoc, List.singleton_append]
      | false => rw [if_neg Bool.false_ne_true, ih, hgap, lettersOf_cons_of_not hc]

/-! ### The parts of a name -/

theorem rendering_nil : Rendering none [] :=
  ⟨List.isChain_nil, nofun⟩

theorem spelled_snakeChars (name : List Char) : spelled (snakeChars name) = lettersOf name := by
  rw [snakeChars, spelled_reverse, spelled_dropWhile, spelled_snakeRev, spelled_nil, List.append_nil,
    List.reverse_reverse]

theorem spaced_snakeChars (name : List Char) : Spaced (snakeChars name) := by
  rw [snakeChars, spaced_reverse]
  exact (spaced_snakeRev rendering_nil).suffix (List.dropWhile_suffix _)

theorem ne_underscore_of_getLast?_snakeChars (h : c ∈ (snakeChars name).getLast?) : c ≠ '_' := by
  have hnot := List.head?_dropWhile_not (· = '_') (snakeRev none [] name)
  rw [snakeChars, List.getLast?_reverse] at h
  rw [Option.mem_def.1 h] at hnot
  simpa using hnot

/-- The parts begin with the first of the letters and digits. -/
theorem head?_snakeChars (name : List Char) : (snakeChars name).head? = (lettersOf name).head? := by
  rw [← spelled_snakeChars]
  cases hword : snakeChars name with
  | nil => rfl
  | cons c rest =>
      have hc : c ≠ '_' := ne_underscore_of_head?_snakeChars (by rw [hword]; rfl)
      rw [spelled_cons hc, List.head?_cons, List.head?_cons]

/-! ### What has the form already -/

theorem eq_underscore_or_of_isWordChar (h : isWordChar c) :
    c = '_' ∨ c.isAlphanum ∧ c.isUpper = false := by
  rw [isWordChar, Bool.or_eq_true, Bool.or_eq_true, decide_eq_true_eq] at h
  change _ ∨ ((c.isUpper || c.isLower) || c.isDigit) = true ∧ _
  have hcapital : c.isUpper ↔ _ := isUpper_iff
  rcases h with (hlower | hdigit) | hunder
  · have := isLower_iff.1 hlower
    exact .inr ⟨by simp [hlower], by rw [← Bool.not_eq_true, hcapital]; omega⟩
  · have := isDigit_iff.1 hdigit
    exact .inr ⟨by simp [hdigit], by rw [← Bool.not_eq_true, hcapital]; omega⟩
  · exact .inl hunder

/-- Words whose underscores stand apart are written as they are, if they do not begin with an underscore
where nothing or an underscore has been written. -/
theorem snakeRev_of_spaced (hchars : ∀ c ∈ word, isWordChar c) (hspaced : Spaced word)
    (hjoin : word.head? = some '_' → written ≠ [] ∧ written.head? ≠ some '_') :
    snakeRev before written word = word.reverse ++ written := by
  induction word generalizing before written with
  | nil => rfl
  | cons c rest ih =>
      obtain ⟨hc, hrest⟩ := List.forall_mem_cons.1 hchars
      obtain ⟨hnext, hspaced⟩ := List.isChain_cons.1 hspaced
      have hstep : ∀ {next}, snakeRev next (c :: written) rest = (c :: rest).reverse ++ written := by
        intro next
        rw [List.reverse_cons, List.append_assoc, List.singleton_append]
        refine ih hrest hspaced fun hhead => ⟨List.cons_ne_nil _ _, fun hunder => ?_⟩
        exact hnext '_' hhead ⟨Option.some_inj.1 hunder, rfl⟩
      rw [snakeRev]
      rcases eq_underscore_or_of_isWordChar hc with rfl | ⟨halpha, hsmall⟩
      · obtain ⟨hwritten, hhead⟩ := hjoin rfl
        simp only [hwritten, hhead, ne_eq, not_false_eq_true, decide_true, Bool.and_self, if_true]
        exact hstep
      · rw [if_pos halpha, toLower_eq_self hsmall, hsmall, Bool.false_and]
        exact hstep

/-- **What has the form is left as it is.** -/
theorem snakeChars_of_spaced (hchars : ∀ c ∈ word, isWordChar c) (hspaced : Spaced word)
    (hhead : ∀ c ∈ word.head?, c ≠ '_') (hlast : ∀ c ∈ word.getLast?, c ≠ '_') :
    snakeChars word = word := by
  rw [snakeChars, snakeRev_of_spaced hchars hspaced fun hunder => absurd rfl (hhead _ hunder),
    List.append_nil]
  cases hrev : word.reverse with
  | nil => rw [← List.reverse_reverse word, hrev]; rfl
  | cons c rest =>
      have hc : c ≠ '_' := hlast c (by rw [List.getLast?_eq_head?_reverse, hrev]; rfl)
      rw [List.dropWhile_cons_of_neg (by simpa using hc), ← hrev, List.reverse_reverse]

/-! ### The snake case of a text -/

/-- What stands in front of the parts: a letter, if the first of the letters and digits is a digit or there is
none. -/
def frontOf (name : List Char) : List Char :=
  if (lettersOf name).head?.all Char.isDigit then ['v', '_'] else []

theorem toList_snakeCase (name : String) :
    (snakeCase name).toList = frontOf name.toList ++ snakeChars name.toList := by
  simp only [snakeCase, frontOf, ← head?_snakeChars]
  split
  case isTrue => rw [String.toList_ofList]; rfl
  case isFalse => rw [String.toList_ofList]; rfl

theorem spaced_snakeCase (name : String) : Spaced (snakeCase name).toList := by
  rw [toList_snakeCase, frontOf]
  split
  case isTrue =>
    refine Spaced.cons (Spaced.cons (spaced_snakeChars _) fun _ hhead => ?_) fun hv => absurd hv (by decide)
    exact ne_underscore_of_head?_snakeChars hhead rfl
  case isFalse => exact spaced_snakeChars _

/-- Without letters and digits nothing but what stands in front is written. -/
theorem snakeCase_of_blank {name : String} (h : ∀ c ∈ name.toList, c.isAlphanum = false) :
    snakeCase name = "v_" := by
  have hletters : lettersOf name.toList = [] := lettersOf_eq_nil_iff.2 h
  have hparts : snakeChars name.toList = [] := by
    rw [← List.head?_eq_none_iff, head?_snakeChars, hletters, List.head?_nil]
  rw [← String.toList_inj, toList_snakeCase, hparts, frontOf, hletters]
  rfl

/-- With a letter or a digit the word does not end in an underscore. -/
theorem ne_underscore_of_getLast?_snakeCase {name : String} (h : ∃ c ∈ name.toList, c.isAlphanum) :
    ∀ c ∈ (snakeCase name).toList.getLast?, c ≠ '_' := by
  have hparts : snakeChars name.toList ≠ [] := by
    intro hnil
    obtain ⟨c, hc, halpha⟩ := h
    have hletters : lettersOf name.toList = [] := by rw [← spelled_snakeChars, hnil, spelled_nil]
    rw [lettersOf_eq_nil_iff.1 hletters c hc] at halpha
    cases halpha
  intro c hc
  rw [toList_snakeCase, List.getLast?_append_of_ne_nil _ hparts] at hc
  exact ne_underscore_of_getLast?_snakeChars hc

/-- A word of the form that begins with a letter and does not end in an underscore is its own snake case. -/
theorem snakeCase_of_isWord {word : String} (h : IsWord word) (hspaced : Spaced word.toList)
    (hlast : ∀ c ∈ word.toList.getLast?, c ≠ '_') : snakeCase word = word := by
  obtain ⟨c, hc, hlower⟩ := h.head
  have hhead : ∀ d ∈ word.toList.head?, d ≠ '_' := by
    rintro d hd rfl
    rw [← Option.mem_unique hd hc] at hlower
    exact absurd hlower (by decide)
  have hparts : snakeChars word.toList = word.toList := snakeChars_of_spaced h.chars hspaced hhead hlast
  have hdigit : c.isDigit = false := by
    by_contra hdigit
    rw [isLower_eq_false_of_isDigit (Bool.not_eq_false _ ▸ hdigit)] at hlower
    cases hlower
  simp only [snakeCase, hparts, Option.mem_def.1 hc, Option.all_some, hdigit, Bool.false_eq_true, if_false,
    String.ofList_toList]

/-- What snake case owes to a text. -/
structure SnakeOf (name word : String) : Prop where
  /-- Small letters, digits and underscores, and a letter first. -/
  isWord : IsWord word
  spaced : Spaced word.toList
  ending : word.toList.getLast? = some '_' → word = "v_"
  blank : word = "v_" ↔ ∀ c ∈ name.toList, c.isAlphanum = false
  /-- Behind what may stand in front, the word spells the letters and digits of the text. -/
  spelling : ∃ parts, word.toList = frontOf name.toList ++ parts ∧ spelled parts = lettersOf name.toList
  /-- A word is left as it is, but for the one that stands for nothing. -/
  fixed : snakeCase word = word ↔ ∃ c ∈ name.toList, c.isAlphanum

/-- **Snake case yields a word of its form for every text**, which spells the letters and digits of the text. -/
theorem snakeCase_spells (name : String) : SnakeOf name (snakeCase name) := by
  have hlettered : (∃ c ∈ name.toList, c.isAlphanum) ↔ ¬ ∀ c ∈ name.toList, c.isAlphanum = false := by simp
  have hblank : snakeCase name = "v_" ↔ ∀ c ∈ name.toList, c.isAlphanum = false := by
    refine ⟨fun hword => ?_, snakeCase_of_blank⟩
    by_contra hsome
    exact ne_underscore_of_getLast?_snakeCase (hlettered.2 hsome) '_' (by rw [hword]; rfl) rfl
  have hlast : snakeCase name ≠ "v_" → ∀ c ∈ (snakeCase name).toList.getLast?, c ≠ '_' := fun hword =>
    ne_underscore_of_getLast?_snakeCase (hlettered.2 (mt hblank.2 hword))
  constructor
  case isWord => exact isWord_snakeCase name
  case spaced => exact spaced_snakeCase name
  case ending =>
    intro hunder
    by_contra hword
    exact hlast hword '_' hunder rfl
  case blank => exact hblank
  case spelling => exact ⟨_, toList_snakeCase name, spelled_snakeChars _⟩
  case fixed =>
    rw [hlettered, ← hblank]
    constructor
    · intro hfixed hword
      rw [hword] at hfixed
      exact absurd hfixed (by decide)
    · exact fun hword => snakeCase_of_isWord (isWord_snakeCase name) (spaced_snakeCase name) (hlast hword)

example : snakeCase "OAuth2Token" = "o_auth2_token" := by decide

end Wiring.Text
