/-
**Locals have names of their own.**

A local is named after the type that it holds.  The word for a type does not begin with an
underscore, and its variants differ in the number behind it.  There is one variant more than there
are names taken, so that one of them is free, and the names handed out one after the other are
pairwise distinct.

Main definitions:

* `Wiring.Text.Lettered` — a word that does not begin with an underscore.

Main results:

* `Wiring.Text.lettered_snakeCase` — a word in snake case is such a word;
* `Wiring.Emit.fresh_not_mem` — a fresh name is not taken;
* `Wiring.Emit.nodup_nameAll` — **names handed out are pairwise distinct**;
* `Wiring.Emit.lettered_of_mem_nameAll` — none of them is the blank.
-/

import Mathlib.Data.List.Nodup
import Mathlib.Data.List.Perm.Subperm
import Wiring.Emit.Naming

set_option autoImplicit false

namespace Wiring

namespace Text

/-! ### Words in snake case -/

/-- A word that is not empty and does not begin with an underscore. -/
def Lettered (word : String) : Prop :=
  ∃ c ∈ word.toList.head?, c ≠ '_'

/-- Writing goes on at the end. -/
theorem Lettered.append {word : String} (h : Lettered word) (more : String) :
    Lettered (word ++ more) := by
  obtain ⟨c, hc, hne⟩ := h
  refine ⟨c, ?_, hne⟩
  rw [String.toList_append, List.head?_append, Option.mem_def.1 hc]
  rfl

theorem not_lettered_blank : ¬ Lettered "_" := by
  rintro ⟨c, hc, hne⟩
  exact hne (Option.mem_some.1 hc).symm

/-- A letter or a digit does not turn into an underscore. -/
theorem toLower_ne_underscore {c : Char} (h : c.isAlphanum) : c.toLower ≠ '_' := by
  intro heq
  unfold Char.toLower at heq
  split at heq
  case isTrue hupper =>
    have hval : c.val + ('a'.val - 'A'.val) = '_'.val := congrArg Char.val heq
    have hnat : (c.val.toNat + 32) % 4294967296 = 95 := by simpa using congrArg UInt32.toNat hval
    have hlow : 65 ≤ c.val.toNat := UInt32.le_iff_toNat_le.1 hupper.1
    have hhigh : c.val.toNat ≤ 90 := UInt32.le_iff_toNat_le.1 hupper.2
    omega
  case isFalse =>
    rw [heq] at h
    exact absurd h (by decide)

/-- A part begins only behind a letter or a digit. -/
theorem exists_isAlphanum_of_startsPart {before after : Option Char}
    (h : startsPart before after = true) : ∃ b ∈ before, b.isAlphanum := by
  cases before with
  | none => cases h
  | some b =>
    refine ⟨b, rfl, ?_⟩
    simp only [startsPart, Option.any_some, Bool.or_eq_true, Bool.and_eq_true] at h
    change ((b.isUpper || b.isLower) || b.isDigit) = true
    rcases h with (hlower | hdigit) | ⟨hupper, -⟩
    · rw [hlower, Bool.or_true, Bool.true_or]
    · rw [hdigit, Bool.or_true]
    · rw [hupper, Bool.true_or, Bool.true_or]

/-- The word that is written in reverse never ends in an underscore.  Behind a letter or a digit
something is written already, and only then does an underscore come to stand in front of it. -/
theorem ne_underscore_of_getLast?_snakeRev {name : List Char} {before : Option Char}
    {written : List Char} (hbefore : ∀ b ∈ before, b.isAlphanum → written ≠ [])
    (hlast : ∀ c ∈ written.getLast?, c ≠ '_') :
    ∀ c ∈ (snakeRev before written name).getLast?, c ≠ '_' := by
  induction name generalizing before written with
  | nil => exact hlast
  | cons c rest ih =>
    rw [snakeRev]
    split
    case isTrue hc =>
      refine ih (fun _ _ _ => List.cons_ne_nil _ _) ?_
      split
      case isTrue hgap =>
        obtain ⟨-, hstarts⟩ := Bool.and_eq_true_iff.1 hgap
        obtain ⟨b, hb, halpha⟩ := exists_isAlphanum_of_startsPart hstarts
        have hne : written ≠ [] := hbefore b hb halpha
        rw [List.getLast?_cons_cons, List.getLast?_cons_of_ne_nil hne]
        exact hlast
      case isFalse =>
        cases written with
        | nil =>
          intro d hd
          rw [← Option.mem_some.1 hd]
          exact toLower_ne_underscore hc
        | cons d ds =>
          rw [List.getLast?_cons_cons]
          exact hlast
    case isFalse hc =>
      refine ih (fun b hb halpha => ?_) ?_
      · rw [Option.mem_some.1 hb] at hc
        exact absurd halpha hc
      · split
        case isTrue hgap =>
          have hne : written ≠ [] := of_decide_eq_true (Bool.and_eq_true_iff.1 hgap).1
          rw [List.getLast?_cons_of_ne_nil hne]
          exact hlast
        case isFalse => exact hlast

/-- The parts of a name do not begin with an underscore. -/
theorem ne_underscore_of_head?_snakeChars {name : List Char} {c : Char}
    (h : c ∈ (snakeChars name).head?) : c ≠ '_' := by
  rw [snakeChars, List.head?_reverse] at h
  have hlast : ∀ d ∈ (snakeRev none [] name).getLast?, d ≠ '_' :=
    ne_underscore_of_getLast?_snakeRev nofun nofun
  refine hlast c ?_
  rw [← List.takeWhile_append_dropWhile (p := (· = '_')) (l := snakeRev none [] name),
    List.getLast?_append, Option.mem_def.1 h]
  rfl

/-- **A word in snake case does not begin with an underscore.** -/
theorem lettered_snakeCase (name : String) : Lettered (snakeCase name) := by
  rcases snakeCase_cases name with hfront | ⟨hparts, c, hhead, -⟩
  · exact ⟨'v', by rw [hfront, List.head?_cons]; rfl, by decide⟩
  · exact ⟨c, by rw [hparts]; exact hhead, ne_underscore_of_head?_snakeChars hhead⟩

end Text

namespace Emit

open Text

variable {taken : List String} {types : List TypeName}

/-! ### Fresh names -/

theorem lettered_localBase (type : TypeName) : Lettered (localBase type) := by
  simp only [localBase]
  split
  · exact (lettered_snakeCase _).append _
  · exact lettered_snakeCase _

theorem lettered_variant {base : String} (h : Lettered base) : ∀ n, Lettered (variant base n)
  | 0 => h
  | _ + 1 => h.append _

/-- A number can be read off its digits. -/
theorem eq_of_toString_eq {m n : Nat} (h : toString m = toString n) : m = n := by
  have hdigits : Nat.toDigits 10 m = Nat.toDigits 10 n := String.ofList_injective h
  rw [← Nat.ofDigitChars_toDigits (by omega : 1 < 10) (by omega) (n := m), hdigits,
    Nat.ofDigitChars_toDigits (by omega) (by omega)]

/-- The variants of a name are pairwise distinct. -/
theorem variant_injective (base : String) : Function.Injective (variant base) := by
  rintro (_ | m) (_ | n) h
  · rfl
  · exact absurd (String.append_eq_left_iff.1 h.symm) Nat.repr_ne_empty
  · exact absurd (String.append_eq_left_iff.1 h) Nat.repr_ne_empty
  · have hnumber : m + 2 = n + 2 := eq_of_toString_eq ((String.append_right_inj base).1 h)
    omega

/-- Among one variant more than there are names taken one is free. -/
theorem exists_variant_not_mem (taken : List String) (base : String) :
    ∃ n ∈ List.range (taken.length + 1), variant base n ∉ taken := by
  by_contra! hall
  have hsub : (List.range (taken.length + 1)).map (variant base) ⊆ taken := by
    intro name hname
    obtain ⟨n, hn, rfl⟩ := List.mem_map.1 hname
    exact hall n hn
  have hle := (((List.nodup_range).map (variant_injective base)).subperm hsub).length_le
  rw [List.length_map, List.length_range] at hle
  omega

/-- **A fresh name is not taken.** -/
theorem fresh_not_mem (taken : List String) (base : String) : fresh taken base ∉ taken := by
  obtain ⟨n, hn, hfree⟩ := exists_variant_not_mem taken base
  unfold fresh
  cases hfind : (List.range (taken.length + 1)).find? fun n => !taken.contains (variant base n) with
  | none => simpa [hfree] using List.find?_eq_none.1 hfind n hn
  | some m => simpa using List.find?_some hfind

theorem lettered_fresh {base : String} (h : Lettered base) (taken : List String) :
    Lettered (fresh taken base) :=
  lettered_variant h _

/-! ### Names handed out one after the other -/

/-- Each type is named once, in the order of the list. -/
theorem map_fst_nameAll (taken : List String) (types : List TypeName) :
    (nameAll taken types).map Prod.fst = types := by
  induction types generalizing taken with
  | nil => rfl
  | cons type rest ih => exact congrArg (type :: ·) (ih _)

/-- No name that is taken is handed out. -/
theorem not_mem_taken_of_mem_nameAll {e : TypeName × String} (h : e ∈ nameAll taken types) :
    e.2 ∉ taken := by
  induction types generalizing taken with
  | nil => cases h
  | cons type rest ih =>
    rcases List.mem_cons.1 h with rfl | h
    · exact fresh_not_mem taken _
    · exact fun hmem => ih h (List.mem_cons_of_mem _ hmem)

/-- **The names handed out are pairwise distinct.** -/
theorem nodup_nameAll (taken : List String) (types : List TypeName) :
    ((nameAll taken types).map Prod.snd).Nodup := by
  induction types generalizing taken with
  | nil => exact List.nodup_nil
  | cons type rest ih =>
    refine List.nodup_cons.2 ⟨fun hmem => ?_, ih _⟩
    obtain ⟨e, he, hname⟩ := List.mem_map.1 hmem
    exact not_mem_taken_of_mem_nameAll he (hname ▸ List.mem_cons_self)

theorem lettered_of_mem_nameAll {e : TypeName × String} (h : e ∈ nameAll taken types) :
    Lettered e.2 := by
  induction types generalizing taken with
  | nil => cases h
  | cons type rest ih =>
    rcases List.mem_cons.1 h with rfl | h
    · exact lettered_fresh (lettered_localBase type) taken
    · exact ih h

end Emit

end Wiring
