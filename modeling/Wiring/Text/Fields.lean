/-
**Fields between separators.**

A text is cut at every occurrence of a separating character and put together again.

Main definitions:

* `Wiring.Text.fields` — the pieces between the separators, at least one;
* `Wiring.Text.cutLast?` — the two sides of the last separator;
* `Wiring.Text.join` — the pieces with a separating text between them.

Main results:

* `Wiring.Text.cut_eq_splitOn` — cutting is that of the core library;
* `Wiring.Text.intercalate_cut` — cutting loses nothing.
-/

set_option autoImplicit false

namespace Wiring.Text

section Cut

variable {α : Type} [DecidableEq α]

/-- Cuts a list, of characters or of bytes, at every separator. -/
def cut (sep : α) : List α → List (List α)
  | [] => [[]]
  | c :: rest =>
    if c = sep then [] :: cut sep rest
    else match cut sep rest with
      | [] => [[c]]
      | piece :: more => (c :: piece) :: more

theorem cut_eq_splitOn (sep : α) (cs : List α) : cut sep cs = cs.splitOn sep := by
  induction cs with
  | nil => rw [cut, List.splitOn_nil]
  | cons c rest ih =>
      rw [cut, ih, List.splitOn_cons_eq_if_modifyHead]
      by_cases h : c = sep
      · rw [if_pos h, if_pos (beq_iff_eq.2 h)]
      · rw [if_neg h, if_neg (mt beq_iff_eq.1 h)]
        cases hrest : rest.splitOn sep with
        | nil => exact absurd hrest (List.splitOn_ne_nil _ _)
        | cons piece more => rfl

theorem cut_ne_nil (sep : α) (cs : List α) : cut sep cs ≠ [] := by
  rw [cut_eq_splitOn]
  exact List.splitOn_ne_nil _ _

/-- The pieces joined by the separator give the list back. -/
theorem intercalate_cut (sep : α) (cs : List α) : [sep].intercalate (cut sep cs) = cs := by
  rw [cut_eq_splitOn, List.intercalate_splitOn]

end Cut

/-- The pieces of a text between the separators. -/
def fields (sep : Char) (s : String) : List String :=
  (cut sep s.toList).map String.ofList

/-- The texts one after the other, with `sep` between them. -/
def join (sep : String) (texts : List String) : String :=
  sep.intercalate texts

/-- Cuts a list of characters at its last separator, if it has one. -/
def cutLast? (sep : Char) : List Char → Option (List Char × List Char)
  | [] => none
  | c :: rest =>
    match cutLast? sep rest with
    | some (before, after) => some (c :: before, after)
    | none => if c = sep then some ([], rest) else none

/-- Whether a text starts with another one, and what follows it there. -/
def afterStart? (start s : String) : Option String :=
  (start.toList.isPrefixOf? s.toList).map String.ofList

/-- Whether a text ends with another one, and what stands before it there. -/
def beforeEnd? (ending s : String) : Option String :=
  (ending.toList.isSuffixOf? s.toList).map String.ofList

/-- What follows the last separator, or the whole text if it has none. -/
def lastField (sep : Char) (s : String) : String :=
  ((fields sep s).getLast?).getD s

end Wiring.Text
