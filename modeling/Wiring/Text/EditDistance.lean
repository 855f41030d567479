/-
**Edit distance.**

The least number of insertions, removals and replacements of single characters that turn one text
into another.  It is computed row by row: a row holds the distances of one beginning of the first
text from every beginning of the second.

Main definitions:

* `Wiring.Text.nextRow` — the row for one more character;
* `Wiring.Text.editDistance` — the distance.
-/

set_option autoImplicit false

namespace Wiring.Text

/-- The rest of the next row.  `left` is the entry just made, `above` the entry over it. -/
def nextRow (c : Char) (left above : Nat) : List Char → List Nat → List Nat
  | d :: ds, up :: row =>
    let here := min (min (up + 1) (left + 1)) (above + if c = d then 0 else 1)
    here :: nextRow c here up ds row
  | _, _ => []

/-- The row after one more character of the first text. -/
def advanceRow (target : List Char) (row : List Nat) (c : Char) : List Nat :=
  match row with
  | [] => []
  | first :: rest => (first + 1) :: nextRow c (first + 1) first target rest

/-- The edit distance of two lists of characters. -/
def distance (source target : List Char) : Nat :=
  (source.foldl (advanceRow target) (List.range (target.length + 1))).getLastD 0

/-- The edit distance of two texts. -/
def editDistance (source target : String) : Nat :=
  distance source.toList target.toList

end Wiring.Text
