/-
**Blank characters.**

The characters that Unicode gives the property `White_Space`, and the removal of such characters
at the ends of a text.

Main definitions:

* `Wiring.Text.isBlank` — the property;
* `Wiring.Text.trimStart`, `Wiring.Text.trimEnd`, `Wiring.Text.trim` — the removal.

Main results:

* `Wiring.Text.isBlank_of_isWhitespace` — every character that the core library calls white space
  is blank.
-/

set_option autoImplicit false

namespace Wiring.Text

/-- The ranges of code points that are blank, both ends included. -/
def blankRanges : List (Nat × Nat) :=
  [(0x9, 0xD), (0x20, 0x20), (0x85, 0x85), (0xA0, 0xA0), (0x1680, 0x1680), (0x2000, 0x200A),
    (0x2028, 0x2029), (0x202F, 0x202F), (0x205F, 0x205F), (0x3000, 0x3000)]

/-- Whether a character is white space in the sense of Unicode. -/
def isBlank (c : Char) : Bool :=
  blankRanges.any fun r => r.1 ≤ c.toNat && c.toNat ≤ r.2

theorem isBlank_of_isWhitespace (c : Char) (h : c.isWhitespace = true) : isBlank c = true := by
  simp only [Char.isWhitespace, Bool.or_eq_true, decide_eq_true_eq] at h
  rcases h with ((h | h) | h) | h <;> subst h <;> decide

/-- Drops the characters at the end that pass a test. -/
def dropEndWhile (p : Char → Bool) (cs : List Char) : List Char :=
  (cs.reverse.dropWhile p).reverse

/-- Removes the blanks in front. -/
def trimStart (s : String) : String :=
  String.ofList (s.toList.dropWhile isBlank)

/-- Removes the blanks at the end. -/
def trimEnd (s : String) : String :=
  String.ofList (dropEndWhile isBlank s.toList)

/-- Removes the blanks on both sides. -/
def trim (s : String) : String :=
  trimEnd (trimStart s)

/-- Whether a text holds nothing but blanks. -/
def isAllBlank (s : String) : Bool :=
  s.toList.all isBlank

/-- Replaces the capital letters of ASCII by their small forms. -/
def lower (s : String) : String :=
  String.ofList (s.toList.map Char.toLower)

end Wiring.Text
