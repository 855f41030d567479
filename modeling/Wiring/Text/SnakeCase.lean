/-
**Snake case.**

A name such as `NewHTTPServer` or `db-pool` becomes a lower-case word whose parts are joined by
underscores.  A part begins at a capital that follows a small letter or a digit, and at the last
capital of a run when a small letter follows it.  Whatever is neither a letter nor a digit of ASCII
separates parts.

Main definitions:

* `Wiring.Text.startsPart` — where a capital begins a new part;
* `Wiring.Text.snakeCase` — the word.
-/

set_option autoImplicit false

namespace Wiring.Text

/-- Whether a capital begins a new part, given the character in front of it and the one behind. -/
def startsPart (before after : Option Char) : Bool :=
  before.any fun b =>
    b.isLower || b.isDigit || (b.isUpper && after.any Char.isLower)

/-- Writes the word of a name behind what is written so far, all in reverse.  `before` is the
character in front of the rest of the name. -/
def snakeRev (before : Option Char) (written : List Char) : List Char → List Char
  | [] => written
  | c :: rest =>
    if c.isAlphanum then
      let gap := c.isUpper && startsPart before rest.head?
      snakeRev (some c) (c.toLower :: (if gap then '_' :: written else written)) rest
    else
      let gap := written ≠ [] && written.head? ≠ some '_'
      snakeRev (some c) (if gap then '_' :: written else written) rest

/-- The parts of a name in lower case, joined by underscores. -/
def snakeChars (name : List Char) : List Char :=
  ((snakeRev none [] name).dropWhile (· = '_')).reverse

/-- The snake case of a name.  A word that would be empty or begin with a digit is given the letter
`v` in front. -/
def snakeCase (name : String) : String :=
  let word := snakeChars name.toList
  if word.head?.all Char.isDigit then String.ofList ('v' :: '_' :: word) else String.ofList word

/-- The parts of a name stand alone if they begin with something else than a digit. -/
theorem snakeCase_cases (name : String) :
    (snakeCase name).toList = 'v' :: '_' :: snakeChars name.toList ∨
      (snakeCase name).toList = snakeChars name.toList ∧
        ∃ c, (snakeChars name.toList).head? = some c ∧ c.isDigit = false := by
  unfold snakeCase
  cases hhead : (snakeChars name.toList).head? with
  | none => exact .inl (by simp [hhead])
  | some c =>
    cases hdigit : c.isDigit with
    | true => exact .inl (by simp [hhead, hdigit])
    | false => exact .inr ⟨by simp [hhead, hdigit], c, rfl, hdigit⟩

end Wiring.Text
