/-
**JSON.**

Values of JSON and their two texts: on one line without blanks, and over several lines with two
blanks for each level.

Main definitions:

* `Wiring.Json` — a value; the keys of an object keep their order;
* `Wiring.Json.compact`, `Wiring.Json.pretty` — its texts.
-/

import Wiring.Text.Fields
import Wiring.Digest

set_option autoImplicit false

namespace Wiring

/-- A value of JSON.  All its numbers are whole and not negative. -/
inductive Json where
  | null
  | bool (b : Bool)
  | num (n : Nat)
  | str (s : String)
  | arr (items : List Json)
  | obj (fields : List (String × Json))
deriving Inhabited

namespace Json

/-- Four hexadecimal digits for a small number. -/
def unicodeEscape (n : Nat) : List Char :=
  ['\\', 'u', '0', '0', Digest.hexDigit (n / 16), Digest.hexDigit (n % 16)]

/-- The form of a character between quotes. -/
def escape (c : Char) : List Char :=
  if c = '"' then ['\\', '"']
  else if c = '\\' then ['\\', '\\']
  else if c = '\n' then ['\\', 'n']
  else if c = '\r' then ['\\', 'r']
  else if c = '\t' then ['\\', 't']
  else if c.toNat = 0x08 then ['\\', 'b']
  else if c.toNat = 0x0C then ['\\', 'f']
  else if c.toNat < 0x20 then unicodeEscape c.toNat
  else [c]

/-- A text between quotes. -/
def quote (s : String) : String :=
  String.ofList ('"' :: s.toList.flatMap escape ++ ['"'])

/-- A line break and the blanks of a level. -/
def lineBreak (level : Nat) : String :=
  String.ofList ('\n' :: List.replicate (2 * level) ' ')

mutual

/-- The text on one line. -/
def compact : Json → String
  | null => "null"
  | bool b => if b then "true" else "false"
  | num n => toString n
  | str s => quote s
  | arr items => "[" ++ Text.join "," (compactItems items) ++ "]"
  | obj fields => "\x7b" ++ Text.join "," (compactFields fields) ++ "\x7d"

/-- The texts of items on one line. -/
def compactItems : List Json → List String
  | [] => []
  | item :: rest => item.compact :: compactItems rest

/-- The texts of fields on one line. -/
def compactFields : List (String × Json) → List String
  | [] => []
  | (key, value) :: rest => (quote key ++ ":" ++ value.compact) :: compactFields rest

end

mutual

/-- The text over several lines, from a given level on. -/
def prettyAt (level : Nat) : Json → String
  | arr (item :: rest) =>
    "[" ++ lineBreak (level + 1) ++
      Text.join ("," ++ lineBreak (level + 1)) (prettyItems (level + 1) (item :: rest)) ++
      lineBreak level ++ "]"
  | obj (field :: rest) =>
    "\x7b" ++ lineBreak (level + 1) ++
      Text.join ("," ++ lineBreak (level + 1)) (prettyFields (level + 1) (field :: rest)) ++
      lineBreak level ++ "\x7d"
  | other => other.compact

/-- The texts of items over several lines. -/
def prettyItems (level : Nat) : List Json → List String
  | [] => []
  | item :: rest => item.prettyAt level :: prettyItems level rest

/-- The texts of fields over several lines. -/
def prettyFields (level : Nat) : List (String × Json) → List String
  | [] => []
  | (key, value) :: rest =>
    (quote key ++ ": " ++ value.prettyAt level) :: prettyFields level rest

end

/-- The text over several lines. -/
def pretty (j : Json) : String :=
  j.prettyAt 0

/-- An array of texts. -/
def strs (texts : List String) : Json :=
  arr (texts.map str)

/-- A text, or null where there is none. -/
def ofText? (text : Option String) : Json :=
  text.elim null str

end Json

end Wiring
