/-
**Quoted texts.**

A text between double quotes, with backslashes in front of what would end it or not be seen.

Main definitions:

* `Wiring.Text.escape` — the form of one character;
* `Wiring.Text.quote` — the quoted text.
-/

import Wiring.Digest
import Wiring.Text.Unseen

set_option autoImplicit false

namespace Wiring.Text

/-- The hexadecimal digits of a number, at least one. -/
def hexDigits (n : Nat) : List Char :=
  if n < 16 then [Digest.hexDigit n] else hexDigits (n / 16) ++ [Digest.hexDigit (n % 16)]

/-- The form of a character between quotes.  Characters that are not seen are given by their
numbers. -/
def escape (c : Char) : List Char :=
  if c = '"' then ['\\', '"']
  else if c = '\\' then ['\\', '\\']
  else if c = '\n' then ['\\', 'n']
  else if c = '\r' then ['\\', 'r']
  else if c = '\t' then ['\\', 't']
  else if c.toNat = 0 then ['\\', '0']
  else if isUnseen c then ['\\', 'u', '\x7b'] ++ hexDigits c.toNat ++ ['\x7d']
  else [c]

/-- A text between double quotes. -/
def quote (s : String) : String :=
  String.ofList ('"' :: s.toList.flatMap escape ++ ['"'])

end Wiring.Text
