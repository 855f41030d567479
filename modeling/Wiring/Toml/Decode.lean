/-
**Reading TOML values.**

A value is read as what it should be: a text, a number, a list, one of some words, or a record with
named fields.  A record is written as a table, or as a list of its fields in their order.

A number may be too large to be held.  That only matters where it is looked at, which also happens
to what a table holds under a name that means nothing; what follows the fields in a list is not
looked at.

Main definitions:

* `Wiring.Toml.Value.isHeld` — whether all numbers in a value can be held;
* `Wiring.Toml.Value.text?`, `nat?`, `bool?`, `list?`, `word?` — the readers of values;
* `Wiring.Toml.Value.record?`, `Wiring.Toml.Value.closed?`, `Wiring.Toml.need`,
  `Wiring.Toml.optional`, `Wiring.Toml.withDefault` — records and their fields.
-/

import Wiring.Toml.Scalar

set_option autoImplicit false

namespace Wiring.Toml

/-! ### Numbers that can be held -/

/-- The number that all digits of a float stand for, and the power of ten that goes with it. -/
def decimalParts (body : List Char) : Nat × Int :=
  let (digits, exponent) := body.span fun c => c ≠ 'e' && c ≠ 'E'
  let (whole, fraction) := digits.span (· ≠ '.')
  let fraction := (fraction.drop 1).filter (· ≠ '_')
  let power : Int := digitsValue 10 (unsigned (exponent.drop 1))
  (digitsValue 10 (whole ++ fraction),
    (if exponent[1]? = some '-' then -power else power) - fraction.length)

/-- From this number on a float of 64 bits rounds to infinity. -/
def floatLimit : Nat := Nat.pow 2 1024 - Nat.pow 2 970

/-- Whether a float, without its sign, does not round to infinity.  The limit has 309 digits, so it
is only compared with numbers that have as many before the point. -/
def isFinite (body : List Char) : Bool :=
  let (digits, power) := decimalParts body
  let places : Int := (Nat.toDigits 10 digits).length + power
  digits = 0 || places < 309 ||
    (places = 309 && digits * Nat.pow 10 power.toNat < floatLimit * Nat.pow 10 (-power).toNat)

namespace Value

mutual

/-- Whether all numbers in a value can be held: integers of at most 128 bits, and floats that do not
round to infinity unless they are written as infinite. -/
def isHeld : Value → Bool
  | integer n => -Int.pow 2 127 ≤ n && n < Int.pow 2 128
  | float text =>
    let body := unsigned text.toList
    body = "inf".toList || body = "nan".toList || isFinite body
  | array items => areHeld items
  | table entries => entriesHeld entries
  | _ => true

/-- Whether all numbers in some values can be held. -/
def areHeld : List Value → Bool
  | [] => true
  | item :: rest => item.isHeld && areHeld rest

/-- Whether all numbers in the values of a table can be held. -/
def entriesHeld : List (String × Value) → Bool
  | [] => true
  | (_, value) :: rest => value.isHeld && entriesHeld rest

end

/-! ### Readers -/

/-- A text. -/
def text? : Value → Option String
  | string text => some text
  | _ => none

/-- A truth value. -/
def bool? : Value → Option Bool
  | boolean b => some b
  | _ => none

/-- A number that is not negative and has no more than 64 bits. -/
def nat? : Value → Option Nat
  | integer n => if 0 ≤ n && n < UInt64.size then some n.toNat else none
  | _ => none

/-- A list of what a reader reads. -/
def list? {α : Type} (item? : Value → Option α) : Value → Option (List α)
  | array items => items.mapM item?
  | _ => none

/-- A list of texts. -/
def texts? : Value → Option (List String) :=
  list? text?

/-- Whether a value holds nothing. -/
def isEmpty : Value → Bool
  | array items => items.isEmpty
  | table entries => entries.isEmpty
  | _ => false

/-- One of some words: written as a text, or as the only key of a table, with nothing in it. -/
def word? {α : Type} (ofText? : String → Option α) : Value → Option α
  | string text => ofText? text
  | table [(key, value)] => if value.isEmpty then ofText? key else none
  | _ => none

/-- The fields of a record with the given names.  A date is a record without any of them.  What a
table holds under other names must be held. -/
def record? (names : List String) : Value → Option Entries
  | table entries =>
    if entries.all fun e => names.contains e.1 || e.2.isHeld then some entries else none
  | array items => some (names.zip items)
  | datetime _ => some []
  | _ => none

/-- The fields of a record that is a table without other names than the given ones. -/
def closed? (names : List String) : Value → Option Entries
  | table entries => if entries.all fun e => names.contains e.1 then some entries else none
  | _ => none

/-- A table of what a reader reads. -/
def entries? {α : Type} (item? : Value → Option α) : Value → Option (List (String × α))
  | table entries => entries.mapM fun e => (item? e.2).map fun a => (e.1, a)
  | _ => none

end Value

/-- A field that must be there. -/
def need {α : Type} (entries : Entries) (name : String) (read? : Value → Option α) : Option α :=
  (entries.lookup name).bind read?

/-- A field that may be left out. -/
def optional {α : Type} (entries : Entries) (name : String) (read? : Value → Option α) :
    Option (Option α) :=
  match entries.lookup name with
  | none => some none
  | some value => (read? value).map some

/-- A field that has a value also when it is left out. -/
def withDefault {α : Type} (entries : Entries) (name : String) (read? : Value → Option α)
    (default : α) : Option α :=
  (optional entries name read?).map fun a => a.getD default

end Wiring.Toml
