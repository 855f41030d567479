/-
**Numbers, dates and truth values of TOML.**

A scalar is a run of characters whose shape says what it is.  The readers here take the whole run
and refuse any other shape.

Main definitions:

* `Wiring.Toml.integer?`, `Wiring.Toml.isFloat`, `Wiring.Toml.isDatetime` — the shapes;
* `Wiring.Toml.scalar?` — the value of a run.
-/

import Wiring.Toml.Value

set_option autoImplicit false

namespace Wiring.Toml

/-- Digits that pass a test, at least one, with single underscores between them. -/
def isDigitRun (ok : Char → Bool) : List Char → Bool
  | [] => false
  | [c] => ok c
  | c :: '_' :: d :: rest => ok c && isDigitRun ok (d :: rest)
  | c :: d :: rest => ok c && isDigitRun ok (d :: rest)

/-- The value of a hexadecimal digit, of either case. -/
def digitValue (c : Char) : Nat :=
  if c.isDigit then c.toNat - 48
  else if 'a' ≤ c ∧ c ≤ 'f' then c.toNat - 87
  else if 'A' ≤ c ∧ c ≤ 'F' then c.toNat - 55
  else 0

/-- Whether a character is a hexadecimal digit. -/
def isHexDigit (c : Char) : Bool :=
  c.isDigit || ('a' ≤ c && c ≤ 'f') || ('A' ≤ c && c ≤ 'F')

/-- The number that digits stand for, whatever underscores are between them. -/
def digitsValue (base : Nat) (cs : List Char) : Nat :=
  (cs.filter (· ≠ '_')).foldl (fun n c => base * n + digitValue c) 0

/-- Decimal digits that do not start with a zero, or a zero alone. -/
def isDecimal (cs : List Char) : Bool :=
  isDigitRun Char.isDigit cs && (cs.head? ≠ some '0' || cs.length = 1)

/-- Takes the sign off a number. -/
def unsigned : List Char → List Char
  | '+' :: rest => rest
  | '-' :: rest => rest
  | cs => cs

/-- The number of digits in a base, if they are such digits. -/
def inBase? (base : Nat) (ok : Char → Bool) (cs : List Char) : Option Int :=
  if isDigitRun ok cs then some (digitsValue base cs) else none

/-- An integer in decimal, hexadecimal, octal or binary form.  Only decimal ones have a sign. -/
def integer? (cs : List Char) : Option Int :=
  match cs with
  | '0' :: 'x' :: digits => inBase? 16 isHexDigit digits
  | '0' :: 'o' :: digits => inBase? 8 (fun c => '0' ≤ c && c ≤ '7') digits
  | '0' :: 'b' :: digits => inBase? 2 (fun c => c = '0' || c = '1') digits
  | cs =>
    if isDecimal (unsigned cs) then
      let n : Int := digitsValue 10 (unsigned cs)
      some (if cs.head? = some '-' then -n else n)
    else none

/-- What follows the whole part of a float: a fraction, an exponent, or both. -/
def isFloatTail : List Char → Bool
  | '.' :: rest =>
    let (fraction, exponent) := rest.span fun c => c ≠ 'e' && c ≠ 'E'
    isDigitRun Char.isDigit fraction &&
      (exponent = [] || isDigitRun Char.isDigit (unsigned (exponent.drop 1)))
  | _ :: exponent => isDigitRun Char.isDigit (unsigned exponent)
  | [] => false

/-- Whether a run is a float. -/
def isFloat (cs : List Char) : Bool :=
  let body := unsigned cs
  let (whole, tail) := body.span fun c => c ≠ '.' && c ≠ 'e' && c ≠ 'E'
  body = "inf".toList || body = "nan".toList || (isDecimal whole && isFloatTail tail)

/-- The number that some digits stand for, if there are exactly so many. -/
def fixedDigits? (count : Nat) (cs : List Char) : Option (Nat × List Char) :=
  let digits := cs.take count
  if digits.length = count && digits.all Char.isDigit then
    some (digitsValue 10 digits, cs.drop count)
  else none

/-- The number of days of a month. -/
def daysIn (year month : Nat) : Nat :=
  if month = 2 then
    if (year % 4 = 0 && year % 100 ≠ 0) || year % 400 = 0 then 29 else 28
  else if [4, 6, 9, 11].contains month then 30
  else 31

/-- What follows a date, if a run starts with one. -/
def afterDate? (cs : List Char) : Option (List Char) := do
  let (year, cs) ← fixedDigits? 4 cs
  let '-' :: cs := cs | none
  let (month, cs) ← fixedDigits? 2 cs
  let '-' :: cs := cs | none
  let (day, cs) ← fixedDigits? 2 cs
  if 1 ≤ month && month ≤ 12 && 1 ≤ day && day ≤ daysIn year month then some cs else none

/-- What follows the seconds of a time, which may be left out and may have a fraction. -/
def afterSeconds? : List Char → Option (List Char)
  | ':' :: cs => do
    let (second, cs) ← fixedDigits? 2 cs
    if second > 60 then none
    else match cs with
    | '.' :: fraction =>
      let (digits, rest) := fraction.span Char.isDigit
      if digits = [] then none else some rest
    | _ => some cs
  | cs => some cs

/-- What follows a time, if a run starts with one. -/
def afterTime? (cs : List Char) : Option (List Char) := do
  let (hour, cs) ← fixedDigits? 2 cs
  let ':' :: cs := cs | none
  let (minute, cs) ← fixedDigits? 2 cs
  if hour ≤ 23 && minute ≤ 59 then afterSeconds? cs else none

/-- Whether a run is an offset from universal time. -/
def isOffset (cs : List Char) : Bool :=
  match cs with
  | ['Z'] | ['z'] => true
  | sign :: rest =>
    (sign = '+' || sign = '-') && match fixedDigits? 2 rest with
      | some (hour, ':' :: rest) =>
        match fixedDigits? 2 rest with
        | some (minute, []) => hour ≤ 23 && minute ≤ 59
        | _ => false
      | _ => false
  | [] => false

/-- Whether a run is a date, a time, or both with or without an offset. -/
def isDatetime (cs : List Char) : Bool :=
  match afterDate? cs with
  | some [] => true
  | some (sep :: rest) =>
    (sep = 'T' || sep = 't' || sep = ' ') && match afterTime? rest with
      | some [] => true
      | some tail => isOffset tail
      | none => false
  | none => afterTime? cs = some []

/-- The value of a run of characters. -/
def scalar? (cs : List Char) : Option Value :=
  if cs = "true".toList then some (.boolean true)
  else if cs = "false".toList then some (.boolean false)
  else match integer? cs with
  | some n => some (.integer n)
  | none =>
    if isFloat cs then some (.float (String.ofList cs))
    else if isDatetime cs then some (.datetime (String.ofList cs))
    else none

end Wiring.Toml
