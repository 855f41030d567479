/-
**Strings of TOML.**

A string stands between quotes, single or double, one of each or three.  Between double quotes a
backslash gives the next characters another meaning.

Main definitions:

* `Wiring.Toml.lineBody`, `Wiring.Toml.blockBody` — what stands before the closing quotes;
* `Wiring.Toml.unescape` — the meaning of what stands between double quotes;
* `Wiring.Toml.string?` — the meaning of a string and what follows it.
-/

import Wiring.Toml.Scalar

set_option autoImplicit false

namespace Wiring.Toml

/-- Puts characters in front of a body, if there is one. -/
def before (front : List Char) (read : Option (List Char) × List Char) :
    Option (List Char) × List Char :=
  (read.1.map (front ++ ·), read.2)

/-- What stands before the closing quote of a string of one line, and what follows the quote.  A
string without its closing quote has no body and ends with its line. -/
def lineBody (quote : Char) : List Char → Option (List Char) × List Char
  | [] => (none, [])
  | [c] => if c = quote then (some [], []) else (none, if c = '\n' then [c] else [])
  | c :: d :: rest =>
    if c = quote then (some [], d :: rest)
    else if c = '\n' then (none, c :: d :: rest)
    else if c = '\\' && quote = '"' && (d = '"' || d = '\\') then
      before [c, d] (lineBody quote rest)
    else before [c] (lineBody quote (d :: rest))

/-- What stands before the closing quotes of a string of several lines, and what follows them.  Up
to two further quotes right before the closing ones belong to the string.  A string without closing
quotes has no body and takes everything. -/
def blockBody (quote : Char) : List Char → Option (List Char) × List Char
  | [] => (none, [])
  | c :: rest =>
    if c = quote then
      let count := ((c :: rest).takeWhile (· = quote)).length
      if 3 ≤ count then
        (some (List.replicate (min count 5 - 3) quote), (c :: rest).drop (min count 5))
      else before [c] (blockBody quote rest)
    else if c = '\\' && quote = '"' then
      match rest with
      | [] => (none, [])
      | d :: rest => before [c, d] (blockBody quote rest)
    else before [c] (blockBody quote rest)

/-- Whether a character may stand in a line as it is. -/
def isPlain (c : Char) : Bool :=
  c = '\t' || (0x20 ≤ c.toNat && c.toNat ≠ 0x7F)

/-- Whether every character may stand in a text of several lines. -/
def isPlainBlock : List Char → Bool
  | [] => true
  | '\r' :: '\n' :: rest => isPlainBlock rest
  | c :: rest => (c = '\n' || isPlain c) && isPlainBlock rest

/-- The meaning of a character after a backslash, where it stands for one other character. -/
def simpleEscape? (c : Char) : Option Char :=
  [('b', '\x08'), ('t', '\t'), ('n', '\n'), ('f', '\x0C'), ('r', '\r'), ('e', '\x1B'), ('"', '"'),
    ('\\', '\\')].lookup c

/-- The number of hexadecimal digits that follow a character after a backslash. -/
def escapeWidth? (c : Char) : Option Nat :=
  [('x', 2), ('u', 4), ('U', 8)].lookup c

/-- The character with a number, if it has one. -/
def charOf? (n : Nat) : Option Char :=
  if n.isValidChar then some (Char.ofNat n) else none

/-- The character that hexadecimal digits stand for, if there are exactly so many. -/
def numbered? (width : Nat) (cs : List Char) : Option Char :=
  let digits := cs.take width
  if digits.length = width && digits.all isHexDigit then charOf? (digitsValue 16 digits) else none

/-- Whether a character is a blank inside a line. -/
def isSpace (c : Char) : Bool :=
  c = ' ' || c = '\t'

/-- Whether a character is a blank or ends a line. -/
def isGap (c : Char) : Bool :=
  isSpace c || c = '\n' || c = '\r'

/-- Whether the rest of a line holds nothing but blanks. -/
def endsLine (cs : List Char) : Bool :=
  let rest := cs.dropWhile isSpace
  rest.head? = some '\n' || rest.take 2 = ['\r', '\n']

/-- The meaning of what stands between double quotes.  In a text of several lines a backslash at the
end of a line takes the line break and all blanks after it away. -/
def unescape (block : Bool) : List Char → Option (List Char)
  | [] => some []
  | c :: rest =>
    if c ≠ '\\' then (unescape block rest).map (c :: ·)
    else if block && endsLine rest then unescape block (rest.dropWhile isGap)
    else match rest with
    | [] => none
    | d :: more =>
      match simpleEscape? d with
      | some e => (unescape block more).map (e :: ·)
      | none =>
        match escapeWidth? d with
        | none => none
        | some width =>
          match numbered? width more with
          | none => none
          | some e => (unescape block (more.drop width)).map (e :: ·)
termination_by cs => cs.length
decreasing_by
  · exact Nat.lt_succ_self _
  · exact Nat.lt_succ_of_le (List.dropWhile_sublist _).length_le
  · simp only [List.length_cons]
    omega
  · simp only [List.length_cons, List.length_drop]
    omega

/-- A line break right after the opening quotes does not count. -/
def dropFirstBreak : List Char → List Char
  | '\n' :: rest => rest
  | '\r' :: '\n' :: rest => rest
  | cs => cs

/-- The meaning of the body of a string of one line. -/
def lineMeaning? (quote : Char) (body : List Char) : Option String := do
  if !body.all isPlain then none
  let body ← if quote = '"' then unescape false body else some body
  some (String.ofList body)

/-- The meaning of the body of a string of several lines. -/
def blockMeaning? (quote : Char) (body : List Char) : Option String := do
  if !isPlainBlock body then none
  let body := dropFirstBreak body
  let body ← if quote = '"' then unescape true body else some body
  some (String.ofList body)

/-- A string of one line after its opening quote: its meaning, if it has one, and what follows
it. -/
def lineString (quote : Char) (cs : List Char) : Option String × List Char :=
  let (body, rest) := lineBody quote cs
  (body.bind (lineMeaning? quote), rest)

/-- A string of several lines after its opening quotes: its meaning, if it has one, and what follows
it. -/
def blockString (quote : Char) (cs : List Char) : Option String × List Char :=
  let (body, rest) := blockBody quote cs
  (body.bind (blockMeaning? quote), rest)

/-- A string at the beginning of a text: its meaning, if it has one, and what follows it.  There is
no answer where no string begins. -/
def string? : List Char → Option (Option String × List Char)
  | '"' :: '"' :: '"' :: rest => some (blockString '"' rest)
  | '\'' :: '\'' :: '\'' :: rest => some (blockString '\'' rest)
  | '"' :: rest => some (lineString '"' rest)
  | '\'' :: rest => some (lineString '\'' rest)
  | _ => none

end Wiring.Toml
