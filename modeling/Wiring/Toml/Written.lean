/-
**The written form of TOML documents.**

A document is read line by line: a key with its value, the header of a table, or the header of a
table in an array.  Values may be nested in arrays and in tables between braces; between braces, and
in arrays, line breaks and comments may stand wherever blanks may.

Here only the form is settled.  A part of a key or a value that has no meaning is kept as such, also
where nothing is written: a key may lack any of its parts, a pair its value, and the header of a
table whose key breaks off its closing bracket.

Main definitions:

* `Wiring.Toml.KeyPart`, `Wiring.Toml.Written` — a part of a key and a value as they are written;
* `Wiring.Toml.value?` — a value and what follows it;
* `Wiring.Toml.Line`, `Wiring.Toml.line?` — a line;
* `Wiring.Toml.lines?` — all lines of a document.
-/

import Wiring.Toml.Text

set_option autoImplicit false

namespace Wiring.Toml

/-- A part of a key as it is written. -/
inductive KeyPart where
  | name (text : String)
  /-- Something that names nothing. -/
  | senseless
  /-- Nothing stands where a part should stand. -/
  | missing
deriving DecidableEq, Inhabited

/-- A key: its parts. -/
abbrev Key := List KeyPart

/-- A value as it is written. -/
inductive Written where
  /-- A string, without a text where it has no meaning. -/
  | string (text : Option String)
  /-- Words outside quotes, with the blanks between them. -/
  | run (cs : List Char)
  /-- Nothing stands where a value should stand. -/
  | missing
  | array (items : List Written)
  | table (pairs : List (Key × Written))
deriving Inhabited

/-! ### What may stand between -/

/-- Skips a comment up to the end of its line.  There is no answer when it holds a character that no
line may hold. -/
def skipComment (cs : List Char) : Option (List Char) :=
  match cs with
  | '#' :: rest =>
    let (text, after) := rest.span fun c => c ≠ '\n' && c ≠ '\r'
    if text.all isPlain then some after else none
  | _ => some cs

/-- Skips one line break.  There is no answer where none is. -/
def skipBreak? : List Char → Option (List Char)
  | '\n' :: rest => some rest
  | '\r' :: '\n' :: rest => some rest
  | _ => none

/-- Skips blanks, comments and line breaks, `comment` saying that a comment has begun.  There is no
answer when a comment holds a character that no line may hold. -/
def skipGaps (comment : Bool) : List Char → Option (List Char)
  | [] => some []
  | '\r' :: '\n' :: rest => skipGaps false rest
  | c :: rest =>
    if c = '\n' then skipGaps false rest
    else if c = '\r' then some (c :: rest)
    else if comment then if isPlain c then skipGaps true rest else none
    else if isSpace c then skipGaps false rest
    else if c = '#' then skipGaps true rest
    else some (c :: rest)

/-! ### Keys and runs -/

/-- Whether a character ends what stands outside quotes. -/
def isMark (c : Char) : Bool :=
  isGap c || ['=', ',', '[', ']', '\x7b', '\x7d', '#'].contains c

/-- Whether a character may stand in a key without quotes. -/
def isBareKey (c : Char) : Bool :=
  c.isAlphanum || c = '_' || c = '-'

/-- Whether a character stays in a part of a key outside quotes. -/
def staysInPart (c : Char) : Bool :=
  c ≠ '.' && !isMark c

/-- One part of a key and what follows it.  A string of several lines names nothing. -/
def keyPart (cs : List Char) : KeyPart × List Char :=
  match string? cs with
  | some (text, rest) =>
    let block := cs.take 3 = ['"', '"', '"'] || cs.take 3 = ['\'', '\'', '\'']
    (if block then .senseless else text.elim .senseless .name, rest)
  | none =>
    let (part, rest) := cs.span staysInPart
    (if part = [] then .missing
      else if part.all isBareKey then .name (String.ofList part)
      else .senseless, rest)

/-- A key of at most so many parts, separated by dots, and what follows it.  Every part but the last
is followed by a dot, so there are no more of them than characters. -/
def keyAt : Nat → List Char → Key × List Char
  | 0, cs => ([], cs)
  | n + 1, cs =>
    let (part, rest) := keyPart (cs.dropWhile isSpace)
    match rest.dropWhile isSpace with
    | '.' :: more =>
      let (parts, rest) := keyAt n more
      (part :: parts, rest)
    | rest => ([part], rest)

/-- The words outside quotes that make up a value, such as a date and a time, with the blanks
between them, and what follows them.  A quote where a word begins, as `fresh` says, or after a dot
begins a string. -/
def valueRun (fresh : Bool) : List Char → List Char × List Char
  | [] => ([], [])
  | c :: rest =>
    if isSpace c then
      let (run, after) := valueRun true rest
      if run = [] then ([], c :: rest) else (c :: run, after)
    else if isMark c || (fresh && (c = '"' || c = '\'')) then ([], c :: rest)
    else
      let (run, after) := valueRun (c = '.') rest
      (c :: run, after)

/-! ### Values -/

/-- The deepest that values may be nested. -/
def maxDepth : Nat := 80

mutual

/-- A value and what follows it.  Every call takes a character or is the only one at its place, so
the first argument need only be large enough; `depth` is how much deeper values may be nested. -/
def value? : Nat → Nat → List Char → Option (Written × List Char)
  | 0, _, _ => none
  | _ + 1, 0, '[' :: _ => none
  | _ + 1, 0, '\x7b' :: _ => none
  | n + 1, depth + 1, '[' :: rest =>
    (items? n depth rest).map fun (items, rest) => (.array items, rest)
  | n + 1, depth + 1, '\x7b' :: rest =>
    (pairs? n depth rest).map fun (pairs, rest) => (.table pairs, rest)
  | _ + 1, _, cs =>
    match string? cs with
    | some (text, rest) => some (.string text, rest)
    | none =>
      let (run, rest) := valueRun true cs
      if run = [] then none else some (.run run, rest)

/-- The items of an array up to its closing bracket, and what follows that. -/
def items? : Nat → Nat → List Char → Option (List Written × List Char)
  | 0, _, _ => none
  | n + 1, depth, cs => do
    let cs ← skipGaps false cs
    match cs with
    | ']' :: rest => some ([], rest)
    | cs =>
      let (item, rest) ← value? n depth cs
      let rest ← skipGaps false rest
      match rest with
      | ',' :: rest => (items? n depth rest).map fun (items, rest) => (item :: items, rest)
      | ']' :: rest => some ([item], rest)
      | _ => none

/-- The pairs of a table between braces up to its closing brace, and what follows that.  A value may
be missing right before the brace. -/
def pairs? : Nat → Nat → List Char → Option (List (Key × Written) × List Char)
  | 0, _, _ => none
  | n + 1, depth, cs => do
    let cs ← skipGaps false cs
    match cs with
    | '\x7d' :: rest => some ([], rest)
    | cs =>
      let (key, rest) := keyAt n cs
      let rest ← skipGaps false rest
      match rest with
      | '\x7d' :: rest => some ([(key, .missing)], rest)
      | '=' :: rest =>
        let rest ← skipGaps false rest
        match rest with
        | '\x7d' :: rest => some ([(key, .missing)], rest)
        | rest =>
          let (value, rest) ← value? n depth rest
          let rest ← skipGaps false rest
          match rest with
          | ',' :: rest =>
            (pairs? n depth rest).map fun (pairs, rest) => ((key, value) :: pairs, rest)
          | '\x7d' :: rest => some ([(key, value)], rest)
          | _ => none
      | _ => none

end

/-! ### Lines -/

/-- What a line says. -/
inductive Line where
  | assign (key : Key) (value : Written)
  | table (key : Key)
  | item (key : Key)
deriving Inhabited

/-- Whether a line, or what it says, ends here. -/
def isAtEnd (cs : List Char) : Bool :=
  match cs with
  | [] => true
  | c :: _ => c = '\n' || c = '\r' || c = '#'

/-- Skips at most so many strings, runs and marks, up to where what a line says ends. -/
def skipLine : Nat → List Char → List Char
  | 0, cs => cs
  | n + 1, cs =>
    if isAtEnd cs then cs
    else match string? cs with
      | some (_, rest) => skipLine n rest
      | none =>
        let rest := cs.dropWhile staysInPart
        skipLine n (if rest.length < cs.length then rest else rest.drop 1)

/-- What follows a header whose brackets are not closed, that is at most so long.  The header may
only break off where a part of its key is missing; then the rest of the line does not count. -/
def breakOff? (n : Nat) (key : Key) (rest : List Char) : Option (List Char) :=
  if key.getLast? = some .missing then some (skipLine n rest) else none

/-- What a line says, and what follows it on the line; together they are at most so long.  The value
may be missing at the end. -/
def line? (n : Nat) (cs : List Char) : Option (Line × List Char) :=
  match cs with
  | '[' :: '[' :: rest =>
    match keyAt n rest with
    | (key, ']' :: ']' :: rest) => some (.item key, rest)
    | (_, ']' :: _) => none
    | (key, rest) => (breakOff? n key rest).map fun rest => (.item key, rest)
  | '[' :: rest =>
    match keyAt n rest with
    | (key, ']' :: rest) => some (.table key, rest)
    | (key, rest) => (breakOff? n key rest).map fun rest => (.table key, rest)
  | cs =>
    match keyAt n cs with
    | (key, '=' :: rest) =>
      let rest := rest.dropWhile isSpace
      if isAtEnd rest then some (.assign key .missing, rest)
      else (value? (2 * n + 2) maxDepth rest).map fun (value, rest) => (.assign key value, rest)
    | _ => none

/-- Skips what may follow on a line that has said something, and the line break. -/
def endLine (cs : List Char) : Option (List Char) := do
  let cs ← skipComment (cs.dropWhile isSpace)
  match cs with
  | [] => some []
  | cs => skipBreak? cs

/-- The lines of a document that is shorter than so many characters. -/
def lines? : Nat → List Char → Option (List Line)
  | 0, _ => none
  | n + 1, cs => do
    let cs ← skipGaps false cs
    match cs with
    | [] => some []
    | cs =>
      let (line, rest) ← line? n cs
      let rest ← endLine rest
      (lines? n rest).map (line :: ·)

end Wiring.Toml
