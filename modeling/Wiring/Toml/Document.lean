/-
**TOML documents.**

The lines of a document get their meaning one after the other, from the first to the last.  A line
is refused when a part of its key or its value has none, when its key has too many parts, and when
what it says does not fit what the lines before it have said.  An array takes its tables when they
are complete, so that one without a place is refused after the last of its lines.

Main definitions:

* `Wiring.Toml.keyOf`, `Wiring.Toml.Written.value` — the meaning of a key and of a value;
* `Wiring.Toml.Draft`, `Wiring.Toml.Draft.add` — a document under construction, and one more line;
* `Wiring.Toml.parse`, `Wiring.Toml.parseAs` — the table that a document describes, and what a
  reader makes of it.
-/

import Wiring.Toml.Refusal
import Wiring.Toml.Tree
import Wiring.Toml.Written

set_option autoImplicit false

namespace Wiring.Toml

/-- What a part of a key names. -/
def KeyPart.name? : KeyPart → Option String
  | .name text => some text
  | .senseless => none
  | .missing => none

/-- The names that make up a key.  Each part must have one, and there cannot be more of them than
values may be nested. -/
def keyOf (key : Key) : Except Refusal (List String) :=
  match key.mapM KeyPart.name? with
  | none => .error .malformed
  | some names => if maxDepth < names.length then .error .longKey else .ok names

mutual

/-- The meaning of a value. -/
def Written.value : Written → Except Refusal Value
  | .string text => orMalformed (text.map Value.string)
  | .run cs => orMalformed (scalar? cs)
  | .missing => .error .malformed
  | .array items => (valuesOf items).map Value.array
  | .table pairs => (fill {} pairs).map fun body => body.node.toValue

/-- The meaning of several values. -/
def valuesOf : List Written → Except Refusal (List Value)
  | [] => .ok []
  | item :: rest => do
    let value ← item.value
    let values ← valuesOf rest
    .ok (value :: values)

/-- A table after some pairs have been put into it. -/
def fill (body : Body) : List (Key × Written) → Except Refusal Body
  | [] => .ok body
  | (key, item) :: rest => do
    let key ← keyOf key
    let value ← item.value
    let body ← orMalformed (assign key value body)
    fill body rest

end

/-- A document under construction: its tree, and the table that keys are put into. -/
structure Draft where
  root : Body := {}
  current : List String := []
  /-- The current table is for an array whose place is taken.  The tree then holds only that table:
  the document will be refused, and what it says before does not matter any more. -/
  misplaced : Bool := false

/-- Completes the current table. -/
def Draft.close (d : Draft) : Except Refusal Draft :=
  if d.misplaced then .error .malformed else .ok d

/-- Opens a table of an array. -/
def Draft.openItem (d : Draft) (key : List String) : Draft :=
  match Toml.openItem key d.root with
  | some root => ⟨root, key, false⟩
  | none => ⟨(Toml.openItem key {}).getD {}, key, true⟩

/-- The effect of a line. -/
def Draft.add (d : Draft) : Line → Except Refusal Draft
  | .assign key item => do
    let key ← keyOf key
    let value ← item.value
    let root ← orMalformed (descend false (assign key value) d.current d.root)
    .ok { d with root }
  | .table key => do
    let d ← d.close
    let key ← keyOf key
    let root ← orMalformed (openTable key d.root)
    .ok ⟨root, key, false⟩
  | .item key => do
    let d ← d.close
    let key ← keyOf key
    .ok (d.openItem key)

/-- The effect of several lines, the last of which completes its table. -/
def Draft.addAll (d : Draft) : List Line → Except Refusal Draft
  | [] => d.close
  | line :: rest => do
    let d ← d.add line
    d.addAll rest

/-- Takes the mark of byte order off the front of a document. -/
def dropMark : List Char → List Char
  | c :: rest => if c.toNat = 0xFEFF then rest else c :: rest
  | [] => []

/-- The table that a document describes. -/
def parse (text : String) : Except Refusal Value := do
  let cs := dropMark text.toList
  let lines ← orMalformed (lines? (cs.length + 1) cs)
  let draft ← Draft.addAll {} lines
  .ok (.table (entriesValue draft.root.entries))

/-- What a reader makes of a document. -/
def parseAs {α : Type} (read? : Value → Option α) (text : String) : Except Refusal α := do
  let value ← parse text
  orMalformed (read? value)

end Wiring.Toml
