/-
**Building tables.**

The lines of a document put values into a tree of tables.  Headers and dotted keys make the tables
on their way.  A table may be defined once: a header defines its table, and a dotted key those that
it goes through; a table that a header only passed through may still be defined by a header of its
own.

Main definitions:

* `Wiring.Toml.Node` — a tree under construction;
* `Wiring.Toml.descend` — a change at the end of a path of keys;
* `Wiring.Toml.assign`, `Wiring.Toml.openTable`, `Wiring.Toml.openItem` — the effects of lines;
* `Wiring.Toml.Node.toValue` — the finished value.
-/

import Wiring.Toml.Value

set_option autoImplicit false

namespace Wiring.Toml

/-- A tree under construction. -/
inductive Node where
  /-- A value that nothing can be added to. -/
  | leaf (value : Value)
  /-- A table.  `passed` says that no header defines it, and `dotted` that a dotted key does. -/
  | table (passed dotted : Bool) (entries : List (String × Node))
  /-- The tables of an array, the current one last. -/
  | items (tables : List Node)
deriving Inhabited

mutual

/-- The value of a finished tree. -/
def Node.toValue : Node → Value
  | .leaf value => value
  | .table _ _ entries => .table (entriesValue entries)
  | .items tables => .array (tablesValue tables)

/-- The values of some keys. -/
def entriesValue : List (String × Node) → Entries
  | [] => []
  | (key, node) :: rest => (key, node.toValue) :: entriesValue rest

/-- The values of the tables of an array. -/
def tablesValue : List Node → List Value
  | [] => []
  | node :: rest => node.toValue :: tablesValue rest

end

/-- A table under construction. -/
structure Body where
  passed : Bool := false
  dotted : Bool := false
  entries : List (String × Node) := []
deriving Inhabited

/-- The tree that a table is. -/
def Body.node (b : Body) : Node :=
  .table b.passed b.dotted b.entries

/-- The entries after a change of one key. -/
def setKey (key : String) (node : Node) : List (String × Node) → List (String × Node)
  | [] => [(key, node)]
  | e :: rest => if e.1 = key then (key, node) :: rest else e :: setKey key node rest

/-- A table after a change of one key. -/
def Body.set (b : Body) (key : String) (node : Node) : Body :=
  { b with entries := setKey key node b.entries }

/-- Makes a change in the table at the end of a path of keys.  Tables that are missing on the way
are made; of an array the last table is taken.  A dotted key cannot go into a table that a header
defines. -/
def descend (dotted : Bool) (change : Body → Option Body) : List String → Body → Option Body
  | [], body => change body
  | key :: rest, body =>
    match body.entries.lookup key with
    | none => do
      let inner ← descend dotted change rest { passed := true, dotted }
      some (body.set key inner.node)
    | some (.leaf _) => none
    | some (.table passed wasDotted entries) =>
      if dotted && !passed then none
      else do
        let inner ← descend dotted change rest ⟨passed, wasDotted, entries⟩
        some (body.set key inner.node)
    | some (.items tables) =>
      match tables.getLast? with
      | some (.table passed wasDotted entries) => do
        let inner ← descend dotted change rest ⟨passed, wasDotted, entries⟩
        some (body.set key (.items (tables.dropLast ++ [inner.node])))
      | _ => none

/-- Gives a key of a table a value.  A key with several parts goes through tables that only such
keys define. -/
def assign (key : List String) (value : Value) (body : Body) : Option Body :=
  match key.getLast? with
  | none => none
  | some last =>
    let path := key.dropLast
    descend (path ≠ []) (fun inner =>
      if inner.dotted = (path = []) then none
      else if (inner.entries.lookup last).isSome then none
      else some (inner.set last (.leaf value))) path body

/-- Defines the table of a header. -/
def openTable (key : List String) (body : Body) : Option Body :=
  match key.getLast? with
  | none => none
  | some last =>
    descend false (fun inner =>
      match inner.entries.lookup last with
      | none => some (inner.set last (Body.node {}))
      | some (.table true false entries) => some (inner.set last (.table false false entries))
      | some _ => none) key.dropLast body

/-- Adds a table to the array of a header. -/
def openItem (key : List String) (body : Body) : Option Body :=
  match key.getLast? with
  | none => none
  | some last =>
    descend false (fun inner =>
      match inner.entries.lookup last with
      | none => some (inner.set last (.items [Body.node {}]))
      | some (.items tables) => some (inner.set last (.items (tables ++ [Body.node {}])))
      | some _ => none) key.dropLast body

end Wiring.Toml
