/-
**Names in generated code.**

Types, functions and locals are named after what the declarations call them.  A local is named after
the type that it holds; a name that is a word of the language or is used by the generated code
itself gets an underscore, and a name that is taken gets a number.

Main definitions:

* `Wiring.Emit.typePath` — a type as the code writes it;
* `Wiring.Emit.localBase` — the name that a local would have on its own;
* `Wiring.Emit.fresh` — the first variant of it that is free.
-/

import Wiring.Provider
import Wiring.Text.SnakeCase

set_option autoImplicit false

namespace Wiring.Emit

/-- The types that have a name of their own in the generated code. -/
def builtinTypes : List (String × String) :=
  [("int", "i64"), ("int64", "i64"), ("int32", "i32"), ("uint", "u64"), ("uint64", "u64"),
    ("float64", "f64"), ("string", "String"), ("bool", "bool")]

/-- The last part of a package path, as a module of the generated code. -/
def moduleName (pkg : String) : String :=
  Text.snakeCase (Text.lastField '/' pkg)

/-- A type as the generated code writes it.  A pointer is written as the type it points to, and a
type of a package is qualified by the last part of the package's path. -/
def typePath (type : TypeName) : String :=
  let name := String.ofList (type.toList.dropWhile (· = '*'))
  match builtinTypes.lookup name with
  | some builtin => builtin
  | none =>
    match Text.cutLast? '.' name.toList with
    | some (pkg, base) =>
      if pkg ≠ [] ∧ base ≠ [] then
        moduleName (String.ofList pkg) ++ "::" ++ String.ofList base
      else name
    | none => name

/-- A type's name without marks of pointers, path and package. -/
def bareTypeName (type : TypeName) : String :=
  let name := type.toList.dropWhile fun c => c = '*' || c = '&'
  let name := Text.lastField '/' (String.ofList name)
  match Text.cutLast? '.' name.toList with
  | some (_, base) => String.ofList base
  | none => name

/-- The words that no local may be called: words of the language, and the names that the generated
code uses itself. -/
def reserved : List String :=
  ["as", "async", "await", "box", "break", "cleanup", "cleanups", "const", "continue", "crate",
    "dyn", "else", "enum", "err", "extern", "false", "fn", "for", "if", "impl", "in", "let",
    "loop", "match", "mod", "move", "mut", "pub", "ref", "return", "self", "static", "struct",
    "super", "trait", "true", "type", "unsafe", "use", "value", "where", "while", "yield"]

/-- The name that a local would have if no other name were taken. -/
def localBase (type : TypeName) : String :=
  let base := Text.snakeCase (bareTypeName type)
  if reserved.contains base then base ++ "_" else base

/-- The variants of a name: the name itself, and then the name with a number from two on. -/
def variant (base : String) : Nat → String
  | 0 => base
  | n + 1 => base ++ toString (n + 2)

/-- The first variant of a name that is not taken.  Among one more variants than there are taken
names one is free. -/
def fresh (taken : List String) (base : String) : String :=
  let free := (List.range (taken.length + 1)).find? fun n => !taken.contains (variant base n)
  variant base (free.getD 0)

/-- Names locals one after the other, each different from the names taken and from the earlier
ones. -/
def nameAll (taken : List String) : List TypeName → List (TypeName × String)
  | [] => []
  | type :: rest =>
    let name := fresh taken (localBase type)
    (type, name) :: nameAll (name :: taken) rest

end Wiring.Emit
