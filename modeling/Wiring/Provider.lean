/-
**Providers and provider sets.**

A provider is one construction step: it makes a value of one type from values of an ordered list
of types.  Providers are collected in named sets; a set lists providers and refers to other sets.
Types are known by their names alone, so every distinct name is one node of the graph that the
resolver walks.

Main definitions:

* `Wiring.Provider` — a construction step, tagged with its kind;
* `Wiring.SetId` — the identity of a set, with its written form (`SetId.text`) and the reading of
  a reference (`SetId.parse`);
* `Wiring.SetItem`, `Wiring.ProviderSet` — what a set lists, and the set itself.
-/

import Wiring.Text.Fields

set_option autoImplicit false

namespace Wiring

/-- A type is known by its name, such as `int`, `*Foo` or `example.com/app/db.Conn`. -/
abbrev TypeName := String

/-- How a provider makes its value. -/
inductive ProviderKind where
  /-- A function called with the inputs. -/
  | function
  /-- An expression that needs no inputs. -/
  | value
  /-- One field read from a struct. -/
  | fieldRead
  /-- A struct literal with one field for each input. -/
  | structLiteral
  /-- A concrete value taken as an interface. -/
  | interfaceBinding
  /-- A reference to another set. -/
  | setReference
deriving DecidableEq, Inhabited

/-- The written name of a kind. -/
def ProviderKind.text : ProviderKind → String
  | function => "function"
  | value => "value"
  | fieldRead => "struct-field"
  | structLiteral => "struct"
  | interfaceBinding => "interface-binding"
  | setReference => "set-reference"

/-- Every kind, in the order of declaration. -/
def ProviderKind.all : List ProviderKind :=
  [function, value, fieldRead, structLiteral, interfaceBinding, setReference]

/-- The kind with a given written name. -/
def ProviderKind.ofText? (text : String) : Option ProviderKind :=
  all.find? fun kind => kind.text = text

/-- A named construction step.  For a struct literal `fields` names the field that each input goes
to; for a field read it holds the one field that is read; for every other kind it is empty. -/
structure Provider where
  /-- The package that declares the provider. -/
  pkg : String
  /-- The name inside that package. -/
  name : String
  kind : ProviderKind := .function
  /-- The types needed, in call order. -/
  inputs : List TypeName := []
  /-- The type made. -/
  output : TypeName
  /-- The expression of a value. -/
  expr : Option String := none
  fields : List String := []
  /-- The step can fail. -/
  fallible : Bool := false
  /-- The step also returns a cleanup. -/
  cleanup : Bool := false
deriving DecidableEq, Inhabited

/-- The provider's name with its package in front. -/
def Provider.qualifiedName (p : Provider) : String :=
  p.pkg ++ "." ++ p.name

/-- The qualified name followed by the kind in parentheses. -/
def Provider.describe (p : Provider) : String :=
  p.qualifiedName ++ " (" ++ p.kind.text ++ ")"

/-- The identity of a provider set. -/
structure SetId where
  pkg : String
  name : String
deriving DecidableEq, Inhabited

namespace SetId

/-- The written form of an identity. -/
def text (id : SetId) : String :=
  id.pkg ++ "." ++ id.name

/-- Reads a reference as declarations write it.  The text before the last dot is the package, so a
package path may hold dots itself; a reference without a dot, or with nothing on one side of its
last dot, is the name of a set in the current package. -/
def parse (reference current : String) : SetId :=
  match Text.cutLast? '.' reference.toList with
  | some (pkg, name) =>
    if pkg ≠ [] ∧ name ≠ [] then ⟨String.ofList pkg, String.ofList name⟩
    else ⟨current, reference⟩
  | none => ⟨current, reference⟩

end SetId

/-- One entry of a set: a provider, or a reference to a whole set. -/
inductive SetItem where
  | provider (p : Provider)
  | reference (id : SetId)
deriving DecidableEq, Inhabited

namespace SetItem

/-- The kind of an entry; a reference has a kind of its own. -/
def kind : SetItem → ProviderKind
  | provider p => p.kind
  | reference _ => .setReference

/-- The provider that an entry lists. -/
def provider? : SetItem → Option Provider
  | provider p => some p
  | reference _ => none

/-- The set that an entry refers to. -/
def reference? : SetItem → Option SetId
  | provider _ => none
  | reference id => some id

end SetItem

/-- A named, ordered collection of providers and references. -/
structure ProviderSet where
  id : SetId
  items : List SetItem := []
deriving DecidableEq, Inhabited

namespace ProviderSet

/-- The providers listed directly. -/
def providers (s : ProviderSet) : List Provider :=
  s.items.filterMap SetItem.provider?

/-- The sets referred to directly. -/
def references (s : ProviderSet) : List SetId :=
  s.items.filterMap SetItem.reference?

end ProviderSet

end Wiring
