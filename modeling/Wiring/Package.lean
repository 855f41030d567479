/-
**Packages and their declarations.**

A package is a directory of declaration files.  It declares types, providers, sets of providers and
injectors; an injector is a function whose body is to be generated.

Main definitions:

* `Wiring.TypeInfo`, `Wiring.ProviderDecl`, `Wiring.SetDecl`, `Wiring.InjectorDecl` — what is
  declared;
* `Wiring.Package` — a package with its declarations, its imports and its faults.
-/

import Wiring.Fingerprint
import Wiring.Provider

set_option autoImplicit false

namespace Wiring

/-- What a declared type is. -/
inductive TypeKind where
  | struct
  /-- Concrete types can be bound to it. -/
  | interface
  | other
deriving DecidableEq, Inhabited

namespace TypeKind

/-- The written name of a kind. -/
def text : TypeKind → String
  | struct => "struct"
  | interface => "interface"
  | other => "other"

/-- The kind with a given written name. -/
def ofText? (text : String) : Option TypeKind :=
  [struct, interface, other].find? fun kind => kind.text = text

end TypeKind

/-- A field of a struct. -/
structure FieldDecl where
  name : String
  type : TypeName
deriving DecidableEq, Inhabited

/-- What is known of a declared type. -/
structure TypeInfo where
  kind : TypeKind := .other
  /-- The fields in the order of their declaration. -/
  fields : List FieldDecl := []
deriving DecidableEq, Inhabited

/-- The field with a given name. -/
def TypeInfo.field? (info : TypeInfo) (name : String) : Option FieldDecl :=
  info.fields.find? fun f => f.name = name

/-- The flavour of a provider declaration. -/
inductive DeclKind where
  | function
  | value
  /-- A struct literal built from selected fields. -/
  | struct
  /-- One provider for each selected field of a struct. -/
  | fields
  /-- An interface bound to a concrete type. -/
  | bind
deriving DecidableEq, Inhabited

namespace DeclKind

/-- The written name of a flavour. -/
def text : DeclKind → String
  | function => "function"
  | value => "value"
  | struct => "struct"
  | fields => "fields"
  | bind => "bind"

/-- The flavour with a given written name. -/
def ofText? (text : String) : Option DeclKind :=
  [function, value, struct, fields, bind].find? fun kind => kind.text = text

end DeclKind

/-- A provider as it is declared.  Which parts count depends on the flavour. -/
structure ProviderDecl where
  name : String
  kind : DeclKind := .function
  inputs : List TypeName := []
  output : Option TypeName := none
  expr : Option String := none
  structType : Option TypeName := none
  /-- The selected fields; an asterisk selects all. -/
  fields : List String := []
  interface : Option TypeName := none
  concrete : Option TypeName := none
  fallible : Bool := false
  cleanup : Bool := false
deriving DecidableEq, Inhabited

/-- A set as it is declared. -/
structure SetDecl where
  name : String
  /-- Providers of the same package. -/
  providers : List String := []
  /-- References to other sets. -/
  sets : List String := []
deriving DecidableEq, Inhabited

/-- An injector as it is declared. -/
structure InjectorDecl where
  name : String
  /-- The types that the caller passes in. -/
  inputs : List TypeName := []
  /-- The types that are returned. -/
  outputs : List TypeName := []
  /-- Providers of the same package that are listed directly. -/
  providers : List String := []
  /-- References to sets. -/
  sets : List String := []
  tags : List String := []
  fallible : Bool := false
  cleanup : Bool := false
deriving DecidableEq, Inhabited

/-- A loaded package. -/
structure Package where
  path : String := ""
  /-- The directory of its files. -/
  dir : Path := ⟨""⟩
  files : List Path := []
  /-- The other packages that its references lead to. -/
  imports : List String := []
  types : Table String TypeInfo := {}
  providers : List ProviderDecl := []
  sets : List SetDecl := []
  injectors : List InjectorDecl := []
  /-- The faults found in the declarations taken together; with any the package is invalid. -/
  errors : List String := []
  /-- The fingerprint of the files as they were read, where a loader took one. -/
  fingerprint? : Option Fingerprint := none
deriving DecidableEq, Inhabited

namespace Package

/-- The last part of the path. -/
def name (pkg : Package) : String :=
  Text.lastField '/' pkg.path

/-- The first provider with a given name. -/
def provider? (pkg : Package) (name : String) : Option ProviderDecl :=
  pkg.providers.find? fun p => p.name = name

/-- The first set with a given name. -/
def set? (pkg : Package) (name : String) : Option SetDecl :=
  pkg.sets.find? fun s => s.name = name

/-- The first injector with a given name. -/
def injector? (pkg : Package) (name : String) : Option InjectorDecl :=
  pkg.injectors.find? fun i => i.name = name

/-- Whether the declarations fit together. -/
def isValid (pkg : Package) : Bool :=
  pkg.errors = []

/-- The faults in one text. -/
def faultText (pkg : Package) : String :=
  Text.join "; " pkg.errors

/-- The fingerprint taken while loading, or else one taken from disk. -/
def fingerprint (pkg : Package) (disk : Disk) : Fingerprint :=
  pkg.fingerprint?.getD (.ofDisk disk pkg.files)

/-- Every reference to a set that the package writes down. -/
def references (pkg : Package) : List String :=
  pkg.sets.flatMap SetDecl.sets ++ pkg.injectors.flatMap InjectorDecl.sets

end Package

end Wiring
