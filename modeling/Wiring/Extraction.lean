/-
**From declarations to providers.**

Each declaration is checked against the types of its package and turned into providers.  A set or an
injector lists declarations by name; the first name that is wrong decides the failure.

Main definitions:

* `Wiring.Package.extract` — the providers of one declaration;
* `Wiring.Package.items` — the entries that lists of names stand for;
* `Wiring.Package.extractSet` — a set by its name;
* `Wiring.Package.request` — what an injector asks for.
-/

import Wiring.Failure
import Wiring.Package
import Wiring.Plan

set_option autoImplicit false

namespace Wiring.Package

/-- The failure of a declaration for a given reason. -/
def invalid (pkg : Package) (decl : ProviderDecl) (reason : String) : Failure :=
  .invalidDeclaration pkg.path decl.name reason

/-- A part that a declaration must have. -/
def require {α : Type} (pkg : Package) (decl : ProviderDecl) (part : Option α)
    (reason : String) : Except Failure α :=
  match part with
  | some a => .ok a
  | none => .error (pkg.invalid decl reason)

/-- The fields that a declaration selects of a struct, in the order of selection; an asterisk
selects all in the order of declaration. -/
def selectFields (pkg : Package) (decl : ProviderDecl) (structType : TypeName) :
    Except Failure (List FieldDecl) := do
  let info ← pkg.require decl
    ((pkg.types.get? structType).filter fun info => info.kind = .struct)
    (structType ++ " is not a declared struct")
  if decl.fields.contains "*" then return info.fields
  if decl.fields = [] then throw (pkg.invalid decl "no fields selected")
  decl.fields.mapM fun name =>
    pkg.require decl (info.field? name) (structType ++ " has no field " ++ name)

/-- The provider of a function. -/
def extractFunction (pkg : Package) (decl : ProviderDecl) : Except Failure Provider := do
  let output ← pkg.require decl decl.output "function has no output"
  return { pkg := pkg.path, name := decl.name, inputs := decl.inputs, output
           fallible := decl.fallible, cleanup := decl.cleanup }

/-- The provider of a value. -/
def extractValue (pkg : Package) (decl : ProviderDecl) : Except Failure Provider := do
  let output ← pkg.require decl decl.output "value has no output"
  let expr ← pkg.require decl decl.expr "value has no expression"
  if decl.inputs ≠ [] then throw (pkg.invalid decl "value cannot have inputs")
  return { pkg := pkg.path, name := decl.name, kind := .value, output, expr := some expr }

/-- The provider of a struct literal: the selected fields are its inputs. -/
def extractStruct (pkg : Package) (decl : ProviderDecl) : Except Failure Provider := do
  let structType ← pkg.require decl decl.structType "missing struct type"
  let fields ← pkg.selectFields decl structType
  return { pkg := pkg.path, name := decl.name, kind := .structLiteral
           inputs := fields.map FieldDecl.type, output := structType
           fields := fields.map FieldDecl.name }

/-- The provider that reads one field. -/
def fieldProvider (pkg : Package) (structType : TypeName) (field : FieldDecl) : Provider :=
  { pkg := pkg.path, name := structType ++ "." ++ field.name, kind := .fieldRead
    inputs := [structType], output := field.type, fields := [field.name] }

/-- The providers of the selected fields of a struct. -/
def extractFields (pkg : Package) (decl : ProviderDecl) : Except Failure (List Provider) := do
  let structType ← pkg.require decl decl.structType "missing struct type"
  let fields ← pkg.selectFields decl structType
  return fields.map (pkg.fieldProvider structType)

/-- The provider of a binding.  An interface that the package declares as something else is
refused; one that it does not declare is taken on trust. -/
def extractBinding (pkg : Package) (decl : ProviderDecl) : Except Failure Provider := do
  let interface ← pkg.require decl decl.interface "missing interface"
  let concrete ← pkg.require decl decl.concrete "missing concrete type"
  if (pkg.types.get? interface).any fun info => info.kind ≠ .interface then
    throw (pkg.invalid decl (interface ++ " is not an interface"))
  return { pkg := pkg.path, name := decl.name, kind := .interfaceBinding
           inputs := [concrete], output := interface }

/-- The providers of a declaration: one, or one for each selected field. -/
def extract (pkg : Package) (decl : ProviderDecl) : Except Failure (List Provider) :=
  match decl.kind with
  | .function => (pkg.extractFunction decl).map fun p => [p]
  | .value => (pkg.extractValue decl).map fun p => [p]
  | .struct => (pkg.extractStruct decl).map fun p => [p]
  | .fields => pkg.extractFields decl
  | .bind => (pkg.extractBinding decl).map fun p => [p]

/-- The providers that a listed name stands for. -/
def named (pkg : Package) (name : String) : Except Failure (List Provider) :=
  match pkg.provider? name with
  | some decl => pkg.extract decl
  | none => .error (.unknownProvider name pkg.path)

/-- The entries that lists of provider names and set references stand for, the providers first. -/
def items (pkg : Package) (providers sets : List String) : Except Failure (List SetItem) := do
  let listed ← providers.mapM pkg.named
  return listed.flatten.map SetItem.provider ++
    sets.map fun reference => .reference (SetId.parse reference pkg.path)

/-- The set with a given name.  `referencedFrom` names who asked for it. -/
def extractSet (pkg : Package) (name referencedFrom : String) : Except Failure ProviderSet :=
  match pkg.set? name with
  | none => .error (.unknownSet (SetId.text ⟨pkg.path, name⟩) referencedFrom)
  | some decl => do return { id := ⟨pkg.path, name⟩, items := ← pkg.items decl.providers decl.sets }

/-- What an injector asks for: its listed providers, then its sets, in the order of precedence. -/
def request (pkg : Package) (decl : InjectorDecl) : Except Failure Request := do
  return { pkg := pkg.path, name := decl.name, inputs := decl.inputs, outputs := decl.outputs
           items := ← pkg.items decl.providers decl.sets }

section Extracted

variable {pkg : Package} {name asker : String} {decl : InjectorDecl} {s : ProviderSet} {r : Request}

/-- A set is extracted from its declaration, whoever asks for it. -/
theorem extractSet_ok_iff : pkg.extractSet name asker = .ok s ↔ ∃ decl, pkg.set? name = some decl ∧
    s.id = ⟨pkg.path, name⟩ ∧ pkg.items decl.providers decl.sets = .ok s.items := by
  unfold extractSet
  cases pkg.set? name with
  | none => exact ⟨nofun, nofun⟩
  | some decl =>
      dsimp only
      constructor
      · intro h
        cases hitems : pkg.items decl.providers decl.sets with
        | error f =>
            rw [hitems] at h
            cases h
        | ok items =>
            rw [hitems] at h
            cases h
            exact ⟨decl, rfl, rfl, hitems⟩
      · rintro ⟨_, ⟨⟩, hid, hitems⟩
        rw [hitems, ← hid]
        rfl

/-- An injector asks for what it declares. -/
theorem request_ok_iff : pkg.request decl = .ok r ↔ r.pkg = pkg.path ∧ r.name = decl.name ∧
    r.inputs = decl.inputs ∧ r.outputs = decl.outputs ∧
    pkg.items decl.providers decl.sets = .ok r.items := by
  unfold request
  constructor
  · intro h
    cases hitems : pkg.items decl.providers decl.sets with
    | error f =>
        rw [hitems] at h
        cases h
    | ok items =>
        rw [hitems] at h
        cases h
        exact ⟨rfl, rfl, rfl, rfl, rfl⟩
  · rintro ⟨hpkg, hname, hinputs, houtputs, hitems⟩
    rw [hitems, ← hpkg, ← hname, ← hinputs, ← houtputs]
    rfl

end Extracted

end Wiring.Package
