/-
**From plans to code.**

A plan becomes a function with one statement for each of its providers.  Every local is passed by
value.  Its last use moves it, and each use before that copies it.

Main definitions:

* `Wiring.Emit.RenderFailure` — why a plan has no code;
* `Wiring.Emit.Locals` — the names of the locals and how often each is still needed;
* `Wiring.Emit.functionOf` — the function of an injector;
* `Wiring.Emit.render` — its text.
-/

import Wiring.Emit.Code
import Wiring.Emit.Naming
import Wiring.Failure
import Wiring.Package
import Wiring.Plan

set_option autoImplicit false

namespace Wiring.Emit

/-- Why a plan has no code. -/
inductive RenderFailure where
  /-- The function would be called like a provider of its package. -/
  | nameCollision (pkg injector provider : String)
  /-- A step can fail and the injector cannot. -/
  | unhandledError (injector provider : String)
  /-- A step returns a cleanup and the injector does not. -/
  | unhandledCleanup (injector provider : String)
deriving DecidableEq, Inhabited

/-- The message of a failure. -/
def RenderFailure.message : RenderFailure → String
  | nameCollision pkg injector provider =>
    "injector " ++ injector ++ " collides with provider " ++ provider ++ " in " ++ pkg
  | unhandledError injector provider =>
    "injector " ++ injector ++ " must return an error: provider " ++ provider ++ " can fail"
  | unhandledCleanup injector provider =>
    "injector " ++ injector ++ " must return a cleanup: provider " ++ provider ++ " has one"

/-- The failure of the run that a missing piece of code is. -/
def RenderFailure.toFailure (f : RenderFailure) : Failure :=
  .render f.message

/-- The names of the locals by the types they hold, and how often each is still needed. -/
structure Locals where
  names : Table TypeName String := {}
  remaining : Table TypeName Nat := {}

namespace Locals

/-- The local that holds a type. -/
def name (locals : Locals) (type : TypeName) : String :=
  (locals.names.get? type).getD "_"

/-- How often a type is still needed once it has been used now. -/
def left (locals : Locals) (type : TypeName) : Nat :=
  (locals.remaining.get? type).getD 1 - 1

/-- Uses a type by value. -/
def take (locals : Locals) (type : TypeName) : Use × Locals :=
  let left := locals.left type
  let name := locals.name type
  (if left > 0 then .copy name else .move name,
    { locals with remaining := locals.remaining.put type left })

/-- Uses several types by value, in order. -/
def takeAll (locals : Locals) : List TypeName → List Use × Locals
  | [] => ([], locals)
  | type :: rest =>
    let (use, locals) := locals.take type
    let (uses, locals) := locals.takeAll rest
    (use :: uses, locals)

/-- Looks into a type without taking it. -/
def borrow (locals : Locals) (type : TypeName) : String × Locals :=
  (locals.name type,
    match locals.remaining.get? type with
    | some n => { locals with remaining := locals.remaining.put type (n - 1) }
    | none => locals)

/-- Adds one to the number of uses of a type. -/
def countUse (counts : Table TypeName Nat) (type : TypeName) : Table TypeName Nat :=
  counts.put type ((counts.get? type).getD 0 + 1)

/-- The locals of a plan: a name for each binding, and the number of its uses by steps and
outputs. -/
def ofPlan (taken : List String) (plan : Plan) : Locals where
  names :=
    (nameAll taken ((plan.inputs ++ plan.steps).map Binding.type)).foldl
      (fun (names : Table TypeName String) e => names.put e.1 e.2) {}
  remaining := (plan.providers.flatMap Provider.inputs ++ plan.outputs).foldl countUse {}

end Locals

/-- The expression that a provider of the package at `pkg` stands for. -/
def exprOf (pkg : String) (p : Provider) (locals : Locals) : Expr × Locals :=
  match p.kind with
  | .value => (.verbatim (p.expr.getD ""), locals)
  | .fieldRead =>
    let field := p.fields.head?.elim "" Text.snakeCase
    match p.inputs.head? with
    | some owner =>
      let (name, locals) := locals.borrow owner
      (.fieldRead name field, locals)
    | none => (.fieldRead "" field, locals)
  | .structLiteral =>
    let pairs := p.fields.zip p.inputs
    let (uses, locals) := locals.takeAll (pairs.map Prod.snd)
    let names := pairs.map fun e => Text.snakeCase e.1
    (.structLiteral (typePath p.output) (names.zip uses), locals)
  | .interfaceBinding =>
    match p.inputs.head? with
    | some concrete =>
      let (use, locals) := locals.take concrete
      (.convert (some use), locals)
    | none => (.convert none, locals)
  | .function | .setReference =>
    let (args, locals) := locals.takeAll p.inputs
    let module := if p.pkg = pkg then none else some (moduleName p.pkg)
    (.call module (Text.snakeCase p.name) args, locals)

/-- What the statement of a provider does on failure.  `pending` says whether a cleanup is
registered before it. -/
def onFailureOf (p : Provider) (pending : Bool) : OnFailure :=
  if !p.fallible then .never else if pending then .cleanUp else .propagate

/-- The statements of the bound providers, in order. -/
def stepsOf (pkg : String) (locals : Locals) (pending : Bool) :
    List Binding → List Step × Locals
  | [] => ([], locals)
  | b :: rest =>
    match b.provider? with
    | none => stepsOf pkg locals pending rest
    | some p =>
      let name := locals.name b.type
      let (expr, locals) := exprOf pkg p locals
      let annotation := if p.kind = .interfaceBinding then some (typePath b.type) else none
      let step : Step :=
        { name, annotation, expr, onFailure := onFailureOf p pending, cleanup := p.cleanup }
      let (steps, locals) := stepsOf pkg locals (pending || p.cleanup) rest
      (step :: steps, locals)

/-- The names that no local of an injector may have: that of its function and those of the functions
that it calls. -/
def takenNames (functionName : String) (plan : Plan) : List String :=
  functionName :: (plan.providers.filter fun p => p.kind = .function).map
    fun p => Text.snakeCase p.name

/-- The function of an injector, given that its steps are allowed. -/
def functionOf (pkg : Package) (injector : InjectorDecl) (plan : Plan) : Function :=
  let name := Text.snakeCase injector.name
  let locals := Locals.ofPlan (takenNames name plan) plan
  let (steps, last) := stepsOf pkg.path locals false plan.steps
  { injector := injector.name, name
    params := plan.inputs.map fun b => (locals.name b.type, typePath b.type)
    steps
    results := (last.takeAll plan.outputs).1
    resultTypes := plan.outputs.map typePath
    fallible := injector.fallible, cleanup := injector.cleanup }

/-- The provider whose name the injector's function would take. -/
def collision? (pkg : Package) (injector : InjectorDecl) : Option ProviderDecl :=
  pkg.providers.find? fun p =>
    p.name = injector.name || Text.snakeCase p.name = Text.snakeCase injector.name

/-- Refuses a provider whose failure or cleanup the injector cannot pass on. -/
def checkProvider (injector : InjectorDecl) (p : Provider) : Except RenderFailure Unit :=
  if p.fallible && !injector.fallible then
    .error (.unhandledError injector.name p.qualifiedName)
  else if p.cleanup && !injector.cleanup then
    .error (.unhandledCleanup injector.name p.qualifiedName)
  else .ok ()

/-- The function of an injector, or why there is none. -/
def function? (pkg : Package) (injector : InjectorDecl) (plan : Plan) :
    Except RenderFailure Function :=
  match collision? pkg injector with
  | some p => .error (.nameCollision pkg.path injector.name p.name)
  | none => do
    plan.providers.forM (checkProvider injector)
    return functionOf pkg injector plan

/-- The code of an injector. -/
def render (pkg : Package) (injector : InjectorDecl) (plan : Plan) :
    Except RenderFailure String :=
  (function? pkg injector plan).map Function.print

end Wiring.Emit
