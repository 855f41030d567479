/-
**Requests and plans.**

An injector asks for some types and says what may be drawn from.  A plan answers it: it binds each
type that is needed to an argument of the injector or to a provider, in an order in which everything
is there before it is used.

Main definitions:

* `Wiring.Request` — what an injector asks for;
* `Wiring.Source`, `Wiring.Binding` — what a type is bound to;
* `Wiring.Plan` — the bindings in order.
-/

import Wiring.Provider

set_option autoImplicit false

namespace Wiring

/-- What an injector asks for. -/
structure Request where
  pkg : String
  name : String
  /-- The types that the caller passes in. -/
  inputs : List TypeName := []
  /-- The types to be made. -/
  outputs : List TypeName := []
  /-- What may be drawn from, in the order of precedence. -/
  items : List SetItem := []
deriving DecidableEq, Inhabited

namespace Request

/-- The injector's name with its package in front. -/
def qualifiedName (r : Request) : String :=
  r.pkg ++ "." ++ r.name

/-- The sets that the request refers to directly. -/
def references (r : Request) : List SetId :=
  r.items.filterMap SetItem.reference?

end Request

/-- What supplies a type: the argument at a position, or a provider. -/
inductive Source where
  | input (index : Nat)
  | provider (p : Provider)
deriving DecidableEq, Inhabited

/-- A type and what supplies it. -/
structure Binding where
  type : TypeName
  source : Source
deriving DecidableEq, Inhabited

/-- The provider of a binding, if it has one. -/
def Binding.provider? (b : Binding) : Option Provider :=
  match b.source with
  | .input _ => none
  | .provider p => some p

/-- The ordered bindings that satisfy a request. -/
structure Plan where
  /-- The arguments, in their order. -/
  inputs : List Binding := []
  /-- The providers, in the order in which they run. -/
  steps : List Binding := []
  outputs : List TypeName := []
deriving DecidableEq, Inhabited

namespace Plan

/-- The first binding of a type. -/
def binding? (plan : Plan) (type : TypeName) : Option Binding :=
  (plan.inputs ++ plan.steps).find? fun b => b.type = type

/-- The providers that run, in order. -/
def providers (plan : Plan) : List Provider :=
  plan.steps.filterMap Binding.provider?

/-- The names of the providers that run, in order. -/
def stepNames (plan : Plan) : List String :=
  plan.providers.map Provider.name

end Plan

end Wiring
