/-
**Failures.**

Everything that can go wrong while declarations are loaded, extracted, resolved and rendered is one
of a few causes.  A cause carries what is needed to say what happened, and its message is made in
one place.

Main definitions:

* `Wiring.Failure` — the causes;
* `Wiring.Failure.message` — the text of each.
-/

import Wiring.Provider
import Wiring.Text.Fields

set_option autoImplicit false

namespace Wiring

/-- What can go wrong. -/
inductive Failure where
  /-- Nothing makes a type that is needed.  `neededBy` names the provider that takes it, and is
  absent for a type that was asked for directly. -/
  | noProvider (type : TypeName) (neededBy : Option String) (suggestions : List TypeName)
  /-- Several providers make the same type. -/
  | duplicateProvider (type : TypeName) (providers : List String)
  /-- Types need each other in a circle; the first and the last type of the chain are equal. -/
  | cycle (chain : List TypeName)
  /-- Sets refer to each other in a circle. -/
  | setCycle (chain : List String)
  /-- An injector takes the same type twice. -/
  | duplicateInput (type : TypeName)
  /-- A package could not be loaded. -/
  | loadFailure (pkg reason : String)
  /-- A package is not among those that were loaded up front. -/
  | packageNotFound (pkg : String)
  /-- A reference leads to no set. -/
  | unknownSet (set referencedFrom : String)
  /-- A listed provider is not declared. -/
  | unknownProvider (name pkg : String)
  /-- A declaration lacks a part or has one too many. -/
  | invalidDeclaration (pkg name reason : String)
  /-- No code can be made from a plan. -/
  | render (reason : String)
  /-- The run was cut short. -/
  | cancelled
  /-- A setting is wrong. -/
  | config (message : String)
  /-- The file system refused an operation. -/
  | io (operation path reason : String)
  /-- A file is not well formed. -/
  | parse (file reason : String)
  /-- Anything else. -/
  | other (message : String)
deriving DecidableEq, Inhabited

namespace Failure

/-- The requirer of a missing type, as the message mentions it. -/
def neededByText : Option String → String
  | none => ""
  | some name => ", needed by " ++ name

/-- The close matches of a missing type, as the message mentions them. -/
def suggestionText : List TypeName → String
  | [] => ""
  | types => " (did you mean " ++ Text.join ", " types ++ "?)"

/-- The message of a failure. -/
def message : Failure → String
  | noProvider type neededBy suggestions =>
    "no provider found for " ++ type ++ neededByText neededBy ++ suggestionText suggestions
  | duplicateProvider type providers =>
    "multiple bindings for " ++ type ++ ": " ++ Text.join ", " providers
  | cycle chain => "cycle for " ++ chain.headD "" ++ ": " ++ Text.join " -> " chain
  | setCycle chain => "provider set reference cycle: " ++ Text.join " -> " chain
  | duplicateInput type => "multiple inputs of the same type " ++ type
  | loadFailure pkg reason => "failed to load package " ++ pkg ++ ": " ++ reason
  | packageNotFound pkg => "package " ++ pkg ++ " was not loaded"
  | unknownSet set referencedFrom =>
    "unknown provider set " ++ set ++ " referenced from " ++ referencedFrom
  | unknownProvider name pkg => "unknown provider " ++ name ++ " in package " ++ pkg
  | invalidDeclaration pkg name reason =>
    "invalid declaration " ++ pkg ++ "." ++ name ++ ": " ++ reason
  | render reason => "render failed: " ++ reason
  | cancelled => "generation cancelled"
  | config message => "configuration error: " ++ message
  | io operation path reason => operation ++ " failed for " ++ path ++ ": " ++ reason
  | parse file reason => "failed to parse " ++ file ++ ": " ++ reason
  | other message => message

end Failure

end Wiring
