/-
**Loaders.**

A loader turns patterns into packages.  It may succeed in part: its answer holds every package that
loaded and an error for each one that did not.

Main definitions:

* `Wiring.LoadRequest`, `Wiring.LoadOutcome` — what a loader is asked, and its answer;
* `Wiring.Loader` — a loader, as what it does with each request.
-/

import Wiring.Failure
import Wiring.Package

set_option autoImplicit false

namespace Wiring

/-- How far a load follows imports. -/
inductive LoadMode where
  /-- Only the packages that the patterns name. -/
  | roots
  /-- Also every package that they import, directly or not. -/
  | withDeps
deriving DecidableEq, Inhabited

/-- What a loader is asked. -/
structure LoadRequest where
  /-- The directory that patterns are taken from. -/
  workingDir : Path := ⟨""⟩
  env : List (String × String) := []
  mode : LoadMode := .roots
  patterns : List String := []
deriving DecidableEq, Inhabited

/-- The value of a variable; of several the last one counts. -/
def LoadRequest.var? (r : LoadRequest) (name : String) : Option String :=
  (r.env.reverse.find? fun e => e.1 = name).map Prod.snd

/-- A package, or a pattern, that could not be loaded. -/
structure LoadError where
  pkg : String
  message : String
deriving DecidableEq, Inhabited

/-- The error in one line. -/
def LoadError.text (e : LoadError) : String :=
  e.pkg ++ ": " ++ e.message

/-- The failure of the run that a load error is. -/
def LoadError.toFailure (e : LoadError) : Failure :=
  .loadFailure e.pkg e.message

/-- The answer of a loader. -/
structure LoadOutcome where
  packages : List Package := []
  errors : List LoadError := []
deriving DecidableEq, Inhabited

/-- Whether every package loaded. -/
def LoadOutcome.isComplete (o : LoadOutcome) : Bool :=
  o.errors = []

/-- The message for a package that a load cut short did not reach. -/
def loadCancelled : String := "load cancelled"

/-- A loader. -/
structure Loader where
  /-- How often a call gives way to other work before it answers. -/
  pauses : Nat := 0
  /-- The answer to a request, and whether the run is cancelled after the call, given whether it was
  cancelled when the call went on after its pauses. -/
  answer : LoadRequest → Bool → LoadOutcome × Bool

end Wiring
