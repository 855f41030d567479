/-
**Problems and their explanation.**

A command that cannot go on stops with a problem: a root cause wrapped in contexts, each of which
says what was being done.  The user is shown an explanation of it: a failure, and where it helps
some details and a suggestion.

Main definitions:

* `Wiring.Problem` — a root cause and its contexts;
* `Wiring.Problem.text` — the whole chain in one line;
* `Wiring.Explanation`, `Wiring.Problem.explain` — what the user is shown.
-/

import Wiring.Disk.Basic
import Wiring.Failure

set_option autoImplicit false

namespace Wiring

/-- The root of a problem. -/
inductive Cause where
  | failure (f : Failure)
  /-- The operating system refused. -/
  | system (kind : SystemErrorKind) (message : String)
  /-- A file is not the TOML that it should be. -/
  | toml (message : String)
  /-- A message that fits no other cause. -/
  | plain (message : String)
deriving DecidableEq, Inhabited

/-- The message of a root cause. -/
def Cause.message : Cause → String
  | failure f => f.message
  | system _ message => message
  | toml message => message
  | plain message => message

/-- The root cause that a fault of the disk is. -/
def Cause.ofFault (fault : DiskFault) : Cause :=
  .system (if fault = .notFound then .notFound else .other) fault.text

/-- A root cause and what was being done, the nearest context first. -/
structure Problem where
  cause : Cause
  contexts : List String := []
deriving DecidableEq, Inhabited

/-- What the user is shown. -/
structure Explanation where
  failure : Failure
  details : Option String := none
  suggestion : Option String := none
deriving DecidableEq, Inhabited

namespace Problem

/-- The same problem with one more context around it. -/
def within (p : Problem) (context : String) : Problem :=
  { p with contexts := p.contexts ++ [context] }

/-- The messages of the chain, the outermost first. -/
def chain (p : Problem) : List String :=
  p.contexts.reverse ++ [p.cause.message]

/-- The whole chain in one line. -/
def text (p : Problem) : String :=
  Text.join ": " p.chain

end Problem

/-- The details and the suggestion that go with a failure. -/
def Failure.explain (f : Failure) : Explanation :=
  match f with
  | .noProvider type _ _ =>
    { failure := f
      suggestion := some ("Add a provider for " ++ type ++
        " to one of the injector's sets, or accept it as an injector input") }
  | .duplicateProvider _ _ =>
    { failure := f
      suggestion := some
        "Remove all but one of the conflicting providers from the injector's sets"
      details := some ("Each type must be provided exactly once per injector. " ++
        "Providers reached through several sets count once") }
  | .cycle _ =>
    { failure := f
      suggestion := some ("Break the cycle by removing one of the dependencies " ++
        "or accepting a type as an input")
      details := some "A provider cannot depend on its own output directly or indirectly" }
  | .setCycle _ =>
    { failure := f
      suggestion := some
        "Remove one of the set references so composition forms a tree or DAG" }
  | .loadFailure pkg _ =>
    { failure := f
      suggestion := some "Fix the reported declaration errors and run again"
      details := some
        ("No injector in " ++ pkg ++ " can be analyzed until the package loads") }
  | .packageNotFound _ =>
    { failure := f
      suggestion := some "Check the package pattern or the module path in wire.mod" }
  | .unknownSet _ _ | .unknownProvider _ _ =>
    { failure := f
      suggestion := some
        "Check the spelling and the package path of the referenced declaration" }
  | .cancelled =>
    { failure := f
      details := some "Results of injectors that finished before cancellation were kept" }
  | .config _ =>
    { failure := f
      suggestion := some "Check wiregen.toml and the WIREGEN_* environment variables" }
  | _ => { failure := f }

namespace Problem

/-- The causes under the outermost message, numbered from one. -/
def numberedCauses (causes : List String) : List String :=
  causes.mapIdx fun i cause => "\n  " ++ toString (i + 1) ++ ": " ++ cause

/-- The explanation of a refused file access. -/
def explainSystem (kind : SystemErrorKind) (message : String) : Explanation :=
  let failure := Failure.io "file access" "unknown" message
  match kind with
  | .permissionDenied =>
    { failure
      suggestion := some
        "Check file ownership and permissions of the package directories"
      details := some
        "wiregen needs to read declaration files and write generated files" }
  | .notFound =>
    { failure
      suggestion := some
        "Check that the working directory and package patterns are correct" }
  | .other => { failure }

/-- What the user is shown for a problem. -/
def explain (p : Problem) : Explanation :=
  match p.cause with
  | .failure f => f.explain
  | .system kind message => explainSystem kind message
  | .toml message =>
    { failure := .parse "configuration" message
      suggestion := some "Check the TOML syntax. Verify quotes, brackets, and table headers"
      details := p.chain.head? }
  | .plain _ =>
    match p.chain with
    | [] => { failure := .other "" }
    | [message] => { failure := .other message }
    | message :: causes =>
      { failure := .other (message ++ "\n\nCaused by:" ++ Text.join "" (numberedCauses causes)) }

end Problem

/-- The explanation in one text: the message, the details and the suggestion. -/
def Explanation.text (e : Explanation) : String :=
  e.failure.message ++ (e.details.elim "" fun d => "\nDetails: " ++ d) ++
    (e.suggestion.elim "" fun s => "\nSuggestion: " ++ s)

end Wiring
