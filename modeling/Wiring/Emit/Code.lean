/-
**Generated code as a tree.**

The function of an injector is built as a tree first and printed afterwards: its parameters, one
statement for each step, and the result.  The tree shows what the text would hide, namely which
local is moved or copied where, and which cleanups are pending when a step fails.

Main definitions:

* `Wiring.Emit.Use` — a local used by value;
* `Wiring.Emit.Expr`, `Wiring.Emit.Step`, `Wiring.Emit.Function` — the tree;
* `Wiring.Emit.Function.print` — its text.
-/

import Wiring.Text.Fields

set_option autoImplicit false

namespace Wiring.Emit

/-- A local used by value: moved away, or copied because it is needed later. -/
inductive Use where
  | move (name : String)
  | copy (name : String)
deriving DecidableEq, Inhabited

namespace Use

/-- The local that is used. -/
def name : Use → String
  | move name => name
  | copy name => name

/-- The text of a use. -/
def print : Use → String
  | move name => name
  | copy name => name ++ ".clone()"

end Use

/-- The expression that makes the value of a step. -/
inductive Expr where
  /-- An expression given by the declaration. -/
  | verbatim (text : String)
  /-- A copy of one field of a local; the local itself stays. -/
  | fieldRead (owner field : String)
  /-- A struct literal. -/
  | structLiteral (type : String) (fields : List (String × Use))
  /-- A value turned into the type that the step is annotated with. -/
  | convert (value : Option Use)
  /-- A call, with the module of the function if it is another one. -/
  | call (module : Option String) (function : String) (args : List Use)
deriving DecidableEq, Inhabited

namespace Expr

/-- The text of an expression. -/
def print : Expr → String
  | verbatim text => text
  | fieldRead owner field => owner ++ "." ++ field ++ ".clone()"
  | structLiteral type fields =>
    type ++ " \x7b " ++ Text.join ", " (fields.map fun f => f.1 ++ ": " ++ f.2.print) ++ " \x7d"
  | convert value => (value.elim "" Use.print) ++ ".into()"
  | call module function args =>
    (module.elim "" fun m => m ++ "::") ++ function ++ "(" ++
      Text.join ", " (args.map Use.print) ++ ")"

/-- The locals that an expression uses by value, in order. -/
def uses : Expr → List Use
  | structLiteral _ fields => fields.map Prod.snd
  | convert value => value.toList
  | call _ _ args => args
  | _ => []

end Expr

/-- What a statement does when its expression fails. -/
inductive OnFailure where
  /-- The expression cannot fail. -/
  | never
  /-- The function returns the error. -/
  | propagate
  /-- The cleanups so far run in reverse order, and the function returns the error. -/
  | cleanUp
deriving DecidableEq, Inhabited

/-- One statement: it binds a local, and perhaps registers a cleanup. -/
structure Step where
  name : String
  annotation : Option String := none
  expr : Expr
  onFailure : OnFailure := .never
  cleanup : Bool := false
deriving DecidableEq, Inhabited

namespace Step

/-- The pattern that a statement binds. -/
def pattern (s : Step) : String :=
  (if s.cleanup then "(" ++ s.name ++ ", cleanup)" else s.name) ++
    s.annotation.elim "" fun type => ": " ++ type

/-- The text of a statement without the registration of its cleanup. -/
def printBinding (s : Step) : String :=
  match s.onFailure with
  | .never => "    let " ++ s.pattern ++ " = " ++ s.expr.print ++ ";"
  | .propagate => "    let " ++ s.pattern ++ " = " ++ s.expr.print ++ "?;"
  | .cleanUp =>
    "    let " ++ s.pattern ++ " = match " ++ s.expr.print ++ " \x7b\n" ++
      "        Ok(value) => value,\n" ++
      "        Err(err) => \x7b\n" ++
      "            cleanups.into_iter().rev().for_each(|cleanup| cleanup());\n" ++
      "            return Err(err.into());\n" ++
      "        \x7d\n" ++
      "    \x7d;"

/-- The text of a statement. -/
def print (s : Step) : String :=
  s.printBinding ++ if s.cleanup then "\n    cleanups.push(Box::new(cleanup));" else ""

end Step

/-- The function of an injector. -/
structure Function where
  /-- The injector's name as it is declared. -/
  injector : String
  name : String
  /-- The parameters with their types. -/
  params : List (String × String)
  steps : List Step
  /-- The locals that are returned. -/
  results : List Use
  /-- Their types. -/
  resultTypes : List String
  fallible : Bool
  cleanup : Bool
deriving DecidableEq, Inhabited

namespace Function

/-- The type of the errors that are returned. -/
def errorType : String := "Box<dyn std::error::Error + Send + Sync>"

/-- One part stands by itself; any other number of parts stands in parentheses. -/
def tuple : List String → String
  | [part] => part
  | parts => "(" ++ Text.join ", " parts ++ ")"

/-- The type that the function returns. -/
def returnType (f : Function) : String :=
  let type := tuple f.resultTypes
  let type := if f.cleanup then "(" ++ type ++ ", impl FnOnce())" else type
  if f.fallible then "Result<" ++ type ++ ", " ++ errorType ++ ">" else type

/-- The expression that the function returns. -/
def resultText (f : Function) : String :=
  let value := tuple (f.results.map Use.print)
  let value :=
    if f.cleanup then
      "(" ++ value ++ ", move || cleanups.into_iter().rev().for_each(|cleanup| cleanup()))"
    else value
  if f.fallible then "Ok(" ++ value ++ ")" else value

/-- The text of the function. -/
def print (f : Function) : String :=
  "/// Generated from injector \x60" ++ f.injector ++ "\x60.\n" ++
    "pub fn " ++ f.name ++ "(" ++ Text.join ", " (f.params.map fun p => p.1 ++ ": " ++ p.2) ++
    ") -> " ++ f.returnType ++ " \x7b" ++
    (if f.cleanup then "\n    let mut cleanups: Vec<Box<dyn FnOnce()>> = Vec::new();" else "") ++
    Text.join "" (f.steps.map fun s => "\n" ++ s.print) ++
    "\n    " ++ f.resultText ++ "\n\x7d"

end Function

end Wiring.Emit
