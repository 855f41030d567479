/-
**Options and strategies of a run.**

Main definitions:

* `Wiring.Options` — what every injector of a run is generated with;
* `Wiring.Options.selects` — which injectors are generated;
* `Wiring.Strategy` — how packages are loaded and how many injectors are worked on at once.
-/

import Wiring.Package
import Wiring.Resolution

set_option autoImplicit false

namespace Wiring

/-- The options of a run. -/
structure Options where
  /-- The name of the file that is written into each package. -/
  outputFile : String := "wire_gen.rs"
  /-- What stands above everything else in the file. -/
  header : Option String := none
  /-- Whether the file says that it is generated. -/
  banner : Bool := true
  /-- Only injectors with one of these tags are generated; no tags stand for all. -/
  tags : List String := []
  policy : Policy := .strict
  /-- Whether extracted sets are kept also when injectors are done one by one. -/
  optimized : Bool := true
deriving DecidableEq, Inhabited

/-- Whether an injector is to be generated. -/
def Options.selects (options : Options) (injector : InjectorDecl) : Bool :=
  options.tags = [] || injector.tags.any options.tags.contains

/-- How a run goes about its work. -/
inductive Strategy where
  /-- Everything is loaded first, and injectors are done one by one. -/
  | sequential
  /-- Everything is loaded first, and up to so many injectors are worked on at once. -/
  | parallel (maxWorkers : Nat)
  /-- Packages are loaded when they are needed, and injectors are done one by one. -/
  | lazy
  /-- Packages are loaded when they are needed, and up to so many injectors are worked on at
  once. -/
  | parallelLazy (maxWorkers : Nat)
deriving DecidableEq, Inhabited

namespace Strategy

/-- The strategy for a number of workers and a way of loading.  One worker is no parallelism. -/
def ofSettings (maxWorkers : Nat) (isLazy : Bool) : Strategy :=
  match decide (maxWorkers > 1), isLazy with
  | false, false => sequential
  | false, true => lazy
  | true, false => parallel maxWorkers
  | true, true => parallelLazy maxWorkers

/-- Whether packages are loaded when they are needed. -/
def isLazy : Strategy → Bool
  | lazy | parallelLazy _ => true
  | sequential | parallel _ => false

/-- How many injectors are worked on at once, at least one. -/
def workers : Strategy → Nat
  | sequential | lazy => 1
  | parallel n | parallelLazy n => max n 1

end Strategy

end Wiring
