/-
**One injector of a run.**

A task takes one injector from its declaration to its code.  It fetches every set that the injector
can reach, one after the other, then resolves and renders.  Fetching a set may have to wait for a
package, so a task goes on in small steps, each of which says whether it can go on at once.

Main definitions:

* `Wiring.Setting` — what all tasks of a run are given;
* `Wiring.Task`, `Wiring.Stage` — a task and where it stands;
* `Wiring.Task.step` — one step.

What each part of a step can do is said once, by the `_cases` lemmas at the end.
-/

import Wiring.Emit.Injector
import Wiring.Extraction
import Wiring.PackageCache
import Wiring.Resolution

set_option autoImplicit false

namespace Wiring

/-- What all tasks of a run are given. -/
structure Setting where
  site : LoadSite
  /-- Where the fingerprints of packages without one are taken from. -/
  disk : Disk
  policy : Policy
  /-- Whether extracted sets are kept. -/
  keepSets : Bool

/-- What a task makes of its injector. -/
structure InjectorOutput where
  name : String
  plan : Plan
  code : String
deriving DecidableEq, Inhabited

/-- How a task ends. -/
abbrev TaskResult := Except (List Failure) InjectorOutput

/-- A set to be fetched, and who refers to it. -/
structure Errand where
  id : SetId
  referencedFrom : String
deriving DecidableEq, Inhabited

/-- Where a task stands. -/
inductive Stage where
  /-- The injector's own declaration has yet to be read. -/
  | opening
  /-- The next set has yet to be taken from the queue. -/
  | collecting
  /-- The package of a set is being looked up. -/
  | fetching (errand : Errand) (lookup : Lookup)
  | closed (result : TaskResult)

instance : Inhabited Stage := ⟨.opening⟩

/-- One injector of a root package on its way to its code. -/
structure Task where
  index : Nat
  pkg : Package
  decl : InjectorDecl
  request : Request := { pkg := "", name := "" }
  /-- The sets fetched so far. -/
  graph : SetGraph := {}
  failures : List Failure := []
  /-- The sets that have been taken from the queue. -/
  met : List SetId := []
  queue : List Errand := []
  stage : Stage := .opening

instance : Inhabited Task := ⟨{ index := 0, pkg := {}, decl := { name := "" } }⟩

/-- How a task goes on after a step. -/
inductive Pace where
  /-- At once. -/
  | going
  /-- When the others have had their turn. -/
  | resting
  /-- When a marker has gone. -/
  | asleep
  | closed
deriving DecidableEq, Inhabited

namespace Task

/-- Ends a task. -/
def close (t : Task) (result : TaskResult) : Task :=
  { t with stage := .closed result }

/-- The result of a task that has one. -/
def result? (t : Task) : Option TaskResult :=
  match t.stage with
  | .closed result => some result
  | _ => none

/-- Reads the injector's declaration. -/
def «open» (t : Task) : Task :=
  match t.pkg.request t.decl with
  | .error f => t.close (.error [f])
  | .ok request =>
    { t with
      request
      queue := request.references.map fun id => ⟨id, request.qualifiedName⟩
      stage := .collecting }

/-- Resolves and renders what has been collected. -/
def compose (setting : Setting) (t : Task) : TaskResult := do
  let plan ← resolveRequest setting.policy t.graph t.request
  match Emit.render t.pkg t.decl plan with
  | .ok code => pure { name := t.decl.name, plan, code }
  | .error f => throw [f.toFailure]

/-- Ends the collection.  With any failure among the sets nothing is resolved. -/
def finish (setting : Setting) (t : Task) : Task :=
  t.close (if t.failures = [] then t.compose setting else .error t.failures)

/-- Takes the next set from the queue.  Each set is fetched once. -/
def takeNext (setting : Setting) (t : Task) : Task :=
  match t.queue with
  | [] => t.finish setting
  | errand :: rest =>
    if errand.id ∈ t.met then { t with queue := rest }
    else
      { t with queue := rest, met := errand.id :: t.met, stage := .fetching errand .start }

/-- Notes what became of a set.  What the set refers to is fetched after what is in the queue. -/
def receive (t : Task) : Except Failure ProviderSet → Task
  | .ok set =>
    { t with
      graph := t.graph.add set
      queue := t.queue ++ set.references.map fun id => ⟨id, set.id.text⟩
      stage := .collecting }
  | .error .cancelled => t.close (.error [.cancelled])
  | .error f => { t with failures := t.failures ++ [f], stage := .collecting }

/-- Takes a set out of its package.  There is no answer while somebody else is extracting it. -/
def extractFrom (setting : Setting) (world : World) (errand : Errand) (pkg : Package) :
    World × Option (Except Failure ProviderSet) :=
  if !pkg.isValid then (world, some (.error (.loadFailure pkg.path pkg.faultText)))
  else
    let extracted := pkg.extractSet errand.id.name errand.referencedFrom
    if setting.keepSets then
      let key : SetId := ⟨pkg.path, errand.id.name⟩
      let (sets, answer) :=
        world.sets.getOrExtract key (pkg.fingerprint setting.disk) extracted
      ({ world with sets }, answer)
    else (world, some extracted)

/-- Goes on with a set whose package has been looked up. -/
def arrive (setting : Setting) (world : World) (t : Task) (errand : Errand) :
    Except Failure Package → World × Task × Pace
  | .error f => (world, t.receive (.error f), .going)
  | .ok pkg =>
    match extractFrom setting world errand pkg with
    | (world, some answer) => (world, t.receive answer, .going)
    | (world, none) => (world, t, .resting)

/-- One step of a task. -/
def step (setting : Setting) (world : World) (t : Task) : World × Task × Pace :=
  match t.stage with
  | .opening => (world, t.open, .going)
  | .collecting => (world, t.takeNext setting, .going)
  | .fetching errand (.done result) => arrive setting world t errand result
  | .fetching errand lookup =>
    let (world, lookup) := lookup.poll setting.site world errand.id.pkg
    let pace :=
      match lookup with
      | .asleep _ => Pace.asleep
      | .done _ => .going
      | _ => .resting
    (world, { t with stage := .fetching errand lookup }, pace)
  | .closed _ => (world, t, .closed)

/-- Whether a task waits for a marker that is still there. -/
def isBlocked (world : World) (t : Task) : Bool :=
  match t.stage with
  | .fetching errand (.asleep marker) => world.packages.isPending errand.id.pkg marker
  | _ => false

/-! ### What a task can do -/

theorem result?_eq_some_iff {t : Task} {result : TaskResult} :
    t.result? = some result ↔ t.stage = .closed result := by
  unfold result?
  cases t.stage <;> simp

/-- Over a declaration that is refused a task ends, from any other it goes on to its sets. -/
theorem open_cases (t : Task) :
    (∃ f, t.pkg.request t.decl = .error f ∧ t.open = t.close (.error [f])) ∨
      ∃ request, t.pkg.request t.decl = .ok request ∧ t.open =
        { t with
          request
          queue := request.references.map fun id => ⟨id, request.qualifiedName⟩
          stage := .collecting } := by
  unfold Task.open
  cases t.pkg.request t.decl with
  | error f => exact .inl ⟨f, rfl, rfl⟩
  | ok request => exact .inr ⟨request, rfl, rfl⟩

/-- A request that cannot be resolved or rendered is refused, any other is answered with its code. -/
theorem compose_cases (setting : Setting) (t : Task) :
    (∃ failures, resolveRequest setting.policy t.graph t.request = .error failures ∧
        t.compose setting = .error failures) ∨
      ∃ plan, resolveRequest setting.policy t.graph t.request = .ok plan ∧
        ((∃ f, Emit.render t.pkg t.decl plan = .error f ∧ t.compose setting = .error [f.toFailure]) ∨
          ∃ code, Emit.render t.pkg t.decl plan = .ok code ∧
            t.compose setting = .ok { name := t.decl.name, plan, code }) := by
  unfold compose
  cases resolveRequest setting.policy t.graph t.request with
  | error failures => exact .inl ⟨failures, rfl, rfl⟩
  | ok plan =>
      refine .inr ⟨plan, rfl, ?_⟩
      dsimp only [bind, Except.bind]
      cases Emit.render t.pkg t.decl plan with
      | error f => exact .inl ⟨f, rfl, rfl⟩
      | ok code => exact .inr ⟨code, rfl, rfl⟩

/-- With an empty queue the collection ends.  A set that has been met is dropped, any other is looked up. -/
theorem takeNext_cases (setting : Setting) (t : Task) :
    (t.queue = [] ∧ t.takeNext setting = t.finish setting) ∨
      ∃ errand rest, t.queue = errand :: rest ∧
        ((errand.id ∈ t.met ∧ t.takeNext setting = { t with queue := rest }) ∨
          errand.id ∉ t.met ∧ t.takeNext setting =
            { t with queue := rest, met := errand.id :: t.met, stage := .fetching errand .start }) := by
  unfold takeNext
  cases t.queue with
  | nil => exact .inl ⟨rfl, rfl⟩
  | cons errand rest =>
      refine .inr ⟨errand, rest, rfl, ?_⟩
      by_cases hmet : errand.id ∈ t.met
      · exact .inl ⟨hmet, if_pos hmet⟩
      · exact .inr ⟨hmet, if_neg hmet⟩

/-- A set is added, a cancellation ends the task, and any other failure is noted. -/
theorem receive_cases (t : Task) (answer : Except Failure ProviderSet) :
    (∃ set, answer = .ok set ∧ t.receive answer =
        { t with
          graph := t.graph.add set
          queue := t.queue ++ set.references.map fun id => ⟨id, set.id.text⟩
          stage := .collecting }) ∨
      (answer = .error .cancelled ∧ t.receive answer = t.close (.error [.cancelled])) ∨
      ∃ f, answer = .error f ∧ f ≠ .cancelled ∧
        t.receive answer = { t with failures := t.failures ++ [f], stage := .collecting } := by
  unfold receive
  split
  next set => exact .inl ⟨set, rfl, rfl⟩
  · exact .inr (.inl ⟨rfl, rfl⟩)
  next f hf => exact .inr (.inr ⟨f, rfl, hf, rfl⟩)

/-- A package that is not valid answers for none of its sets.  Of any other the set is extracted, through the
cache where sets are kept. -/
theorem extractFrom_cases (setting : Setting) (world : World) (errand : Errand) (pkg : Package) :
    (pkg.isValid = false ∧ extractFrom setting world errand pkg =
        (world, some (.error (.loadFailure pkg.path pkg.faultText)))) ∨
      pkg.isValid = true ∧
        ((setting.keepSets = false ∧ extractFrom setting world errand pkg =
            (world, some (pkg.extractSet errand.id.name errand.referencedFrom))) ∨
          ∃ sets answer, setting.keepSets = true ∧
            world.sets.getOrExtract ⟨pkg.path, errand.id.name⟩ (pkg.fingerprint setting.disk)
              (pkg.extractSet errand.id.name errand.referencedFrom) = (sets, answer) ∧
            extractFrom setting world errand pkg = ({ world with sets }, answer)) := by
  unfold extractFrom
  cases pkg.isValid with
  | false => exact .inl ⟨rfl, rfl⟩
  | true =>
      refine .inr ⟨rfl, ?_⟩
      cases setting.keepSets with
      | false => exact .inl ⟨rfl, rfl⟩
      | true => exact .inr ⟨_, _, rfl, rfl, rfl⟩

/-- A package that has been looked up answers for its set, unless somebody else is extracting it. -/
theorem arrive_cases (setting : Setting) (world : World) (t : Task) (errand : Errand) (pkg : Package) :
    (∃ answer, (extractFrom setting world errand pkg).2 = some answer ∧
        arrive setting world t errand (.ok pkg) =
          ((extractFrom setting world errand pkg).1, t.receive answer, .going)) ∨
      (extractFrom setting world errand pkg).2 = none ∧
        arrive setting world t errand (.ok pkg) =
          ((extractFrom setting world errand pkg).1, t, .resting) := by
  unfold arrive
  dsimp only
  rcases extractFrom setting world errand pkg with ⟨after, _ | answer⟩
  · exact .inr ⟨rfl, rfl⟩
  · exact .inl ⟨answer, rfl, rfl⟩

section Fetching

variable {setting : Setting} {t : Task} {errand : Errand} {lookup : Lookup}

theorem not_fetching_open (t : Task) : t.open.stage ≠ .fetching errand lookup := by
  rcases t.open_cases with ⟨f, -, heq⟩ | ⟨request, -, heq⟩ <;> rw [heq] <;> exact nofun

theorem not_fetching_receive (t : Task) (answer : Except Failure ProviderSet) :
    (t.receive answer).stage ≠ .fetching errand lookup := by
  rcases t.receive_cases answer with ⟨set, -, heq⟩ | ⟨-, heq⟩ | ⟨f, -, -, heq⟩ <;> rw [heq] <;> exact nofun

/-- A set that has just been taken from the queue is yet to be looked up. -/
theorem start_of_takeNext (h : t.stage = .collecting)
    (hstage : (t.takeNext setting).stage = .fetching errand lookup) : lookup = .start := by
  rcases t.takeNext_cases setting with ⟨-, heq⟩ | ⟨_, _, -, ⟨-, heq⟩ | ⟨-, heq⟩⟩
  · cases heq ▸ hstage
  · cases h.symm.trans (heq ▸ hstage)
  · rw [heq] at hstage
    cases hstage
    rfl

end Fetching

end Task

end Wiring
