/-
**The cache of packages.**

The packages of a run are kept by path.  An eager cache knows only what it was filled with; a lazy
one asks the loader for a package when it is looked up for the first time.

In a lazy cache one caller at a time loads a package: it first puts a marker of its own into the
slot, and whoever finds a marker there waits for it to go.  A package that loaded, or failed to, is
settled for the rest of the run.  A load that was cut short settles nothing, and its marker is taken
out.

Main definitions:

* `Wiring.PackageCache` — the slots;
* `Wiring.PackageCache.claim`, `settle`, `release`, `seed` — the changes of a slot;
* `Wiring.World` — the cache together with what else a run shares: whether it is cancelled, the
  calls of the loader, and the cache of sets;
* `Wiring.Lookup`, `Wiring.Lookup.poll` — where the lookup of one package stands, and going on with
  it;
* `Wiring.Lookup.joinAll` — several lookups at once, taken in turn.
-/

import Wiring.Loading.Loader
import Wiring.SetCache

set_option autoImplicit false

namespace Wiring

/-- What a slot holds. -/
inductive PackageSlot where
  /-- A caller is loading the package. -/
  | pending (marker : Marker)
  | ready (pkg : Package)
  | failed (failure : Failure)
deriving DecidableEq, Inhabited

/-- The cache of packages. -/
structure PackageCache where
  /-- Whether packages are loaded when they are looked up. -/
  isLazy : Bool := false
  slots : Table String PackageSlot := {}
  /-- How often a lookup has called the loader. -/
  loads : Nat := 0
  /-- The marker that the next caller gets. -/
  nextMarker : Marker := 0
deriving Inhabited

/-- The answer to a caller that asks for a package. -/
inductive PackageClaim where
  /-- The slot is settled. -/
  | settled (result : Except Failure Package)
  /-- Somebody else is loading it. -/
  | wait (marker : Marker)
  /-- Load it; the slot is yours under this marker. -/
  | granted (marker : Marker)

/-- What a finished load says about the package that it was for. -/
inductive LoadVerdict where
  | found (pkg : Package)
  /-- The load was cut short, which is no property of the package. -/
  | cancelled
  | failed (failure : Failure)

namespace PackageCache

/-- Asks for a package. -/
def claim (cache : PackageCache) (path : String) : PackageCache × PackageClaim :=
  match cache.slots.get? path with
  | some (.ready pkg) => (cache, .settled (.ok pkg))
  | some (.failed failure) => (cache, .settled (.error failure))
  | some (.pending marker) => (cache, .wait marker)
  | none =>
    if cache.isLazy then
      ({ cache with
          slots := cache.slots.put path (.pending cache.nextMarker)
          nextMarker := cache.nextMarker + 1 }, .granted cache.nextMarker)
    else (cache, .settled (.error (.packageNotFound path)))

/-- Whether a slot is still held under a marker. -/
def isPending (cache : PackageCache) (path : String) (marker : Marker) : Bool :=
  cache.slots.get? path = some (.pending marker)

/-- Settles a slot. -/
def settle (cache : PackageCache) (path : String) (slot : PackageSlot) : PackageCache :=
  { cache with slots := cache.slots.put path slot }

/-- Takes a marker out if it is still there. -/
def release (cache : PackageCache) (path : String) (marker : Marker) : PackageCache :=
  if cache.isPending path marker then { cache with slots := cache.slots.erase path } else cache

/-- Counts a call of the loader. -/
def countLoad (cache : PackageCache) : PackageCache :=
  { cache with loads := cache.loads + 1 }

/-- The slots after a package has been put into an empty one. -/
def seedPackage (slots : Table String PackageSlot) (pkg : Package) : Table String PackageSlot :=
  slots.putNew pkg.path (.ready pkg)

/-- The slots after a load error has been put into an empty one. -/
def seedError (slots : Table String PackageSlot) (e : LoadError) : Table String PackageSlot :=
  slots.putNew e.pkg (.failed e.toFailure)

/-- Fills slots with what has been loaded already.  A slot that holds anything is left as it is. -/
def seed (cache : PackageCache) (outcome : LoadOutcome) : PackageCache :=
  { cache with
    slots := outcome.errors.foldl seedError (outcome.packages.foldl seedPackage cache.slots) }

/-- The paths of the packages that loaded, in ascending order. -/
def loadedPaths (cache : PackageCache) : List String :=
  (cache.slots.entries.filterMap fun (path, slot) =>
    match slot with
    | .ready _ => some path
    | _ => none).mergeSort fun a b => !decide (b < a)

/-- What a finished load says about the package at a path.  Without the package the load failed, for
the reason given for it, or else the first reason given. -/
def verdict (path : String) (outcome : LoadOutcome) (cancelled : Bool) : LoadVerdict :=
  match outcome.packages.find? fun p => p.path = path with
  | some pkg => .found pkg
  | none =>
    if cancelled then .cancelled
    else
      let reason := ((outcome.errors.find? fun e => e.pkg = path) <|> outcome.errors.head?).elim
        "loader returned no package" LoadError.message
      .failed (.loadFailure path reason)

section Verdict

variable {path : String} {outcome : LoadOutcome} {cancelled : Bool} {pkg : Package}

theorem verdict_eq_found_iff : verdict path outcome cancelled = .found pkg ↔
    (outcome.packages.find? fun p => p.path = path) = some pkg := by
  unfold verdict
  cases outcome.packages.find? fun p => p.path = path with
  | some found => simp
  | none => cases cancelled <;> simp

/-- A package is found under its own path only. -/
theorem path_of_verdict (h : verdict path outcome cancelled = .found pkg) : pkg.path = path := by
  simpa using List.find?_some (verdict_eq_found_iff.1 h)

/-- A failure is a load failure, for the path that was asked for. -/
theorem reason_of_verdict {failure : Failure} (h : verdict path outcome cancelled = .failed failure) :
    ∃ reason, failure = .loadFailure path reason := by
  unfold verdict at h
  split at h
  · cases h
  · split at h
    · cases h
    · cases h
      exact ⟨_, rfl⟩

/-- Without the package, a load that was cut short says nothing. -/
theorem verdict_cut_short (h : (outcome.packages.find? fun p => p.path = path) = none) :
    verdict path outcome true = .cancelled := by
  rw [verdict, h]
  rfl

/-- A package that an outcome names is found, or it fails for a reason that is given for it. -/
theorem verdict_of_named
    (h : (∃ p ∈ outcome.packages, p.path = path) ∨ ∃ e ∈ outcome.errors, e.pkg = path) :
    (∃ p ∈ outcome.packages, p.path = path ∧ verdict path outcome false = .found p) ∨
      ∃ e ∈ outcome.errors, e.pkg = path ∧
        verdict path outcome false = .failed (.loadFailure path e.message) := by
  unfold verdict
  cases hpackage : outcome.packages.find? fun p => p.path = path with
  | some p => exact .inl ⟨p, List.mem_of_find?_eq_some hpackage, by simpa using List.find?_some hpackage, rfl⟩
  | none =>
      -- there is no package, so there is an error for this very path
      simp only [List.find?_eq_none, decide_eq_true_eq] at hpackage
      obtain ⟨e, he, hpath⟩ := h.resolve_left fun ⟨p, hp, hpath⟩ => hpackage p hp hpath
      cases herror : outcome.errors.find? fun e => e.pkg = path with
      | some first =>
          exact .inr ⟨first, List.mem_of_find?_eq_some herror, by simpa using List.find?_some herror, rfl⟩
      | none =>
          simp only [List.find?_eq_none, decide_eq_true_eq] at herror
          exact absurd hpath (herror e he)

end Verdict

end PackageCache

/-- One call of the loader: the request, and whether the run was cancelled when the call came to be
answered. -/
structure LoadCall where
  request : LoadRequest
  cancelled : Bool

/-- What the parts of a run share. -/
structure World where
  packages : PackageCache := {}
  sets : SetCache := {}
  /-- The run is cancelled. -/
  cancelled : Bool := false
  /-- The calls of the loader that were answered, in order. -/
  calls : List LoadCall := []
deriving Inhabited

namespace World

/-- Has the loader answer a request. -/
def call (world : World) (loader : Loader) (request : LoadRequest) : World × LoadOutcome :=
  let (outcome, cancelled) := loader.answer request world.cancelled
  ({ world with cancelled, calls := world.calls ++ [⟨request, world.cancelled⟩] }, outcome)

/-- Changes the cache of packages. -/
def withPackages (world : World) (packages : PackageCache) : World :=
  { world with packages }

end World

/-- Where a loader is called from. -/
structure LoadSite where
  loader : Loader
  workingDir : Path
  env : List (String × String)

/-- The request of a lookup: one package, without its imports. -/
def LoadSite.requestFor (site : LoadSite) (path : String) : LoadRequest :=
  { workingDir := site.workingDir, env := site.env, patterns := [path] }

/-- Where the lookup of a package stands. -/
inductive Lookup where
  /-- The slot has yet to be looked at. -/
  | start
  /-- Somebody else is loading the package under a marker. -/
  | asleep (marker : Marker)
  /-- The package is being loaded under a marker of its own, with so many pauses to go. -/
  | loading (marker : Marker) (pauses : Nat)
  | done (result : Except Failure Package)

instance : Inhabited Lookup := ⟨.start⟩

namespace Lookup

/-- Wakes a lookup whose marker has gone. -/
def wake (world : World) (path : String) : Lookup → Lookup
  | asleep marker => if world.packages.isPending path marker then asleep marker else start
  | other => other

/-- Begins a load under a marker, unless the run is cancelled. -/
def beginLoad (site : LoadSite) (world : World) (path : String) (marker : Marker) :
    World × Lookup :=
  if world.cancelled then
    (world.withPackages (world.packages.release path marker), done (.error .cancelled))
  else (world.withPackages world.packages.countLoad, loading marker site.loader.pauses)

/-- Looks at the slot. -/
def enter (site : LoadSite) (world : World) (path : String) : Lookup → World × Lookup
  | start =>
    match world.packages.claim path with
    | (_, .settled result) => (world, done result)
    | (_, .wait marker) => (world, asleep marker)
    | (packages, .granted marker) => beginLoad site (world.withPackages packages) path marker
  | other => (world, other)

/-- Ends a load: has the loader answer and settles the slot. -/
def endLoad (site : LoadSite) (world : World) (path : String) (marker : Marker) :
    World × Lookup :=
  let (world, outcome) := world.call site.loader (site.requestFor path)
  match PackageCache.verdict path outcome world.cancelled with
  | .found pkg =>
    (world.withPackages (world.packages.settle path (.ready pkg)), done (.ok pkg))
  | .cancelled =>
    (world.withPackages (world.packages.release path marker), done (.error .cancelled))
  | .failed failure =>
    (world.withPackages (world.packages.settle path (.failed failure)), done (.error failure))

/-- Goes on with a load: gives way once more, or ends it. -/
def proceed (site : LoadSite) (world : World) (path : String) : Lookup → World × Lookup
  | loading marker 0 => endLoad site world path marker
  | loading marker (pauses + 1) => (world, loading marker pauses)
  | other => (world, other)

/-- Goes on with a lookup until it is done or has to give way. -/
def poll (site : LoadSite) (world : World) (path : String) (lookup : Lookup) : World × Lookup :=
  let (world, lookup) := enter site world path (lookup.wake world path)
  proceed site world path lookup

/-- Gives a lookup up.  A marker that it holds is taken out. -/
def drop (world : World) (path : String) : Lookup → World
  | loading marker _ => world.withPackages (world.packages.release path marker)
  | _ => world

/-- Whether a lookup has its result. -/
def isDone : Lookup → Bool
  | done _ => true
  | _ => false

/-- Goes on with each of several lookups once, in order. -/
def pollEach (site : LoadSite) (world : World) :
    List (String × Lookup) → World × List (String × Lookup)
  | [] => (world, [])
  | (path, lookup) :: rest =>
    let (world, lookup) := poll site world path lookup
    let (world, rest) := pollEach site world rest
    (world, (path, lookup) :: rest)

/-- Goes on with several lookups for so many rounds, or until all are done. -/
def rounds (site : LoadSite) :
    Nat → World → List (String × Lookup) → World × List (String × Lookup)
  | 0, world, lookups => (world, lookups)
  | n + 1, world, lookups =>
    if lookups.all fun l => l.2.isDone then (world, lookups)
    else
      let (world, lookups) := pollEach site world lookups
      rounds site n world lookups

/-- Looks several packages up at once.  A round takes a pause away from every load, and every load
that ends lets its sleepers go on, so this many rounds are enough. -/
def joinAll (site : LoadSite) (world : World) (paths : List String) :
    World × List (Except Failure Package) :=
  let count := (site.loader.pauses + 2) * (paths.length + 1)
  let (world, lookups) := rounds site count world (paths.map fun path => (path, start))
  (world, lookups.map fun l =>
    match l.2 with
    | done result => result
    | _ => .error .cancelled)

/-- Looks one package up. -/
def get (site : LoadSite) (world : World) (path : String) : World × Except Failure Package :=
  let (world, results) := joinAll site world [path]
  (world, results.headD (.error .cancelled))

end Lookup

end Wiring
