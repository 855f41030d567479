/-
**Catalogues.**

A catalogue serves packages that are at hand already.  Its patterns are exact package paths.  Some
paths may be registered as failing.

Main definitions:

* `Wiring.Catalog` — the packages and the failures;
* `Wiring.Catalog.collect` — the breadth-first walk over the wanted paths; it ends because the
  packages that it has not met become fewer;
* `Wiring.Catalog.load`, `Wiring.Catalog.visited` — the answer, and the paths that were tried;
* `Wiring.Service` — a catalogue as a loader that may be slow, cancel the run, or hold back
  packages.
-/

import Wiring.Loading.Loader
import Wiring.Measure

set_option autoImplicit false

namespace Wiring

/-- Packages that are at hand, and paths that fail with a message. -/
structure Catalog where
  packages : Table String Package := {}
  failures : List (String × String) := []
deriving Inhabited

namespace Catalog

/-- The catalogue of some packages; of two with the same path the later one counts. -/
def ofPackages (packages : List Package) (failures : List (String × String)) : Catalog where
  packages := packages.foldl (fun (t : Table String Package) p => t.put p.path p) {}
  failures := failures

/-- The number of entries whose paths are not in a list. -/
def unmet (c : Catalog) (met : List String) : Nat :=
  (c.packages.entries.filter fun e => !met.contains e.1).length

theorem unmet_lt {c : Catalog} {path : String} {pkg : Package} {met : List String}
    (h : c.packages.get? path = some pkg) (hpath : path ∉ met) :
    c.unmet (path :: met) < c.unmet met := by
  obtain ⟨e, he, rfl⟩ := Option.map_eq_some_iff.1 h
  have hmem := List.mem_of_find?_eq_some he
  have hkey : e.1 = path := by simpa using List.find?_some he
  refine length_filter_lt (fun x hx => ?_) hmem (by simpa [hkey] using hpath) (by simp [hkey])
  simp only [List.contains_eq_mem, List.mem_cons, not_or, Bool.not_eq_true',
    decide_eq_false_iff_not] at hx ⊢
  exact hx.2

theorem unmet_cons_le (c : Catalog) (path : String) (met : List String) :
    c.unmet (path :: met) ≤ c.unmet met := by
  refine length_filter_le_of_imp _ fun x hx => ?_
  simp only [List.contains_eq_mem, List.mem_cons, not_or, Bool.not_eq_true',
    decide_eq_false_iff_not] at hx ⊢
  exact hx.2

/-- What a walk has gathered: the outcome, and the paths that were tried. -/
structure Harvest where
  outcome : LoadOutcome := {}
  visited : List String := []

namespace Harvest

/-- Adds an error. -/
def fail (h : Harvest) (path message : String) : Harvest :=
  { h with outcome.errors := h.outcome.errors ++ [⟨path, message⟩] }

/-- Notes that a path is tried. -/
def visit (h : Harvest) (path : String) : Harvest :=
  { h with visited := h.visited ++ [path] }

/-- Adds a package. -/
def add (h : Harvest) (pkg : Package) : Harvest :=
  { h with outcome.packages := h.outcome.packages ++ [pkg] }

end Harvest

/-- Walks over the wanted paths, each once.  In a load with dependencies the imports of each package
are wanted too. -/
def collect (c : Catalog) (mode : LoadMode) (cancelled : Bool) (met : List String)
    (harvest : Harvest) : List String → Harvest
  | [] => harvest
  | path :: rest =>
    if _met : path ∈ met then c.collect mode cancelled met harvest rest
    else if cancelled then
      c.collect mode cancelled (path :: met) (harvest.fail path loadCancelled) rest
    else match c.failures.lookup path with
    | some message =>
      c.collect mode cancelled (path :: met) ((harvest.visit path).fail path message) rest
    | none =>
      match _known : c.packages.get? path with
      | none =>
        c.collect mode cancelled (path :: met)
          ((harvest.visit path).fail path "package not found") rest
      | some pkg =>
        c.collect mode cancelled (path :: met) ((harvest.visit path).add pkg)
          (if mode = .withDeps then rest ++ pkg.imports else rest)
termination_by queue => (c.unmet met, queue.length)
decreasing_by
  · exact Prod.Lex.right _ (Nat.lt_succ_self _)
  · exact lex_of_le_of_lt (unmet_cons_le c _ _) (Nat.lt_succ_self _)
  · exact lex_of_le_of_lt (unmet_cons_le c _ _) (Nat.lt_succ_self _)
  · exact lex_of_le_of_lt (unmet_cons_le c _ _) (Nat.lt_succ_self _)
  · exact Prod.Lex.left _ _ (unmet_lt _known _met)

/-- What a catalogue gathers for a request. -/
def harvest (c : Catalog) (request : LoadRequest) (cancelled : Bool) : Harvest :=
  c.collect request.mode cancelled [] {} request.patterns

/-- The answer of a catalogue. -/
def load (c : Catalog) (request : LoadRequest) (cancelled : Bool) : LoadOutcome :=
  (c.harvest request cancelled).outcome

/-- The paths that a catalogue tries for a request. -/
def visited (c : Catalog) (request : LoadRequest) (cancelled : Bool) : List String :=
  (c.harvest request cancelled).visited

end Catalog

/-- A catalogue served under conditions: calls give way to other work, some patterns cancel the run,
and some packages are held back without an error. -/
structure Service where
  catalog : Catalog := {}
  /-- How often a call gives way before it answers. -/
  pauses : Nat := 0
  /-- The patterns that cancel the run. -/
  cancelOn : List String := []
  /-- Whether they do so after the catalogue has answered, and not before. -/
  cancelAfter : Bool := false
  /-- The packages that are held back. -/
  hidden : List String := []
deriving Inhabited

namespace Service

/-- Whether a request cancels the run. -/
def cancels (s : Service) (request : LoadRequest) : Bool :=
  request.patterns.any s.cancelOn.contains

/-- Whether the run is cancelled when the catalogue comes to answer. -/
def cancelledAt (s : Service) (request : LoadRequest) (cancelled : Bool) : Bool :=
  cancelled || (s.cancels request && !s.cancelAfter)

/-- The answer to a request, and whether the run is cancelled afterwards. -/
def answer (s : Service) (request : LoadRequest) (cancelled : Bool) : LoadOutcome × Bool :=
  let outcome := s.catalog.load request (s.cancelledAt request cancelled)
  ({ outcome with packages := outcome.packages.filter fun p => !s.hidden.contains p.path },
    cancelled || s.cancels request)

/-- The paths that are tried for a request. -/
def visited (s : Service) (request : LoadRequest) (cancelled : Bool) : List String :=
  s.catalog.visited request (s.cancelledAt request cancelled)

/-- The service as a loader. -/
def loader (s : Service) : Loader where
  pauses := s.pauses
  answer := s.answer

end Service

end Wiring
