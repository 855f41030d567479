/-
**The graph of provider sets.**

Sets refer to sets.  A graph keeps the sets that a request may reach, finds circles among their
references, and flattens what a request lists into one list of candidates.

A candidate is ranked by how deep its set lies below the request, by the entry of the request that
leads to it first, and by the order in which the walk meets it.

Main definitions:

* `Wiring.SetGraph`, `Wiring.SetGraph.add` — the sets, each identity kept once;
* `Wiring.SetGraph.explore`, `Wiring.SetGraph.findCycle?` — a depth-first search for a circle;
* `Wiring.SetGraph.walk`, `Wiring.SetGraph.flatten` — the breadth-first walk that ranks candidates.
-/

import Wiring.Failure
import Wiring.Measure

set_option autoImplicit false

namespace Wiring

/-- Where a candidate stands in the order of precedence. -/
structure Rank where
  /-- Zero for what is listed directly, one for the sets referred to, and so on. -/
  depth : Nat
  /-- The entry of the request that leads here. -/
  rootIndex : Nat
  /-- The place in the order of the walk. -/
  order : Nat
deriving DecidableEq, Inhabited

/-- Ranks are compared by depth, then by entry, then by order. -/
def Rank.le (a b : Rank) : Bool :=
  a.depth < b.depth || (a.depth = b.depth &&
    (a.rootIndex < b.rootIndex || (a.rootIndex = b.rootIndex && a.order ≤ b.order)))

/-- A provider and its rank. -/
structure Candidate where
  provider : Provider
  rank : Rank
deriving DecidableEq, Inhabited

/-- The sets that were added, in that order, each identity once. -/
structure SetGraph where
  sets : List ProviderSet := []
deriving Inhabited

namespace SetGraph

/-- The set with a given identity. -/
def get? (g : SetGraph) (id : SetId) : Option ProviderSet :=
  g.sets.find? fun s => s.id = id

/-- Adds a set.  A set whose identity is there already is left out. -/
def add (g : SetGraph) (s : ProviderSet) : SetGraph :=
  if (g.get? s.id).isSome then g else ⟨g.sets ++ [s]⟩

/-- The graph of some sets, added in order. -/
def ofSets (sets : List ProviderSet) : SetGraph :=
  sets.foldl add {}

/-- The number of sets. -/
def size (g : SetGraph) : Nat :=
  g.sets.length

/-- The identities of the sets and of all that they refer to, in the order in which they are first
mentioned. -/
def nodes (g : SetGraph) : List SetId :=
  (g.sets.flatMap fun s => s.id :: s.references).eraseDups

/-- The number of sets whose identities are not in a list. -/
def unmet (g : SetGraph) (met : List SetId) : Nat :=
  (g.sets.filter fun s => !met.contains s.id).length

theorem mem_sets_of_get? {g : SetGraph} {id : SetId} {s : ProviderSet} (h : g.get? id = some s) :
    s ∈ g.sets ∧ s.id = id :=
  ⟨List.mem_of_find?_eq_some h, by simpa using List.find?_some h⟩

theorem unmet_lt {g : SetGraph} {id : SetId} {s : ProviderSet} {met more : List SetId}
    (h : g.get? id = some s) (hid : id ∉ met) (hmore : ∀ x, x ∈ met → x ∈ more)
    (hnew : id ∈ more) : g.unmet more < g.unmet met := by
  obtain ⟨hs, rfl⟩ := mem_sets_of_get? h
  refine length_filter_lt (fun x hx => ?_) hs (by simpa using hid) (by simpa using hnew)
  simp only [Bool.not_eq_true', List.contains_eq_mem, decide_eq_false_iff_not] at hx ⊢
  exact fun hmet => hx (hmore _ hmet)

/-- The circle that closes when a path reaches one of its own members again. -/
def closeLoop (path : List SetId) (id : SetId) : List SetId :=
  path.dropWhile (· ≠ id) ++ [id]

/-- Searches depth first from the identities in a list.  `path` leads to where the search stands,
and what is `done` leads to no circle.  The answer is a circle, or all that is done now. -/
def explore (g : SetGraph) (path done : List SetId) :
    List SetId → Except (List SetId) (List SetId)
  | [] => .ok done
  | id :: rest =>
    if _onPath : id ∈ path then .error (closeLoop path id)
    else if id ∈ done then g.explore path done rest
    else match _kept : g.get? id with
      | none => g.explore path (id :: done) rest
      | some s =>
        match g.explore (path ++ [id]) done s.references with
        | .error chain => .error chain
        | .ok more => g.explore path (id :: more) rest
termination_by todo => (g.unmet path, todo.length)
decreasing_by
  · exact Prod.Lex.right _ (Nat.lt_succ_self _)
  · exact Prod.Lex.right _ (Nat.lt_succ_self _)
  · exact Prod.Lex.left _ _ (unmet_lt _kept _onPath (by simp +contextual) (by simp))
  · exact Prod.Lex.right _ (Nat.lt_succ_self _)

/-- A circle of references, if there is one: each of its sets refers to the next, and the last is
the first. -/
def findCycle? (g : SetGraph) : Option (List SetId) :=
  match g.explore [] [] g.nodes with
  | .error chain => some chain
  | .ok _ => none

/-- Refuses a graph with a circle of references. -/
def checkAcyclic (g : SetGraph) : Except Failure Unit :=
  match g.findCycle? with
  | some chain => .error (.setCycle (chain.map SetId.text))
  | none => .ok ()

/-- A set that the walk has come upon: how deep, from which entry, and who refers to it. -/
structure Visit where
  id : SetId
  depth : Nat
  rootIndex : Nat
  referencedFrom : String

/-- Gives providers consecutive ranks, starting at a given place in the order. -/
def rankFrom (depth rootIndex start : Nat) (providers : List Provider) : List Candidate :=
  providers.mapIdx fun i p => ⟨p, ⟨depth, rootIndex, start + i⟩⟩

/-- The visits that a set's references call for. -/
def Visit.onward (v : Visit) (s : ProviderSet) : List Visit :=
  s.references.map fun id => ⟨id, v.depth + 1, v.rootIndex, v.id.text⟩

/-- Walks breadth first.  Each set is met once, when it is first come upon. -/
def walk (g : SetGraph) (done : List SetId) (ranked : List Candidate) :
    List Visit → Except Failure (List Candidate)
  | [] => .ok ranked
  | v :: rest =>
    if _met : v.id ∈ done then g.walk done ranked rest
    else match _kept : g.get? v.id with
      | none => .error (.unknownSet v.id.text v.referencedFrom)
      | some s =>
        g.walk (v.id :: done)
          (ranked ++ rankFrom v.depth v.rootIndex ranked.length s.providers)
          (rest ++ v.onward s)
termination_by queue => (g.unmet done, queue.length)
decreasing_by
  · exact Prod.Lex.right _ (Nat.lt_succ_self _)
  · exact Prod.Lex.left _ _ (unmet_lt _kept _met (by simp +contextual) (by simp))

/-- The providers that a request lists, with the positions at which it lists them. -/
def rootCandidates (roots : List SetItem) : List Candidate :=
  (roots.zipIdx.filterMap fun (item, rootIndex) =>
    item.provider?.map fun p => (p, rootIndex)).mapIdx fun order (p, rootIndex) =>
      ⟨p, ⟨0, rootIndex, order⟩⟩

/-- The sets that a request refers to, with the positions at which it does. -/
def rootVisits (roots : List SetItem) (referencedFrom : String) : List Visit :=
  roots.zipIdx.filterMap fun (item, rootIndex) =>
    item.reference?.map fun id => ⟨id, 1, rootIndex, referencedFrom⟩

/-- All providers that a request can draw from, the ones of the highest precedence first. -/
def flatten (g : SetGraph) (roots : List SetItem) (referencedFrom : String) :
    Except Failure (List Candidate) := do
  g.checkAcyclic
  let ranked ← g.walk [] (rootCandidates roots) (rootVisits roots referencedFrom)
  return ranked.mergeSort fun a b => a.rank.le b.rank

end SetGraph

end Wiring
