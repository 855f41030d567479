/-
**Circles of references.**

The search for a circle goes depth first through the sets.  It keeps the path to where it stands and a list
of sets that it is done with.  Whatever it is done with leads to an end, however its references are
followed; so when it is done with all sets there is no circle, and when it comes back to its own path there
is one.

Main definitions:

* `Wiring.SetGraph.references` — what a set of the graph refers to;
* `Wiring.SetGraph.Refers` — one kept set refers to another set;
* `Wiring.SetGraph.Ends` — from a set on, the references lead to an end;
* `Wiring.SetGraph.IsCircle` — a chain of references that comes back to where it began.

Main results:

* `Wiring.SetGraph.explore_ok`, `Wiring.SetGraph.explore_error` — what the search finds;
* `Wiring.SetGraph.findCycle?_eq_none_iff` — **there is no circle exactly when none is found**;
* `Wiring.SetGraph.isCircle_of_findCycle?` — a circle that is found is one.
-/

import Wiring.Proofs.Search
import Wiring.SetGraph

set_option autoImplicit false

namespace Wiring.SetGraph

variable {g : SetGraph} {path done more todo chain : List SetId} {id next : SetId} {s : ProviderSet}

/-! ### References -/

/-- What a set refers to.  A set that was never added refers to nothing. -/
def references (g : SetGraph) (id : SetId) : List SetId :=
  (g.get? id).elim [] ProviderSet.references

/-- A set refers to another one. -/
def Refers (g : SetGraph) (id next : SetId) : Prop :=
  next ∈ g.references id

theorem references_of_get? (h : g.get? id = some s) : g.references id = s.references := by
  rw [references, h, Option.elim_some]

theorem references_of_absent (h : g.get? id = none) : g.references id = [] := by
  rw [references, h, Option.elim_none]

/-- From a set on, the references lead to an end, whichever of them are followed. -/
def Ends (g : SetGraph) (id : SetId) : Prop :=
  Acc (fun next id => g.Refers id next) id

theorem ends_of_references (h : ∀ next ∈ g.references id, g.Ends next) : g.Ends id :=
  Acc.intro id h

/-- A set that refers to anything is one of the nodes. -/
theorem Refers.mem_nodes (h : g.Refers id next) : id ∈ g.nodes := by
  cases hkept : g.get? id with
  | none =>
      rw [Refers, references_of_absent hkept] at h
      cases h
  | some s =>
      obtain ⟨hs, rfl⟩ := mem_sets_of_get? hkept
      exact List.mem_eraseDups.2 (List.mem_flatMap.2 ⟨s, hs, List.mem_cons_self⟩)

/-- So is whatever a set refers to. -/
theorem Refers.target_mem_nodes (h : g.Refers id next) : next ∈ g.nodes := by
  cases hkept : g.get? id with
  | none =>
      rw [Refers, references_of_absent hkept] at h
      cases h
  | some s =>
      rw [Refers, references_of_get? hkept] at h
      obtain ⟨hs, rfl⟩ := mem_sets_of_get? hkept
      exact List.mem_eraseDups.2 (List.mem_flatMap.2 ⟨s, hs, List.mem_cons_of_mem _ h⟩)

/-! ### The search -/

section Equations

variable {rest : List SetId}

theorem explore_onPath (h : id ∈ path) :
    g.explore path done (id :: rest) = .error (closeLoop path id) := by
  rw [explore, dif_pos h]

theorem explore_done (hoff : id ∉ path) (h : id ∈ done) :
    g.explore path done (id :: rest) = g.explore path done rest := by
  rw [explore, dif_neg hoff, if_pos h]

theorem explore_absent (hoff : id ∉ path) (hnew : id ∉ done) (h : g.get? id = none) :
    g.explore path done (id :: rest) = g.explore path (id :: done) rest := by
  rw [explore, dif_neg hoff, if_neg hnew]
  split
  · rfl
  next s hs => cases h.symm.trans hs

/-- The references of a set are searched before what comes after it. -/
theorem explore_kept (hoff : id ∉ path) (hnew : id ∉ done) (h : g.get? id = some s) :
    g.explore path done (id :: rest) =
      (g.explore (path ++ [id]) done s.references).bind fun more =>
        g.explore path (id :: more) rest := by
  rw [explore, dif_neg hoff, if_neg hnew]
  split
  next habsent => cases habsent.symm.trans h
  next s' hs =>
    cases h.symm.trans hs
    cases g.explore (path ++ [id]) done s.references <;> rfl

end Equations

/-- When the search finds no circle it is done with all that it was given, and all that it is done with leads
to an end. -/
theorem explore_ok (hdone : ∀ id ∈ done, g.Ends id) (h : g.explore path done todo = .ok more) :
    (∀ id ∈ more, g.Ends id) ∧ (∀ id ∈ done, id ∈ more) ∧ ∀ id ∈ todo, id ∈ more := by
  induction path, done, todo using explore.induct g generalizing more with
  | case1 path done =>
      rw [explore] at h
      cases h
      exact ⟨hdone, fun _ hid => hid, nofun⟩
  | case2 path done id rest honPath =>
      rw [explore_onPath honPath] at h
      cases h
  | case3 path done id rest hoff hmem ih =>
      rw [explore_done hoff hmem] at h
      obtain ⟨hends, hkept, hrest⟩ := ih hdone h
      exact ⟨hends, hkept, List.forall_mem_cons.2 ⟨hkept id hmem, hrest⟩⟩
  | case4 path done id rest hoff hnew habsent ih =>
      rw [explore_absent hoff hnew habsent] at h
      have hend : g.Ends id := ends_of_references fun next hnext => by
        rw [references_of_absent habsent] at hnext
        cases hnext
      obtain ⟨hends, hkept, hrest⟩ := ih (List.forall_mem_cons.2 ⟨hend, hdone⟩) h
      obtain ⟨hid, hkept⟩ := List.forall_mem_cons.1 hkept
      exact ⟨hends, hkept, List.forall_mem_cons.2 ⟨hid, hrest⟩⟩
  | case5 path done id rest hoff hnew s hs chain hchain =>
      rw [explore_kept hoff hnew hs, hchain] at h
      cases h
  | case6 path done id rest hoff hnew s hs below hbelow ihBelow ihRest =>
      rw [explore_kept hoff hnew hs, hbelow] at h
      obtain ⟨hendsBelow, hkeptBelow, hreferences⟩ := ihBelow hdone hbelow
      -- all references of the set lead to an end, so the set does
      have hend : g.Ends id := ends_of_references fun next hnext => by
        rw [references_of_get? hs] at hnext
        exact hendsBelow next (hreferences next hnext)
      obtain ⟨hends, hkept, hrest⟩ := ihRest (List.forall_mem_cons.2 ⟨hend, hendsBelow⟩) h
      obtain ⟨hid, hkept⟩ := List.forall_mem_cons.1 hkept
      exact ⟨hends, fun next hnext => hkept next (hkeptBelow next hnext),
        List.forall_mem_cons.2 ⟨hid, hrest⟩⟩

/-- A chain of references that comes back to where it began. -/
def IsCircle (g : SetGraph) (chain : List SetId) : Prop :=
  ∃ id middle, chain = id :: (middle ++ [id]) ∧ List.IsChain g.Refers chain

/-- What the search stands before is referred to by the last member of its path. -/
def Follows (g : SetGraph) (path todo : List SetId) : Prop :=
  List.IsChain g.Refers path ∧ ∀ id ∈ todo, ∀ last ∈ path.getLast?, g.Refers last id

theorem Follows.isChain (h : g.Follows path todo) (hid : id ∈ todo) :
    List.IsChain g.Refers (path ++ [id]) := by
  refine List.isChain_append.2 ⟨h.1, List.isChain_singleton _, ?_⟩
  intro last hlast first hfirst
  obtain rfl : id = first := by simpa using hfirst
  exact h.2 id hid last hlast

theorem Follows.tail {rest : List SetId} (h : g.Follows path (id :: rest)) : g.Follows path rest :=
  ⟨h.1, fun next hnext => h.2 next (List.mem_cons_of_mem _ hnext)⟩

/-- The references of a set follow the path that the set prolongs. -/
theorem Follows.below (h : g.Follows path todo) (hid : id ∈ todo) (hs : g.get? id = some s) :
    g.Follows (path ++ [id]) s.references := by
  refine ⟨h.isChain hid, fun next hnext last hlast => ?_⟩
  obtain rfl : id = last := by simpa using hlast
  rw [Refers, references_of_get? hs]
  exact hnext

/-- What the search finds is a circle. -/
theorem explore_error (hfollows : g.Follows path todo) (h : g.explore path done todo = .error chain) :
    g.IsCircle chain := by
  induction path, done, todo using explore.induct g with
  | case1 path done =>
      rw [explore] at h
      cases h
  | case2 path done id rest honPath =>
      rw [explore_onPath honPath] at h
      cases h
      obtain ⟨before, middle, hsplit, hclosed⟩ := closed_eq honPath
      have hlong := hfollows.isChain (List.mem_cons_self (a := id))
      rw [hsplit, List.append_assoc] at hlong
      rw [closeLoop, hclosed]
      exact ⟨id, middle, rfl, hlong.right_of_append⟩
  | case3 path done id rest hoff hmem ih =>
      rw [explore_done hoff hmem] at h
      exact ih hfollows.tail h
  | case4 path done id rest hoff hnew habsent ih =>
      rw [explore_absent hoff hnew habsent] at h
      exact ih hfollows.tail h
  | case5 path done id rest hoff hnew s hs found hfound ih =>
      rw [explore_kept hoff hnew hs, hfound] at h
      cases h
      exact ih (hfollows.below List.mem_cons_self hs) hfound
  | case6 path done id rest hoff hnew s hs below hbelow _ ih =>
      rw [explore_kept hoff hnew hs, hbelow] at h
      exact ih hfollows.tail h

/-! ### Circles of a graph -/

theorem IsCircle.transGen (h : g.IsCircle chain) : ∃ id, Relation.TransGen g.Refers id id := by
  obtain ⟨id, middle, rfl, hchain⟩ := h
  exact ⟨id, transGen_of_isChain hchain⟩

/-- A circle that is found is one. -/
theorem isCircle_of_findCycle? (h : g.findCycle? = some chain) : g.IsCircle chain := by
  rw [findCycle?] at h
  cases hfound : g.explore [] [] g.nodes with
  | error found =>
      rw [hfound] at h
      cases h
      exact explore_error ⟨List.isChain_nil, nofun⟩ hfound
  | ok more =>
      rw [hfound] at h
      cases h

/-- **There is no circle exactly when none is found.** -/
theorem findCycle?_eq_none_iff :
    g.findCycle? = none ↔ ∀ id, ¬ Relation.TransGen g.Refers id id := by
  constructor
  · intro h id hcircle
    unfold findCycle? at h
    split at h
    · cases h
    next more hmore =>
      obtain ⟨hends, -, hnodes⟩ := explore_ok (by simp) hmore
      obtain ⟨_, hfirst, -⟩ := Relation.TransGen.head'_iff.1 hcircle
      exact not_transGen_of_acc (hends id (hnodes id (Refers.mem_nodes hfirst))) hcircle
  · intro h
    cases hfound : g.findCycle? with
    | none => rfl
    | some chain =>
        obtain ⟨id, hcircle⟩ := (isCircle_of_findCycle? hfound).transGen
        exact absurd hcircle (h id)

theorem checkAcyclic_eq_ok_iff :
    g.checkAcyclic = .ok () ↔ ∀ id, ¬ Relation.TransGen g.Refers id id := by
  rw [← findCycle?_eq_none_iff, checkAcyclic]
  cases g.findCycle? <;> simp

/-- A graph is refused for nothing but a circle. -/
theorem checkAcyclic_error {f : Failure} (h : g.checkAcyclic = .error f) :
    ∃ chain, f = .setCycle (chain.map SetId.text) ∧ g.IsCircle chain := by
  unfold checkAcyclic at h
  split at h
  next chain hfound =>
    cases h
    exact ⟨chain, rfl, isCircle_of_findCycle? hfound⟩
  · cases h

end Wiring.SetGraph
