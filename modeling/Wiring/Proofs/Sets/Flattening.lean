/-
**Flattening.**

What a request can draw from are the providers that it lists itself and those of the sets that it can reach.
The walk that collects them is a breadth-first search, so it comes upon each of these sets once; it fails
only when one of them was never added.

Main definitions:

* `Wiring.SetGraph.Offers` — a request can draw from a provider.

Main results:

* `Wiring.SetGraph.walk_ok`, `Wiring.SetGraph.walk_error` — what the walk comes to;
* `Wiring.SetGraph.mem_of_flatten` — **the candidates are what the request can draw from**;
* `Wiring.SetGraph.flatten_error` — a request is refused for a circle or for a set that was never added.
-/

import Mathlib.Data.List.Basic
import Wiring.Plan
import Wiring.Proofs.Sets.Circles

set_option autoImplicit false

namespace Wiring.SetGraph

variable {g : SetGraph} {roots done order : List SetId} {ranked result : List Candidate}
  {queue rest : List Visit} {v : Visit} {items : List SetItem} {listed : List Provider}
  {asker : String} {s : ProviderSet} {p : Provider} {f : Failure}

/-- The providers of a set.  A set that was never added has none. -/
def providersOf (g : SetGraph) (id : SetId) : List Provider :=
  (g.get? id).elim [] ProviderSet.providers

theorem providersOf_of_get? {id : SetId} (h : g.get? id = some s) : g.providersOf id = s.providers := by
  rw [providersOf, h, Option.elim_some]

/-- A request can draw from a provider: it lists the provider, or a set within its reach does. -/
def Offers (g : SetGraph) (items : List SetItem) (p : Provider) : Prop :=
  .provider p ∈ items ∨
    ∃ id s, Reachable g.references (items.filterMap SetItem.reference?) id ∧ g.get? id = some s ∧
      p ∈ s.providers

/-! ### The walk -/

theorem walk_met (h : v.id ∈ done) : g.walk done ranked (v :: rest) = g.walk done ranked rest := by
  rw [walk, dif_pos h]

theorem walk_absent (hnew : v.id ∉ done) (h : g.get? v.id = none) :
    g.walk done ranked (v :: rest) = .error (.unknownSet v.id.text v.referencedFrom) := by
  rw [walk, dif_neg hnew]
  split
  · rfl
  next s hs => cases h.symm.trans hs

theorem walk_kept (hnew : v.id ∉ done) (h : g.get? v.id = some s) :
    g.walk done ranked (v :: rest) =
      g.walk (v.id :: done) (ranked ++ rankFrom v.depth v.rootIndex ranked.length s.providers)
        (rest ++ v.onward s) := by
  rw [walk, dif_neg hnew]
  split
  next habsent => cases habsent.symm.trans h
  next s' hs =>
    cases h.symm.trans hs
    rfl

/-- Ranks do not show in the providers. -/
theorem map_mapIdx {α β γ : Type} {f : Nat → α → β} {g : β → γ} {k : α → γ}
    (h : ∀ i a, g (f i a) = k a) (l : List α) : (l.mapIdx f).map g = l.map k := by
  refine List.ext_getElem (by simp) fun i _ _ => ?_
  simp [h]

theorem map_provider_rankFrom (depth rootIndex start : Nat) (providers : List Provider) :
    (rankFrom depth rootIndex start providers).map Candidate.provider = providers := by
  rw [rankFrom, map_mapIdx (k := id) (by intros; rfl), List.map_id]

theorem map_id_onward (v : Visit) (s : ProviderSet) : (v.onward s).map Visit.id = s.references := by
  rw [Visit.onward, List.map_map]
  exact List.map_id' _

/-- A set that is come upon for the first time is met, and its references are put at the end. -/
theorem searching_kept (h : Searching g.references roots done.reverse ((v :: rest).map Visit.id))
    (hnew : v.id ∉ done) (hs : g.get? v.id = some s) :
    Searching g.references roots (v.id :: done).reverse ((rest ++ v.onward s).map Visit.id) := by
  rw [List.map_cons] at h
  have hmeet := h.meet (by simpa using hnew)
  rwa [references_of_get? hs, ← map_id_onward v s, ← List.map_append, ← List.reverse_cons] at hmeet

/-- A walk that comes to an end has met the sets within reach breadth first, and has ranked their providers
in this order after what it was given. -/
theorem walk_ok (hsearch : Searching g.references roots done.reverse (queue.map Visit.id))
    (hkept : ∀ id ∈ done, ∃ s, g.get? id = some s)
    (hranked : ranked.map Candidate.provider = listed ++ done.reverse.flatMap g.providersOf)
    (h : g.walk done ranked queue = .ok result) :
    ∃ order, BreadthFirst g.references roots order ∧ (∀ id ∈ order, ∃ s, g.get? id = some s) ∧
      result.map Candidate.provider = listed ++ order.flatMap g.providersOf := by
  induction done, ranked, queue using walk.induct g with
  | case1 done ranked =>
      rw [walk] at h
      cases h
      exact ⟨_, hsearch.finish, by simpa using hkept, hranked⟩
  | case2 done ranked v rest hmet ih =>
      rw [walk_met hmet] at h
      exact ih (hsearch.skip (by simpa using hmet)) hkept hranked h
  | case3 done ranked v rest hnew habsent =>
      rw [walk_absent hnew habsent] at h
      cases h
  | case4 done ranked v rest hnew s hs ih =>
      rw [walk_kept hnew hs] at h
      refine ih (searching_kept hsearch hnew hs) (List.forall_mem_cons.2 ⟨⟨s, hs⟩, hkept⟩) ?_ h
      rw [List.map_append, map_provider_rankFrom, hranked, List.reverse_cons, List.flatMap_append,
        List.flatMap_singleton, providersOf_of_get? hs, List.append_assoc]

/-- A walk fails only over a set within reach that was never added. -/
theorem walk_error (hsearch : Searching g.references roots done.reverse (queue.map Visit.id))
    (h : g.walk done ranked queue = .error f) :
    ∃ v : Visit, f = .unknownSet v.id.text v.referencedFrom ∧
      Reachable g.references roots v.id ∧ g.get? v.id = none := by
  induction done, ranked, queue using walk.induct g with
  | case1 done ranked =>
      rw [walk] at h
      cases h
  | case2 done ranked v rest hmet ih =>
      rw [walk_met hmet] at h
      exact ih (hsearch.skip (by simpa using hmet)) h
  | case3 done ranked v rest hnew habsent =>
      rw [walk_absent hnew habsent] at h
      cases h
      exact ⟨v, rfl, hsearch.reached_queue (by simp), habsent⟩
  | case4 done ranked v rest hnew s hs ih =>
      rw [walk_kept hnew hs] at h
      exact ih (searching_kept hsearch hnew hs) h

/-! ### Requests -/

/-- Positions do not show where only the things themselves are looked at. -/
theorem filterMap_zipIdx {α β : Type} (l : List α) (f : α → Option β) :
    l.zipIdx.filterMap (fun e => f e.1) = l.filterMap f := by
  conv_rhs => rw [← List.zipIdx_map_fst 0 l, List.filterMap_map]
  rfl

theorem map_id_rootVisits (items : List SetItem) (asker : String) :
    (rootVisits items asker).map Visit.id = items.filterMap SetItem.reference? := by
  rw [rootVisits, List.map_filterMap, ← filterMap_zipIdx items]
  refine List.filterMap_congr fun e _ => ?_
  obtain ⟨item, rootIndex⟩ := e
  cases item <;> rfl

theorem map_provider_rootCandidates (items : List SetItem) :
    (rootCandidates items).map Candidate.provider = items.filterMap SetItem.provider? := by
  rw [rootCandidates, map_mapIdx (k := Prod.fst) (by intros; rfl), List.map_filterMap,
    ← filterMap_zipIdx items]
  refine List.filterMap_congr fun e _ => ?_
  obtain ⟨item, rootIndex⟩ := e
  cases item <;> rfl

theorem searching_rootVisits (g : SetGraph) (items : List SetItem) (asker : String) :
    Searching g.references (items.filterMap SetItem.reference?) ([] : List SetId).reverse
      ((rootVisits items asker).map Visit.id) := by
  rw [map_id_rootVisits]
  exact .start _ _

theorem mem_filterMap_provider? : p ∈ items.filterMap SetItem.provider? ↔ .provider p ∈ items := by
  rw [List.mem_filterMap]
  constructor
  · rintro ⟨item, hitem, hp⟩
    cases item with
    | provider q =>
        cases hp
        exact hitem
    | reference id => cases hp
  · intro h
    exact ⟨_, h, rfl⟩

/-- What flattening comes to is decided by the search for a circle and the walk. -/
theorem flatten_eq (h : g.checkAcyclic = .ok ()) :
    g.flatten items asker =
      (g.walk [] (rootCandidates items) (rootVisits items asker)).map fun ranked =>
        ranked.mergeSort fun a b => a.rank.le b.rank := by
  rw [flatten, h]
  cases g.walk [] (rootCandidates items) (rootVisits items asker) <;> rfl

/-- **The candidates are what the request can draw from.** -/
theorem mem_of_flatten (h : g.flatten items asker = .ok ranked) (p : Provider) :
    (∃ c ∈ ranked, c.provider = p) ↔ g.Offers items p := by
  cases hcheck : g.checkAcyclic with
  | error f =>
      rw [flatten, hcheck] at h
      cases h
  | ok _ =>
      rw [flatten_eq hcheck] at h
      cases hwalk : g.walk [] (rootCandidates items) (rootVisits items asker) with
      | error f =>
          rw [hwalk] at h
          cases h
      | ok result =>
          rw [hwalk] at h
          cases h
          obtain ⟨order, horder, hkept, hproviders⟩ := walk_ok (searching_rootVisits g items asker) nofun
            (by simpa using map_provider_rootCandidates items) hwalk
          have hmem : (∃ c ∈ result, c.provider = p) ↔ p ∈ result.map Candidate.provider :=
            List.mem_map.symm
          simp only [List.mem_mergeSort]
          rw [hmem, hproviders, List.mem_append, mem_filterMap_provider?, List.mem_flatMap, Offers]
          refine or_congr_right ⟨?_, ?_⟩
          · rintro ⟨id, hid, hp⟩
            obtain ⟨s, hs⟩ := hkept id hid
            rw [providersOf_of_get? hs] at hp
            exact ⟨id, s, horder.mem_iff.1 hid, hs, hp⟩
          · rintro ⟨id, s, hreach, hs, hp⟩
            exact ⟨id, horder.mem_iff.2 hreach, by rwa [providersOf_of_get? hs]⟩

/-- A request is refused for a circle, or for a set within its reach that was never added. -/
theorem flatten_error (h : g.flatten items asker = .error f) :
    (∃ chain, f = .setCycle (chain.map SetId.text) ∧ g.IsCircle chain) ∨
      ∃ v : Visit, f = .unknownSet v.id.text v.referencedFrom ∧
        Reachable g.references (items.filterMap SetItem.reference?) v.id ∧ g.get? v.id = none := by
  cases hcheck : g.checkAcyclic with
  | error f' =>
      rw [flatten, hcheck] at h
      cases h
      exact Or.inl (checkAcyclic_error hcheck)
  | ok _ =>
      rw [flatten_eq hcheck] at h
      cases hwalk : g.walk [] (rootCandidates items) (rootVisits items asker) with
      | error f' =>
          rw [hwalk] at h
          cases h
          exact Or.inr (walk_error (searching_rootVisits g items asker) hwalk)
      | ok result =>
          rw [hwalk] at h
          cases h

end Wiring.SetGraph
