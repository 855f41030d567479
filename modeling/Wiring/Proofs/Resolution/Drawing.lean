/-
**What a request draws from.**

A request is resolved against a graph of sets.  If the graph has every set within reach, no set is missed;
then the sets themselves are refused for a circle of references and for nothing else, and a plan runs only
providers that the request can draw from.

Main definitions:

* `Wiring.SetGraph.Supplies` — a graph has every set that some entries lead to.

Main results:

* `Wiring.unknownSet_not_mem` — **no set is missed**;
* `Wiring.resolveRequest_circle_iff` — **the sets are refused exactly for a circle**;
* `Wiring.offers_of_resolveRequest` — **what a plan runs, the request can draw from**.
-/

import Wiring.Proofs.Resolution.Plans
import Wiring.Proofs.Sets.Flattening

set_option autoImplicit false

namespace Wiring

variable {g : SetGraph} {r : Request} {policy : Policy} {failures : List Failure} {plan : Plan}
  {p : Provider} {job : Job} {f : Failure}

/-- A graph has every set that some entries lead to. -/
def SetGraph.Supplies (g : SetGraph) (items : List SetItem) : Prop :=
  ∀ id, Reachable g.references (items.filterMap SetItem.reference?) id → ∃ s, g.get? id = some s

/-- Once there are candidates, no failure is about sets. -/
theorem Job.Grounded.not_about_sets (h : job.Grounded f) :
    (∀ chain, f ≠ .setCycle chain) ∧ ∀ set asker, f ≠ .unknownSet set asker := by
  cases h <;> exact ⟨nofun, nofun⟩

/-- A request is refused over its sets, or the candidates are there and their resolution fails. -/
theorem resolveRequest_error (h : resolveRequest policy g r = .error failures) (hf : f ∈ failures) :
    g.flatten r.items r.qualifiedName = .error f ∨ ∃ job : Job, job.Grounded f := by
  rcases resolveRequest_cases policy g r with ⟨f', hflatten, heq⟩ | ⟨ranked, -, heq⟩ <;> rw [heq] at h
  · cases h
    rw [List.mem_singleton.1 hf]
    exact Or.inl hflatten
  · exact Or.inr ⟨_, Job.grounded_of_resolve h hf⟩

/-- **No set is missed** if the graph has all that are within reach. -/
theorem unknownSet_not_mem (hg : g.Supplies r.items)
    (h : resolveRequest policy g r = .error failures) (set asker : String) :
    .unknownSet set asker ∉ failures := by
  intro hf
  rcases resolveRequest_error h hf with hflatten | ⟨job, hground⟩
  · rcases SetGraph.flatten_error hflatten with ⟨chain, heq, -⟩ | ⟨v, -, hreach, habsent⟩
    · cases heq
    · obtain ⟨s, hs⟩ := hg v.id hreach
      cases habsent.symm.trans hs
  · exact hground.not_about_sets.2 set asker rfl

/-- **The sets are refused exactly for a circle.** -/
theorem resolveRequest_circle_iff :
    (∃ failures chain, resolveRequest policy g r = .error failures ∧ .setCycle chain ∈ failures) ↔
      ∃ id, Relation.TransGen g.Refers id id := by
  constructor
  · rintro ⟨failures, chain, h, hf⟩
    rcases resolveRequest_error h hf with hflatten | ⟨job, hground⟩
    · rcases SetGraph.flatten_error hflatten with ⟨_, -, hcircle⟩ | ⟨_, heq, -⟩
      · exact hcircle.transGen
      · cases heq
    · exact absurd rfl (hground.not_about_sets.1 chain)
  · rintro ⟨id, hcircle⟩
    cases hcheck : g.checkAcyclic with
    | ok _ => exact absurd hcircle (SetGraph.checkAcyclic_eq_ok_iff.1 hcheck id)
    | error f =>
        obtain ⟨chain, rfl, -⟩ := SetGraph.checkAcyclic_error hcheck
        have hflatten : g.flatten r.items r.qualifiedName = .error (.setCycle (chain.map SetId.text)) := by
          rw [SetGraph.flatten, hcheck]
          rfl
        exact ⟨_, _, by rw [resolveRequest, hflatten], List.mem_singleton.2 rfl⟩

/-- **What a plan runs, the request can draw from.** -/
theorem offers_of_resolveRequest (h : resolveRequest policy g r = .ok plan) (hp : p ∈ plan.providers) :
    g.Offers r.items p := by
  rcases resolveRequest_cases policy g r with ⟨f, -, heq⟩ | ⟨ranked, hflatten, heq⟩ <;> rw [heq] at h
  · cases h
  · obtain ⟨-, rfl⟩ := Job.resolve_eq_ok_iff.1 h
    obtain ⟨s, hs, hmaker⟩ := List.mem_filterMap.1 hp
    obtain ⟨maker, hsource, hc⟩ := (Job.outputs_bound _).sound.chosen hs
    rw [Binding.provider?, hsource, Option.some_inj] at hmaker
    subst hmaker
    exact (SetGraph.mem_of_flatten hflatten maker).1 (List.mem_map.1 hc.mem)

end Wiring
