/-
**The sets that are kept.**

Of the sets that are added under one identity the first is kept.  So what a graph holds, and with it whether
it is refused for a circle of references, depends on the kept sets alone, and not on the order in which sets
of different identities were added.

Main definitions:

* `Wiring.SetGraph.kept?` — the set that a sequence of additions leaves under an identity;
* `Wiring.SetGraph.Cites` — a kept set refers to another set, which may have been added or not.

Main results:

* `Wiring.SetGraph.get?_ofSets` — a graph holds what is kept;
* `Wiring.SetGraph.kept?_perm` — sets of distinct identities are kept in whatever order they are added;
* `Wiring.SetGraph.refuses_circles` — **a graph is refused exactly for a circle among the kept sets**, and
  what it is refused for is one.
-/

import Mathlib.Data.List.Permutation
import Wiring.Proofs.Sets.Circles

set_option autoImplicit false

namespace Wiring.SetGraph

variable {g g' : SetGraph} {s : ProviderSet} {id next : SetId} {sets sets' : List ProviderSet}

/-! ### What is kept -/

/-- The set that a sequence of additions leaves under an identity: the first that came under it. -/
def kept? (sets : List ProviderSet) (id : SetId) : Option ProviderSet :=
  sets.find? fun s => s.id = id

/-- A kept set refers to another one, which may have been added or not. -/
def Cites (sets : List ProviderSet) (id next : SetId) : Prop :=
  ∃ s, kept? sets id = some s ∧ next ∈ s.references

theorem sets_add (h : g.get? s.id = none) : (g.add s).sets = g.sets ++ [s] := by
  rw [add, h]
  rfl

/-- An added set is found under its identity, unless one was there, and nothing else changes. -/
theorem get?_add (g : SetGraph) (s : ProviderSet) (id : SetId) :
    (g.add s).get? id = (g.get? id).or (if s.id = id then some s else none) := by
  cases hkept : g.get? s.id with
  | none =>
      rw [get?, sets_add hkept, List.find?_append, ← get?]
      by_cases hid : s.id = id <;> simp [hid]
  | some s' =>
      have hsame : g.add s = g := by
        rw [add, hkept]
        rfl
      rw [hsame]
      by_cases hid : s.id = id
      · rw [← hid, hkept, Option.some_or]
      · rw [if_neg hid, Option.or_none]

/-- Additions find what was there, or else what is kept of them. -/
theorem get?_foldl_add (sets : List ProviderSet) (g : SetGraph) (id : SetId) :
    (sets.foldl add g).get? id = (g.get? id).or (kept? sets id) := by
  induction sets generalizing g with
  | nil => simp [kept?]
  | cons s sets ih =>
      rw [List.foldl_cons, ih, get?_add, Option.or_assoc]
      by_cases hid : s.id = id
      · simp [kept?, hid]
      · simp [kept?, hid]

/-- **A graph holds what is kept.** -/
theorem get?_ofSets (sets : List ProviderSet) (id : SetId) : (ofSets sets).get? id = kept? sets id := by
  rw [ofSets, get?_foldl_add, get?, List.find?_nil, Option.none_or]

/-- Of sets with distinct identities every one is kept. -/
theorem kept?_eq_some_iff (hdistinct : (sets.map ProviderSet.id).Nodup) :
    kept? sets id = some s ↔ s ∈ sets ∧ s.id = id := by
  constructor
  · intro h
    exact ⟨List.mem_of_find?_eq_some h, by simpa using List.find?_some h⟩
  · rintro ⟨hmem, rfl⟩
    cases hkept : kept? sets s.id with
    | none =>
        have hnot := List.find?_eq_none.1 hkept s hmem
        simp at hnot
    | some s' =>
        have hid : s'.id = s.id := by simpa using List.find?_some hkept
        rw [List.inj_on_of_nodup_map hdistinct (List.mem_of_find?_eq_some hkept) hmem hid]

/-- **Sets of distinct identities are kept in whatever order they are added.** -/
theorem kept?_perm (hperm : sets'.Perm sets) (hdistinct : (sets.map ProviderSet.id).Nodup)
    (id : SetId) : kept? sets' id = kept? sets id := by
  have hdistinct' : (sets'.map ProviderSet.id).Nodup :=
    ((hperm.map ProviderSet.id).nodup_iff).2 hdistinct
  refine Option.ext fun s => ?_
  rw [kept?_eq_some_iff hdistinct, kept?_eq_some_iff hdistinct', hperm.mem_iff]

/-! ### Circles among the kept sets -/

/-- What a set refers to depends on the sets that are held. -/
theorem references_congr (h : ∀ id, g'.get? id = g.get? id) : g'.references = g.references := by
  funext id
  rw [references, references, h]

/-- The references of a graph are those of the kept sets. -/
theorem refers_ofSets : (ofSets sets).Refers id next ↔ Cites sets id next := by
  rw [Refers, references, get?_ofSets, Cites]
  cases kept? sets id <;> simp

theorem checkAcyclic_ofSets :
    (ofSets sets).checkAcyclic = .ok () ↔ ∀ id, ¬ Relation.TransGen (Cites sets) id id := by
  have hrefers : (ofSets sets).Refers = Cites sets := by
    funext id next
    exact propext refers_ofSets
  rw [checkAcyclic_eq_ok_iff, hrefers]

/-- Whether a graph is refused depends on the kept sets. -/
theorem checkAcyclic_congr (h : ∀ id, kept? sets' id = kept? sets id) :
    (ofSets sets').checkAcyclic = .ok () ↔ (ofSets sets).checkAcyclic = .ok () := by
  have hcites : Cites sets' = Cites sets := by
    funext id next
    rw [Cites, Cites, h]
  rw [checkAcyclic_ofSets, checkAcyclic_ofSets, hcites]

/-- **A graph is refused exactly for a circle among the kept sets.**  Whatever sets are added, with repeated
identities and with references that lead nowhere, the graph passes if and only if no kept set leads back to
itself.  If it is refused, the chain that is named has two entries at least, ends where it begins, and goes
from kept sets to what they refer to.  Sequences that keep the same sets pass or are refused together, and so
do all orders of sets with distinct identities. -/
theorem refuses_circles (sets : List ProviderSet) :
    ((ofSets sets).checkAcyclic = .ok () ↔ ∀ id, ¬ Relation.TransGen (Cites sets) id id) ∧
      (∀ f, (ofSets sets).checkAcyclic = .error f → ∃ chain : List SetId,
        f = .setCycle (chain.map SetId.text) ∧ 2 ≤ chain.length ∧ chain.head? = chain.getLast? ∧
          List.IsChain (Cites sets) chain) ∧
      (∀ sets', (∀ id, kept? sets' id = kept? sets id) →
        ((ofSets sets').checkAcyclic = .ok () ↔ (ofSets sets).checkAcyclic = .ok ())) ∧
      ∀ sets', sets'.Perm sets → (sets.map ProviderSet.id).Nodup →
        ((ofSets sets').checkAcyclic = .ok () ↔ (ofSets sets).checkAcyclic = .ok ()) := by
  refine ⟨checkAcyclic_ofSets, ?_, fun _ => checkAcyclic_congr, ?_⟩
  · intro f h
    obtain ⟨chain, rfl, id, middle, rfl, hchain⟩ := checkAcyclic_error h
    exact ⟨_, rfl, by simp, head?_eq_getLast?_of_closed id middle,
      hchain.imp fun _ _ => refers_ofSets.1⟩
  · intro sets' hperm hdistinct
    exact checkAcyclic_congr (kept?_perm hperm hdistinct)

end Wiring.SetGraph
