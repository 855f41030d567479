/-
**What a resolution is about.**

The recursion of `Wiring/Resolution.lean` decides types one after the other.  This module says, without
that recursion, which provider is chosen for a type, which types a request needs, and which types can
be made at all.

A type that is passed in is taken as it is, so nothing is demanded on its behalf.

Main definitions:

* `Wiring.Job.Chosen` — the provider that makes a type, said of the list of candidates;
* `Wiring.Job.Demanded` — the types that the outputs need, directly or through chosen providers;
* `Wiring.Job.Takes`, `Wiring.Job.Needs` — the edges of the graph of chosen providers;
* `Wiring.Job.Constructible` — the types for which there is a finite tree of chosen providers.

Main results:

* `Wiring.Job.choose_eq_one_iff` — **the choice of the resolver is the declared one**;
* `Wiring.Job.Chosen.unique` — there is at most one chosen provider;
* `Wiring.Job.not_constructible_of_circle` — a type on a circle cannot be made.
-/

import Mathlib.Tactic.ByContra
import Wiring.Proofs.Search
import Wiring.Resolution

set_option autoImplicit false

namespace Wiring.Job

variable {job : Job} {type need : TypeName} {p q : Provider}

/-! ### The chosen provider -/

/-- The provider that makes a type: the first candidate for it, and where distinct ones are refused
the only one. -/
structure Chosen (job : Job) (type : TypeName) (p : Provider) : Prop where
  first : job.candidates.find? (fun q => q.output = type) = some p
  only : job.policy = .strict → ∀ q ∈ job.candidates, q.output = type → q = p

theorem Chosen.unique (hp : job.Chosen type p) (hq : job.Chosen type q) : p = q :=
  Option.some_inj.1 (hp.first.symm.trans hq.first)

theorem Chosen.mem (h : job.Chosen type p) : p ∈ job.candidates :=
  List.mem_of_find?_eq_some h.first

theorem Chosen.output (h : job.Chosen type p) : p.output = type := by
  simpa using List.find?_some h.first

/-- The distinct candidates are headed by the first one. -/
theorem makersOf_cons {others : List Provider} (h : job.makersOf type = p :: others) :
    job.candidates.find? (fun q => q.output = type) = some p ∧
      (others = [] ↔ ∀ q ∈ job.candidates, q.output = type → q = p) := by
  rw [makersOf] at h
  cases hf : job.candidates.filter (fun q => q.output = type) with
  | nil => simp [hf] at h
  | cons a rest =>
      rw [hf, List.eraseDups_cons, List.cons.injEq] at h
      obtain ⟨rfl, rfl⟩ := h
      have hmem : ∀ q, q ∈ a :: rest ↔ q ∈ job.candidates ∧ q.output = type := by
        intro q
        simp [← hf]
      refine ⟨by rw [← List.head?_filter, hf, List.head?_cons], ?_⟩
      constructor
      · intro hrest q hq hout
        have hnone : ∀ b ∈ rest, b = a := by
          intro b hb
          by_contra hne
          have : b ∈ (rest.filter fun b => !b == a).eraseDups := by simpa [hb] using hne
          simp [hrest] at this
        rcases List.mem_cons.1 ((hmem q).2 ⟨hq, hout⟩) with rfl | hq'
        · rfl
        · exact hnone q hq'
      · intro hall
        have hfilter : rest.filter (fun b => !b == a) = [] := by
          rw [List.filter_eq_nil_iff]
          intro b hb
          have hb' := (hmem b).1 (List.mem_cons_of_mem _ hb)
          simp [hall b hb'.1 hb'.2]
        rw [hfilter, List.eraseDups_nil]

/-- **The choice of the resolver is the declared one.** -/
theorem choose_eq_one_iff : job.choose type = .one p ↔ job.Chosen type p := by
  cases hm : job.makersOf type with
  | nil =>
      constructor
      · intro h
        simp [choose, hm] at h
      · intro h
        have : p ∈ job.makersOf type := by simp [makersOf, h.mem, h.output]
        simp [hm] at this
  | cons a others =>
      obtain ⟨hfirst, hothers⟩ := makersOf_cons hm
      cases others with
      | nil =>
          have honly := hothers.1 rfl
          simp only [choose, hm, Choice.one.injEq]
          constructor
          · rintro rfl
            exact ⟨hfirst, fun _ => honly⟩
          · intro h
            exact (honly p h.mem h.output).symm
      | cons b others =>
          -- with two distinct candidates the policies part
          have hmore : ¬ ∀ q ∈ job.candidates, q.output = type → q = a := by
            intro hall
            exact List.cons_ne_nil _ _ (hothers.2 hall)
          cases hpol : job.policy with
          | strict =>
              simp only [choose, hm, hpol, reduceCtorEq, false_iff]
              intro h
              have hpa : a = p := Option.some_inj.1 (hfirst.symm.trans h.first)
              exact hmore (hpa ▸ h.only hpol)
          | firstMatch =>
              simp only [choose, hm, hpol, Choice.one.injEq]
              constructor
              · rintro rfl
                exact ⟨hfirst, fun hs => by simp [hpol] at hs⟩
              · intro h
                exact Option.some_inj.1 (hfirst.symm.trans h.first)

/-! ### What is demanded -/

/-- The types that a request needs: the outputs, and what the chosen provider of a needed type takes,
unless that type is passed in. -/
inductive Demanded (job : Job) : TypeName → Prop
  | output {type : TypeName} (h : type ∈ job.outputs) : Demanded job type
  | input {type need : TypeName} {p : Provider} (h : Demanded job type) (hin : type ∉ job.inputs)
      (hp : job.Chosen type p) (hneed : need ∈ p.inputs) : Demanded job need

/-- A demanded type that is not passed in takes what its chosen provider does. -/
def Takes (job : Job) (type need : TypeName) : Prop :=
  job.Demanded type ∧ type ∉ job.inputs ∧ ∃ p, job.Chosen type p ∧ need ∈ p.inputs

/-- The edges between demanded types that are not passed in. -/
def Needs (job : Job) (type need : TypeName) : Prop :=
  job.Takes type need ∧ need ∉ job.inputs

/-! ### What can be made -/

/-- The types that can be made: those passed in, and those whose chosen provider takes only types
that can be made. -/
inductive Constructible (job : Job) : TypeName → Prop
  | given {type : TypeName} (h : type ∈ job.inputs) : Constructible job type
  | made {type : TypeName} {p : Provider} (hp : job.Chosen type p)
      (h : ∀ need ∈ p.inputs, Constructible job need) : Constructible job type

/-- A type that is made and not passed in has a chosen provider, all of whose inputs are made. -/
theorem Constructible.inv (h : job.Constructible type) (hin : type ∉ job.inputs) :
    ∃ p, job.Chosen type p ∧ ∀ need ∈ p.inputs, job.Constructible need := by
  cases h with
  | given h => exact absurd h hin
  | made hp h => exact ⟨_, hp, h⟩

/-- Below a type that can be made the edges lead nowhere for ever. -/
theorem Constructible.acc (h : job.Constructible type) :
    Acc (fun need type => job.Needs type need) type := by
  induction h with
  | given h => exact Acc.intro _ fun need hneed => absurd h hneed.1.2.1
  | made hp _ ih =>
      refine Acc.intro _ ?_
      rintro need ⟨⟨_, _, q, hq, hneed⟩, _⟩
      rw [hq.unique hp] at hneed
      exact ih need hneed

/-- **A type on a circle cannot be made.** -/
theorem not_constructible_of_circle (h : Relation.TransGen job.Needs type type) :
    ¬ job.Constructible type := by
  intro hc
  exact not_transGen_of_acc hc.acc h

end Wiring.Job
