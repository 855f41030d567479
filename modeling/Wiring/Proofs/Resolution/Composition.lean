/-
**Composition does not matter to a strict success.**

Under the strict policy a plan exists only if every demanded type has one distinct candidate.  Then it cannot
matter in which order the candidates come, how often one is repeated, or which policy would decide between
distinct ones: among the demanded types there is nothing to decide.  Types that nobody demands may be
contested as they like.

So it does not matter either how the candidates are composed, by listing them or through sets, nested in
whatever way.

Main definitions:

* `Wiring.Job.Echoes` — a job asks for the same as another one and has the same providers to draw from.

Main results:

* `Wiring.Job.Echoes.chosen`, `Wiring.Job.Echoes.demanded` — the choices carry over, and nothing else is
  demanded;
* `Wiring.Job.Echoes.resolve` — **a job that echoes a strict success has the same plan**;
* `Wiring.strict_plan_stable` — the same of ranked candidates and of requests to graphs of sets.
-/

import Wiring.Proofs.Resolution.Completeness
import Wiring.Proofs.Resolution.Unfolding
import Wiring.Proofs.Sets.Flattening

set_option autoImplicit false

namespace Wiring

namespace Job

variable {job job' : Job} {type need : TypeName} {types : List TypeName} {p : Provider} {plan : Plan}
  {forest : Forest}

/-- A job asks for the same as another one, which refuses distinct candidates, and has the same providers to
draw from, in whatever order and however often. -/
structure Echoes (job' job : Job) : Prop where
  strict : job.policy = .strict
  inputs : job'.inputs = job.inputs
  outputs : job'.outputs = job.outputs
  same : ∀ p, p ∈ job'.candidates ↔ p ∈ job.candidates

namespace Echoes

/-- A provider that is chosen where distinct ones are refused is chosen everywhere. -/
theorem chosen (h : job'.Echoes job) (hc : job.Chosen type p) : job'.Chosen type p := by
  have honly : ∀ q ∈ job'.candidates, q.output = type → q = p := fun q hq =>
    hc.only h.strict q ((h.same q).1 hq)
  refine ⟨?_, fun _ => honly⟩
  cases hfound : job'.candidates.find? (fun q => q.output = type) with
  | none =>
      have hnot := List.find?_eq_none.1 hfound p ((h.same p).2 hc.mem)
      simp [hc.output] at hnot
  | some q =>
      have hout : q.output = type := by simpa using List.find?_some hfound
      rw [honly q (List.mem_of_find?_eq_some hfound) hout]

/-- Where there is an answer, the provider of a demanded type is the same. -/
theorem chosen_iff (h : job'.Echoes job) (hans : job.Answerable) (hd : job.Demanded type)
    (hin : type ∉ job.inputs) : job'.Chosen type p ↔ job.Chosen type p := by
  refine ⟨fun hc => ?_, h.chosen⟩
  obtain ⟨q, hq⟩ := hans.provided type hd hin
  rwa [hc.unique (h.chosen hq)]

/-- Nothing else is demanded. -/
theorem demanded (h : job'.Echoes job) (hans : job.Answerable) (hd : job'.Demanded type) :
    job.Demanded type := by
  induction hd with
  | output hout => exact .output (h.outputs ▸ hout)
  | input _ hin hc hneed ih =>
      rw [h.inputs] at hin
      exact .input ih hin ((h.chosen_iff hans ih hin).1 hc) hneed

/-- Nothing else is needed. -/
theorem needs (h : job'.Echoes job) (hans : job.Answerable) (hneeds : job'.Needs type need) :
    job.Needs type need := by
  obtain ⟨⟨hd, hin, p, hc, hneed⟩, hout⟩ := hneeds
  rw [h.inputs] at hin hout
  have hdemanded := h.demanded hans hd
  exact ⟨⟨hdemanded, hin, p, (h.chosen_iff hans hdemanded hin).1 hc, hneed⟩, hout⟩

/-- An answer is one for both. -/
theorem answerable (h : job'.Echoes job) (hans : job.Answerable) : job'.Answerable where
  inputs_nodup := h.inputs ▸ hans.inputs_nodup
  provided := by
    intro t hd hin
    rw [h.inputs] at hin
    obtain ⟨p, hp⟩ := hans.provided t (h.demanded hans hd) hin
    exact ⟨p, h.chosen hp⟩
  acyclic := by
    intro t hcircle
    exact hans.acyclic t (Relation.TransGen.mono (fun _ _ => h.needs hans) _ _ hcircle)

/-- What unfolds in one job unfolds alike in the other. -/
theorem unfolds (h : job'.Echoes job) (hforest : job.Unfolds types forest) :
    job'.Unfolds types forest := by
  induction hforest with
  | nil => exact .nil
  | given hin _ ih => exact .given (h.inputs ▸ hin) ih
  | made hin hc _ _ ihBelow ihRest => exact .made (h.inputs ▸ hin) (h.chosen hc) ihBelow ihRest

/-- **A job that echoes a strict success has the same plan.** -/
theorem resolve (h : job'.Echoes job) (hplan : job.resolve = .ok plan) : job'.resolve = .ok plan := by
  obtain ⟨hfail, rfl⟩ := resolve_eq_ok_iff.1 hplan
  have hfail' : job'.last.failures = [] :=
    failures_eq_nil_iff.2 (h.answerable (failures_eq_nil_iff.1 hfail))
  obtain ⟨forest, hforest⟩ := exists_unfolds_outputs hfail
  have hforest' : job'.Unfolds job'.outputs forest := h.outputs ▸ h.unfolds hforest
  refine resolve_eq_ok_iff.2 ⟨hfail', ?_⟩
  rw [h.inputs, h.outputs, steps_last hforest, steps_last hforest']

end Echoes

end Job

/-! ### Ranked candidates and sets -/

/-- **Composition does not matter to a strict success.**  When the strict policy makes a plan from ranked
candidates, either policy makes the same plan from any candidates with the same providers.  When it makes a
plan for a request to a graph of sets, either policy makes the same plan for any request that asks for the
same and can draw from the same providers, however they are listed, nested, repeated or ordered. -/
theorem strict_plan_stable :
    (∀ (policy : Policy) (ranked ranked' : List Candidate) (inputs outputs : List TypeName) (plan : Plan),
      (∀ p, (∃ c ∈ ranked', c.provider = p) ↔ ∃ c ∈ ranked, c.provider = p) →
      Job.resolve { policy := .strict, candidates := ranked.map Candidate.provider, inputs, outputs } =
        .ok plan →
      Job.resolve { policy, candidates := ranked'.map Candidate.provider, inputs, outputs } = .ok plan) ∧
    ∀ (policy : Policy) (g g' : SetGraph) (r r' : Request) (plan : Plan),
      r'.inputs = r.inputs → r'.outputs = r.outputs → (∀ p, g'.Offers r'.items p ↔ g.Offers r.items p) →
      (∃ ranked, g'.flatten r'.items r'.qualifiedName = .ok ranked) →
      resolveRequest .strict g r = .ok plan → resolveRequest policy g' r' = .ok plan := by
  constructor
  · intro policy ranked ranked' inputs outputs plan hsame hplan
    refine Job.Echoes.resolve ?_ hplan
    exact ⟨rfl, rfl, rfl, fun p => by simpa using hsame p⟩
  · rintro policy g g' r r' plan hinputs houtputs hoffers ⟨ranked', hranked'⟩ hplan
    rcases resolveRequest_cases .strict g r with ⟨f, -, heq⟩ | ⟨ranked, hranked, heq⟩ <;> rw [heq] at hplan
    · cases hplan
    · rw [resolveRequest, hranked']
      refine Job.Echoes.resolve ?_ hplan
      refine ⟨rfl, hinputs, houtputs, fun p => ?_⟩
      have hsame := (SetGraph.mem_of_flatten hranked' p).trans
        ((hoffers p).trans (SetGraph.mem_of_flatten hranked p).symm)
      simpa using hsame

section Pantry

/-- A set that refers to another one, which makes bread in two ways that nobody asks for. -/
def pantry : SetGraph :=
  .ofSets
    [{ id := ⟨"m", "Meals"⟩
       items := [.reference ⟨"m", "Stock"⟩,
         .provider { pkg := "m", name := "Cook", inputs := ["Rice"], output := "Meal" }] },
     { id := ⟨"m", "Stock"⟩
       items := [.provider { pkg := "m", name := "Bake", output := "Bread" },
         .provider { pkg := "m", name := "Buy", output := "Bread" },
         .provider { pkg := "m", name := "Steam", output := "Rice" }] }]

/-- A meal from the sets. -/
def pantryOrder : Request where
  pkg := "m"
  name := "Dine"
  outputs := ["Meal"]
  items := [.reference ⟨"m", "Meals"⟩]

/-- The same meal from a list, in another order and with a repetition. -/
def pantryList : Request where
  pkg := "m"
  name := "Dine"
  outputs := ["Meal"]
  items :=
    [.provider { pkg := "m", name := "Steam", output := "Rice" },
     .provider { pkg := "m", name := "Buy", output := "Bread" },
     .provider { pkg := "m", name := "Cook", inputs := ["Rice"], output := "Meal" },
     .provider { pkg := "m", name := "Steam", output := "Rice" },
     .provider { pkg := "m", name := "Bake", output := "Bread" }]

/-- The meal is planned alike from the sets, from their candidates, and from the list. -/
theorem strict_plan_stable_pantry :
    ∃ plan ranked ranked', plan.stepNames = ["Steam", "Cook"] ∧
      resolveRequest .strict pantry pantryOrder = .ok plan ∧
      pantry.flatten pantryOrder.items pantryOrder.qualifiedName = .ok ranked ∧
      SetGraph.flatten {} pantryList.items pantryList.qualifiedName = .ok ranked' ∧
      (∀ p, (∃ c ∈ ranked', c.provider = p) ↔ ∃ c ∈ ranked, c.provider = p) ∧
      Job.resolve { policy := .firstMatch, candidates := ranked'.map Candidate.provider
                    outputs := ["Meal"] } = .ok plan ∧
      resolveRequest .firstMatch {} pantryList = .ok plan := by
  have hsteps : (resolveRequest .strict pantry pantryOrder).toOption.map Plan.stepNames =
      some ["Steam", "Cook"] := by cbv
  have hnested : (pantry.flatten pantryOrder.items pantryOrder.qualifiedName).toOption.map
      (List.map Candidate.provider) =
      some [{ pkg := "m", name := "Cook", inputs := ["Rice"], output := "Meal" },
        { pkg := "m", name := "Bake", output := "Bread" },
        { pkg := "m", name := "Buy", output := "Bread" },
        { pkg := "m", name := "Steam", output := "Rice" }] := by cbv
  have hlisted : (SetGraph.flatten {} pantryList.items pantryList.qualifiedName).toOption.map
      (List.map Candidate.provider) =
      some [{ pkg := "m", name := "Steam", output := "Rice" },
        { pkg := "m", name := "Buy", output := "Bread" },
        { pkg := "m", name := "Cook", inputs := ["Rice"], output := "Meal" },
        { pkg := "m", name := "Steam", output := "Rice" },
        { pkg := "m", name := "Bake", output := "Bread" }] := by cbv
  obtain ⟨plan, hplan, hsteps⟩ := exists_ok_of_toOption hsteps
  obtain ⟨ranked, hranked, hproviders⟩ := exists_ok_of_toOption hnested
  obtain ⟨ranked', hranked', hproviders'⟩ := exists_ok_of_toOption hlisted
  have hsame : ∀ p, (∃ c ∈ ranked', c.provider = p) ↔ ∃ c ∈ ranked, c.provider = p := by
    intro p
    rw [← List.mem_map, ← List.mem_map, hproviders, hproviders']
    simp only [List.mem_cons, List.not_mem_nil, or_false]
    grind
  have hoffers : ∀ p, ({} : SetGraph).Offers pantryList.items p ↔ pantry.Offers pantryOrder.items p :=
    fun p => (SetGraph.mem_of_flatten hranked' p).symm.trans
      ((hsame p).trans (SetGraph.mem_of_flatten hranked p))
  have hjob := hplan
  rw [resolveRequest, hranked] at hjob
  exact ⟨plan, ranked, ranked', hsteps, hplan, hranked, hranked', hsame,
    strict_plan_stable.1 .firstMatch ranked ranked' [] ["Meal"] plan hsame hjob,
    strict_plan_stable.2 .firstMatch pantry {} pantryOrder pantryList plan rfl rfl hoffers
      ⟨ranked', hranked'⟩ hplan⟩

end Pantry

end Wiring
