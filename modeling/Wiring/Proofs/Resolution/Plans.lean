/-
**Plans are sound and minimal.**

A plan answers a request when everything that is asked for is bound, everything is bound before it is
used, nothing is bound twice, each provider is the one that the candidates call for, and no step could
be left out.

Main definitions:

* `Wiring.Plan.Fits` — all that a plan promises to the job that it was made for.

Main results:

* `Wiring.Progress.Sound.constructed_before` — a bound type is passed in or has a step that comes
  after the steps for what it takes;
* `Wiring.Job.fits_of_resolve` — **every plan of a resolution fits its job**.
-/

import Mathlib.Data.List.Permutation
import Wiring.Proofs.Resolution.Course

set_option autoImplicit false

namespace Wiring

/-- All that a plan promises to the job that it was made for. -/
structure Plan.Fits (plan : Plan) (job : Job) : Prop where
  outputs_eq : plan.outputs = job.outputs
  /-- The arguments are bound to their positions. -/
  inputs_eq : plan.inputs = job.inputs.zipIdx.map fun e => ⟨e.1, .input e.2⟩
  outputs_bound : ∀ t ∈ plan.outputs, ∃ b ∈ plan.inputs ++ plan.steps, b.type = t
  /-- A step binds the output of a provider, whose inputs are arguments or have earlier steps. -/
  ordered : ∀ done s later, plan.steps = done ++ s :: later →
    ∃ p, s.source = .provider p ∧ s.type = p.output ∧
      ∀ need ∈ p.inputs, ∃ b ∈ plan.inputs ++ done, b.type = need
  distinct : ((plan.inputs ++ plan.steps).map Binding.type).Nodup
  /-- No argument is made, whatever the candidates offer. -/
  shadowed : ∀ s ∈ plan.steps, s.type ∉ job.inputs
  once : plan.providers.Nodup
  /-- The provider of a step is the first candidate for its type, and where distinct ones are
  refused the only one. -/
  chosen : ∀ s ∈ plan.steps, ∃ p, s.source = .provider p ∧ job.Chosen s.type p
  /-- The type of a step is an output, or is taken on the way to one. -/
  needed : ∀ s ∈ plan.steps, job.Demanded s.type

variable {job : Job} {p : Progress} {plan : Plan}

/-! ### From the invariant to the plan -/

/-- The source of every step is the provider chosen for its type. -/
theorem Progress.Sound.chosen (h : p.Sound job) {s : Binding} (hs : s ∈ p.steps) :
    ∃ maker, s.source = .provider maker ∧ job.Chosen s.type maker := by
  obtain ⟨done, later, hsplit⟩ := List.append_of_mem hs
  obtain ⟨maker, hc, hsource, -⟩ := h.ordered done s later hsplit
  exact ⟨maker, hsource, hc⟩

/-- A step binds the output of its provider, and what the provider takes is passed in or has an
earlier step. -/
theorem Progress.Sound.constructed_before (h : p.Sound job) {done later : List Binding}
    {s : Binding} (hsplit : p.steps = done ++ s :: later) :
    ∃ maker, s.source = .provider maker ∧ s.type = maker.output ∧
      ∀ need ∈ maker.inputs, need ∈ job.inputs ∨ need ∈ done.map Binding.type := by
  obtain ⟨maker, hc, hsource, hneeds⟩ := h.ordered done s later hsplit
  exact ⟨maker, hsource, hc.output.symm, hneeds⟩

/-- Bindings to providers of distinct types have distinct providers. -/
theorem providers_nodup {steps : List Binding}
    (hsource : ∀ s ∈ steps, ∃ p, s.source = .provider p ∧ s.type = p.output)
    (hnodup : (steps.map Binding.type).Nodup) :
    (steps.filterMap Binding.provider?).Nodup := by
  have hout : (steps.filterMap Binding.provider?).map Provider.output
      = steps.map Binding.type := by
    clear hnodup
    induction steps with
    | nil => rfl
    | cons s steps ih =>
        obtain ⟨p, hp, htype⟩ := hsource s (List.mem_cons_self ..)
        have hmaker : s.provider? = some p := by rw [Binding.provider?, hp]
        rw [List.filterMap_cons_some hmaker, List.map_cons, List.map_cons, htype,
          ih fun t ht => hsource t (List.mem_cons_of_mem _ ht)]
  exact (hout ▸ hnodup).of_map

namespace Job

/-- The arguments of a plan bind exactly the inputs of the job. -/
theorem map_type_inputs (job : Job) :
    (job.inputs.zipIdx.map fun e => (⟨e.1, .input e.2⟩ : Binding)).map Binding.type
      = job.inputs := by
  rw [List.map_map]
  exact map_fst_zipIdx_inputs job

/-- Without a failure the arguments are bound to their positions. -/
theorem bindings_of_nodup (h : job.inputs.Nodup) :
    (bindInputs job.inputs.zipIdx {}).2 =
      job.inputs.zipIdx.map fun e => ⟨e.1, .input e.2⟩ := by
  refine bindings_bindInputs _ _ ?_ fun _ _ => rfl
  rw [map_fst_zipIdx_inputs]
  exact h

/-- A plan binds the inputs to their positions and has the steps that the resolution came to. -/
theorem parts_of_resolve (h : job.resolve = .ok plan) :
    job.last.Sound job ∧ job.inputs.Nodup ∧
      plan.inputs = job.inputs.zipIdx.map (fun e => ⟨e.1, .input e.2⟩) ∧
      plan.steps = job.last.steps ∧ plan.outputs = job.outputs := by
  obtain ⟨hfail, rfl⟩ := resolve_eq_ok_iff.1 h
  obtain ⟨hnodup, -⟩ := of_failures_eq_nil hfail
  exact ⟨job.outputs_bound.sound, hnodup, bindings_of_nodup hnodup, rfl, rfl⟩

/-- What is passed in or made in some of the steps has a binding among them. -/
theorem exists_binding (h : job.resolve = .ok plan) {steps : List Binding} {t : TypeName}
    (ht : t ∈ job.inputs ∨ t ∈ steps.map Binding.type) :
    ∃ b ∈ plan.inputs ++ steps, b.type = t := by
  obtain ⟨-, -, hargs, -, -⟩ := parts_of_resolve h
  rw [← job.map_type_inputs, ← hargs, ← List.mem_append, ← List.map_append] at ht
  exact List.mem_map.1 ht

theorem outputs_bound_of_resolve (h : job.resolve = .ok plan) :
    ∀ t ∈ plan.outputs, ∃ b ∈ plan.inputs ++ plan.steps, b.type = t := by
  obtain ⟨hs, -, -, hsteps, houtputs⟩ := parts_of_resolve h
  obtain ⟨-, houts⟩ := of_failures_eq_nil (resolve_eq_ok_iff.1 h).1
  intro t ht
  refine exists_binding h ?_
  rw [hsteps]
  exact (hs.bound_iff t).1 (houts t (houtputs ▸ ht))

/-- The inputs of the provider of a step are arguments or have earlier steps. -/
theorem ordered_of_resolve (h : job.resolve = .ok plan) {done later : List Binding} {s : Binding}
    (hsplit : plan.steps = done ++ s :: later) :
    ∃ p, s.source = .provider p ∧ s.type = p.output ∧
      ∀ need ∈ p.inputs, ∃ b ∈ plan.inputs ++ done, b.type = need := by
  obtain ⟨hs, -, -, hsteps, -⟩ := parts_of_resolve h
  obtain ⟨p, hp, htype, hneeds⟩ := hs.constructed_before (hsteps ▸ hsplit)
  exact ⟨p, hp, htype, fun need hneed => exists_binding h (hneeds need hneed)⟩

theorem distinct_of_resolve (h : job.resolve = .ok plan) :
    ((plan.inputs ++ plan.steps).map Binding.type).Nodup := by
  obtain ⟨hs, hnodup, hargs, hsteps, -⟩ := parts_of_resolve h
  rw [List.map_append, List.nodup_append, hargs, map_type_inputs, hsteps]
  refine ⟨hnodup, hs.distinct, ?_⟩
  rintro t hin u hu rfl
  obtain ⟨s, hmem, rfl⟩ := List.mem_map.1 hu
  exact hs.shadowed s hmem hin

theorem chosen_of_resolve (h : job.resolve = .ok plan) :
    ∀ s ∈ plan.steps, ∃ p, s.source = .provider p ∧ job.Chosen s.type p := by
  obtain ⟨hs, -, -, hsteps, -⟩ := parts_of_resolve h
  exact fun s hmem => hs.chosen (hsteps ▸ hmem)

/-- **Every plan of a resolution fits its job.** -/
theorem fits_of_resolve (h : job.resolve = .ok plan) : plan.Fits job := by
  obtain ⟨hs, -, hargs, hsteps, houtputs⟩ := parts_of_resolve h
  have hsource : ∀ s ∈ plan.steps, ∃ maker, s.source = .provider maker ∧
      s.type = maker.output := by
    intro s hmem
    obtain ⟨maker, hsource, hc⟩ := chosen_of_resolve h s hmem
    exact ⟨maker, hsource, hc.output.symm⟩
  have hnodup : (plan.steps.map Binding.type).Nodup := hsteps ▸ hs.distinct
  exact
    { outputs_eq := houtputs
      inputs_eq := hargs
      outputs_bound := outputs_bound_of_resolve h
      ordered := fun _ _ _ => ordered_of_resolve h
      distinct := distinct_of_resolve h
      shadowed := hsteps ▸ hs.shadowed
      once := providers_nodup hsource hnodup
      chosen := chosen_of_resolve h
      needed := hsteps ▸ hs.demanded }

/-- A diamond over an argument for which there is a candidate as well. -/
def diamond : Job where
  candidates :=
    [{ pkg := "p", name := "NewApp", inputs := ["Users", "Posts"], output := "App" },
     { pkg := "p", name := "NewUsers", inputs := ["Db"], output := "Users" },
     { pkg := "p", name := "NewPosts", inputs := ["Db", "Cfg"], output := "Posts" },
     { pkg := "p", name := "NewDb", inputs := ["Cfg"], output := "Db" },
     { pkg := "p", name := "NewCfg", output := "Cfg" }]
  inputs := ["Cfg"]
  outputs := ["App"]

/-- In a diamond the shared type is made once, before both providers that take it, and the candidate
for the argument is left aside. -/
theorem fits_of_resolve_diamond :
    ∃ plan, diamond.resolve = .ok plan ∧
      plan.steps.map Binding.type = ["Db", "Users", "Posts", "App"] ∧ plan.Fits diamond := by
  have hsteps : (diamond.resolve.toOption.map fun plan => plan.steps.map Binding.type) =
      some ["Db", "Users", "Posts", "App"] := by cbv
  cases hres : diamond.resolve with
  | error failures =>
      rw [hres] at hsteps
      cases hsteps
  | ok plan =>
      rw [hres] at hsteps
      exact ⟨plan, rfl, Option.some_inj.1 hsteps, fits_of_resolve hres⟩

end Job

end Wiring
