/-
**A file holds rendered functions.**

What a task succeeds with is a plan and the code for it.  A task comes to such a result in one place only, when
it has collected all sets and goes on to resolve and render, and it keeps to its package and its injector all the
way there.  Whatever the course of a run, then, what a file is made of are the functions of the selected
injectors of its package, as they are rendered.

Main definitions:

* `Wiring.Task.Renders` — a result that holds the code for its plan;
* `Wiring.Crew.Rendered` — what a run has made so far is rendered.

Main results:

* `Wiring.Task.Treads.ok_eq_compose` — a task succeeds only when it composes;
* `Wiring.Crew.Rendered.move`, `Wiring.Moves.rendered` — a move keeps what has been made;
* `Wiring.RunInput.Makes.exists_functions` — **what a file is made of**.
-/

import Wiring.Proofs.Emit.Ownership
import Wiring.Proofs.Run.Tallies

set_option autoImplicit false

namespace Wiring

/-! ### How a task succeeds -/

namespace Task

/-- What a task succeeds with holds the code for its plan. -/
def Renders (t : Task) (r : TaskResult) : Prop :=
  ∀ output, r = .ok output → Emit.render t.pkg t.decl output.plan = .ok output.code

variable {setting : Setting} {world world' : World} {t t' t₀ : Task} {r : TaskResult}
  {output : InjectorOutput}

theorem Stems.renders (h : t.Stems t₀) (hr : t.Renders r) : t₀.Renders r := by
  unfold Renders at *
  rwa [h.pkg, h.decl] at hr

/-- A task that counts as cancelled has succeeded with nothing. -/
theorem Renders.counted (h : t.Renders r) : t.Renders (Schedule.counted r) := by
  unfold Schedule.counted
  split
  · exact nofun
  · exact h

theorem renders_compose (setting : Setting) (t : Task) : t.Renders (t.compose setting) := by
  intro output houtput
  rcases t.compose_cases setting with ⟨failures, -, heq⟩ | ⟨plan, -, ⟨f, -, heq⟩ | ⟨code, hcode, heq⟩⟩ <;>
    cases heq.symm.trans houtput
  exact hcode

/-- **A task succeeds only when it composes.** -/
theorem Treads.ok_eq_compose (h : Treads setting (world, t) (world', t'))
    (hok : t'.result? = some (.ok output)) : t.compose setting = .ok output := by
  cases h with
  | looks => cases hok
  | reads =>
      rcases t.open_cases with ⟨f, -, heq⟩ | ⟨request, -, heq⟩ <;> rw [heq] at hok <;> cases hok
  | takes hstage =>
      rcases t.takeNext_cases setting with ⟨-, heq⟩ | ⟨_, _, -, ⟨-, heq⟩ | ⟨-, heq⟩⟩ <;> rw [heq] at hok
      · unfold finish at hok
        split at hok
        · exact Option.some.inj hok
        · cases hok
      · simp only [result?, hstage] at hok
        cases hok
      · cases hok
  | @arrives _ _ errand result hstage =>
      have hreceive : ∀ answer, (t.receive answer).result? ≠ some (.ok output) := by
        intro answer hreceived
        rcases t.receive_cases answer with ⟨set, -, heq⟩ | ⟨-, heq⟩ | ⟨f, -, -, heq⟩ <;>
          rw [heq] at hreceived <;> cases hreceived
      cases result with
      | error f => exact absurd hok (hreceive _)
      | ok pkg =>
          rcases arrive_cases setting world t errand pkg with ⟨answer, -, heq⟩ | ⟨-, heq⟩ <;> rw [heq] at hok
          · exact absurd hok (hreceive answer)
          · simp only [result?, hstage] at hok
            cases hok

/-- A task that has a result has one that is rendered. -/
def Rendered (t : Task) : Prop :=
  ∀ r, t.result? = some r → t.Renders r

theorem rendered_of_open (h : t.result? = none) : t.Rendered := by
  intro r hr
  rw [h] at hr
  cases hr

/-- A small step comes to what is rendered. -/
theorem Treads.rendered (h : Treads setting (world, t) (world', t')) : t'.Rendered := by
  rintro r hr output rfl
  obtain ⟨hstems, -⟩ := Treads.stems h
  rw [hstems.pkg, hstems.decl]
  exact renders_compose setting t output (h.ok_eq_compose hr)

theorem rendered_step (setting : Setting) (world : World) (h : t.Rendered) :
    (t.step setting world).2.1.Rendered := by
  rcases (step_treads setting world t).cases_tail with hsame | ⟨x, -, hlast⟩
  · have hstays : (t.step setting world).2.1 = t := congrArg Prod.snd hsame
    rwa [hstays]
  · exact hlast.rendered

end Task

/-! ### What a run has made -/

namespace Crew

/-- What a run has made so far is rendered, and belongs to one of its tasks. -/
structure Rendered (tasks : List Task) (s : Crew) : Prop where
  remaining : ∀ t ∈ s.remaining, t.Rendered
  finished : ∀ report ∈ s.finished, ∃ t ∈ tasks, t.index = report.index ∧ t.Renders report.result

variable {setting : Setting} {workers : Nat} {turn : Turn} {tasks : List Task} {s s' : Crew}

theorem rendered_outset (input : RunInput) (world : World) (roots : LoadOutcome) :
    (Crew.outset input world roots).Rendered (discover input.options roots.packages) := by
  refine ⟨fun t ht => ?_, nofun⟩
  rw [remaining_outset, Multiset.mem_coe] at ht
  obtain ⟨-, -, -, -, hstage⟩ := of_mem_discover ht
  exact Task.rendered_of_open (by rw [Task.result?, hstage])

/-- **A move keeps what has been made.** -/
theorem Rendered.move (h : s.Rendered tasks) (htallied : s.Tallied tasks)
    (hmove : Move setting workers turn s s') : s'.Rendered tasks := by
  cases hmove with
  | start _ ht => exact ⟨remaining_start ht ▸ h.remaining, h.finished⟩
  | @advance _ t rest delay _ ht =>
      have hstep := Task.rendered_step (setting.delayed delay) s.world (h.remaining t (mem_remaining ht))
      exact ⟨forall_remaining_advance ht h.remaining hstep _, h.finished⟩
  | @deliver _ t rest result _ ht hr =>
      have hmem := mem_remaining ht
      obtain ⟨-, t₀, ht₀, hstems⟩ := htallied.remaining t hmem
      refine ⟨forall_remaining_deliver ht h.remaining _ _, fun report hreport => ?_⟩
      rcases Multiset.mem_cons.1 hreport with rfl | hreport
      · exact ⟨t₀, ht₀, hstems.index.symm, (hstems.renders (h.remaining t hmem result hr)).counted⟩
      · exact h.finished report hreport
  | fire => exact ⟨h.remaining, h.finished⟩
  | stop => exact ⟨h.remaining, h.finished⟩

end Crew

theorem Moves.rendered {setting : Setting} {workers : Nat} {turns : List Turn} {tasks : List Task}
    {s s' : Crew} (h : s.Rendered tasks) (htallied : s.Tallied tasks)
    (hmoves : Moves setting workers turns s s') : s'.Rendered tasks := by
  induction hmoves with
  | nil => exact h
  | cons hmove _ ih => exact ih (h.move htallied hmove) (htallied.move hmove)

/-! ### What a file is made of -/

namespace RunInput

variable {input : RunInput} {course : Course} {world : World} {roots : LoadOutcome} {s : Crew}
  {results : List TaskReport} {r : Report} {t : Task}

/-- Wherever a run has come to, what it has made is rendered. -/
theorem Reaches.rendered (h : input.Reaches course world roots s) :
    s.Rendered (discover input.options roots.packages) := by
  cases h with
  | intro _ _ hmoves =>
      exact hmoves.rendered (Crew.rendered_outset _ _ _) (Crew.tallied_outset _ _ _)

/-- What a task of a run has made is rendered. -/
theorem Makes.render_eq (h : input.Makes course world roots results r)
    (ht : t ∈ discover input.options roots.packages) {output : InjectorOutput}
    (hmade : resultAt results t.index = some (.ok output)) :
    Emit.render t.pkg t.decl output.plan = .ok output.code := by
  have hreport := mem_of_resultAt hmade
  cases h with
  | refused => cases hreport
  | @done _ s finished h hover hfinished =>
      have hrendered : (⟨t.index, .ok output⟩ : TaskReport) ∈ finished →
          Emit.render t.pkg t.decl output.plan = .ok output.code := by
        intro hmem
        obtain ⟨course', hreaches⟩ := h.reaches
        rw [← Multiset.mem_coe, hfinished] at hmem
        obtain ⟨t₀, ht₀, hindex, hrenders⟩ := hreaches.rendered.finished _ hmem
        obtain rfl := index_discover t₀ ht₀ t ht hindex
        exact hrenders output rfl
      rcases Schedule.mem_complete hreport with hmem | ⟨-, hcut⟩
      · exact hrendered hmem
      · cases hcut

/-- What the tasks of a package have made are functions of their injectors. -/
theorem Makes.exists_functions_of_units (h : input.Makes course world roots results r) {p : Package}
    {units : List Task}
    (hunits : ∀ t ∈ units, t ∈ discover input.options roots.packages ∧ t.pkg = p ∧ t.Succeeds results) :
    ∃ functions : List Emit.Function,
      List.Forall₂ (fun decl f => ∃ plan, Emit.function? p decl plan = .ok f) (units.map Task.decl)
        functions ∧
      Report.functionsOf (units.filterMap (Task.made results)) =
        functions.map fun f => (f.injector, f.print) := by
  induction units with
  | nil => exact ⟨[], .nil, rfl⟩
  | cons t rest ih =>
      obtain ⟨⟨ht, hpkg, part, hpart⟩, hrest⟩ := List.forall_mem_cons.1 hunits
      obtain ⟨functions, hfunctions, hmade⟩ := ih hrest
      obtain ⟨result, hresult, hcounts⟩ := h.exists_result ht
      cases hpart.symm.trans hresult
      have hname : part.name = t.decl.name := hcounts.fits
      obtain ⟨f, hf, hprint⟩ := of_map_eq_ok (hpkg ▸ h.render_eq ht hpart)
      have hinjector : f.injector = t.decl.name := by rw [Emit.eq_functionOf hf]; rfl
      refine ⟨f :: functions, .cons ⟨_, hf⟩ hfunctions, ?_⟩
      rw [List.filterMap_cons_some (Task.made_eq_some.2 hpart), List.map_cons, ← hmade, hprint, hinjector,
        ← hname]
      rfl

/-- **What a file is made of**: the functions of the selected injectors of its package, which is valid, as they
are rendered. -/
theorem Makes.exists_functions (h : input.Makes course world roots results r) {output : PackageOutput}
    (houtput : output ∈ r.outputs) :
    ∃ p ∈ roots.packages, p.isValid ∧ output.pkg = p.path ∧ ∃ functions : List Emit.Function,
      List.Forall₂ (fun decl f => ∃ plan, Emit.function? p decl plan = .ok f)
        (selected input.options p) functions ∧
      input.makeFile p (functions.map fun f => (f.injector, f.print)) input.options.header
        input.options.banner = .ok output.content := by
  obtain ⟨first, rest, content, hcons, hall, hmake, houtput⟩ :=
    Report.mem_filesAt.1 (h.mem_outputs.1 houtput)
  have hpath : output.pkg = first.pkg.path := congrArg PackageOutput.pkg houtput
  have hcontent : output.content = content := congrArg PackageOutput.content houtput
  rw [hpath] at hcons hall hmake
  have hfirst : first ∈ Report.tasksAt (discover input.options roots.packages) first.pkg.path :=
    hcons ▸ List.mem_cons_self
  have htask := (Report.mem_tasksAt.1 hfirst).1
  obtain ⟨hpkg, hvalid, -⟩ := mem_firstOfEach_of_task htask
  have hdecls := @map_decl_tasksAt_discover input.options _ _ hpkg
  rw [if_pos hvalid] at hdecls
  obtain ⟨functions, hfunctions, hmade⟩ := h.exists_functions_of_units fun t ht =>
    ⟨(Report.mem_tasksAt.1 ht).1, pkg_of_mem_tasksAt_discover hpkg ht, hall t ht⟩
  refine ⟨first.pkg, (of_mem_discover htask).2.1, hvalid, hpath, functions, hdecls ▸ hfunctions, ?_⟩
  rw [← hmade, hcontent]
  exact hmake

end RunInput

end Wiring
