/-
**What a call can mean.**

A function of the package itself is called by its bare name, and such a name means the function only as long as
no variable of that name is in scope.  In scope are the parameters, the locals of the statements before the
call, and the renderer's own variables: the one that holds the cleanups, in a function that returns a cleanup,
and the one that each statement with a cleanup binds next to its local.  Locals are named around the functions
that are called.  The renderer's own variables always have the same two names, so that these are the only ones
that can come between a call and its function.

Main definitions:

* `Wiring.Emit.Step.binds` — the variables that a statement brings into scope;
* `Wiring.Emit.Function.scope` — the variables in scope behind some statements;
* `Wiring.Emit.Function.Calls` — what the calls of a function mean.

Main results:

* `Wiring.Emit.mem_scope_iff` — which names are in scope;
* `Wiring.Emit.functionOf_calls` — the calls of a function that is written for a plan;
* `Wiring.Emit.render_scopesCalls` — **a bare call means its function, unless it is called like a variable of
  the renderer**;
* `Wiring.Emit.cleanup_captured` — a function whose name is taken by such a variable.
-/

import Wiring.Proofs.Emit.Identifiers

set_option autoImplicit false

namespace Wiring.Emit

/-- The variables that a statement brings into scope. -/
def Step.binds (s : Step) : List String :=
  s.name :: if s.cleanup then ["cleanup"] else []

/-- The variables in scope behind some statements of a function. -/
def Function.scope (f : Function) (done : List Step) : List String :=
  f.params.map Prod.fst ++ (if f.cleanup then ["cleanups"] else []) ++ done.flatMap Step.binds

/-- In scope are the locals and the renderer's own variables. -/
theorem mem_scope_iff {f : Function} {done : List Step} {name : String} :
    name ∈ f.scope done ↔
      name ∈ f.params.map Prod.fst ++ done.map Step.name ∨
        (name = "cleanups" ∧ f.cleanup) ∨ (name = "cleanup" ∧ ∃ s ∈ done, s.cleanup) := by
  have hown : name ∈ (if f.cleanup then ["cleanups"] else []) ↔ name = "cleanups" ∧ f.cleanup := by
    cases f.cleanup <;> simp
  have hbinds : ∀ s : Step, name ∈ s.binds ↔ name = s.name ∨ (name = "cleanup" ∧ s.cleanup) := by
    intro s
    rw [Step.binds]
    cases s.cleanup <;> simp
  have hdone : name ∈ done.flatMap Step.binds ↔
      name ∈ done.map Step.name ∨ (name = "cleanup" ∧ ∃ s ∈ done, s.cleanup) := by
    simp only [List.mem_flatMap, List.mem_map, hbinds]
    constructor
    · rintro ⟨s, hs, rfl | ⟨rfl, hcleanup⟩⟩
      · exact .inl ⟨s, hs, rfl⟩
      · exact .inr ⟨rfl, s, hs, hcleanup⟩
    · rintro (⟨s, hs, rfl⟩ | ⟨rfl, s, hs, hcleanup⟩)
      · exact ⟨s, hs, .inl rfl⟩
      · exact ⟨s, hs, .inr ⟨rfl, hcleanup⟩⟩
  rw [Function.scope, List.mem_append, List.mem_append, List.mem_append, hown, hdone]
  tauto

variable {pkg : Package} {injector : InjectorDecl} {plan : Plan} {code : String}

/-- Where a provider stands there is its statement, behind the statements of the providers before it. -/
theorem exists_step_of_performs {done later : List Provider} {p : Provider} {steps : List Step} {path : String}
    (h : List.Forall₂ (Step.Performs path) (done ++ p :: later) steps) :
    ∃ before s after, steps = before ++ s :: after ∧ List.Forall₂ (Step.Performs path) done before ∧
      Step.Performs path p s := by
  have hbefore := (List.forall₂_take_append _ _ _ h.flip).flip
  obtain ⟨s, after, hs, -, hdrop⟩ :=
    List.forall₂_cons_left_iff.1 (List.forall₂_drop_append _ _ _ h.flip).flip
  refine ⟨_, s, after, ?_, hbefore, hs⟩
  rw [← hdrop, List.take_append_drop]

/-- The statements of providers have the cleanups of these. -/
theorem exists_cleanup_iff {providers : List Provider} {steps : List Step} {path : String}
    (h : List.Forall₂ (Step.Performs path) providers steps) :
    (∃ s ∈ steps, s.cleanup) ↔ ∃ p ∈ providers, p.cleanup := by
  induction h with
  | nil => simp
  | cons hperforms _ ih => simp only [List.exists_mem_cons_iff, ih, hperforms.cleanup]

/-- Neither a parameter nor a local is called like a function that is called. -/
theorem snakeCase_not_mem_locals (pkg : Package) (injector : InjectorDecl) {p : Provider}
    (hp : p ∈ plan.providers) (hkind : p.kind = .function) :
    Text.snakeCase p.name ∉ (functionOf pkg injector plan).params.map Prod.fst ++
      (functionOf pkg injector plan).steps.map Step.name := by
  have htaken : Text.snakeCase p.name ∈ takenNames (Text.snakeCase injector.name) plan :=
    List.mem_cons_of_mem _ (List.mem_map.2 ⟨p, List.mem_filter.2 ⟨hp, decide_eq_true hkind⟩, rfl⟩)
  have hnot : ∀ type, (localsOf injector plan).name type ≠ Text.snakeCase p.name := by
    intro type heq
    exact name_localsOf_not_mem injector plan type (heq ▸ htaken)
  rw [map_fst_params, map_name_steps, List.mem_append, List.mem_map, List.mem_map, not_or]
  exact ⟨fun ⟨type, _, heq⟩ => hnot type heq, fun ⟨b, _, heq⟩ => hnot b.type heq⟩

/-- What the calls of a function mean.  Every provider has its statement, in its place.  A function of the
package itself is called by its bare name, and a variable of that name is in scope there only if it is one of the
renderer's own: the one for all cleanups, or the one for a single cleanup behind a provider that has one. -/
def Function.Calls (f : Function) (pkg : String) (providers : List Provider) : Prop :=
  ∀ done p later, providers = done ++ p :: later →
    ∃ before s after, f.steps = before ++ s :: after ∧ before.length = done.length ∧ Step.Performs pkg p s ∧
      (p.kind = .function → p.pkg = pkg → (Text.snakeCase p.name ∈ f.scope before ↔
        (Text.snakeCase p.name = "cleanups" ∧ f.cleanup) ∨
          (Text.snakeCase p.name = "cleanup" ∧ ∃ q ∈ done, q.cleanup)))

theorem functionOf_calls (pkg : Package) (injector : InjectorDecl) (plan : Plan) :
    (functionOf pkg injector plan).Calls pkg.path plan.providers := by
  intro done p later hsplit
  obtain ⟨before, s, after, hsteps, hbefore, hs⟩ :=
    exists_step_of_performs (hsplit ▸ forall₂_steps pkg injector plan)
  refine ⟨before, s, after, hsteps, hbefore.length_eq.symm, hs, fun hkind _ => ?_⟩
  have hp : p ∈ plan.providers := hsplit ▸ List.mem_append_right _ List.mem_cons_self
  have hlocals := snakeCase_not_mem_locals pkg injector hp hkind
  rw [hsteps, List.map_append, ← List.append_assoc] at hlocals
  rw [mem_scope_iff, or_iff_right fun hmem => hlocals (List.mem_append_left _ hmem),
    exists_cleanup_iff hbefore]

/-- **A bare call means its function, unless it is called like a variable of the renderer.**  A function of the
package itself is called without a module.  No local has its name.  There is a variable of its name in scope
where it is called only if that is the one for all cleanups, which a function with a cleanup has, or the one
for a single cleanup, which is there once a provider with a cleanup has run. -/
theorem render_scopesCalls (hcode : render pkg injector plan = .ok code) :
    ∃ f, function? pkg injector plan = .ok f ∧ code = f.print ∧
      ∀ done p later, plan.providers = done ++ p :: later → p.kind = .function → p.pkg = pkg.path →
        ∃ before s after args, f.steps = before ++ s :: after ∧ before.length = done.length ∧
          s.expr = .call none (Text.snakeCase p.name) args ∧
          Text.snakeCase p.name ∉ f.params.map Prod.fst ++ before.map Step.name ∧
          (Text.snakeCase p.name ∈ f.scope before ↔
            (Text.snakeCase p.name = "cleanups" ∧ injector.cleanup) ∨
              (Text.snakeCase p.name = "cleanup" ∧ ∃ q ∈ done, q.cleanup)) := by
  obtain ⟨f, hf, hprint⟩ := of_map_eq_ok hcode
  obtain rfl := eq_functionOf hf
  refine ⟨_, hf, hprint.symm, fun done p later hsplit hkind hpkg => ?_⟩
  have hp : p ∈ plan.providers := hsplit ▸ List.mem_append_right _ List.mem_cons_self
  obtain ⟨before, s, after, hsteps, hlength, hs, hscope⟩ := functionOf_calls pkg injector plan done p later hsplit
  obtain ⟨args, hexpr⟩ := hs.call hkind
  rw [if_pos hpkg] at hexpr
  have hlocals := snakeCase_not_mem_locals pkg injector hp hkind
  rw [hsteps, List.map_append, ← List.append_assoc] at hlocals
  exact ⟨before, s, after, args, hsteps, hlength, hexpr,
    fun hmem => hlocals (List.mem_append_left _ hmem), hscope hkind hpkg⟩

/-- A package that opens a file and hands it to a second function. -/
def vault (second : String) : Package where
  path := "vault"
  providers :=
    [{ name := "OpenFile", output := some "File", cleanup := true },
     { name := second, inputs := ["File"], output := some "Done" }]

/-- Both functions of the package, in order. -/
def vaultPlan (second : String) : Plan where
  steps :=
    [⟨"File", .provider { pkg := "vault", name := "OpenFile", output := "File", cleanup := true }⟩,
     ⟨"Done", .provider { pkg := "vault", name := second, inputs := ["File"], output := "Done" }⟩]
  outputs := ["Done"]

/-- A function whose name is only like that of a variable is called where it is not hidden. -/
theorem render_scopesCalls_vault :
    ∃ f : Function, render (vault "CleanUp") { name := "Init", cleanup := true } (vaultPlan "CleanUp") =
        .ok f.print ∧
      ∃ before s after args, f.steps = before ++ s :: after ∧ before.length = 1 ∧
        s.expr = .call none "clean_up" args ∧ "clean_up" ∉ f.scope before := by
  have hfunction : function? (vault "CleanUp") { name := "Init", cleanup := true } (vaultPlan "CleanUp") =
      .ok (functionOf (vault "CleanUp") { name := "Init", cleanup := true } (vaultPlan "CleanUp")) :=
    function?_eq_ok_iff.2 ⟨by decide +kernel, by decide, rfl⟩
  have hname : Text.snakeCase "CleanUp" = "clean_up" := by decide +kernel
  obtain ⟨f, hf, -, hcalls⟩ := render_scopesCalls (congrArg (Except.map Function.print) hfunction)
  obtain rfl := eq_functionOf hf
  obtain ⟨before, s, after, args, hsteps, hlength, hexpr, -, hscope⟩ :=
    hcalls [_] _ [] rfl rfl rfl
  refine ⟨_, congrArg _ hfunction, before, s, after, args, hsteps, hlength, hname ▸ hexpr, ?_⟩
  rw [← hname, hscope, hname]
  decide

/-- Behind a statement with a cleanup, a call of a function named `cleanup` means the variable. -/
theorem cleanup_captured :
    ∃ f : Function, render (vault "Cleanup") { name := "Init", cleanup := true } (vaultPlan "Cleanup") =
        .ok f.print ∧
      ∃ before s, f.steps = before ++ [s] ∧ s.expr = .call none "cleanup" [.move "file"] ∧
        "cleanup" ∈ f.scope before := by
  have hfunction : function? (vault "Cleanup") { name := "Init", cleanup := true } (vaultPlan "Cleanup") =
      .ok (functionOf (vault "Cleanup") { name := "Init", cleanup := true } (vaultPlan "Cleanup")) :=
    function?_eq_ok_iff.2 ⟨by decide +kernel, by decide, rfl⟩
  refine ⟨_, congrArg (Except.map Function.print) hfunction,
    [{ name := "file", expr := .call none "open_file" [], cleanup := true }],
    { name := "done", expr := .call none "cleanup" [.move "file"] }, ?_, rfl, ?_⟩ <;>
  decide +kernel

end Wiring.Emit
