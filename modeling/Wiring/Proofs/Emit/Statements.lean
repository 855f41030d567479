/-
**One statement for each provider.**

The body of a function has one statement for each provider of its plan, in their order.  This holds of any
plan, whether or not it has been resolved: a binding without a provider is given a name and no statement, and
a name that is given to a type is never one that has to be kept free.  Whether there is a function at all
depends on names and on what the injector admits, and not on how its plan hangs together.

Main definitions:

* `Wiring.Binding.isProvided` — a binding that gets a statement;
* `Wiring.Emit.Step.Performs` — a statement is that of a provider;
* `Wiring.Emit.Admits` — an injector passes on what a provider may return beside its value.

Main results:

* `Wiring.Emit.Locals.name_ofPlan_cases` — where the name of a local comes from;
* `Wiring.Emit.name_localsOf_not_mem` — **no local is called like the function or like a function that it
  calls**;
* `Wiring.Emit.map_name_steps` — the statements bind the locals of the bindings with a provider;
* `Wiring.Emit.forall₂_steps` — **the statements are those of the providers**;
* `Wiring.Emit.render_ok_iff` — **when there is code**.
-/

import Wiring.Proofs.Emit.Ownership

set_option autoImplicit false

namespace Wiring

/-- A binding that gets a statement. -/
def Binding.isProvided (b : Binding) : Bool :=
  b.provider?.isSome

/-- What is read after several writes was there before or has been written. -/
theorem Table.mem_of_get?_foldl_put {κ α : Type} [DecidableEq κ] {entries : List (κ × α)} {t : Table κ α}
    {key : κ} {value : α} (h : (entries.foldl (fun t e => t.put e.1 e.2) t).get? key = some value) :
    (key, value) ∈ entries ∨ t.get? key = some value := by
  rcases get?_foldl_put_eq_some_iff.1 h with ⟨before, after, rfl, -⟩ | ⟨-, hget⟩
  · exact .inl (List.mem_append_right _ List.mem_cons_self)
  · exact .inr hget

namespace Emit

/-! ### Names stay -/

namespace Locals

variable {locals : Locals} {type : TypeName}

theorem names_takeAll (locals : Locals) (types : List TypeName) :
    (locals.takeAll types).2.names = locals.names := by
  induction types generalizing locals with
  | nil => rfl
  | cons type rest ih => exact ih (locals.take type).2

theorem names_borrow (locals : Locals) (type : TypeName) :
    (locals.borrow type).2.names = locals.names := by
  unfold borrow
  split <;> rfl

/-- To use locals changes no name. -/
theorem names_exprOf (pkg : String) (p : Provider) (locals : Locals) :
    (exprOf pkg p locals).2.names = locals.names := by
  unfold exprOf
  cases p.kind with
  | value => rfl
  | fieldRead =>
      cases p.inputs.head? with
      | none => rfl
      | some owner => exact locals.names_borrow owner
  | structLiteral => exact locals.names_takeAll _
  | interfaceBinding =>
      cases p.inputs.head? with
      | none => rfl
      | some concrete => rfl
  | function => exact locals.names_takeAll _
  | setReference => exact locals.names_takeAll _

/-- The name of a local has been handed out, or it is the blank of a type that has none. -/
theorem name_ofPlan_cases (taken : List String) (plan : Plan) (type : TypeName) :
    (ofPlan taken plan).name type = "_" ∨
      ∃ e ∈ nameAll taken plan.types, e.2 = (ofPlan taken plan).name type := by
  cases hget : (ofPlan taken plan).names.get? type with
  | none =>
      left
      rw [name, hget, Option.getD_none]
  | some word =>
      right
      rcases Table.mem_of_get?_foldl_put hget with hmem | hempty
      · exact ⟨_, hmem, by rw [name, hget, Option.getD_some]⟩
      · cases hempty

end Locals

open Locals

variable {pkg : Package} {injector : InjectorDecl} {plan : Plan}

/-- The blank need not be kept free. -/
theorem blank_not_mem_takenNames (function : String) (plan : Plan) :
    "_" ∉ takenNames (Text.snakeCase function) plan := by
  have hnot : ∀ word : String, Text.snakeCase word ≠ "_" := fun word heq =>
    Text.not_lettered_blank (heq ▸ Text.lettered_snakeCase word)
  rw [takenNames, List.mem_cons, List.mem_map, not_or]
  exact ⟨fun heq => hnot _ heq.symm, fun ⟨p, _, heq⟩ => hnot _ heq⟩

/-- **No local is called like the function or like a function that it calls.** -/
theorem name_localsOf_not_mem (injector : InjectorDecl) (plan : Plan) (type : TypeName) :
    (localsOf injector plan).name type ∉ takenNames (Text.snakeCase injector.name) plan := by
  rcases name_ofPlan_cases (takenNames (Text.snakeCase injector.name) plan) plan type with
    hblank | ⟨e, he, hname⟩
  · rw [localsOf, hblank]
    exact blank_not_mem_takenNames _ _
  · rw [localsOf, ← hname]
    exact not_mem_taken_of_mem_nameAll he

/-! ### The statements of a plan -/

/-- A statement is that of a provider.  It calls a function, and it registers a cleanup if there is one. -/
structure Step.Performs (pkg : String) (p : Provider) (s : Step) : Prop where
  cleanup : s.cleanup = p.cleanup
  call : p.kind = .function → ∃ args : List Use, s.expr =
    .call (if p.pkg = pkg then none else some (moduleName p.pkg)) (Text.snakeCase p.name) args

theorem call_exprOf {p : Provider} (hkind : p.kind = .function) (pkg : String) (locals : Locals) :
    (exprOf pkg p locals).1 = .call (if p.pkg = pkg then none else some (moduleName p.pkg))
      (Text.snakeCase p.name) (locals.takeAll p.inputs).1 := by
  unfold exprOf
  rw [hkind]

theorem map_name_stepsOf (pkg : String) (locals : Locals) (pending : Bool) (bindings : List Binding) :
    (stepsOf pkg locals pending bindings).1.map Step.name =
      (bindings.filter Binding.isProvided).map fun b => locals.name b.type := by
  induction bindings generalizing locals pending with
  | nil => rfl
  | cons b bindings ih =>
      cases hp : b.provider? with
      | none =>
          have hleft : b.isProvided = false := by rw [Binding.isProvided, hp]; rfl
          rw [stepsOf, hp, List.filter_cons, hleft]
          exact ih locals pending
      | some p =>
          have hkept : b.isProvided = true := by rw [Binding.isProvided, hp]; rfl
          have hname : (exprOf pkg p locals).2.name = locals.name := name_congr (names_exprOf pkg p locals)
          rw [stepsOf, hp, List.filter_cons, hkept]
          have hrest := ih (exprOf pkg p locals).2 (pending || p.cleanup)
          rw [hname] at hrest
          exact congrArg (locals.name b.type :: ·) hrest

theorem forall₂_stepsOf (pkg : String) (locals : Locals) (pending : Bool) (bindings : List Binding) :
    List.Forall₂ (Step.Performs pkg) (bindings.filterMap Binding.provider?)
      (stepsOf pkg locals pending bindings).1 := by
  induction bindings generalizing locals pending with
  | nil => exact .nil
  | cons b bindings ih =>
      cases hp : b.provider? with
      | none =>
          rw [stepsOf, hp, List.filterMap_cons_none hp]
          exact ih locals pending
      | some p =>
          rw [stepsOf, hp, List.filterMap_cons_some hp]
          exact .cons ⟨rfl, fun hkind => ⟨_, call_exprOf hkind pkg locals⟩⟩ (ih _ _)

/-- The statements of a function bind the locals of the bindings with a provider. -/
theorem map_name_steps (pkg : Package) (injector : InjectorDecl) (plan : Plan) :
    (functionOf pkg injector plan).steps.map Step.name =
      (plan.steps.filter Binding.isProvided).map fun b => (localsOf injector plan).name b.type :=
  map_name_stepsOf pkg.path (localsOf injector plan) false plan.steps

/-- **The statements of a function are those of the providers of its plan.** -/
theorem forall₂_steps (pkg : Package) (injector : InjectorDecl) (plan : Plan) :
    List.Forall₂ (Step.Performs pkg.path) plan.providers (functionOf pkg injector plan).steps :=
  forall₂_stepsOf pkg.path (localsOf injector plan) false plan.steps

/-! ### When there is code -/

variable {p : Provider} {providers : List Provider}

/-- The injector passes on what a provider may return beside its value. -/
def Admits (injector : InjectorDecl) (p : Provider) : Prop :=
  (p.fallible → injector.fallible) ∧ (p.cleanup → injector.cleanup)

instance (injector : InjectorDecl) (p : Provider) : Decidable (Admits injector p) :=
  inferInstanceAs (Decidable (_ ∧ _))

theorem checkProvider_eq_ok_iff : checkProvider injector p = .ok () ↔ Admits injector p := by
  unfold checkProvider Admits
  cases p.fallible <;> cases p.cleanup <;> cases injector.fallible <;> cases injector.cleanup <;> simp

theorem forM_checkProvider_eq_ok_iff :
    providers.forM (checkProvider injector) = .ok () ↔ ∀ p ∈ providers, Admits injector p := by
  induction providers with
  | nil => exact ⟨fun _ _ h => absurd h List.not_mem_nil, fun _ => rfl⟩
  | cons p providers ih =>
      have hsplit : (p :: providers).forM (checkProvider injector) =
          (checkProvider injector p).bind fun _ => providers.forM (checkProvider injector) := rfl
      rw [List.forall_mem_cons, ← ih, ← checkProvider_eq_ok_iff, hsplit]
      cases checkProvider injector p with
      | error failure => exact ⟨nofun, nofun⟩
      | ok _ => exact ⟨fun h => ⟨rfl, h⟩, fun h => h.2⟩

/-- The names of a provider and of the injector need not be compared as they are declared, for what is equal is
equal in snake case. -/
theorem collision?_eq_none_iff :
    collision? pkg injector = none ↔
      ∀ p ∈ pkg.providers, Text.snakeCase p.name ≠ Text.snakeCase injector.name := by
  rw [collision?, List.find?_eq_none]
  refine forall₂_congr fun p _ => ?_
  have hsnake : p.name = injector.name → Text.snakeCase p.name = Text.snakeCase injector.name := congrArg _
  simp only [Bool.or_eq_true, decide_eq_true_eq]
  exact ⟨fun h heq => h (.inr heq), fun h hor => h (hor.elim hsnake id)⟩

theorem function?_eq_ok_iff {f : Function} :
    function? pkg injector plan = .ok f ↔
      (∀ p ∈ pkg.providers, Text.snakeCase p.name ≠ Text.snakeCase injector.name) ∧
        (∀ p ∈ plan.providers, Admits injector p) ∧ f = functionOf pkg injector plan := by
  rw [← collision?_eq_none_iff, ← forM_checkProvider_eq_ok_iff, function?]
  cases collision? pkg injector with
  | some p => simp
  | none =>
      cases plan.providers.forM (checkProvider injector) with
      | error failure => simp [bind, Except.bind]
      | ok _ => simp [bind, Except.bind, pure, Except.pure, eq_comm]

end Emit

end Wiring
