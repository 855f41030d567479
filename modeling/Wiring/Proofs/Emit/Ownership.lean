/-
**Locals are moved once, and last.**

The code of an injector passes its locals by value.  How often each type is still needed is counted
before the first statement is written, over the inputs of all providers and the outputs, and one is
taken off with every use.  What a provider takes and what its expression names is the same, in the
same order, so that at each use the count says how often the local comes up from there on.  A local
is therefore moved where it comes up for the last time and copied wherever it comes up again.

Main definitions:

* `Wiring.Emit.Touch`, `Wiring.Emit.Function.touches` — where the code names its locals;
* `Wiring.Emit.Frugal` — each local is used as what comes later calls for;
* `Wiring.Emit.Locals.Ready` — the counts are those of what is still to come;
* `Wiring.Emit.Function.OwnsLocals` — all that a function owes to its locals;
* `Wiring.Emit.Function.Serves` — the locals that it names are those that its plan asks for.

Main results:

* `Wiring.Emit.Locals.Ready.stepsOf` — the statements use their locals as what comes later calls for;
* `Wiring.Emit.render_ownsLocals` — **rendered code owns its locals**.
-/

import Mathlib.Data.List.Forall2
import Mathlib.Data.List.Nodup
import Wiring.Emit.Injector
import Wiring.Proofs.Emit.Names
import Wiring.Proofs.Loading.Shapes
import Wiring.Proofs.Resolution.Plans

set_option autoImplicit false

namespace Wiring

namespace Plan

/-- The types that are bound, in order. -/
def types (plan : Plan) : List TypeName :=
  (plan.inputs ++ plan.steps).map Binding.type

/-- What a step takes and what is returned is bound. -/
theorem mem_types {plan : Plan} {job : Job} (h : job.resolve = .ok plan) {t : TypeName}
    (ht : t ∈ plan.providers.flatMap Provider.inputs ++ plan.outputs) : t ∈ plan.types := by
  rcases List.mem_append.1 ht with ht | ht
  · obtain ⟨p, hp, hneed⟩ := List.mem_flatMap.1 ht
    obtain ⟨s, hs, hsp⟩ := List.mem_filterMap.1 hp
    obtain ⟨done, later, hsplit⟩ := List.append_of_mem hs
    obtain ⟨q, hq, -, hbound⟩ := Job.ordered_of_resolve h hsplit
    rw [Binding.provider?, hq] at hsp
    cases hsp
    obtain ⟨b, hb, rfl⟩ := hbound t hneed
    refine List.mem_map_of_mem ?_
    rw [hsplit, ← List.append_assoc]
    exact List.mem_append_left _ hb
  · obtain ⟨b, hb, rfl⟩ := Job.outputs_bound_of_resolve h t ht
    exact List.mem_map_of_mem hb

end Plan

namespace Emit

/-! ### Where the code names its locals -/

/-- A local as an expression names it: used by value, or only looked into. -/
inductive Touch where
  | use (u : Use)
  | read (name : String)
deriving DecidableEq

/-- The local that is named. -/
def Touch.name : Touch → String
  | use u => u.name
  | read name => name

/-- The locals that an expression names, in order.  An expression given by a declaration is text of
its own. -/
def Expr.touches : Expr → List Touch
  | fieldRead owner _ => [.read owner]
  | e => e.uses.map .use

/-- The locals that a function names behind its parameters, in order. -/
def Function.touches (f : Function) : List Touch :=
  (f.steps.flatMap fun s => s.expr.touches) ++ f.results.map .use

/-- What comes later decides how a local is used now. -/
def Touch.Fits (later : List String) : Touch → Prop
  | use (.move name) => name ∉ later
  | use (.copy name) => name ∈ later
  | read _ => True

/-- Each local is used as what comes later calls for, where `later` is named after all of it. -/
def Frugal (later : List String) : List Touch → Prop
  | [] => True
  | t :: rest => t.Fits (rest.map Touch.name ++ later) ∧ Frugal later rest

/-- All that a function owes to its locals. -/
structure Function.OwnsLocals (f : Function) : Prop where
  /-- Each name stands for one local. -/
  distinct : (f.params.map Prod.fst ++ f.steps.map Step.name).Nodup
  not_blank : ∀ t ∈ f.touches, t.name ≠ "_"
  /-- What a statement names is a parameter or has an earlier statement. -/
  steps_bound : ∀ done s later, f.steps = done ++ s :: later →
    ∀ t ∈ s.expr.touches, t.name ∈ f.params.map Prod.fst ++ done.map Step.name
  results_bound : ∀ u ∈ f.results, u.name ∈ f.params.map Prod.fst ++ f.steps.map Step.name
  moved_last : ∀ before name after, f.touches = before ++ .use (.move name) :: after →
    name ∉ after.map Touch.name
  copied_in_need : ∀ before name after, f.touches = before ++ .use (.copy name) :: after →
    name ∈ after.map Touch.name

/-- Each type that is bound has a local, and what the providers take and what is returned is named by
its local, in order. -/
def Function.Serves (f : Function) (plan : Plan) : Prop :=
  ∃ localOf : TypeName → String,
    f.params.map Prod.fst ++ f.steps.map Step.name = plan.types.map localOf ∧
      f.touches.map Touch.name =
        (plan.providers.flatMap Provider.inputs ++ plan.outputs).map localOf

variable {touches before after : List Touch} {later : List String} {t : Touch}

theorem map_name_map_use (us : List Use) : (us.map Touch.use).map Touch.name = us.map Use.name := by
  rw [List.map_map]
  rfl

theorem Frugal.append (hb : Frugal (after.map Touch.name ++ later) before)
    (ha : Frugal later after) : Frugal later (before ++ after) := by
  induction before with
  | nil => exact ha
  | cons t before ih =>
    obtain ⟨hfits, hb⟩ := hb
    refine ⟨?_, ih hb⟩
    change t.Fits ((before ++ after).map Touch.name ++ later)
    rw [List.map_append, List.append_assoc]
    exact hfits

/-- At each place a local is used as the rest calls for. -/
theorem Frugal.fits (h : Frugal later (before ++ t :: after)) :
    t.Fits (after.map Touch.name ++ later) := by
  induction before with
  | nil => exact h.1
  | cons _ before ih => exact ih h.2

/-! ### What an expression uses -/

namespace Locals

variable {locals : Locals} {type : TypeName} {types rest : List TypeName}

theorem name_take (locals : Locals) (type : TypeName) :
    (locals.take type).1.name = locals.name type := by
  simp only [take]
  split <;> rfl

theorem map_name_takeAll (locals : Locals) (types : List TypeName) :
    (locals.takeAll types).1.map Use.name = types.map locals.name := by
  induction types generalizing locals with
  | nil => rfl
  | cons type rest ih => exact congrArg₂ List.cons (locals.name_take type) (ih _)

theorem length_takeAll (locals : Locals) (types : List TypeName) :
    (locals.takeAll types).1.length = types.length := by
  rw [← List.length_map Use.name, map_name_takeAll, List.length_map]

end Locals

open Locals in
/-- An expression takes what its provider takes, in order; only a field is read without taking its
owner. -/
theorem exprOf_cases {p : Provider} (hp : p.WellFormed) (pkg : String) (locals : Locals) :
    ((exprOf pkg p locals).1.touches = (locals.takeAll p.inputs).1.map .use ∧
        (exprOf pkg p locals).2 = (locals.takeAll p.inputs).2) ∨
      ∃ owner, p.inputs = [owner] ∧
        (exprOf pkg p locals).1.touches = [.read (locals.name owner)] ∧
        (exprOf pkg p locals).2 = (locals.borrow owner).2 := by
  unfold Provider.WellFormed at hp
  unfold exprOf
  cases hkind : p.kind with
  | value =>
    rw [hkind] at hp
    left
    rw [hp]
    exact ⟨rfl, rfl⟩
  | fieldRead =>
    rw [hkind] at hp
    obtain ⟨owner, howner⟩ := hp
    right
    rw [howner]
    exact ⟨owner, rfl, rfl, rfl⟩
  | interfaceBinding =>
    rw [hkind] at hp
    obtain ⟨concrete, hconcrete⟩ := hp
    left
    rw [hconcrete]
    exact ⟨rfl, rfl⟩
  | structLiteral =>
    rw [hkind] at hp
    left
    have hinputs : (p.fields.zip p.inputs).map Prod.snd = p.inputs := List.map_snd_zip hp.ge
    have hlength : ((p.fields.zip p.inputs).map fun e => Text.snakeCase e.1).length
        = (locals.takeAll p.inputs).1.length := by
      rw [length_takeAll, List.length_map, List.length_zip, hp, Nat.min_self]
    simp only [hinputs]
    refine ⟨?_, trivial⟩
    rw [Expr.touches, Expr.uses, List.map_snd_zip hlength.ge]
    nofun
  | function => exact .inl ⟨rfl, rfl⟩
  | setReference => exact .inl ⟨rfl, rfl⟩

/-! ### Counting down -/

namespace Locals

variable {locals mid last : Locals} {type : TypeName} {types more rest : List TypeName}
  {touches others : List Touch}

/-- The count of each type is the number of its uses to come, and types that are used have names of
their own. -/
structure Ready (locals : Locals) (coming : List TypeName) : Prop where
  counted : ∀ t ∈ coming, locals.remaining.get? t = some (coming.count t)
  apart : ∀ t ∈ coming, ∀ u ∈ coming, locals.name t = locals.name u → t = u

/-- Types are used in order, each as what comes later calls for, and the counts are those of the
rest. -/
structure Spends (locals : Locals) (types rest : List TypeName) (touches : List Touch)
    (last : Locals) : Prop where
  names_eq : last.names = locals.names
  touched : touches.map Touch.name = types.map locals.name
  frugal : Frugal (rest.map locals.name) touches
  ready : last.Ready rest

theorem name_congr (h : last.names = locals.names) : last.name = locals.name := by
  funext type
  rw [name, name, h]

theorem Ready.spends_nil (h : locals.Ready rest) : Spends locals [] rest [] locals :=
  ⟨rfl, rfl, trivial, h⟩

/-- One use after another. -/
theorem Spends.trans (h : Spends locals types (more ++ rest) touches mid)
    (h' : Spends mid more rest others last) :
    Spends locals (types ++ more) rest (touches ++ others) last := by
  have hname : mid.name = locals.name := name_congr h.names_eq
  have hothers : others.map Touch.name = more.map locals.name := hname ▸ h'.touched
  refine ⟨h'.names_eq.trans h.names_eq, ?_, ?_, h'.ready⟩
  · rw [List.map_append, List.map_append, h.touched, hothers]
  · refine Frugal.append ?_ (hname ▸ h'.frugal)
    rw [hothers, ← List.map_append]
    exact h.frugal

/-- With one taken off, the counts are those of the rest. -/
theorem Ready.of_put (h : locals.Ready (type :: rest)) (hnames : last.names = locals.names)
    (hput : last.remaining = locals.remaining.put type (rest.count type)) : last.Ready rest := by
  refine ⟨fun t ht => ?_, fun t ht u hu hname => ?_⟩
  · rw [hput, Table.get?_put]
    split
    case isTrue heq => rw [heq]
    case isFalse hne =>
      rw [h.counted t (List.mem_cons_of_mem _ ht), List.count_cons_of_ne (Ne.symm hne)]
  · rw [name_congr hnames] at hname
    exact h.apart t (List.mem_cons_of_mem _ ht) u (List.mem_cons_of_mem _ hu) hname

/-- Where a type is used, what is left is the number of its later uses. -/
theorem Ready.left_eq (h : locals.Ready (type :: rest)) : locals.left type = rest.count type := by
  rw [left, h.counted type List.mem_cons_self, List.count_cons_self, Option.getD_some,
    Nat.add_sub_cancel]

/-- A name comes up again just when its type does. -/
theorem Ready.name_mem_iff (h : locals.Ready (type :: rest)) :
    locals.name type ∈ rest.map locals.name ↔ type ∈ rest := by
  refine ⟨fun hmem => ?_, List.mem_map_of_mem⟩
  obtain ⟨u, hu, hname⟩ := List.mem_map.1 hmem
  exact h.apart u (List.mem_cons_of_mem _ hu) type List.mem_cons_self hname ▸ hu

/-- **A type that is taken is copied if it comes up again, and moved if not.** -/
theorem Ready.take (h : locals.Ready (type :: rest)) :
    Spends locals [type] rest [.use (locals.take type).1] (locals.take type).2 := by
  have hput : (locals.take type).2.remaining = locals.remaining.put type (rest.count type) :=
    congrArg (locals.remaining.put type) h.left_eq
  have huse : (locals.take type).1
      = if rest.count type > 0 then .copy (locals.name type) else .move (locals.name type) := by
    rw [← h.left_eq]
    rfl
  refine ⟨rfl, congrArg (fun name => [name]) (locals.name_take type), ⟨?_, trivial⟩,
    h.of_put rfl hput⟩
  rw [huse]
  split
  case isTrue hagain => exact h.name_mem_iff.2 (List.count_pos_iff.1 hagain)
  case isFalse hlast => exact fun hmem => hlast (List.count_pos_iff.2 (h.name_mem_iff.1 hmem))

/-- Looking into a type takes one off as well. -/
theorem Ready.borrow (h : locals.Ready (type :: rest)) :
    Spends locals [type] rest [.read (locals.name type)] (locals.borrow type).2 := by
  have hborrow : (locals.borrow type).2
      = { locals with remaining := locals.remaining.put type (rest.count type) } := by
    simp only [Locals.borrow, h.counted type List.mem_cons_self, List.count_cons_self,
      Nat.add_sub_cancel]
  rw [hborrow]
  exact ⟨rfl, rfl, ⟨trivial, trivial⟩, h.of_put rfl rfl⟩

theorem Ready.takeAll (h : locals.Ready (types ++ rest)) :
    Spends locals types rest ((locals.takeAll types).1.map .use) (locals.takeAll types).2 := by
  induction types generalizing locals with
  | nil => exact h.spends_nil
  | cons type types ih =>
    have htake : Spends locals [type] (types ++ rest) [.use (locals.take type).1]
        (locals.take type).2 := Ready.take h
    exact htake.trans (ih htake.ready)

/-- An expression uses what its provider takes. -/
theorem Ready.exprOf {p : Provider} (hp : p.WellFormed) (pkg : String)
    (h : locals.Ready (p.inputs ++ rest)) :
    Spends locals p.inputs rest (exprOf pkg p locals).1.touches (exprOf pkg p locals).2 := by
  rcases exprOf_cases hp pkg locals with ⟨htouches, hlast⟩ | ⟨owner, hinputs, htouches, hlast⟩
  · rw [htouches, hlast]
    exact h.takeAll
  · rw [hinputs] at h
    rw [hinputs, htouches, hlast]
    exact Ready.borrow h

/-- A statement binds the local of its type, and names the locals of what its provider takes. -/
def Renders (locals : Locals) (b : Binding) (s : Step) : Prop :=
  s.name = locals.name b.type ∧ ∃ p, b.provider? = some p ∧
    s.expr.touches.map Touch.name = p.inputs.map locals.name

/-- **The statements use what their providers take, each type as what comes later calls for.** -/
theorem Ready.stepsOf (pkg : String) (pending : Bool) {bindings : List Binding}
    (hbindings : ∀ b ∈ bindings, ∃ p, b.provider? = some p ∧ p.WellFormed)
    (h : locals.Ready ((bindings.filterMap Binding.provider?).flatMap Provider.inputs ++ rest)) :
    Spends locals ((bindings.filterMap Binding.provider?).flatMap Provider.inputs) rest
        ((stepsOf pkg locals pending bindings).1.flatMap fun s => s.expr.touches)
        (stepsOf pkg locals pending bindings).2 ∧
      List.Forall₂ locals.Renders bindings (stepsOf pkg locals pending bindings).1 := by
  induction bindings generalizing locals pending with
  | nil => exact ⟨h.spends_nil, .nil⟩
  | cons b bindings ih =>
    obtain ⟨p, hp, hwell⟩ := hbindings b List.mem_cons_self
    rw [List.filterMap_cons_some hp, List.flatMap_cons] at h ⊢
    rw [List.append_assoc] at h
    have hexpr := h.exprOf hwell pkg
    have hname : (Emit.exprOf pkg p locals).2.name = locals.name := name_congr hexpr.names_eq
    obtain ⟨hspends, hrenders⟩ := ih (pending || p.cleanup)
      (fun b hb => hbindings b (List.mem_cons_of_mem _ hb)) hexpr.ready
    rw [Emit.stepsOf, hp]
    refine ⟨hexpr.trans hspends, .cons ⟨rfl, p, hp, hexpr.touched⟩ ?_⟩
    -- an expression changes counts only, so that the later statements name the same locals
    exact hrenders.imp fun b s ⟨hb, q, hq, htouched⟩ =>
      ⟨hname ▸ hb, q, hq, hname ▸ htouched⟩

/-! ### The counts and names at the start -/

theorem getD_foldl_countUse (types : List TypeName) (counts : Table TypeName Nat) (t : TypeName) :
    ((types.foldl countUse counts).get? t).getD 0 = (counts.get? t).getD 0 + types.count t := by
  induction types generalizing counts with
  | nil => rfl
  | cons type types ih =>
    rw [List.foldl_cons, ih, countUse, Table.get?_put, List.count_cons]
    by_cases heq : t = type
    · simp only [heq, if_true, Option.getD_some, beq_self_eq_true]
      omega
    · have hne : ¬ (type == t) = true := by simpa using Ne.symm heq
      rw [if_neg heq, if_neg hne, Nat.add_zero]

/-- What is used at all is counted as often as it is used. -/
theorem get?_foldl_countUse (ht : type ∈ types) :
    (types.foldl countUse {}).get? type = some (types.count type) := by
  have hcount : ((types.foldl countUse {}).get? type).getD 0 = types.count type := by
    rw [getD_foldl_countUse types {} type, Table.get?_empty, Option.getD_none, Nat.zero_add]
  have hpos : 0 < types.count type := List.count_pos_iff.2 ht
  cases hget : (types.foldl countUse {}).get? type with
  | none =>
    rw [hget, Option.getD_none] at hcount
    omega
  | some n =>
    rw [hget, Option.getD_some] at hcount
    rw [hcount]

/-- The locals of a plan have the names that were handed out for their types. -/
theorem map_name_ofPlan {taken : List String} {plan : Plan} (hdistinct : plan.types.Nodup) :
    plan.types.map (ofPlan taken plan).name = (nameAll taken plan.types).map Prod.snd := by
  have hkeys : (nameAll taken plan.types).map Prod.fst = plan.types := map_fst_nameAll taken _
  have hnames : ∀ e ∈ nameAll taken plan.types, (ofPlan taken plan).name e.1 = e.2 := by
    intro e he
    have hget := Table.get?_foldl_put (t := {}) (hkeys.symm ▸ hdistinct) he
    rw [name]
    exact congrArg (Option.getD · "_") hget
  calc plan.types.map (ofPlan taken plan).name
      = ((nameAll taken plan.types).map Prod.fst).map (ofPlan taken plan).name := by rw [hkeys]
    _ = (nameAll taken plan.types).map Prod.snd := by
        rw [List.map_map]
        exact List.map_congr_left hnames

variable {plan : Plan} {job : Job} {taken : List String}

/-- The locals of a resolved plan have distinct names. -/
theorem nodup_map_name (hplan : job.resolve = .ok plan) :
    (plan.types.map (ofPlan taken plan).name).Nodup := by
  rw [map_name_ofPlan (Job.distinct_of_resolve hplan)]
  exact nodup_nameAll taken _

theorem name_ne_blank (hplan : job.resolve = .ok plan) (ht : type ∈ plan.types) :
    (ofPlan taken plan).name type ≠ "_" := by
  intro hblank
  have hmem : (ofPlan taken plan).name type ∈ plan.types.map (ofPlan taken plan).name :=
    List.mem_map_of_mem ht
  rw [map_name_ofPlan (Job.distinct_of_resolve hplan)] at hmem
  obtain ⟨e, he, hname⟩ := List.mem_map.1 hmem
  rw [hblank] at hname
  exact Text.not_lettered_blank (hname ▸ lettered_of_mem_nameAll he)

/-- At the start the counts are those of the whole plan, whose locals have names of their own. -/
theorem ready_ofPlan (hplan : job.resolve = .ok plan) :
    (ofPlan taken plan).Ready (plan.providers.flatMap Provider.inputs ++ plan.outputs) := by
  refine ⟨fun t ht => get?_foldl_countUse ht, fun t ht u hu hname => ?_⟩
  exact List.inj_on_of_nodup_map (nodup_map_name hplan) (Plan.mem_types hplan ht)
    (Plan.mem_types hplan hu) hname

end Locals

/-! ### From statements to the function -/

open Locals

variable {plan : Plan} {job : Job} {pkg : Package} {injector : InjectorDecl} {locals : Locals}

theorem map_name_of_renders {bindings : List Binding} {steps : List Step}
    (h : List.Forall₂ locals.Renders bindings steps) :
    steps.map Step.name = (bindings.map Binding.type).map locals.name := by
  induction h with
  | nil => rfl
  | cons hrenders _ ih => exact congrArg₂ List.cons hrenders.1 ih

/-- A statement stands where the binding that it renders stands. -/
theorem exists_binding_of_renders {bindings : List Binding} {done later : List Step} {s : Step}
    (h : List.Forall₂ locals.Renders bindings (done ++ s :: later)) :
    ∃ before b after, bindings = before ++ b :: after ∧
      List.Forall₂ locals.Renders before done ∧ locals.Renders b s := by
  have hbefore := List.forall₂_take_append _ _ _ h
  obtain ⟨b, after, hb, -, hdrop⟩ :=
    List.forall₂_cons_right_iff.1 (List.forall₂_drop_append _ _ _ h)
  refine ⟨_, b, after, ?_, hbefore, hb⟩
  rw [← hdrop, List.take_append_drop]

/-- The locals of a plan. -/
def localsOf (injector : InjectorDecl) (plan : Plan) : Locals :=
  ofPlan (takenNames (Text.snakeCase injector.name) plan) plan

theorem map_fst_params (pkg : Package) (injector : InjectorDecl) (plan : Plan) :
    (functionOf pkg injector plan).params.map Prod.fst =
      (plan.inputs.map Binding.type).map (localsOf injector plan).name := by
  simp only [functionOf, localsOf, List.map_map]
  rfl

/-- The statements of a resolved plan render its steps, and the function names the locals of what the
providers take and of what is returned, each as what comes later calls for. -/
theorem spends_functionOf (pkg : Package) (injector : InjectorDecl)
    (hplan : job.resolve = .ok plan) (hwell : ∀ p ∈ job.candidates, p.WellFormed) :
    List.Forall₂ (localsOf injector plan).Renders plan.steps
        (functionOf pkg injector plan).steps ∧
      (functionOf pkg injector plan).results.map Use.name =
        plan.outputs.map (localsOf injector plan).name ∧
      ∃ last, Spends (localsOf injector plan)
        (plan.providers.flatMap Provider.inputs ++ plan.outputs) []
        (functionOf pkg injector plan).touches last := by
  have hbindings : ∀ b ∈ plan.steps, ∃ p, b.provider? = some p ∧ p.WellFormed := by
    intro b hb
    obtain ⟨p, hsource, hchosen⟩ := Job.chosen_of_resolve hplan b hb
    exact ⟨p, by rw [Binding.provider?, hsource], hwell p hchosen.mem⟩
  have hready : (localsOf injector plan).Ready
      (plan.providers.flatMap Provider.inputs ++ plan.outputs) := ready_ofPlan hplan
  obtain ⟨hsteps, hrenders⟩ := hready.stepsOf pkg.path false hbindings
  rw [← List.append_nil plan.outputs] at hsteps
  have houts := Ready.takeAll hsteps.ready
  have hresults := houts.touched
  rw [map_name_map_use, name_congr hsteps.names_eq] at hresults
  exact ⟨hrenders, hresults, _, hsteps.trans houts⟩

/-- The parameters and the bound locals are the locals of the types that are bound. -/
theorem map_name_locals (pkg : Package) (injector : InjectorDecl)
    (hplan : job.resolve = .ok plan) (hwell : ∀ p ∈ job.candidates, p.WellFormed) :
    (functionOf pkg injector plan).params.map Prod.fst ++
        (functionOf pkg injector plan).steps.map Step.name =
      plan.types.map (localsOf injector plan).name := by
  obtain ⟨hrenders, -, -⟩ := spends_functionOf pkg injector hplan hwell
  rw [map_fst_params, map_name_of_renders hrenders, Plan.types, List.map_append, List.map_append]

/-- The function of a resolved plan owns its locals. -/
theorem functionOf_ownsLocals (hplan : job.resolve = .ok plan)
    (hwell : ∀ p ∈ job.candidates, p.WellFormed) :
    (functionOf pkg injector plan).OwnsLocals := by
  obtain ⟨hrenders, hresults, last, hspends⟩ :=
    spends_functionOf pkg injector hplan hwell
  have hlocals := map_name_locals pkg injector hplan hwell
  refine ⟨?distinct, ?not_blank, ?steps_bound, ?results_bound, ?moved_last, ?copied_in_need⟩
  case distinct =>
    rw [hlocals]
    exact nodup_map_name hplan
  case not_blank =>
    intro t ht
    have hname : t.name ∈ (functionOf pkg injector plan).touches.map Touch.name :=
      List.mem_map_of_mem ht
    rw [hspends.touched] at hname
    obtain ⟨type, htype, hlocal⟩ := List.mem_map.1 hname
    exact hlocal ▸ name_ne_blank hplan (Plan.mem_types hplan htype)
  case steps_bound =>
    intro done s later hsplit t ht
    obtain ⟨before, b, after, hsteps, hdone, -, p, hp, htouched⟩ :=
      exists_binding_of_renders (hsplit ▸ hrenders)
    obtain ⟨q, hq, -, hbound⟩ := Job.ordered_of_resolve hplan hsteps
    rw [Binding.provider?, hq] at hp
    obtain rfl : q = p := Option.some.inj hp
    have hname : t.name ∈ q.inputs.map (localsOf injector plan).name :=
      htouched ▸ List.mem_map_of_mem ht
    obtain ⟨need, hneed, hlocal⟩ := List.mem_map.1 hname
    obtain ⟨c, hc, rfl⟩ := hbound need hneed
    rw [map_fst_params, map_name_of_renders hdone, ← List.map_append, ← List.map_append, ← hlocal]
    exact List.mem_map_of_mem (List.mem_map_of_mem hc)
  case results_bound =>
    intro u hu
    have hname : u.name ∈ plan.outputs.map (localsOf injector plan).name :=
      hresults ▸ List.mem_map_of_mem hu
    obtain ⟨type, htype, hlocal⟩ := List.mem_map.1 hname
    rw [hlocals, ← hlocal]
    exact List.mem_map_of_mem (Plan.mem_types hplan (List.mem_append_right _ htype))
  case moved_last =>
    intro before name after hsplit
    have hfits := Frugal.fits (hsplit ▸ hspends.frugal)
    rw [List.map_nil, List.append_nil] at hfits
    exact hfits
  case copied_in_need =>
    intro before name after hsplit
    have hfits := Frugal.fits (hsplit ▸ hspends.frugal)
    rw [List.map_nil, List.append_nil] at hfits
    exact hfits

/-- The function of a resolved plan names what the plan takes and returns. -/
theorem functionOf_serves (hplan : job.resolve = .ok plan)
    (hwell : ∀ p ∈ job.candidates, p.WellFormed) : (functionOf pkg injector plan).Serves plan := by
  obtain ⟨-, -, last, hspends⟩ := spends_functionOf pkg injector hplan hwell
  exact ⟨(localsOf injector plan).name, map_name_locals pkg injector hplan hwell, hspends.touched⟩

/-- What is allowed is rendered as the function of its plan. -/
theorem eq_functionOf {f : Function} (h : function? pkg injector plan = .ok f) :
    f = functionOf pkg injector plan := by
  unfold function? at h
  split at h
  · cases h
  · obtain ⟨_, -, h⟩ := of_bind_eq_ok h
    exact (Except.ok.inj h).symm

/-- **Rendered code owns its locals.**  For a plan that was resolved from extracted providers, the code
names the locals of what the plan takes and returns, in order.  What is named is bound and not moved,
each use by value that is the last of its local moves it, and each that is not copies it. -/
theorem render_ownsLocals {code : String} (hjob : ∀ p ∈ job.candidates, p.Extracted)
    (hplan : job.resolve = .ok plan) (hcode : render pkg injector plan = .ok code) :
    ∃ f, function? pkg injector plan = .ok f ∧ code = f.print ∧ f.Serves plan ∧ f.OwnsLocals := by
  obtain ⟨f, hf, hprint⟩ := of_map_eq_ok hcode
  obtain rfl := eq_functionOf hf
  have hwell : ∀ p ∈ job.candidates, p.WellFormed := fun p hp => (hjob p hp).wellFormed
  exact ⟨_, hf, hprint.symm, functionOf_serves hplan hwell, functionOf_ownsLocals hplan hwell⟩

/-- A package with a provider of each kind that takes something. -/
def studio : Package where
  path := "studio"
  types :=
    ⟨[("Config", { kind := .struct, fields := [⟨"db", "Db"⟩, ⟨"port", "int"⟩] }),
      ("App", { kind := .struct, fields := [⟨"service", "Service"⟩, ⟨"db", "Db"⟩, ⟨"port", "int"⟩] }),
      ("Service", { kind := .interface })]⟩
  providers :=
    [{ name := "ConfigFields", kind := .fields, structType := some "Config", fields := ["*"] },
     { name := "NewStore", inputs := ["Db", "Config", "Db"], output := some "Store" },
     { name := "StoreAsService", kind := .bind, interface := some "Service",
       concrete := some "Store" },
     { name := "NewApp", kind := .struct, structType := some "App", fields := ["*"] }]

/-- Everything that the package provides, with some types asked for twice. -/
def studioJob : Job where
  candidates := studio.providers.flatMap fun decl => (studio.extract decl).toOption.getD []
  inputs := ["Config"]
  outputs := ["App", "Store", "Config", "Store"]

/-- The steps of the plan, each with the only candidate for its type. -/
def studioPlan : Plan where
  inputs := [⟨"Config", .input 0⟩]
  steps := ["Db", "Store", "Service", "int", "App"].filterMap fun type =>
    (studioJob.candidates.find? fun p => p.output = type).map fun p => ⟨type, .provider p⟩
  outputs := studioJob.outputs

/-- The owner of a field stays when the field is read, an input taken twice is copied twice, and of
an output returned twice the second is moved. -/
theorem render_ownsLocals_studio :
    (∀ p ∈ studioJob.candidates, p.Extracted) ∧ studioJob.resolve = .ok studioPlan ∧
      ∃ f : Function, render studio { name := "Open" } studioPlan = .ok f.print ∧
        f.Serves studioPlan ∧ f.OwnsLocals ∧ f.touches =
          [.read "config", .use (.copy "db"), .use (.copy "config"), .use (.copy "db"),
            .use (.copy "store"), .read "config", .use (.move "service"), .use (.move "db"),
            .use (.move "int"), .use (.move "app"), .use (.copy "store"), .use (.move "config"),
            .use (.move "store")] := by
  have hjob : ∀ p ∈ studioJob.candidates, p.Extracted := by
    intro p hp
    obtain ⟨decl, -, hp⟩ := List.mem_flatMap.1 hp
    cases hps : studio.extract decl with
    | error _ =>
      rw [hps] at hp
      cases hp
    | ok ps =>
      rw [hps] at hp
      exact ⟨studio, decl, ps, hps, hp⟩
  have hplan : studioJob.resolve = .ok studioPlan := by cbv
  have hfunction : function? studio { name := "Open" } studioPlan =
      .ok (functionOf studio { name := "Open" } studioPlan) := by
    have hcollision : collision? studio { name := "Open" } = none := by decide +kernel
    have hallowed : studioPlan.providers.forM (checkProvider { name := "Open" }) = .ok () := by cbv
    rw [function?, hcollision]
    simp only [hallowed]
    rfl
  obtain ⟨f, hf, -, hserves, howns⟩ := render_ownsLocals hjob hplan (congrArg _ hfunction)
  obtain rfl := eq_functionOf hf
  refine ⟨hjob, hplan, _, congrArg _ hfunction, hserves, howns, ?_⟩
  decide +kernel

end Emit

end Wiring
