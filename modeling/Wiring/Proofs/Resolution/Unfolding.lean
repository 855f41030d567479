/-
**Resolution unfolds its outputs.**

Without a memo, a request is answered by unfolding each output into the tree of the providers that are
chosen for it and for what they take, down to what is passed in.  Read in post-order, the trees say which
provider runs when, and a type that several providers take is listed once for each of them.

The resolver decides every type once.  When it comes back to a bound type it has emitted the whole tree of
that type before, so leaving the tree out the second time is leaving out repetitions.

Main definitions:

* `Wiring.Forest`, `Wiring.Forest.bindings`, `Wiring.Forest.postorder` — trees of chosen providers, and
  their post-order;
* `Wiring.Job.Unfolds` — a forest is what some types unfold to.

Main results:

* `Wiring.Job.Unfolds.unique`, `Wiring.Job.exists_unfolds` — types that can be made unfold in one way;
* `Wiring.Progress.Sound.mem_steps_of_unfolds` — the tree of a bound type has been emitted;
* `Wiring.Job.steps_bindAll` — **binding adds the post-order, without repetitions**;
* `Wiring.Job.resolve_unfolds` — **the steps of a plan are the first occurrences in the post-order**.
-/

import Wiring.Proofs.Resolution.Plans

set_option autoImplicit false

namespace Wiring

/-- A computation whose value is known succeeds. -/
theorem exists_ok_of_toOption {ε α β : Type} {x : Except ε α} {f : α → β} {b : β}
    (h : x.toOption.map f = some b) : ∃ a, x = .ok a ∧ f a = b := by
  cases x with
  | error _ => cases h
  | ok a => exact ⟨a, rfl, Option.some_inj.1 h⟩

/-- Trees of chosen providers side by side.  The first tree is a leaf for what is passed in, or a provider
with the trees of what it takes. -/
inductive Forest where
  | nil
  | given (type : TypeName) (rest : Forest)
  | made (type : TypeName) (maker : Provider) (below rest : Forest)

namespace Forest

/-- The bindings to providers in post-order: what a provider takes comes before it, from left to right. -/
def bindings : Forest → List Binding
  | nil => []
  | given _ rest => rest.bindings
  | made type maker below rest => below.bindings ++ ⟨type, .provider maker⟩ :: rest.bindings

/-- The types that are made, in post-order and as often as they occur. -/
def postorder (forest : Forest) : List TypeName :=
  forest.bindings.map Binding.type

end Forest

namespace Job

variable {job : Job} {type : TypeName} {types : List TypeName} {maker : Provider}
  {forest below rest : Forest}

/-! ### Unfolding -/

/-- Types unfold to a forest: each of them is passed in, or it is made by its chosen provider from what the
inputs of that provider unfold to. -/
inductive Unfolds (job : Job) : List TypeName → Forest → Prop
  | nil : Unfolds job [] .nil
  | given {type : TypeName} {types : List TypeName} {rest : Forest} (hin : type ∈ job.inputs)
      (hrest : Unfolds job types rest) : Unfolds job (type :: types) (.given type rest)
  | made {type : TypeName} {types : List TypeName} {maker : Provider} {below rest : Forest}
      (hin : type ∉ job.inputs) (hc : job.Chosen type maker)
      (hbelow : Unfolds job maker.inputs below) (hrest : Unfolds job types rest) :
      Unfolds job (type :: types) (.made type maker below rest)

/-- There is one way to unfold. -/
theorem Unfolds.unique {other : Forest} (h : job.Unfolds types forest)
    (h' : job.Unfolds types other) : forest = other := by
  induction h generalizing other with
  | nil =>
      cases h'
      rfl
  | given hin _ ih =>
      cases h' with
      | given _ hrest => rw [ih hrest]
      | made hnot => exact absurd hin hnot
  | made hin hc _ _ ihBelow ihRest =>
      cases h' with
      | given hin' => exact absurd hin' hin
      | made _ hc' hbelow hrest =>
          obtain rfl := hc.unique hc'
          rw [ihBelow hbelow, ihRest hrest]

/-- What unfolds can be made. -/
theorem Unfolds.constructible (h : job.Unfolds types forest) : ∀ t ∈ types, job.Constructible t := by
  induction h with
  | nil => nofun
  | given hin _ ih => exact List.forall_mem_cons.2 ⟨.given hin, ih⟩
  | made _ hc _ _ ihBelow ihRest => exact List.forall_mem_cons.2 ⟨.made hc ihBelow, ihRest⟩

/-- What can be made may be unfolded in front of a list. -/
theorem Constructible.unfolds_cons (h : job.Constructible type) :
    ∀ {types : List TypeName} {rest : Forest}, job.Unfolds types rest →
      ∃ forest, job.Unfolds (type :: types) forest := by
  induction h with
  | given hin => exact fun hrest => ⟨_, .given hin hrest⟩
  | @made type maker hc _ ih =>
      intro types rest hrest
      by_cases hin : type ∈ job.inputs
      · exact ⟨_, .given hin hrest⟩
      · have hinputs : ∀ needs : List TypeName, (∀ need ∈ needs, need ∈ maker.inputs) →
            ∃ below, job.Unfolds needs below := by
          intro needs hneeds
          induction needs with
          | nil => exact ⟨_, .nil⟩
          | cons need needs ihNeeds =>
              rw [List.forall_mem_cons] at hneeds
              obtain ⟨below, hbelow⟩ := ihNeeds hneeds.2
              exact ih need hneeds.1 hbelow
        obtain ⟨below, hbelow⟩ := hinputs maker.inputs fun _ hneed => hneed
        exact ⟨_, .made hin hc hbelow hrest⟩

/-- Types that can be made unfold. -/
theorem exists_unfolds (h : ∀ t ∈ types, job.Constructible t) : ∃ forest, job.Unfolds types forest := by
  induction types with
  | nil => exact ⟨_, .nil⟩
  | cons type types ih =>
      rw [List.forall_mem_cons] at h
      obtain ⟨rest, hrest⟩ := ih h.2
      exact h.1.unfolds_cons hrest

end Job

variable {job : Job} {chain types : List TypeName} {needer : Option Provider} {type : TypeName}
  {p : Progress} {maker : Provider} {forest below : Forest}

/-! ### What has been emitted -/

namespace Progress

/-- The steps are distinct. -/
theorem Sound.nodup_steps (h : p.Sound job) : p.steps.Nodup :=
  h.distinct.of_map

/-- A bound type that is not passed in has a step with its chosen provider, and what that provider takes is
bound as well. -/
theorem Sound.step_of_bound (h : p.Sound job) (hbound : p.verdicts.get? type = some true)
    (hin : type ∉ job.inputs) (hc : job.Chosen type maker) :
    (⟨type, .provider maker⟩ : Binding) ∈ p.steps ∧
      ∀ need ∈ maker.inputs, p.verdicts.get? need = some true := by
  obtain ⟨s, hs, rfl⟩ := List.mem_map.1 (((h.bound_iff type).1 hbound).resolve_left hin)
  obtain ⟨done, later, hsplit⟩ := List.append_of_mem hs
  obtain ⟨maker', hc', hsource, hneeds⟩ := h.ordered done s later hsplit
  obtain rfl := hc'.unique hc
  refine ⟨hsource ▸ hs, fun need hneed => (h.bound_iff need).2 ((hneeds need hneed).imp_right ?_)⟩
  intro hdone
  rw [hsplit, List.map_append]
  exact List.mem_append_left _ hdone

/-- **The tree of a bound type has been emitted.** -/
theorem Sound.mem_steps_of_unfolds (h : p.Sound job) (hforest : job.Unfolds types forest)
    (hbound : ∀ t ∈ types, p.verdicts.get? t = some true) : ∀ b ∈ forest.bindings, b ∈ p.steps := by
  induction hforest with
  | nil => nofun
  | given _ _ ih => exact ih (List.forall_mem_cons.1 hbound).2
  | made hin hc _ _ ihBelow ihRest =>
      obtain ⟨hfirst, hothers⟩ := List.forall_mem_cons.1 hbound
      obtain ⟨hstep, hneeds⟩ := h.step_of_bound hfirst hin hc
      intro b hb
      rcases List.mem_append.1 hb with hb | hb
      · exact ihBelow hneeds b hb
      · rcases List.mem_cons.1 hb with rfl | hb
        · exact hstep
        · exact ihRest hothers b hb

end Progress

namespace Job

/-! ### What binding emits -/

/-- Binding a type that can be made emits its tree, without what has been emitted before, if binding the
inputs of its chosen provider does. -/
theorem steps_bind (hs : p.Sound job) (hw : job.Waiting chain [type] p) (hin : type ∉ job.inputs)
    (hc : job.Chosen type maker) (hbelow : job.Unfolds maker.inputs below)
    (ih : job.Waiting (chain ++ [type]) maker.inputs p →
      (job.bindAll (chain ++ [type]) (some maker) maker.inputs p).1.steps =
        (p.steps ++ below.bindings).eraseDups) :
    (job.bind chain needer type p).1.steps =
      (p.steps ++ (below.bindings ++ [(⟨type, .provider maker⟩ : Binding)])).eraseDups := by
  have hmade : job.Constructible type := .made hc hbelow.constructible
  have hbound : job.Bound chain [type] p (job.bind chain needer type p) := bindAll_bound hs hw
  have hok : (job.bind chain needer type p).2 = true := by
    by_contra hlost
    obtain ⟨⟨t, ht, hnot⟩, -⟩ := hbound.lost (Bool.not_eq_true _ ▸ hlost)
    exact hnot (List.mem_singleton.1 ht ▸ hmade)
  have hout : job.Outcome chain needer type p (job.bind chain needer type p) := bind_outcome
  generalize job.bind chain needer type p = result at hout hok
  cases hout with
  | decided hv =>
      -- the tree has been emitted when the type was bound
      obtain rfl : _ = true := hok
      have htree : job.Unfolds [type] (.made type maker below .nil) := .made hin hc hbelow .nil
      rw [eraseDups_append_of_subset, eraseDups_of_nodup hs.nodup_steps]
      exact hs.mem_steps_of_unfolds htree fun t ht => List.mem_singleton.1 ht ▸ hv
  | circle => cases hok
  | unmade => cases hok
  | contested => cases hok
  | concluded hnone hnew hc' =>
      obtain rfl := hc.unique (choose_eq_one_iff.1 hc')
      have hwaiting := hw.below hs (List.mem_singleton.2 rfl) hnone hnew hc
      have hbelowBound : job.Bound _ _ p (job.bindAll (chain ++ [type]) (some maker) maker.inputs p) :=
        bindAll_bound hs hwaiting
      have hopen := hbelowBound.undecided type (by simp)
      have hsound := hbelowBound.sound
      -- the type is still undecided, so its step is a new one
      have hfresh : (⟨type, .provider maker⟩ : Binding) ∉ p.steps ++ below.bindings := by
        intro hmem
        rw [← List.mem_eraseDups, ← ih hwaiting] at hmem
        have hdecided := (hsound.bound_iff type).2 (Or.inr (List.mem_map_of_mem hmem))
        rw [hopen] at hdecided
        cases hdecided
      dsimp only at hok ⊢
      rw [hok, Progress.steps_conclude, ih hwaiting, ← List.append_assoc,
        eraseDups_concat_of_not_mem hfresh]

/-- **Binding adds the post-order of what its types unfold to, without repetitions.** -/
theorem steps_bindAll (hs : p.Sound job) (hw : job.Waiting chain types p)
    (hforest : job.Unfolds types forest) :
    (job.bindAll chain needer types p).1.steps = (p.steps ++ forest.bindings).eraseDups := by
  induction hforest generalizing chain needer p with
  | nil => rw [bindAll_nil, Forest.bindings, List.append_nil, eraseDups_of_nodup hs.nodup_steps]
  | @given type types rest hin _ ih =>
      have hv : p.verdicts.get? type = some true := (hs.bound_iff type).2 (Or.inl hin)
      rw [bindAll_cons, bind_of_decided hv, Forest.bindings]
      exact ih hs (hw.mono (fun t ht => List.mem_cons_of_mem _ ht) hw.undecided)
  | @made type types maker below rest hin hc hbelow _ ihBelow ihRest =>
      have hone : job.Waiting chain [type] p := hw.mono (by simp) hw.undecided
      have hbound : job.Bound chain [type] p (job.bind chain needer type p) := bindAll_bound hs hone
      have hfirst : (job.bind chain needer type p).1.steps = _ :=
        steps_bind hs hone hin hc hbelow fun hwaiting => ihBelow hs hwaiting
      rw [bindAll_cons]
      dsimp only
      rw [ihRest hbound.sound (hw.mono (fun t ht => List.mem_cons_of_mem _ ht) hbound.undecided), hfirst,
        eraseDups_eraseDups_append, Forest.bindings]
      simp only [List.append_assoc, List.cons_append, List.nil_append]

/-! ### The whole of a resolution -/

/-- When nothing fails, the steps are the first occurrences in the post-order of the outputs. -/
theorem steps_last (hforest : job.Unfolds job.outputs forest) :
    job.last.steps = forest.bindings.eraseDups := by
  have hstart : job.start.steps = [] := steps_bindInputs _ _
  rw [last, steps_bindAll job.start_sound job.start_waiting hforest, hstart, List.nil_append]

/-- When nothing fails, the outputs unfold. -/
theorem exists_unfolds_outputs (h : job.last.failures = []) :
    ∃ forest, job.Unfolds job.outputs forest :=
  exists_unfolds fun t ht =>
    (job.outputs_bound.sound.verdict_iff t true ((of_failures_eq_nil h).2 t ht)).2 rfl

/-- The steps bind the first occurrences of their types. -/
theorem map_type_steps_last (hforest : job.Unfolds job.outputs forest) :
    job.last.steps.map Binding.type = forest.postorder.eraseDups := by
  have hdistinct := job.outputs_bound.sound.distinct
  rw [← last, steps_last hforest] at hdistinct
  rw [steps_last hforest, Forest.postorder, eraseDups_map]
  intro a ha b hb heq
  exact List.inj_on_of_nodup_map hdistinct (List.mem_eraseDups.2 ha) (List.mem_eraseDups.2 hb) heq

/-- **The steps of a plan are the first occurrences in the post-order** of the one forest to which the
outputs unfold: remembering what has been bound changes nothing else. -/
theorem resolve_unfolds {plan : Plan} (h : job.resolve = .ok plan) :
    ∃ forest, (∀ other, job.Unfolds job.outputs other ↔ other = forest) ∧
      plan.steps.map Binding.type = forest.postorder.eraseDups := by
  obtain ⟨hfail, rfl⟩ := resolve_eq_ok_iff.1 h
  obtain ⟨forest, hforest⟩ := exists_unfolds_outputs hfail
  refine ⟨forest, fun other => ⟨fun hother => hother.unique hforest, ?_⟩, map_type_steps_last hforest⟩
  rintro rfl
  exact hforest

/-- What the diamond unfolds to: the shared type is made on both sides. -/
def diamondForest : Forest :=
  .made "App" { pkg := "p", name := "NewApp", inputs := ["Users", "Posts"], output := "App" }
    (.made "Users" { pkg := "p", name := "NewUsers", inputs := ["Db"], output := "Users" }
      (.made "Db" { pkg := "p", name := "NewDb", inputs := ["Cfg"], output := "Db" }
        (.given "Cfg" .nil) .nil)
      (.made "Posts" { pkg := "p", name := "NewPosts", inputs := ["Db", "Cfg"], output := "Posts" }
        (.made "Db" { pkg := "p", name := "NewDb", inputs := ["Cfg"], output := "Db" }
          (.given "Cfg" .nil) (.given "Cfg" .nil)) .nil)) .nil

theorem unfolds_diamond : diamond.Unfolds diamond.outputs diamondForest := by
  have hgiven : "Cfg" ∈ diamond.inputs := by decide
  have hdb : ∀ {types rest}, diamond.Unfolds types rest → diamond.Unfolds ("Db" :: types)
      (.made "Db" { pkg := "p", name := "NewDb", inputs := ["Cfg"], output := "Db" }
        (.given "Cfg" .nil) rest) :=
    .made (by decide) (choose_eq_one_iff.1 (by cbv)) (.given hgiven .nil)
  exact .made (by decide) (choose_eq_one_iff.1 (by cbv))
    (.made (by decide) (choose_eq_one_iff.1 (by cbv)) (hdb .nil)
      (.made (by decide) (choose_eq_one_iff.1 (by cbv)) (hdb (.given hgiven .nil)) .nil)) .nil

/-- In a diamond the shared type occurs twice in the post-order and has one step. -/
theorem resolve_unfolds_diamond :
    ∃ plan, diamond.resolve = .ok plan ∧
      diamondForest.postorder = ["Db", "Users", "Db", "Posts", "App"] ∧
      plan.steps.map Binding.type = diamondForest.postorder.eraseDups := by
  have hok : diamond.resolve.toOption.map Plan.outputs = some ["App"] := by cbv
  obtain ⟨plan, hplan, -⟩ := exists_ok_of_toOption hok
  obtain ⟨forest, hforest, hsteps⟩ := resolve_unfolds hplan
  obtain rfl := (hforest diamondForest).1 unfolds_diamond
  exact ⟨plan, hplan, rfl, hsteps⟩

end Job

end Wiring
