/-
**What binding preserves.**

Binding a list of types threads a memo, a list of steps and a list of failures through a recursion
that keeps the types in progress on a chain.  This module states the invariant that ties all of them
to the graph of chosen providers, and shows that every call preserves it.

The invariant is about the whole state at once: a type is bound when it is passed in or has a step,
a step comes after the steps that it takes from, a verdict says whether the type can be made, and
every failure has its ground in the graph.

Main definitions:

* `Wiring.Job.bind`, `Wiring.Job.Outcome` — binding one type, and what it comes to;
* `Wiring.Job.Grounded` — the ground that each failure has;
* `Wiring.Progress.Sound` — the invariant of the state;
* `Wiring.Job.Waiting` — what holds of the chain and of the wanted types when a call begins;
* `Wiring.Progress.Grows` — later states only add;
* `Wiring.Job.Bound` — what a call leaves.

Main results:

* `Wiring.Job.bindAll_cons` and the equations of `Wiring.Job.bind`, one for each thing it can do;
* `Wiring.Job.bindAll_bound` — **every call of the recursion preserves the invariant**, binds all its
  types when it says so, and otherwise leaves a failure and a type that cannot be made.
-/

import Wiring.Proofs.Resolution.Demand

set_option autoImplicit false

namespace Wiring

namespace Job

variable {job : Job} {chain : List TypeName} {needer : Option Provider} {type : TypeName}
  {types rest : List TypeName} {p q : Progress} {maker : Provider}

/-! ### Binding one type -/

/-- Binds one type. -/
def bind (job : Job) (chain : List TypeName) (needer : Option Provider) (type : TypeName)
    (p : Progress) : Progress × Bool :=
  job.bindAll chain needer [type] p

@[simp] theorem bindAll_nil : job.bindAll chain needer [] p = (p, true) := by
  rw [bindAll]

/-- The types of a list are bound one after the other. -/
theorem bindAll_cons :
    job.bindAll chain needer (type :: rest) p =
      ((job.bindAll chain needer rest (job.bind chain needer type p).1).1,
        (job.bind chain needer type p).2 &&
          (job.bindAll chain needer rest (job.bind chain needer type p).1).2) := by
  rw [bind, bindAll, bindAll]
  simp only [bindAll_nil, Bool.and_true]

theorem bind_of_decided {b : Bool} (h : p.verdicts.get? type = some b) :
    job.bind chain needer type p = (p, b) := by
  rw [bind, bindAll]
  simp [h]

theorem bind_of_mem (h : p.verdicts.get? type = none) (hmem : type ∈ chain) :
    job.bind chain needer type p = (p.fail (.cycle (closeChain chain type)), false) := by
  rw [bind, bindAll]
  simp [h, hmem]

theorem bind_of_unmade (h : p.verdicts.get? type = none) (hmem : type ∉ chain)
    (hc : job.choose type = .none) :
    job.bind chain needer type p =
      ((p.fail (.noProvider type (needer.map Provider.qualifiedName)
        (job.suggestions type))).decide type false, false) := by
  rw [bind, bindAll]
  simp only [h, hmem, dif_neg, not_false_eq_true, bindAll_nil, Bool.and_true]
  split <;> simp_all

theorem bind_of_conflict {ps : List Provider} (h : p.verdicts.get? type = none)
    (hmem : type ∉ chain) (hc : job.choose type = .conflict ps) :
    job.bind chain needer type p =
      ((p.fail (.duplicateProvider type (ps.map Provider.qualifiedName))).decide type false,
        false) := by
  rw [bind, bindAll]
  simp only [h, hmem, dif_neg, not_false_eq_true, bindAll_nil, Bool.and_true]
  split <;> simp_all

theorem bind_of_one (h : p.verdicts.get? type = none) (hmem : type ∉ chain)
    (hc : job.choose type = .one maker) :
    job.bind chain needer type p =
      ((job.bindAll (chain ++ [type]) (some maker) maker.inputs p).1.conclude type maker
          (job.bindAll (chain ++ [type]) (some maker) maker.inputs p).2,
        (job.bindAll (chain ++ [type]) (some maker) maker.inputs p).2) := by
  rw [bind, bindAll]
  simp only [h, hmem, dif_neg, not_false_eq_true, bindAll_nil, Bool.and_true]
  split <;> simp_all

/-- What binding one type comes to: it was decided before, it closes a circle, it is given up, or it is
concluded after the inputs of its chosen provider. -/
inductive Outcome (job : Job) (chain : List TypeName) (needer : Option Provider) (type : TypeName)
    (p : Progress) : Progress × Bool → Prop
  | decided {b : Bool} (hv : p.verdicts.get? type = some b) : Outcome job chain needer type p (p, b)
  | circle (hnone : p.verdicts.get? type = none) (hmem : type ∈ chain) :
      Outcome job chain needer type p (p.fail (.cycle (closeChain chain type)), false)
  | unmade (hnone : p.verdicts.get? type = none) (hnew : type ∉ chain)
      (hc : job.choose type = .none) :
      Outcome job chain needer type p
        ((p.fail (.noProvider type (needer.map Provider.qualifiedName)
          (job.suggestions type))).decide type false, false)
  | contested {ps : List Provider} (hnone : p.verdicts.get? type = none) (hnew : type ∉ chain)
      (hc : job.choose type = .conflict ps) :
      Outcome job chain needer type p
        ((p.fail (.duplicateProvider type (ps.map Provider.qualifiedName))).decide type false, false)
  | concluded {maker : Provider} (hnone : p.verdicts.get? type = none) (hnew : type ∉ chain)
      (hc : job.choose type = .one maker) :
      Outcome job chain needer type p
        ((job.bindAll (chain ++ [type]) (some maker) maker.inputs p).1.conclude type maker
            (job.bindAll (chain ++ [type]) (some maker) maker.inputs p).2,
          (job.bindAll (chain ++ [type]) (some maker) maker.inputs p).2)

theorem bind_outcome : job.Outcome chain needer type p (job.bind chain needer type p) := by
  cases hv : p.verdicts.get? type with
  | some b =>
      rw [bind_of_decided hv]
      exact .decided hv
  | none =>
      by_cases hchain : type ∈ chain
      · rw [bind_of_mem hv hchain]
        exact .circle hv hchain
      · cases hc : job.choose type with
        | none =>
            rw [bind_of_unmade hv hchain hc]
            exact .unmade hv hchain hc
        | conflict ps =>
            rw [bind_of_conflict hv hchain hc]
            exact .contested hv hchain hc
        | one maker =>
            rw [bind_of_one hv hchain hc]
            exact .concluded hv hchain hc

/-- Binding with a list in front: what can be said of every list can be shown by the recursion that
binds the first type, through its chosen provider if need be, and then the others. -/
theorem bindAll_induction (job : Job)
    {motive : List TypeName → Option Provider → List TypeName → Progress → Prop}
    (nil : ∀ chain needer p, motive chain needer [] p)
    (cons : ∀ chain needer type rest p,
      (type ∉ chain → ∀ maker, job.choose type = .one maker →
        motive (chain ++ [type]) (some maker) maker.inputs p) →
      motive chain needer rest (job.bind chain needer type p).1 →
      motive chain needer (type :: rest) p)
    (chain : List TypeName) (needer : Option Provider) (types : List TypeName) (p : Progress) :
    motive chain needer types p := by
  induction chain, needer, types, p using bindAll.induct job with
  | case1 chain needer p => exact nil chain needer p
  | case2 chain needer type rest p first ihBelow ihRest =>
      refine cons chain needer type rest p ihBelow ?_
      have hfirst : (job.bind chain needer type p).1 = first.1 := by
        rw [bind, bindAll]
        simp only [bindAll_nil]
        rfl
      rw [hfirst]
      exact ihRest

/-! ### The grounds of failures -/

/-- The ground of a failure: an input that is there twice, a demanded type without a candidate or
with distinct ones, or demanded types that need each other in a circle. -/
inductive Grounded (job : Job) : Failure → Prop
  | repeated {type : TypeName} (h : ¬ job.inputs.Nodup) : Grounded job (.duplicateInput type)
  | unmade {type : TypeName} {needer : Option String} (hd : job.Demanded type)
      (hin : type ∉ job.inputs) (hc : job.choose type = .none) :
      Grounded job (.noProvider type needer (job.suggestions type))
  | contested {type : TypeName} {ps : List Provider} (hd : job.Demanded type)
      (hin : type ∉ job.inputs) (hc : job.choose type = .conflict ps) :
      Grounded job (.duplicateProvider type (ps.map Provider.qualifiedName))
  | circle {type : TypeName} {middle : List TypeName} (hd : (type :: middle).Nodup)
      (hpath : List.IsChain job.Needs (type :: (middle ++ [type]))) :
      Grounded job (.cycle (type :: (middle ++ [type])))

end Job

/-! ### The invariant -/

namespace Progress

/-- The invariant of the state. -/
structure Sound (job : Job) (p : Progress) : Prop where
  bound_iff : ∀ type, p.verdicts.get? type = some true ↔
    type ∈ job.inputs ∨ type ∈ p.steps.map Binding.type
  verdict_iff : ∀ type b, p.verdicts.get? type = some b → (job.Constructible type ↔ b = true)
  shadowed : ∀ s ∈ p.steps, s.type ∉ job.inputs
  demanded : ∀ s ∈ p.steps, job.Demanded s.type
  distinct : (p.steps.map Binding.type).Nodup
  ordered : ∀ done s later, p.steps = done ++ s :: later →
    ∃ maker, job.Chosen s.type maker ∧ s.source = .provider maker ∧
      ∀ need ∈ maker.inputs, need ∈ job.inputs ∨ need ∈ done.map Binding.type
  lost_failed : ∀ type, p.verdicts.get? type = some false → p.failures ≠ []
  grounded : ∀ f ∈ p.failures, job.Grounded f

/-- A later state only adds to an earlier one. -/
structure Grows (p q : Progress) : Prop where
  verdicts : ∀ type b, p.verdicts.get? type = some b → q.verdicts.get? type = some b
  steps : p.steps <+: q.steps
  failures : p.failures <+: q.failures

variable {job : Job} {p q r : Progress} {type : TypeName} {maker : Provider} {f : Failure}

theorem Grows.refl (p : Progress) : p.Grows p :=
  ⟨fun _ _ h => h, List.prefix_refl _, List.prefix_refl _⟩

theorem Grows.trans (h : p.Grows q) (h' : q.Grows r) : p.Grows r :=
  ⟨fun t b hb => h'.verdicts t b (h.verdicts t b hb), h.steps.trans h'.steps,
    h.failures.trans h'.failures⟩

/-- What has failed has failed for good. -/
theorem Grows.failures_ne_nil (h : p.Grows q) (hp : p.failures ≠ []) : q.failures ≠ [] := by
  intro hq
  exact hp (List.prefix_nil.1 (hq ▸ h.failures))

@[simp] theorem verdicts_fail : (p.fail f).verdicts = p.verdicts := rfl

@[simp] theorem steps_fail : (p.fail f).steps = p.steps := rfl

@[simp] theorem failures_fail : (p.fail f).failures = p.failures ++ [f] := rfl

@[simp] theorem steps_decide (b : Bool) : (p.decide type b).steps = p.steps := rfl

@[simp] theorem failures_decide (b : Bool) : (p.decide type b).failures = p.failures := rfl

theorem get?_decide (b : Bool) (other : TypeName) :
    (p.decide type b).verdicts.get? other =
      if other = type then some b else p.verdicts.get? other := by
  rw [decide, Table.get?_put]

theorem grows_fail (p : Progress) (f : Failure) : p.Grows (p.fail f) :=
  ⟨fun _ _ h => h, List.prefix_refl _, List.prefix_append _ _⟩

/-- Deciding an undecided type only adds. -/
theorem grows_decide (h : p.verdicts.get? type = none) (b : Bool) : p.Grows (p.decide type b) := by
  refine ⟨fun t c ht => ?_, List.prefix_refl _, List.prefix_refl _⟩
  have hne : t ≠ type := by
    rintro rfl
    simp [h] at ht
  rw [get?_decide, if_neg hne, ht]

/-- Concluding an undecided type only adds. -/
theorem grows_conclude (h : p.verdicts.get? type = none) (maker : Provider) (ok : Bool) :
    p.Grows (p.conclude type maker ok) := by
  cases ok with
  | false => exact grows_decide h false
  | true =>
      obtain ⟨hv, -, hf⟩ := grows_decide h true
      exact ⟨hv, List.prefix_append _ _, hf⟩

theorem get?_conclude (maker : Provider) (ok : Bool) (other : TypeName) :
    (p.conclude type maker ok).verdicts.get? other =
      if other = type then some ok else p.verdicts.get? other := by
  cases ok <;> exact get?_decide _ _

theorem steps_conclude (maker : Provider) :
    (p.conclude type maker true).steps = p.steps ++ [⟨type, .provider maker⟩] := rfl

/-- A type that is passed in is decided. -/
theorem Sound.not_mem_inputs (h : p.Sound job) (hnone : p.verdicts.get? type = none) :
    type ∉ job.inputs := by
  intro hin
  have := (h.bound_iff type).2 (Or.inl hin)
  simp [hnone] at this

/-- A failure with a ground may be added. -/
theorem Sound.fail (h : p.Sound job) (hf : job.Grounded f) : (p.fail f).Sound job where
  bound_iff := h.bound_iff
  verdict_iff := h.verdict_iff
  shadowed := h.shadowed
  demanded := h.demanded
  distinct := h.distinct
  ordered := h.ordered
  lost_failed := fun _ _ => by simp
  grounded := by
    intro g hg
    rcases List.mem_append.1 hg with hg | hg
    · exact h.grounded g hg
    · rw [List.mem_singleton.1 hg]
      exact hf

/-- An undecided type that cannot be made may be given up once there is a failure. -/
theorem Sound.refuse (h : p.Sound job) (hnone : p.verdicts.get? type = none)
    (hlost : ¬ job.Constructible type) (hfailed : p.failures ≠ []) :
    (p.decide type false).Sound job where
  bound_iff := by
    intro t
    rw [get?_decide, steps_decide, ← h.bound_iff t]
    by_cases ht : t = type
    · rw [if_pos ht, ht, hnone]
      simp
    · rw [if_neg ht]
  verdict_iff := by
    intro t b hb
    rw [get?_decide] at hb
    by_cases ht : t = type
    · rw [if_pos ht] at hb
      cases hb
      simp [ht, hlost]
    · rw [if_neg ht] at hb
      exact h.verdict_iff t b hb
  shadowed := h.shadowed
  demanded := h.demanded
  distinct := h.distinct
  ordered := h.ordered
  lost_failed := fun _ _ => hfailed
  grounded := h.grounded

/-- An undecided type whose chosen provider finds everything bound may become the next step. -/
theorem Sound.extend (h : p.Sound job) (hnone : p.verdicts.get? type = none)
    (hd : job.Demanded type) (hc : job.Chosen type maker)
    (hneeds : ∀ need ∈ maker.inputs, p.verdicts.get? need = some true) :
    (p.conclude type maker true).Sound job where
  bound_iff := by
    intro t
    rw [get?_conclude, steps_conclude, List.map_append, List.mem_append, ← or_assoc, ← h.bound_iff t]
    by_cases ht : t = type <;> simp [ht]
  verdict_iff := by
    intro t b hb
    rw [get?_conclude] at hb
    by_cases ht : t = type
    · rw [if_pos ht] at hb
      cases hb
      have hmade : job.Constructible type :=
        .made hc fun need hneed => (h.verdict_iff need true (hneeds need hneed)).2 rfl
      simp [ht, hmade]
    · rw [if_neg ht] at hb
      exact h.verdict_iff t b hb
  shadowed := by
    intro s hs
    rcases List.mem_append.1 hs with hs | hs
    · exact h.shadowed s hs
    · rw [List.mem_singleton.1 hs]
      exact h.not_mem_inputs hnone
  demanded := by
    intro s hs
    rcases List.mem_append.1 hs with hs | hs
    · exact h.demanded s hs
    · rw [List.mem_singleton.1 hs]
      exact hd
  distinct := by
    rw [steps_conclude, List.map_append, List.nodup_append]
    refine ⟨h.distinct, List.nodup_singleton _, ?_⟩
    rintro a ha b hb rfl
    have hbound := (h.bound_iff a).2 (Or.inr ha)
    rw [List.map_singleton, List.mem_singleton] at hb
    rw [hb, hnone] at hbound
    cases hbound
  ordered := by
    intro done s later hsplit
    rw [steps_conclude] at hsplit
    -- either the step is the new one, or the split is one of the earlier steps
    rcases List.eq_nil_or_concat later with rfl | ⟨later, last, rfl⟩
    · obtain ⟨hdone, hs⟩ := List.append_inj' hsplit rfl
      obtain rfl : (⟨type, .provider maker⟩ : Binding) = s := by simpa using hs
      refine ⟨maker, hc, rfl, fun need hneed => ?_⟩
      rw [← hdone]
      exact (h.bound_iff need).1 (hneeds need hneed)
    · have hsplit' : p.steps ++ [⟨type, .provider maker⟩] = (done ++ s :: later) ++ [last] := by
        simpa using hsplit
      exact h.ordered done s later (List.append_inj' hsplit' rfl).1
  lost_failed := by
    intro t ht
    rw [get?_conclude] at ht
    by_cases htype : t = type
    · rw [if_pos htype] at ht
      cases ht
    · rw [if_neg htype] at ht
      exact h.lost_failed t ht
  grounded := h.grounded

end Progress

namespace Job

variable {job : Job} {chain : List TypeName} {needer : Option Provider} {type : TypeName}
  {types rest : List TypeName} {p q : Progress} {maker : Provider} {r : Progress × Bool}

/-! ### What a call finds and what it leaves -/

/-- What holds of the chain and of the wanted types when a call begins: the chain is a path of
undecided types, and the wanted types are taken by its last member, or demanded if it is empty. -/
structure Waiting (job : Job) (chain types : List TypeName) (p : Progress) : Prop where
  undecided : ∀ t ∈ chain, p.verdicts.get? t = none
  distinct : chain.Nodup
  path : List.IsChain job.Needs chain
  wanted : ∀ t ∈ types, job.Demanded t ∧ ∀ last ∈ chain.getLast?, job.Takes last t

/-- What a call leaves. -/
structure Bound (job : Job) (chain types : List TypeName) (p : Progress) (r : Progress × Bool) :
    Prop where
  sound : r.1.Sound job
  grows : p.Grows r.1
  undecided : ∀ t ∈ chain, r.1.verdicts.get? t = none
  bound : r.2 = true → ∀ t ∈ types, r.1.verdicts.get? t = some true
  lost : r.2 = false → (∃ t ∈ types, ¬ job.Constructible t) ∧ r.1.failures ≠ []

/-- Fewer types may be wanted, and the state may have grown. -/
theorem Waiting.mono (h : job.Waiting chain types p) (hsub : ∀ t ∈ rest, t ∈ types)
    (hopen : ∀ t ∈ chain, q.verdicts.get? t = none) : job.Waiting chain rest q :=
  ⟨hopen, h.distinct, h.path, fun t ht => h.wanted t (hsub t ht)⟩

/-- The chain may be prolonged by a wanted type that is not passed in. -/
theorem Waiting.isChain (h : job.Waiting chain types p) (hmem : type ∈ types)
    (hin : type ∉ job.inputs) : List.IsChain job.Needs (chain ++ [type]) := by
  refine List.isChain_append.2 ⟨h.path, List.isChain_singleton _, ?_⟩
  intro last hlast t ht
  obtain rfl : type = t := by simpa using ht
  exact ⟨(h.wanted type hmem).2 last hlast, hin⟩

/-- The inputs of a chosen provider wait on the prolonged chain. -/
theorem Waiting.below (h : job.Waiting chain types p) (hs : p.Sound job) (hmem : type ∈ types)
    (hnone : p.verdicts.get? type = none) (hnew : type ∉ chain) (hc : job.Chosen type maker) :
    job.Waiting (chain ++ [type]) maker.inputs p where
  undecided := by
    intro t ht
    rcases List.mem_append.1 ht with ht | ht
    · exact h.undecided t ht
    · rw [List.mem_singleton.1 ht, hnone]
  distinct := by
    rw [List.nodup_append]
    refine ⟨h.distinct, List.nodup_singleton _, ?_⟩
    rintro a ha b hb rfl
    exact hnew (List.mem_singleton.1 hb ▸ ha)
  path := h.isChain hmem (hs.not_mem_inputs hnone)
  wanted := by
    have hd := (h.wanted type hmem).1
    have hin := hs.not_mem_inputs hnone
    intro t ht
    refine ⟨.input hd hin hc ht, ?_⟩
    intro last hlast
    obtain rfl : type = last := by simpa using hlast
    exact ⟨hd, hin, maker, hc, ht⟩

/-- A type without a chosen provider that is not passed in cannot be made. -/
theorem not_constructible_of_not_chosen (hin : type ∉ job.inputs)
    (hno : ∀ maker, ¬ job.Chosen type maker) : ¬ job.Constructible type := by
  intro hcon
  obtain ⟨maker, hmaker, -⟩ := hcon.inv hin
  exact hno maker hmaker

/-- A type whose chosen provider takes what cannot be made cannot be made either. -/
theorem not_constructible_of_input {need : TypeName} (hin : type ∉ job.inputs)
    (hc : job.Chosen type maker) (hneed : need ∈ maker.inputs) (hlost : ¬ job.Constructible need) :
    ¬ job.Constructible type := by
  intro hcon
  obtain ⟨maker', hmaker', hall⟩ := hcon.inv hin
  rw [hmaker'.unique hc] at hall
  exact hlost (hall need hneed)

/-- Refusing a type that has no chosen provider preserves the invariant. -/
theorem refuse_bound {f : Failure} (hs : p.Sound job) (hw : job.Waiting chain [type] p)
    (hnone : p.verdicts.get? type = none) (hnew : type ∉ chain) (hf : job.Grounded f)
    (hno : ∀ maker, ¬ job.Chosen type maker) :
    job.Bound chain [type] p ((p.fail f).decide type false, false) where
  sound := (hs.fail hf).refuse hnone
    (not_constructible_of_not_chosen (hs.not_mem_inputs hnone) hno) (by simp)
  grows := (p.grows_fail f).trans (Progress.grows_decide (p := p.fail f) hnone false)
  undecided := by
    intro t ht
    have hne : t ≠ type := fun heq => hnew (heq ▸ ht)
    rw [Progress.get?_decide, if_neg hne]
    exact hw.undecided t ht
  bound := by simp
  lost := fun _ => ⟨⟨type, List.mem_singleton.2 rfl,
    not_constructible_of_not_chosen (hs.not_mem_inputs hnone) hno⟩, by simp⟩

/-- Coming back to a type on the chain preserves the invariant: the chain has closed to a circle of
types that need each other. -/
theorem circle_bound (hs : p.Sound job) (hw : job.Waiting chain [type] p)
    (hnone : p.verdicts.get? type = none) (hmem : type ∈ chain) :
    job.Bound chain [type] p (p.fail (.cycle (closeChain chain type)), false) := by
  obtain ⟨before, middle, hsplit, hclose⟩ := closed_eq hmem
  have hcircle : List.IsChain job.Needs (type :: (middle ++ [type])) := by
    have hlong := hw.isChain (List.mem_singleton.2 rfl) (hs.not_mem_inputs hnone)
    rw [hsplit, List.append_assoc] at hlong
    exact hlong.right_of_append
  have hnodup : (type :: middle).Nodup := by
    have hdistinct := hw.distinct
    rw [hsplit, List.nodup_append] at hdistinct
    exact hdistinct.2.1
  rw [closeChain, hclose]
  refine ⟨hs.fail (.circle hnodup hcircle), p.grows_fail _, hw.undecided, by simp, fun _ => ?_⟩
  exact ⟨⟨type, List.mem_singleton.2 rfl,
    not_constructible_of_circle (transGen_of_isChain hcircle)⟩, by simp⟩

/-- Concluding a type after the inputs of its chosen provider preserves the invariant. -/
theorem conclude_bound (hs : p.Sound job) (hw : job.Waiting chain [type] p)
    (hnone : p.verdicts.get? type = none) (hnew : type ∉ chain) (hc : job.Chosen type maker)
    (hb : job.Bound (chain ++ [type]) maker.inputs p r) :
    job.Bound chain [type] p (r.1.conclude type maker r.2, r.2) := by
  have hmem : type ∈ [type] := List.mem_singleton.2 rfl
  have hopen : r.1.verdicts.get? type = none := hb.undecided type (by simp)
  have hgrows := hb.grows.trans (Progress.grows_conclude hopen maker r.2)
  have hrest : ∀ t ∈ chain, (r.1.conclude type maker r.2).verdicts.get? t = none := by
    intro t ht
    have hne : t ≠ type := fun heq => hnew (heq ▸ ht)
    rw [Progress.get?_conclude, if_neg hne]
    exact hb.undecided t (List.mem_append_left _ ht)
  cases hok : r.2 with
  | true =>
      rw [hok] at hrest hgrows
      refine ⟨hb.sound.extend hopen (hw.wanted type hmem).1 hc (hb.bound hok), hgrows, hrest, ?_,
        by simp⟩
      intro _ t ht
      rw [Progress.get?_conclude, if_pos (List.mem_singleton.1 ht)]
  | false =>
      rw [hok] at hrest hgrows
      obtain ⟨⟨need, hneed, hlostNeed⟩, hfailed⟩ := hb.lost hok
      have hlost := not_constructible_of_input (hs.not_mem_inputs hnone) hc hneed hlostNeed
      exact ⟨hb.sound.refuse hopen hlost hfailed, hgrows, hrest, by simp,
        fun _ => ⟨⟨type, hmem, hlost⟩, hfailed⟩⟩

/-- Binding one type preserves the invariant, if binding the inputs of its chosen provider does. -/
theorem bind_bound (hs : p.Sound job) (hw : job.Waiting chain [type] p)
    (ih : type ∉ chain → ∀ maker, job.choose type = .one maker →
      p.Sound job → job.Waiting (chain ++ [type]) maker.inputs p →
      job.Bound (chain ++ [type]) maker.inputs p
        (job.bindAll (chain ++ [type]) (some maker) maker.inputs p)) :
    job.Bound chain [type] p (job.bind chain needer type p) := by
  have hmem : type ∈ [type] := List.mem_singleton.2 rfl
  have hd := (hw.wanted type hmem).1
  have hout : job.Outcome chain needer type p (job.bind chain needer type p) := bind_outcome
  generalize job.bind chain needer type p = result at hout
  cases hout with
  | @decided b hv =>
      -- nothing is done, and the earlier verdict is right whatever waits above
      refine ⟨hs, .refl p, hw.undecided, ?_, ?_⟩
      · rintro rfl t ht
        rw [List.mem_singleton.1 ht, hv]
      · rintro rfl
        have hlost : ¬ job.Constructible type := by simpa using hs.verdict_iff type false hv
        exact ⟨⟨type, hmem, hlost⟩, hs.lost_failed type hv⟩
  | circle hv hchain => exact circle_bound hs hw hv hchain
  | unmade hv hchain hc =>
      refine refuse_bound hs hw hv hchain (.unmade hd (hs.not_mem_inputs hv) hc) fun maker hmaker => ?_
      rw [choose_eq_one_iff.2 hmaker] at hc
      cases hc
  | contested hv hchain hc =>
      refine refuse_bound hs hw hv hchain (.contested hd (hs.not_mem_inputs hv) hc)
        fun maker hmaker => ?_
      rw [choose_eq_one_iff.2 hmaker] at hc
      cases hc
  | @concluded maker hv hchain hc =>
      have hmaker := choose_eq_one_iff.1 hc
      exact conclude_bound hs hw hv hchain hmaker
        (ih hchain maker hc hs (hw.below hs hmem hv hchain hmaker))

/-- **Every call of the recursion preserves the invariant**, binds all its types when it says so,
and otherwise leaves a failure and a type that cannot be made. -/
theorem bindAll_bound (hs : p.Sound job) (hw : job.Waiting chain types p) :
    job.Bound chain types p (job.bindAll chain needer types p) := by
  induction chain, needer, types, p using bindAll_induction job with
  | nil chain needer p =>
      rw [bindAll_nil]
      exact ⟨hs, .refl p, hw.undecided, by simp, by simp⟩
  | cons chain needer type rest p ihBelow ihRest =>
      have hfirst : job.Bound chain [type] p (job.bind chain needer type p) :=
        bind_bound hs (hw.mono (by simp) hw.undecided) fun hchain maker hc => ihBelow hchain maker hc
      have hothers := ihRest hfirst.sound
        (hw.mono (fun t ht => List.mem_cons_of_mem _ ht) hfirst.undecided)
      rw [bindAll_cons]
      refine ⟨hothers.sound, hfirst.grows.trans hothers.grows, hothers.undecided, ?_, ?_⟩
      · intro hok t ht
        obtain ⟨hok₁, hok₂⟩ := Bool.and_eq_true_iff.1 hok
        rcases List.mem_cons.1 ht with rfl | ht
        · exact hothers.grows.verdicts _ _ (hfirst.bound hok₁ _ (List.mem_singleton.2 rfl))
        · exact hothers.bound hok₂ t ht
      · intro hok
        rcases Bool.and_eq_false_iff.1 hok with hok₁ | hok₂
        · obtain ⟨⟨t, ht, hlost⟩, hfailed⟩ := hfirst.lost hok₁
          rw [List.mem_singleton] at ht
          exact ⟨⟨t, ht ▸ List.mem_cons_self .., hlost⟩, hothers.grows.failures_ne_nil hfailed⟩
        · obtain ⟨⟨t, ht, hlost⟩, hfailed⟩ := hothers.lost hok₂
          exact ⟨⟨t, List.mem_cons_of_mem _ ht, hlost⟩, hfailed⟩

end Job

end Wiring
