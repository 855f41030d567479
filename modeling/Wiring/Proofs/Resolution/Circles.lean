/-
**Circles are reported.**

A resolution notices a circle when it comes back to a type on the chain of those in progress.  Types that
were decided before are passed over, also those that were given up, so that one has to know that no circle
is lost behind them.

None is: as long as no circle has been reported, everything that has been decided leads to an end.  For the
inputs of a chosen provider are decided before the provider is concluded, unless one of them is still on the
chain, and then a circle is reported.

Main definitions:

* `Wiring.Failure.circle?` — the chain of a reported circle;
* `Wiring.Job.Circle` — a chain of types that comes back to where it began along chosen providers;
* `Wiring.Job.Ends` — below a type the chosen providers lead to an end;
* `Wiring.Progress.Clears` — the invariant: without a reported circle, what is decided leads to an end.

Main results:

* `Wiring.Job.bindAll_clears` — every call preserves the invariant and decides all its types, unless a circle
  is reported;
* `Wiring.Job.circle_of_mem` — a reported circle is one;
* `Wiring.Job.circles_reported` — **a circle is reported exactly where there is one**, so inputs that break
  all circles leave none to report.
-/

import Wiring.Proofs.Resolution.Diagnosis

set_option autoImplicit false

namespace Wiring

/-- The chain of a reported circle. -/
def Failure.circle? : Failure → Option (List TypeName)
  | cycle chain => some chain
  | _ => none

namespace Job

variable {job : Job} {type need : TypeName}

/-! ### Circles -/

/-- A chain of types that comes back to where it began: its other types are distinct, all of them are
demanded and none is passed in, and each type is taken by the chosen provider of the one before it. -/
structure Circle (job : Job) (chain : List TypeName) : Prop where
  long : 2 ≤ chain.length
  closed : chain.head? = chain.getLast?
  distinct : chain.dropLast.Nodup
  demanded : ∀ t ∈ chain, job.Demanded t
  free : ∀ t ∈ chain, t ∉ job.inputs
  follows : List.IsChain (fun t need => ∃ maker, job.Chosen t maker ∧ need ∈ maker.inputs) chain

/-- Both ends of an edge are demanded. -/
theorem Needs.demanded (h : job.Needs type need) : job.Demanded type ∧ job.Demanded need := by
  obtain ⟨⟨hd, hin, maker, hc, hneed⟩, -⟩ := h
  exact ⟨hd, .input hd hin hc hneed⟩

/-- A closed path of edges is a circle. -/
theorem circle_of_isChain {middle : List TypeName} (hd : (type :: middle).Nodup)
    (hpath : List.IsChain job.Needs (type :: (middle ++ [type]))) :
    job.Circle (type :: (middle ++ [type])) := by
  -- every type of the chain has an edge to a later one
  have hedge : ∀ t ∈ type :: (middle ++ [type]), job.Demanded t ∧ t ∉ job.inputs := by
    have hfirst : ∀ t ∈ type :: middle, ∃ need, job.Needs t need := by
      intro t ht
      obtain ⟨before, after, hsplit⟩ := List.append_of_mem ht
      rw [← List.cons_append, hsplit, List.append_assoc, List.cons_append] at hpath
      have hlater := hpath.right_of_append
      cases after with
      | nil => exact ⟨type, (List.isChain_cons_cons.1 hlater).1⟩
      | cons next after => exact ⟨next, (List.isChain_cons_cons.1 hlater).1⟩
    intro t ht
    have ht' : t ∈ type :: middle := by simpa [or_comm] using ht
    obtain ⟨need, hneeds⟩ := hfirst t ht'
    exact ⟨hneeds.demanded.1, hneeds.1.2.1⟩
  refine ⟨by simp, head?_eq_getLast?_of_closed type middle, ?_, fun t ht => (hedge t ht).1,
    fun t ht => (hedge t ht).2, ?_⟩
  · rwa [← List.cons_append, List.dropLast_concat]
  · exact hpath.imp fun _ _ hneeds => hneeds.1.2.2

/-- Edges may lead to a type that is passed in, but none leads on from there. -/
theorem transGen_needs_of_takes (h : Relation.TransGen job.Takes type need) (hin : need ∉ job.inputs) :
    Relation.TransGen job.Needs type need := by
  induction h with
  | single hstep => exact .single ⟨hstep, hin⟩
  | tail _ hstep ih => exact (ih hstep.2.1).tail ⟨hstep, hin⟩

/-- Below a type the chosen providers lead to an end, whichever of their inputs are followed. -/
def Ends (job : Job) (type : TypeName) : Prop :=
  Acc (fun need type => job.Needs type need) type

end Job

/-! ### The invariant -/

namespace Progress

variable {job : Job} {types : List TypeName} {type t : TypeName} {p q : Progress} {maker : Provider}
  {f : Failure}

/-- The chains of the circles that have been reported. -/
def circles (p : Progress) : List (List TypeName) :=
  p.failures.filterMap Failure.circle?

/-- Unless a circle has been reported, everything decided leads to an end, and the types of a list are
decided. -/
def Clears (job : Job) (types : List TypeName) (p : Progress) : Prop :=
  p.circles = [] → (∀ t, p.Decided t → job.Ends t) ∧ ∀ t ∈ types, p.Decided t

theorem circles_fail (h : f.circle? = none) : (p.fail f).circles = p.circles := by
  rw [circles, failures_fail, List.filterMap_append, List.filterMap_cons_none h, List.filterMap_nil,
    List.append_nil, circles]

theorem circles_conclude {ok : Bool} : (p.conclude type maker ok).circles = p.circles := by
  rw [circles, failures_conclude, circles]

/-- Where no circle has been reported later, none was reported before. -/
theorem Grows.circles_eq_nil (h : p.Grows q) (hq : q.circles = []) : p.circles = [] := by
  rw [circles, List.filterMap_eq_nil_iff] at hq ⊢
  exact fun f hf => hq f (h.failures.subset hf)

/-- A reported circle leaves nothing to show. -/
theorem clears_fail_cycle (chain : List TypeName) : (p.fail (.cycle chain)).Clears job types := by
  intro hnone
  rw [circles, List.filterMap_eq_nil_iff] at hnone
  exact absurd (hnone (.cycle chain) (by simp)) nofun

/-- A refused type leads nowhere. -/
theorem Clears.refuse (h : p.Clears job []) (hf : f.circle? = none)
    (hno : ∀ maker, ¬ job.Chosen type maker) : ((p.fail f).decide type false).Clears job [type] := by
  intro hnone
  have hdecided : ∀ t, ((p.fail f).decide type false).Decided t ↔ t = type ∨ p.Decided t :=
    fun _ => decided_decide
  have hend : job.Ends type := Acc.intro _ fun need hneeds => by
    obtain ⟨maker, hc, -⟩ := hneeds.1.2.2
    exact absurd hc (hno maker)
  have hearlier := h ((circles_fail hf).symm.trans hnone)
  refine ⟨fun t ht => ?_, fun t ht => (hdecided t).2 (Or.inl (List.mem_singleton.1 ht))⟩
  rcases (hdecided t).1 ht with rfl | ht
  · exact hend
  · exact hearlier.1 t ht

/-- A type may be concluded when the inputs of its chosen provider are decided. -/
theorem Clears.conclude {ok : Bool} (h : p.Clears job maker.inputs) (hc : job.Chosen type maker) :
    (p.conclude type maker ok).Clears job [type] := by
  intro hnone
  rw [circles_conclude] at hnone
  obtain ⟨hends, hinputs⟩ := h hnone
  have hend : job.Ends type := Acc.intro _ fun need hneeds => by
    obtain ⟨maker', hc', hneed⟩ := hneeds.1.2.2
    rw [hc'.unique hc] at hneed
    exact hends need (hinputs need hneed)
  refine ⟨fun t ht => ?_, fun t ht => decided_conclude.2 (Or.inl (List.mem_singleton.1 ht))⟩
  rcases decided_conclude.1 ht with rfl | ht
  · exact hend
  · exact hends t ht

end Progress

namespace Job

variable {job : Job} {chain types : List TypeName} {needer : Option Provider} {type t : TypeName}
  {p : Progress}

/-! ### The recursion -/

/-- Binding one type preserves the invariant and decides the type, if binding the inputs of its chosen
provider does, unless a circle is reported. -/
theorem bind_clears (hs : p.Sound job) (hw : job.Waiting chain [type] p) (h : p.Clears job [])
    (ih : type ∉ chain → ∀ maker, job.choose type = .one maker →
      job.Waiting (chain ++ [type]) maker.inputs p →
      (job.bindAll (chain ++ [type]) (some maker) maker.inputs p).1.Clears job maker.inputs) :
    (job.bind chain needer type p).1.Clears job [type] := by
  have hout : job.Outcome chain needer type p (job.bind chain needer type p) := bind_outcome
  generalize job.bind chain needer type p = result at hout
  cases hout with
  | @decided b hv =>
      intro hnone
      refine ⟨(h hnone).1, fun t ht => ?_⟩
      rw [List.mem_singleton.1 ht, Progress.Decided, hv]
      exact Option.some_ne_none b
  | circle => exact Progress.clears_fail_cycle _
  | unmade _ _ hc =>
      refine h.refuse rfl fun maker hmaker => ?_
      rw [choose_eq_one_iff.2 hmaker] at hc
      cases hc
  | contested _ _ hc =>
      refine h.refuse rfl fun maker hmaker => ?_
      rw [choose_eq_one_iff.2 hmaker] at hc
      cases hc
  | @concluded maker hnone hnew hc =>
      have hmaker := choose_eq_one_iff.1 hc
      exact (ih hnew maker hc (hw.below hs (List.mem_singleton.2 rfl) hnone hnew hmaker)).conclude hmaker

/-- **Every call preserves the invariant and decides all its types, unless a circle is reported.** -/
theorem bindAll_clears (hs : p.Sound job) (hw : job.Waiting chain types p) (h : p.Clears job []) :
    (job.bindAll chain needer types p).1.Clears job types := by
  induction chain, needer, types, p using bindAll_induction job with
  | nil chain needer p =>
      rw [bindAll_nil]
      exact h
  | cons chain needer type rest p ihBelow ihRest =>
      have hone : job.Waiting chain [type] p := hw.mono (by simp) hw.undecided
      have hbound : job.Bound chain [type] p (job.bind chain needer type p) := bindAll_bound hs hone
      have hfirst : (job.bind chain needer type p).1.Clears job [type] :=
        bind_clears hs hone h fun hnew maker hc hbelow => ihBelow hnew maker hc hs hbelow h
      have hrest := hw.mono (fun t ht => List.mem_cons_of_mem _ ht) hbound.undecided
      have hlater : job.Bound chain rest (job.bind chain needer type p).1
          (job.bindAll chain needer rest (job.bind chain needer type p).1) :=
        bindAll_bound hbound.sound hrest
      have hothers := ihRest hbound.sound hrest fun hnone => ⟨(hfirst hnone).1, nofun⟩
      rw [bindAll_cons]
      intro hnone
      have htype := (hfirst (hlater.grows.circles_eq_nil hnone)).2 type (List.mem_singleton.2 rfl)
      exact ⟨(hothers hnone).1, List.forall_mem_cons.2 ⟨hlater.grows.decided htype, (hothers hnone).2⟩⟩

/-- The types that are passed in lead nowhere. -/
theorem start_clears (job : Job) : job.start.Clears job [] := by
  intro _
  refine ⟨fun t ht => Acc.intro _ fun need hneeds => ?_, nofun⟩
  rw [Progress.Decided, get?_start] at ht
  exact absurd (if_neg hneeds.1.2.1) ht

/-! ### The report -/

/-- **A reported circle is one.** -/
theorem circle_of_mem (h : .cycle chain ∈ job.failures) : job.Circle chain := by
  rw [failures_eq] at h
  have hground := job.outputs_bound.sound.grounded _ h
  cases hground with
  | circle hd hpath => exact circle_of_isChain hd hpath

/-- When no circle is reported, everything demanded leads to an end. -/
theorem ends_of_demanded (hnone : job.last.circles = []) (hd : job.Demanded t) : job.Ends t :=
  (bindAll_clears job.start_sound job.start_waiting job.start_clears hnone).1 t (demanded_decided hd)

/-- Inputs only take types away from a circle. -/
theorem Circle.of_inputs {inputs : List TypeName} (hmore : ∀ t ∈ job.inputs, t ∈ inputs)
    (h : Circle { job with inputs } chain) : job.Circle chain where
  long := h.long
  closed := h.closed
  distinct := h.distinct
  demanded := by
    have hfewer : ∀ t, Demanded { job with inputs } t → job.Demanded t := by
      intro t hd
      induction hd with
      | output hout => exact .output hout
      | input _ hin hc hneed ih => exact .input ih (fun hmem => hin (hmore _ hmem)) ⟨hc.first, hc.only⟩ hneed
    exact fun t ht => hfewer t (h.demanded t ht)
  free := fun t ht hmem => h.free t ht (hmore t hmem)
  follows := h.follows.imp fun _ _ ⟨maker, hc, hneed⟩ => ⟨maker, ⟨hc.first, hc.only⟩, hneed⟩

/-- **A circle is reported exactly where there is one.**  Every reported chain is a circle of demanded types
along chosen providers; one is reported exactly when the graph of the chosen providers has a circle; and
where more inputs break every circle, none is reported any more. -/
theorem circles_reported (job : Job) :
    (∀ chain, .cycle chain ∈ job.failures → job.Circle chain) ∧
      ((∃ chain, .cycle chain ∈ job.failures) ↔ ∃ t, Relation.TransGen job.Takes t t) ∧
      ∀ inputs : List TypeName, (∀ t ∈ job.inputs, t ∈ inputs) →
        (∀ chain, job.Circle chain → ∃ t ∈ chain, t ∈ inputs) →
          ∀ chain, .cycle chain ∉ failures { job with inputs } := by
  refine ⟨fun chain => circle_of_mem, ⟨?_, ?_⟩, ?_⟩
  · rintro ⟨chain, hmem⟩
    rw [failures_eq] at hmem
    have hground := job.outputs_bound.sound.grounded _ hmem
    cases hground with
    | circle _ hpath =>
        exact ⟨_, Relation.TransGen.mono (fun _ _ hneeds => hneeds.1) _ _ (transGen_of_isChain hpath)⟩
  · rintro ⟨t, hcircle⟩
    obtain ⟨_, hfirst, -⟩ := Relation.TransGen.head'_iff.1 hcircle
    by_contra hnot
    have hnone : job.last.circles = [] := by
      rw [Progress.circles, List.filterMap_eq_nil_iff]
      intro f hf
      cases f with
      | cycle chain => exact absurd ⟨chain, failures_eq job ▸ hf⟩ hnot
      | _ => rfl
    exact not_transGen_of_acc (ends_of_demanded hnone hfirst.1)
      (transGen_needs_of_takes hcircle hfirst.2.1)
  · intro inputs hmore hbroken chain hmem
    have hcircle := circle_of_mem hmem
    obtain ⟨t, ht, hin⟩ := hbroken chain (hcircle.of_inputs hmore)
    exact hcircle.free t ht hin

end Job

end Wiring
