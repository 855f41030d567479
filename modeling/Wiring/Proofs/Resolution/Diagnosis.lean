/-
**Refused types are diagnosed.**

A demanded type that is not passed in and has no chosen provider is refused: there is no candidate for it,
or there are distinct ones and the policy does not choose.  A resolution goes on after a refusal, so it
comes upon every refused type, and it remembers what it has refused, so it reports each of them once.

A type whose inputs fail is decided although a circle may be open below it.  What keeps the account complete
is that the inputs of the chosen provider of a decided type are decided themselves or still on the chain.

Main definitions:

* `Wiring.Failure.refused?`, `Wiring.Failure.missing?`, `Wiring.Failure.contested?` — the type that a
  failure is about;
* `Wiring.Job.NeededBy` — what a missing type is needed by;
* `Wiring.Progress.Diagnosed` — the invariant that ties the failures to the verdicts;
* `Wiring.Job.failures`, `Wiring.Job.Diagnoses` — the failures of a resolution, and what they say.

Main results:

* `Wiring.Job.bindAll_diagnosed` — every call preserves the invariant and meets all its types;
* `Wiring.Job.demanded_decided` — **everything demanded is met**, whatever has failed beside it;
* `Wiring.Job.failures_diagnose` — **every missing or contested type is reported, once, and no other**.
-/

import Wiring.Proofs.Resolution.Course

set_option autoImplicit false

namespace Wiring

namespace Failure

/-- The type for which there is no provider. -/
def missing? : Failure → Option TypeName
  | noProvider type _ _ => some type
  | _ => none

/-- The type for which there are distinct providers. -/
def contested? : Failure → Option TypeName
  | duplicateProvider type _ => some type
  | _ => none

/-- The type that is refused, for one reason or the other. -/
def refused? (f : Failure) : Option TypeName :=
  f.missing?.or f.contested?

theorem refused?_of_missing? {f : Failure} {type : TypeName} (h : f.missing? = some type) :
    f.refused? = some type := by
  rw [refused?, h, Option.some_or]

theorem refused?_of_contested? {f : Failure} {type : TypeName} (h : f.contested? = some type) :
    f.refused? = some type := by
  cases f <;> cases h
  rfl

end Failure

/-- What one map picks is a sublist of what a more generous one picks. -/
theorem filterMap_sublist_filterMap {α β : Type} {f g : α → Option β}
    (h : ∀ a b, f a = some b → g a = some b) (l : List α) : (l.filterMap f).Sublist (l.filterMap g) := by
  induction l with
  | nil => exact List.Sublist.refl _
  | cons a l ih =>
      cases hf : f a with
      | none =>
          rw [List.filterMap_cons_none hf]
          exact ih.trans ((List.sublist_cons_self a l).filterMap g)
      | some b =>
          rw [List.filterMap_cons_some hf, List.filterMap_cons_some (h a b hf)]
          exact ih.cons_cons b

namespace Job

variable {job : Job} {chain : List TypeName} {needer : Option Provider} {type t : TypeName}
  {types : List TypeName} {p q : Progress} {maker : Provider} {f : Failure}

/-! ### Refused types -/

/-- A type is refused when it is not passed in and has no chosen provider. -/
def Refused (job : Job) (type : TypeName) : Prop :=
  type ∉ job.inputs ∧ ∀ maker, ¬ job.Chosen type maker

/-- Nothing is chosen exactly where there is no candidate. -/
theorem choose_eq_none_iff : job.choose type = .none ↔ ∀ p ∈ job.candidates, p.output ≠ type := by
  have hmakers : (∀ p ∈ job.candidates, p.output ≠ type) ↔ job.makersOf type = [] := by
    simp [makersOf, List.eq_nil_iff_forall_not_mem]
  rw [hmakers, choose]
  cases job.makersOf type with
  | nil => simp
  | cons first others =>
      cases others with
      | nil => simp
      | cons second others => cases job.policy <;> simp

/-- A conflict is refused only under the strict policy, and it is between distinct candidates. -/
theorem of_choose_eq_conflict {ps : List Provider} (h : job.choose type = .conflict ps) :
    ps = job.makersOf type ∧ job.policy = .strict ∧
      ∃ a ∈ job.candidates, ∃ b ∈ job.candidates, a ≠ b ∧ a.output = type ∧ b.output = type := by
  have hnodup : (job.makersOf type).Nodup := nodup_eraseDups _
  have hmem : ∀ p ∈ job.makersOf type, p ∈ job.candidates ∧ p.output = type := by
    simp [makersOf]
  rw [choose] at h
  cases hm : job.makersOf type with
  | nil => simp [hm] at h
  | cons a others =>
      cases others with
      | nil => simp [hm] at h
      | cons b others =>
          cases hpolicy : job.policy with
          | firstMatch => simp [hm, hpolicy] at h
          | strict =>
              simp only [hm, hpolicy, Choice.conflict.injEq] at h
              rw [hm] at hnodup hmem
              have hne : a ≠ b := fun heq => by simp [heq] at hnodup
              obtain ⟨ha, houtA⟩ := hmem a (by simp)
              obtain ⟨hb, houtB⟩ := hmem b (by simp)
              exact ⟨h.symm, rfl, a, ha, b, hb, hne, houtA, houtB⟩

/-- What a missing type is needed by: nothing, if it is an output, or the chosen provider of a demanded
type that takes it. -/
inductive NeededBy (job : Job) (type : TypeName) : Option String → Prop
  | output (h : type ∈ job.outputs) : NeededBy job type none
  | taken {user : TypeName} {maker : Provider} (hd : job.Demanded user) (hin : user ∉ job.inputs)
      (hc : job.Chosen user maker) (h : type ∈ maker.inputs) :
      NeededBy job type (some maker.qualifiedName)

end Job

/-! ### The invariant -/

namespace Progress

variable {job : Job} {chain longer : List TypeName} {type t : TypeName} {p q : Progress}
  {maker : Provider} {f : Failure}

/-- The types that have been refused, in the order in which they were. -/
def refused (p : Progress) : List TypeName :=
  p.failures.filterMap Failure.refused?

/-- A type has been decided. -/
def Decided (p : Progress) (type : TypeName) : Prop :=
  p.verdicts.get? type ≠ none

theorem decided_decide {b : Bool} : (p.decide type b).Decided t ↔ t = type ∨ p.Decided t := by
  rw [Decided, get?_decide]
  by_cases ht : t = type <;> simp [ht, Decided]

theorem decided_conclude {ok : Bool} :
    (p.conclude type maker ok).Decided t ↔ t = type ∨ p.Decided t := by
  rw [Decided, get?_conclude]
  by_cases ht : t = type <;> simp [ht, Decided]

theorem failures_conclude {ok : Bool} : (p.conclude type maker ok).failures = p.failures := by
  cases ok <;> rfl

theorem Grows.decided (h : p.Grows q) (ht : p.Decided t) : q.Decided t := by
  obtain ⟨b, hb⟩ := Option.ne_none_iff_exists'.1 ht
  rw [Decided, h.verdicts t b hb]
  exact Option.some_ne_none b

/-- What the failures have to do with the verdicts while the types of a chain are being bound: a decided
type has been refused, once, or the inputs of its chosen provider have been met. -/
structure Diagnosed (job : Job) (chain : List TypeName) (p : Progress) : Prop where
  once : p.refused.Nodup
  refused_iff : ∀ t, t ∈ p.refused ↔ p.Decided t ∧ job.Refused t
  followed : ∀ t maker, p.Decided t → t ∉ job.inputs → job.Chosen t maker →
    ∀ need ∈ maker.inputs, p.Decided need ∨ need ∈ chain
  needed : ∀ t needer close, .noProvider t needer close ∈ p.failures → job.NeededBy t needer

/-- A longer chain asks for less. -/
theorem Diagnosed.mono (h : p.Diagnosed job chain) (hsub : ∀ t ∈ chain, t ∈ longer) :
    p.Diagnosed job longer where
  once := h.once
  refused_iff := h.refused_iff
  followed := fun t maker ht hin hc need hneed =>
    (h.followed t maker ht hin hc need hneed).imp_right (hsub need)
  needed := h.needed

/-- A failure that refuses nothing may be added. -/
theorem Diagnosed.fail (h : p.Diagnosed job chain) (hf : f.refused? = none) :
    (p.fail f).Diagnosed job chain := by
  have hsame : (p.fail f).refused = p.refused := by
    rw [refused, failures_fail, List.filterMap_append, List.filterMap_cons_none hf,
      List.filterMap_nil, List.append_nil, refused]
  refine ⟨hsame ▸ h.once, fun t => by rw [hsame]; exact h.refused_iff t, h.followed, ?_⟩
  intro t needer close hmem
  rw [failures_fail, List.mem_append, List.mem_singleton] at hmem
  rcases hmem with hmem | rfl
  · exact h.needed t needer close hmem
  · cases hf

/-- An undecided type without a chosen provider may be refused. -/
theorem Diagnosed.refuse (h : p.Diagnosed job chain) (hopen : ¬ p.Decided type)
    (hrefused : job.Refused type) (hf : f.refused? = some type)
    (hneeded : ∀ t needer close, f = .noProvider t needer close → job.NeededBy t needer) :
    ((p.fail f).decide type false).Diagnosed job chain := by
  have hmore : ((p.fail f).decide type false).refused = p.refused ++ [type] := by
    rw [refused, failures_decide, failures_fail, List.filterMap_append,
      List.filterMap_cons_some hf, List.filterMap_nil, refused]
  have hfresh : type ∉ p.refused := fun hmem => hopen ((h.refused_iff type).1 hmem).1
  have hdecided : ∀ t, ((p.fail f).decide type false).Decided t ↔ t = type ∨ p.Decided t :=
    fun _ => decided_decide
  refine ⟨?_, fun t => ?_, ?_, ?_⟩
  · rw [hmore]
    exact List.nodup_append.2 ⟨h.once, List.nodup_singleton _, by
      rintro a ha b hb rfl
      exact hfresh (List.mem_singleton.1 hb ▸ ha)⟩
  · rw [hmore, List.mem_append, List.mem_singleton, h.refused_iff t, hdecided]
    by_cases ht : t = type <;> simp [ht, hrefused]
  · intro t maker ht hin hc need hneed
    rcases (hdecided t).1 ht with rfl | ht
    · exact absurd hc (hrefused.2 maker)
    · refine (h.followed t maker ht hin hc need hneed).imp_left fun hmet => ?_
      exact (hdecided need).2 (Or.inr hmet)
  · intro t needer close hmem
    rw [failures_decide, failures_fail, List.mem_append, List.mem_singleton] at hmem
    rcases hmem with hmem | hmem
    · exact h.needed t needer close hmem
    · exact hneeded t needer close hmem.symm

/-- A type may be decided, and taken from the chain, when the inputs of its chosen provider have been
met. -/
theorem Diagnosed.conclude {ok : Bool} (h : p.Diagnosed job (chain ++ [type]))
    (hc : job.Chosen type maker)
    (hmet : ∀ need ∈ maker.inputs, p.Decided need ∨ need ∈ chain ++ [type]) :
    (p.conclude type maker ok).Diagnosed job chain := by
  have hsame : (p.conclude type maker ok).refused = p.refused := by
    rw [refused, failures_conclude, refused]
  -- what was on the longer chain is decided now, or on the shorter one
  have hshorter : ∀ need, p.Decided need ∨ need ∈ chain ++ [type] →
      (p.conclude type maker ok).Decided need ∨ need ∈ chain := by
    intro need hneed
    rw [decided_conclude]
    rcases hneed with hdecided | hmem
    · exact Or.inl (Or.inr hdecided)
    · rcases List.mem_append.1 hmem with hmem | hmem
      · exact Or.inr hmem
      · exact Or.inl (Or.inl (List.mem_singleton.1 hmem))
  refine ⟨hsame ▸ h.once, fun t => ?_, ?_, ?_⟩
  · rw [hsame, h.refused_iff t, decided_conclude]
    by_cases ht : t = type
    · have hnot : ¬ job.Refused type := fun hrefused => hrefused.2 maker hc
      simp [ht, hnot]
    · simp [ht]
  · intro t maker' ht hin hc' need hneed
    rcases decided_conclude.1 ht with rfl | ht
    · rw [hc'.unique hc] at hneed
      exact hshorter need (hmet need hneed)
    · exact hshorter need (h.followed t maker' ht hin hc' need hneed)
  · rw [failures_conclude]
    exact h.needed

end Progress

namespace Job

variable {job : Job} {chain : List TypeName} {needer : Option Provider} {type t : TypeName}
  {types : List TypeName} {p q : Progress} {maker : Provider} {f : Failure} {names : List String}

/-! ### The recursion -/

/-- Binding one type preserves the invariant and meets the type, if binding the inputs of its chosen
provider does. -/
theorem bind_diagnosed (hs : p.Sound job) (hw : job.Waiting chain [type] p)
    (hdiag : p.Diagnosed job chain) (hneeded : job.NeededBy type (needer.map Provider.qualifiedName))
    (ih : type ∉ chain → ∀ maker, job.choose type = .one maker →
      job.Waiting (chain ++ [type]) maker.inputs p →
      p.Diagnosed job (chain ++ [type]) →
      (∀ need ∈ maker.inputs, job.NeededBy need (some maker.qualifiedName)) →
      (job.bindAll (chain ++ [type]) (some maker) maker.inputs p).1.Diagnosed job (chain ++ [type]) ∧
        ∀ need ∈ maker.inputs,
          (job.bindAll (chain ++ [type]) (some maker) maker.inputs p).1.Decided need ∨
            need ∈ chain ++ [type]) :
    (job.bind chain needer type p).1.Diagnosed job chain ∧
      ((job.bind chain needer type p).1.Decided type ∨ type ∈ chain) := by
  have hmem : type ∈ [type] := List.mem_singleton.2 rfl
  have hrefused : p.verdicts.get? type = none → (∀ maker, job.choose type ≠ .one maker) →
      job.Refused type := fun hnone hno =>
    ⟨hs.not_mem_inputs hnone, fun maker hmaker => hno maker (choose_eq_one_iff.2 hmaker)⟩
  have hout : job.Outcome chain needer type p (job.bind chain needer type p) := bind_outcome
  generalize job.bind chain needer type p = result at hout
  cases hout with
  | @decided b hv =>
      refine ⟨hdiag, Or.inl ?_⟩
      rw [Progress.Decided, hv]
      exact Option.some_ne_none b
  | circle _ hchain => exact ⟨hdiag.fail rfl, Or.inr hchain⟩
  | unmade hnone _ hc =>
      refine ⟨hdiag.refuse (by simpa [Progress.Decided] using hnone)
        (hrefused hnone (by simp [hc])) rfl ?_, Or.inl (Progress.decided_decide.2 (Or.inl rfl))⟩
      intro t needer' close heq
      cases heq
      exact hneeded
  | contested hnone _ hc =>
      exact ⟨hdiag.refuse (by simpa [Progress.Decided] using hnone)
        (hrefused hnone (by simp [hc])) rfl nofun, Or.inl (Progress.decided_decide.2 (Or.inl rfl))⟩
  | @concluded maker hnone hnew hc =>
      have hmaker := choose_eq_one_iff.1 hc
      obtain ⟨hbelow, hmet⟩ := ih hnew maker hc (hw.below hs hmem hnone hnew hmaker)
        (hdiag.mono fun t ht => List.mem_append_left _ ht)
        fun need hneed => .taken (hw.wanted type hmem).1 (hs.not_mem_inputs hnone) hmaker hneed
      exact ⟨hbelow.conclude hmaker hmet, Or.inl (Progress.decided_conclude.2 (Or.inl rfl))⟩

/-- **Every call preserves the invariant and meets all its types.** -/
theorem bindAll_diagnosed (hs : p.Sound job) (hw : job.Waiting chain types p)
    (hdiag : p.Diagnosed job chain)
    (hneeded : ∀ t ∈ types, job.NeededBy t (needer.map Provider.qualifiedName)) :
    (job.bindAll chain needer types p).1.Diagnosed job chain ∧
      ∀ t ∈ types, (job.bindAll chain needer types p).1.Decided t ∨ t ∈ chain := by
  induction chain, needer, types, p using bindAll_induction job with
  | nil chain needer p =>
      rw [bindAll_nil]
      exact ⟨hdiag, nofun⟩
  | cons chain needer type rest p ihBelow ihRest =>
      have hone : job.Waiting chain [type] p := hw.mono (by simp) hw.undecided
      have hbound : job.Bound chain [type] p (job.bind chain needer type p) := bindAll_bound hs hone
      obtain ⟨hfirst, hmet⟩ := bind_diagnosed hs hone hdiag (hneeded type List.mem_cons_self)
        fun hnew maker hc hbelow => ihBelow hnew maker hc hs hbelow
      have hrest := hw.mono (fun t ht => List.mem_cons_of_mem _ ht) hbound.undecided
      obtain ⟨hothers, hmetOthers⟩ := ihRest hbound.sound hrest hfirst
        fun t ht => hneeded t (List.mem_cons_of_mem _ ht)
      rw [bindAll_cons]
      refine ⟨hothers, List.forall_mem_cons.2 ⟨?_, hmetOthers⟩⟩
      exact hmet.imp_left (bindAll_bound hbound.sound hrest).grows.decided

/-- Before the outputs are bound nothing has been refused. -/
theorem start_diagnosed (job : Job) : job.start.Diagnosed job [] := by
  obtain ⟨again, hfail, -⟩ := job.failures_start
  have hnone : job.start.refused = [] := by
    rw [Progress.refused, hfail, List.filterMap_map]
    exact List.filterMap_eq_nil_iff.2 fun _ _ => rfl
  have hpassed : ∀ t, job.start.Decided t → t ∈ job.inputs := by
    intro t ht
    rw [Progress.Decided, get?_start] at ht
    by_contra hin
    exact ht (if_neg hin)
  refine ⟨by simp [hnone], fun t => ?_, ?_, ?_⟩
  · rw [hnone]
    exact ⟨nofun, fun h => absurd (hpassed t h.1) h.2.1⟩
  · intro t maker ht hin
    exact absurd (hpassed t ht) hin
  · intro t needer close hmem
    rw [hfail] at hmem
    obtain ⟨_, _, heq⟩ := List.mem_map.1 hmem
    cases heq

/-- When the outputs have been bound, each of them has been met. -/
theorem last_diagnosed (job : Job) :
    job.last.Diagnosed job [] ∧ ∀ t ∈ job.outputs, job.last.Decided t ∨ t ∈ ([] : List TypeName) :=
  bindAll_diagnosed job.start_sound job.start_waiting job.start_diagnosed fun _ ht => .output ht

/-- **Everything demanded is met**, whatever has failed beside it. -/
theorem demanded_decided (h : job.Demanded t) : job.last.Decided t := by
  obtain ⟨hdiag, houts⟩ := job.last_diagnosed
  induction h with
  | output hout => exact (houts _ hout).resolve_right List.not_mem_nil
  | input _ hin hc hneed ih =>
      exact (hdiag.followed _ _ ih hin hc _ hneed).resolve_right List.not_mem_nil

/-! ### The report -/

/-- The failures that a resolution reports. -/
def failures (job : Job) : List Failure :=
  match job.resolve with
  | .ok _ => []
  | .error failures => failures

theorem failures_eq (job : Job) : job.failures = job.last.failures := by
  rw [failures, resolve_eq]
  by_cases hnone : job.last.failures = [] <;> simp [hnone]

/-- What the failures of a resolution say about missing and contested types. -/
structure Diagnoses (job : Job) (failures : List Failure) : Prop where
  missing_once : (failures.filterMap Failure.missing?).Nodup
  /-- The missing types are those demanded that are not passed in and for which there is no candidate. -/
  missing_iff : ∀ t, t ∈ failures.filterMap Failure.missing? ↔
    job.Demanded t ∧ t ∉ job.inputs ∧ ∀ p ∈ job.candidates, p.output ≠ t
  contested_once : (failures.filterMap Failure.contested?).Nodup
  /-- The contested types are those demanded that are not passed in and for which there are distinct
  candidates, where these are refused. -/
  contested_iff : ∀ t, t ∈ failures.filterMap Failure.contested? ↔
    job.policy = .strict ∧ job.Demanded t ∧ t ∉ job.inputs ∧
      ∃ a ∈ job.candidates, ∃ b ∈ job.candidates, a ≠ b ∧ a.output = t ∧ b.output = t
  /-- A contested type comes with the names of the distinct candidates for it, in their order. -/
  contested_names : ∀ t names, .duplicateProvider t names ∈ failures →
    ∃ makers : List Provider, names = makers.map Provider.qualifiedName ∧
      (∀ p, p ∈ makers ↔ p ∈ job.candidates ∧ p.output = t) ∧
      makers.Pairwise fun a b => job.candidates.idxOf a < job.candidates.idxOf b
  needed_by : ∀ t needer close, .noProvider t needer close ∈ failures → job.NeededBy t needer

/-- The distinct candidates for a type are listed in the order of the candidates. -/
theorem makersOf_order (job : Job) (type : TypeName) :
    (∀ p, p ∈ job.makersOf type ↔ p ∈ job.candidates ∧ p.output = type) ∧
      (job.makersOf type).Pairwise fun a b => job.candidates.idxOf a < job.candidates.idxOf b :=
  ⟨fun p => by simp [makersOf], pairwise_idxOf_eraseDups _ _⟩

/-- The types that a resolution refuses are the demanded ones without a chosen provider. -/
theorem mem_refused_iff : t ∈ job.last.refused ↔ job.Demanded t ∧ job.Refused t := by
  have hs : job.last.Sound job := job.outputs_bound.sound
  rw [job.last_diagnosed.1.refused_iff]
  refine ⟨fun h => ⟨?_, h.2⟩, fun h => ⟨demanded_decided h.1, h.2⟩⟩
  -- a refusal has its ground, and the ground says that the type is demanded
  obtain ⟨f, hf, hrefused⟩ := List.mem_filterMap.1 ((job.last_diagnosed.1.refused_iff t).2 h)
  have hground := hs.grounded f hf
  cases hground with
  | unmade hd => cases hrefused; exact hd
  | contested hd => cases hrefused; exact hd
  | repeated => cases hrefused
  | circle => cases hrefused

/-- Every refused type that is demanded has a failure with its ground. -/
theorem exists_failure_of_refused (hd : job.Demanded t) (hrefused : job.Refused t) :
    ∃ f ∈ job.last.failures, f.refused? = some t ∧ job.Grounded f := by
  obtain ⟨f, hf, ht⟩ := List.mem_filterMap.1 (mem_refused_iff.2 ⟨hd, hrefused⟩)
  exact ⟨f, hf, ht, job.outputs_bound.sound.grounded f hf⟩

/-- The missing types are reported. -/
theorem mem_missing_iff : t ∈ job.last.failures.filterMap Failure.missing? ↔
    job.Demanded t ∧ t ∉ job.inputs ∧ ∀ p ∈ job.candidates, p.output ≠ t := by
  constructor
  · intro ht
    obtain ⟨f, hf, hmissing⟩ := List.mem_filterMap.1 ht
    have hground := job.outputs_bound.sound.grounded f hf
    cases hground with
    | unmade hd hin hc =>
        cases hmissing
        exact ⟨hd, hin, choose_eq_none_iff.1 hc⟩
    | repeated => cases hmissing
    | contested => cases hmissing
    | circle => cases hmissing
  · rintro ⟨hd, hin, hnone⟩
    obtain ⟨f, hf, ht, hground⟩ := exists_failure_of_refused hd
      ⟨hin, fun maker hc => hnone maker hc.mem hc.output⟩
    cases hground with
    | unmade =>
        cases ht
        exact List.mem_filterMap.2 ⟨_, hf, rfl⟩
    | contested _ _ hc =>
        cases ht
        rw [choose_eq_none_iff.2 hnone] at hc
        cases hc
    | repeated => cases ht
    | circle => cases ht

/-- The contested types are reported where the policy refuses them. -/
theorem mem_contested_iff : t ∈ job.last.failures.filterMap Failure.contested? ↔
    job.policy = .strict ∧ job.Demanded t ∧ t ∉ job.inputs ∧
      ∃ a ∈ job.candidates, ∃ b ∈ job.candidates, a ≠ b ∧ a.output = t ∧ b.output = t := by
  constructor
  · intro ht
    obtain ⟨f, hf, hcontested⟩ := List.mem_filterMap.1 ht
    have hground := job.outputs_bound.sound.grounded f hf
    cases hground with
    | contested hd hin hc =>
        cases hcontested
        obtain ⟨-, hpolicy, hdistinct⟩ := of_choose_eq_conflict hc
        exact ⟨hpolicy, hd, hin, hdistinct⟩
    | repeated => cases hcontested
    | unmade => cases hcontested
    | circle => cases hcontested
  · rintro ⟨hpolicy, hd, hin, a, ha, b, hb, hne, houtA, houtB⟩
    obtain ⟨f, hf, ht, hground⟩ := exists_failure_of_refused hd
      ⟨hin, fun maker hc => hne ((hc.only hpolicy a ha houtA).trans (hc.only hpolicy b hb houtB).symm)⟩
    cases hground with
    | unmade _ _ hc =>
        cases ht
        exact absurd houtA (choose_eq_none_iff.1 hc a ha)
    | contested =>
        cases ht
        exact List.mem_filterMap.2 ⟨_, hf, rfl⟩
    | repeated => cases ht
    | circle => cases ht

/-- A contested type comes with the distinct candidates for it. -/
theorem names_of_contested (h : .duplicateProvider t names ∈ job.last.failures) :
    names = (job.makersOf t).map Provider.qualifiedName := by
  have hground := job.outputs_bound.sound.grounded _ h
  cases hground with
  | contested _ _ hc =>
      obtain ⟨rfl, -⟩ := of_choose_eq_conflict hc
      rfl

/-- **Every missing or contested type is reported, once, and no other**: the failures of a resolution name
exactly the demanded types for which nothing can be chosen, whatever else fails beside them. -/
theorem failures_diagnose (job : Job) : job.Diagnoses job.failures := by
  have hdiag := job.last_diagnosed.1
  have honce : ∀ about : Failure → Option TypeName,
      (∀ f t, about f = some t → f.refused? = some t) → (job.last.failures.filterMap about).Nodup :=
    fun about habout => hdiag.once.sublist (filterMap_sublist_filterMap habout _)
  rw [failures_eq]
  exact
    { missing_once := honce _ fun _ _ => Failure.refused?_of_missing?
      missing_iff := fun _ => mem_missing_iff
      contested_once := honce _ fun _ _ => Failure.refused?_of_contested?
      contested_iff := fun _ => mem_contested_iff
      contested_names := fun t _ hmem => ⟨_, names_of_contested hmem, job.makersOf_order t⟩
      needed_by := hdiag.needed }

end Job

end Wiring
