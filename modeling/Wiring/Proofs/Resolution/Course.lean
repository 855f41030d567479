/-
**The course of a resolution.**

A resolution decides its inputs, binds its outputs, and makes a plan if no failure is left.  This
module carries the invariant of `Wiring/Proofs/Resolution/Binding.lean` through the whole of it.

Main definitions:

* `Wiring.Job.start`, `Wiring.Job.last` — the states in which the outputs begin to be bound and in
  which they have been;
* `Wiring.Job.Calls` — **the calls that a resolution makes**, each with the state that it finds.

Main results:

* `Wiring.Job.failures_start`, `Wiring.Job.get?_start` — what deciding the inputs does;
* `Wiring.Job.outputs_bound` — a resolution as a whole preserves the invariant;
* `Wiring.Job.resolve_eq_ok_iff` — when there is a plan, and what it is;
* `Wiring.Job.Calls.sound` — the invariant holds in every state that a resolution goes through.
-/

import Wiring.Proofs.Resolution.Binding

set_option autoImplicit false

namespace Wiring.Job

variable {job : Job} {chain : List TypeName} {needer : Option Provider} {type : TypeName}
  {types rest : List TypeName} {p : Progress} {maker : Provider}

/-! ### The inputs -/

section Inputs

variable {index : Nat} {entries : List (TypeName × Nat)}

theorem bindInputs_of_new (h : p.verdicts.get? type = none) :
    bindInputs ((type, index) :: entries) p =
      ((bindInputs entries (p.decide type true)).1,
        ⟨type, .input index⟩ :: (bindInputs entries (p.decide type true)).2) := by
  rw [bindInputs]
  simp [h]

theorem bindInputs_of_decided {b : Bool} (h : p.verdicts.get? type = some b) :
    bindInputs ((type, index) :: entries) p =
      bindInputs entries (p.fail (.duplicateInput type)) := by
  rw [bindInputs]
  simp [h]

/-- Binding inputs runs no provider. -/
theorem steps_bindInputs : ∀ (entries : List (TypeName × Nat)) (p : Progress),
    (bindInputs entries p).1.steps = p.steps := by
  intro entries
  induction entries with
  | nil => intro p; rfl
  | cons entry entries ih =>
      intro p
      cases hv : p.verdicts.get? entry.1 with
      | none => rw [bindInputs_of_new hv, ih, Progress.steps_decide]
      | some b => rw [bindInputs_of_decided hv, ih, Progress.steps_fail]

/-- Every input is bound, and nothing else is decided. -/
theorem get?_bindInputs (t : TypeName) : ∀ (entries : List (TypeName × Nat)) (p : Progress),
    (bindInputs entries p).1.verdicts.get? t =
      (p.verdicts.get? t).or (if t ∈ entries.map Prod.fst then some true else none) := by
  intro entries
  induction entries with
  | nil =>
      intro p
      simp [bindInputs]
  | cons entry entries ih =>
      intro p
      cases hv : p.verdicts.get? entry.1 with
      | none =>
          rw [bindInputs_of_new hv, ih, Progress.get?_decide]
          by_cases ht : t = entry.1
          · simp [ht, hv]
          · simp only [List.map_cons, List.mem_cons, ht, if_false, false_or]
      | some b =>
          rw [bindInputs_of_decided hv, ih, Progress.verdicts_fail]
          by_cases ht : t = entry.1
          · simp [ht, hv]
          · simp only [List.map_cons, List.mem_cons, ht, false_or]

/-- The failures are the inputs that are there already, and there are none exactly when the inputs
are distinct and new. -/
theorem failures_bindInputs : ∀ (entries : List (TypeName × Nat)) (p : Progress),
    ∃ again : List TypeName,
      (bindInputs entries p).1.failures = p.failures ++ again.map Failure.duplicateInput ∧
      (again = [] ↔ (entries.map Prod.fst).Nodup ∧
        ∀ t ∈ entries.map Prod.fst, p.verdicts.get? t = none) := by
  intro entries
  induction entries with
  | nil =>
      intro p
      exact ⟨[], by simp [bindInputs], by simp⟩
  | cons entry entries ih =>
      intro p
      cases hv : p.verdicts.get? entry.1 with
      | none =>
          obtain ⟨again, hfail, hiff⟩ := ih (p.decide entry.1 true)
          refine ⟨again, by rw [bindInputs_of_new hv, hfail, Progress.failures_decide], ?_⟩
          rw [hiff]
          simp only [List.map_cons, List.nodup_cons, List.forall_mem_cons, hv, true_and,
            Progress.get?_decide]
          constructor
          · rintro ⟨hnd, hnew⟩
            have hfresh : ∀ t ∈ entries.map Prod.fst, t ≠ entry.1 := by
              rintro t ht rfl
              simpa using hnew _ ht
            refine ⟨⟨fun hmem => hfresh _ hmem rfl, hnd⟩, fun t ht => ?_⟩
            rw [← hnew t ht, if_neg (hfresh t ht)]
          · rintro ⟨⟨hmem, hnd⟩, hnew⟩
            refine ⟨hnd, fun t ht => ?_⟩
            have hne : t ≠ entry.1 := fun heq => hmem (heq ▸ ht)
            rw [if_neg hne, hnew t ht]
      | some b =>
          -- the input is there already, so both sides fail
          obtain ⟨again, hfail, -⟩ := ih (p.fail (.duplicateInput entry.1))
          refine ⟨entry.1 :: again, ?_, ?_⟩
          · rw [bindInputs_of_decided hv, hfail]
            simp
          · simp [hv]

/-- Distinct new inputs are bound to their positions. -/
theorem bindings_bindInputs : ∀ (entries : List (TypeName × Nat)) (p : Progress),
    (entries.map Prod.fst).Nodup → (∀ t ∈ entries.map Prod.fst, p.verdicts.get? t = none) →
      (bindInputs entries p).2 = entries.map fun e => ⟨e.1, .input e.2⟩ := by
  intro entries
  induction entries with
  | nil => intros; rfl
  | cons entry entries ih =>
      intro p hnd hnew
      rw [List.map_cons, List.nodup_cons] at hnd
      rw [bindInputs_of_new (hnew _ (by simp)), ih _ hnd.2, List.map_cons]
      intro t ht
      have hne : t ≠ entry.1 := fun heq => hnd.1 (heq ▸ ht)
      rw [Progress.get?_decide, if_neg hne]
      exact hnew t (List.mem_cons_of_mem _ ht)

end Inputs

/-! ### The whole of a resolution -/

/-- The state in which the outputs begin to be bound. -/
def start (job : Job) : Progress :=
  (bindInputs job.inputs.zipIdx {}).1

/-- The state in which a resolution ends. -/
def last (job : Job) : Progress :=
  (job.bindAll [] none job.outputs job.start).1

theorem map_fst_zipIdx_inputs (job : Job) : job.inputs.zipIdx.map Prod.fst = job.inputs := by
  rw [List.zipIdx_map_fst]

/-- No input is refused exactly when the inputs are distinct. -/
theorem failures_start (job : Job) :
    ∃ again : List TypeName, job.start.failures = again.map Failure.duplicateInput ∧
      (again = [] ↔ job.inputs.Nodup) := by
  obtain ⟨again, hfail, hiff⟩ := failures_bindInputs job.inputs.zipIdx {}
  rw [map_fst_zipIdx_inputs] at hiff
  exact ⟨again, by simpa [start] using hfail, by simpa using hiff⟩

/-- Before the outputs are bound the inputs are decided and nothing else. -/
theorem get?_start (job : Job) (t : TypeName) :
    job.start.verdicts.get? t = if t ∈ job.inputs then some true else none := by
  rw [start, get?_bindInputs, map_fst_zipIdx_inputs]
  rfl

/-- The invariant holds when the outputs begin to be bound. -/
theorem start_sound (job : Job) : job.start.Sound job := by
  have hsteps : job.start.steps = [] := steps_bindInputs _ _
  obtain ⟨again, hfail, hiff⟩ := job.failures_start
  refine ⟨?_, ?_, by simp [hsteps], by simp [hsteps], by simp [hsteps], by simp [hsteps], ?_, ?_⟩
  · intro t
    rw [get?_start, hsteps]
    by_cases ht : t ∈ job.inputs <;> simp [ht]
  · intro t b hb
    rw [get?_start] at hb
    by_cases ht : t ∈ job.inputs
    · rw [if_pos ht] at hb
      cases hb
      simp [Constructible.given ht]
    · rw [if_neg ht] at hb
      cases hb
  · intro t ht
    rw [get?_start] at ht
    by_cases hin : t ∈ job.inputs <;> simp [hin] at ht
  · intro f hf
    rw [hfail] at hf
    obtain ⟨t, ht, rfl⟩ := List.mem_map.1 hf
    refine .repeated fun hnd => ?_
    rw [hiff.2 hnd] at ht
    cases ht

/-- The outputs wait on the empty chain. -/
theorem start_waiting (job : Job) : job.Waiting [] job.outputs job.start :=
  ⟨by simp, List.nodup_nil, List.isChain_nil, fun _ ht => ⟨.output ht, by simp⟩⟩

/-- **A resolution as a whole preserves the invariant.** -/
theorem outputs_bound (job : Job) :
    job.Bound [] job.outputs job.start (job.bindAll [] none job.outputs job.start) :=
  bindAll_bound job.start_sound job.start_waiting

/-- A resolution ends in a plan if no failure is left, and otherwise in all that are. -/
theorem resolve_eq (job : Job) :
    job.resolve =
      if job.last.failures = [] then
        .ok { inputs := (bindInputs job.inputs.zipIdx {}).2, steps := job.last.steps
              outputs := job.outputs }
      else .error job.last.failures := rfl

/-- A resolution succeeds exactly when no failure is left, and then the plan is what was bound. -/
theorem resolve_eq_ok_iff {plan : Plan} :
    job.resolve = .ok plan ↔ job.last.failures = [] ∧
      plan = { inputs := (bindInputs job.inputs.zipIdx {}).2, steps := job.last.steps
               outputs := job.outputs } := by
  rw [resolve_eq]
  by_cases hf : job.last.failures = []
  · simp [hf, eq_comm]
  · simp [hf]

/-- Every failure of a resolution has its ground. -/
theorem grounded_of_resolve {failures : List Failure} {f : Failure} (h : job.resolve = .error failures)
    (hf : f ∈ failures) : job.Grounded f := by
  rw [resolve_eq] at h
  split at h
  · cases h
  · cases h
    exact job.outputs_bound.sound.grounded f hf

/-- Without a failure the inputs are distinct and the outputs are bound. -/
theorem of_failures_eq_nil (h : job.last.failures = []) :
    job.inputs.Nodup ∧ ∀ t ∈ job.outputs, job.last.verdicts.get? t = some true := by
  have hb := job.outputs_bound
  obtain ⟨again, hfail, hiff⟩ := job.failures_start
  constructor
  · have hstart : job.start.failures = [] := List.prefix_nil.1 (h ▸ hb.grows.failures)
    rw [hfail] at hstart
    exact hiff.1 (List.map_eq_nil_iff.1 hstart)
  · refine hb.bound ?_
    by_contra hok
    exact (hb.lost (Bool.not_eq_true _ ▸ hok)).2 h

/-! ### The states on the way -/

/-- The calls that a resolution makes: on which chain and for which provider, which types are still
to be bound, and the state that is found.  From each call there is one for the inputs of the
provider chosen for the first type, and one for the other types after the first has been bound. -/
inductive Calls (job : Job) : List TypeName → Option Provider → List TypeName → Progress → Prop
  | outputs : Calls job [] none job.outputs job.start
  | inputs {chain : List TypeName} {needer : Option Provider} {type : TypeName}
      {rest : List TypeName} {p : Progress} {maker : Provider}
      (h : Calls job chain needer (type :: rest) p) (hnone : p.verdicts.get? type = none)
      (hnew : type ∉ chain) (hc : job.choose type = .one maker) :
      Calls job (chain ++ [type]) (some maker) maker.inputs p
  | others {chain : List TypeName} {needer : Option Provider} {type : TypeName}
      {rest : List TypeName} {p : Progress} (h : Calls job chain needer (type :: rest) p) :
      Calls job chain needer rest (job.bind chain needer type p).1

/-- **The invariant holds in every state that a resolution goes through.** -/
theorem Calls.sound (h : job.Calls chain needer types p) :
    p.Sound job ∧ job.Waiting chain types p := by
  induction h with
  | outputs => exact ⟨job.start_sound, job.start_waiting⟩
  | inputs _ hnone hnew hc ih =>
      obtain ⟨hs, hw⟩ := ih
      exact ⟨hs, hw.below hs (by simp) hnone hnew (choose_eq_one_iff.1 hc)⟩
  | @others chain needer type rest p _ ih =>
      obtain ⟨hs, hw⟩ := ih
      have hone : job.Waiting chain [type] p := hw.mono (by simp) hw.undecided
      have hb : job.Bound chain [type] p (job.bind chain needer type p) := bindAll_bound hs hone
      exact ⟨hb.sound, hw.mono (fun t ht => List.mem_cons_of_mem _ ht) hb.undecided⟩

end Wiring.Job
