/-
**Resolution is complete.**

A request can be answered when no input is there twice, every demanded type that is not passed in has
a chosen provider, and the chosen providers do not need each other in a circle.  Resolution succeeds
exactly then.

What makes this delicate is the memo.  A type is given up for good while types above it are still in
progress, and an edge back to one of those is a failure without a verdict.  Both are right because a
verdict says whether the type can be made at all, in every state on the way.

Main results:

* `Wiring.Job.demanded_bound` — when nothing fails, everything demanded is bound;
* `Wiring.Job.Grounded.refutes` — a failure with a ground shows that the request has no answer;
* `Wiring.Job.resolve_succeeds_iff` — **resolution succeeds exactly on the requests that can be
  answered, and never gives up a type that can be made**.
-/

import Wiring.Proofs.Resolution.Course

set_option autoImplicit false

namespace Wiring.Job

variable {job : Job} {type : TypeName}

/-- What a request must satisfy to have an answer. -/
structure Answerable (job : Job) : Prop where
  inputs_nodup : job.inputs.Nodup
  provided : ∀ t, job.Demanded t → t ∉ job.inputs → ∃ p, job.Chosen t p
  acyclic : ∀ t, ¬ Relation.TransGen job.Needs t t

/-- When nothing fails, everything demanded is bound. -/
theorem demanded_bound (h : job.last.failures = []) (hd : job.Demanded type) :
    job.last.verdicts.get? type = some true := by
  have hs : job.last.Sound job := job.outputs_bound.sound
  induction hd with
  | output hout => exact (of_failures_eq_nil h).2 _ hout
  | @input type need p _ hin hp hneed ih =>
      -- the type is bound and not passed in, so it has a step
      have hstep := ((hs.bound_iff type).1 ih).resolve_left hin
      obtain ⟨s, hmem, rfl⟩ := List.mem_map.1 hstep
      obtain ⟨done, later, hsplit⟩ := List.append_of_mem hmem
      obtain ⟨maker, hc, -, hneeds⟩ := hs.ordered done s later hsplit
      rw [hp.unique hc] at hneed
      refine (hs.bound_iff need).2 ((hneeds need hneed).imp_right fun hdone => ?_)
      rw [hsplit, List.map_append]
      exact List.mem_append_left _ hdone

/-- What is demanded on a circle is demanded. -/
theorem demanded_of_circle (h : Relation.TransGen job.Needs type type) : job.Demanded type := by
  obtain ⟨_, hstep, -⟩ := Relation.TransGen.head'_iff.1 h
  exact hstep.1.1

/-- A success answers the request. -/
theorem answerable_of_failures_eq_nil (h : job.last.failures = []) : job.Answerable where
  inputs_nodup := (of_failures_eq_nil h).1
  provided := by
    intro t hd hin
    have hs : job.last.Sound job := job.outputs_bound.sound
    have hmade := (hs.verdict_iff t true (demanded_bound h hd)).2 rfl
    obtain ⟨p, hp, -⟩ := hmade.inv hin
    exact ⟨p, hp⟩
  acyclic := by
    intro t hcircle
    have hs : job.last.Sound job := job.outputs_bound.sound
    have hbound := demanded_bound h (demanded_of_circle hcircle)
    exact not_constructible_of_circle hcircle ((hs.verdict_iff t true hbound).2 rfl)

/-- A failure with a ground shows that the request has no answer. -/
theorem Grounded.refutes {f : Failure} (hf : job.Grounded f) : ¬ job.Answerable := by
  intro h
  cases hf with
  | repeated hrep => exact hrep h.inputs_nodup
  | unmade hd hin hc =>
      obtain ⟨p, hp⟩ := h.provided _ hd hin
      rw [choose_eq_one_iff.2 hp] at hc
      cases hc
  | contested hd hin hc =>
      obtain ⟨p, hp⟩ := h.provided _ hd hin
      rw [choose_eq_one_iff.2 hp] at hc
      cases hc
  | circle _ hpath => exact h.acyclic _ (transGen_of_isChain hpath)

/-- Nothing fails exactly on the requests that have an answer. -/
theorem failures_eq_nil_iff : job.last.failures = [] ↔ job.Answerable := by
  refine ⟨answerable_of_failures_eq_nil, fun h => ?_⟩
  have hs : job.last.Sound job := job.outputs_bound.sound
  rw [List.eq_nil_iff_forall_not_mem]
  intro f hf
  exact (hs.grounded f hf).refutes h

/-- **Resolution succeeds exactly on the requests that can be answered, and never gives up a type
that can be made**: a type that is marked as failed in any state on the way, whatever is in progress
by then, has no finite tree of chosen providers. -/
theorem resolve_succeeds_iff (job : Job) :
    ((∃ plan, job.resolve = .ok plan) ↔
      job.inputs.Nodup ∧
      (∀ t, job.Demanded t → t ∉ job.inputs → ∃ p, job.Chosen t p) ∧
      ∀ t, ¬ Relation.TransGen job.Needs t t) ∧
    ∀ chain needer types p, job.Calls chain needer types p →
      ∀ t, p.verdicts.get? t = some false → ¬ job.Constructible t := by
  constructor
  · have hresolve : (∃ plan, job.resolve = .ok plan) ↔ job.last.failures = [] := by
      simp only [resolve_eq_ok_iff, exists_and_left, exists_eq, and_true]
    rw [hresolve, failures_eq_nil_iff]
    exact ⟨fun h => ⟨h.inputs_nodup, h.provided, h.acyclic⟩, fun h => ⟨h.1, h.2.1, h.2.2⟩⟩
  · intro chain needer types p hcall t hlost hmade
    have hverdict := (hcall.sound.1.verdict_iff t false hlost).1 hmade
    cases hverdict

end Wiring.Job
