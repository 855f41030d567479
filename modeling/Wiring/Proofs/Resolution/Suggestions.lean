/-
**What is suggested for a missing type.**

A type for which there is no provider is reported together with the types that may have been meant.  They are
gathered from what the candidates make, in whatever order that is kept, and from what is passed in, so that a
type may come up several times and at any place.  Once the types are sorted by their distance and name, the
repetitions of a type stand side by side, since a type has only one distance.  Dropping all but the first of
them leaves one list, the same for every order.

Main definitions:

* `Wiring.Job.Meant` — a type that may have been meant;
* `Wiring.Job.Closer` — the order of nearness;
* `Wiring.Job.Ranks` — all that may have been meant, the nearest first;
* `Wiring.Job.suggestionsVia` — the suggestions, gathered in a given order;
* `Wiring.Job.Suggests` — what is suggested, said without computing it.

Main results:

* `Wiring.Job.Ranks.unique` — there is only one way to rank them;
* `Wiring.Job.suggestionsVia_eq` — **the order of gathering does not show**;
* `Wiring.Job.failures_suggest` — **what is suggested with the failures of a resolution**.
-/

import Mathlib.Data.List.Destutter
import Wiring.Proofs.Resolution.Diagnosis
import Wiring.Proofs.Text.EditDistance

set_option autoImplicit false

namespace Wiring

namespace Job

variable {job other : Job} {missing type : TypeName} {order types types' shown : List TypeName}

/-! ### Nearness -/

/-- A type that may have been meant by a missing one: another type, made by a candidate or passed in, that a
few edits lead to. -/
structure Meant (job : Job) (missing type : TypeName) : Prop where
  other : type ≠ missing
  known : (∃ p ∈ job.candidates, p.output = type) ∨ type ∈ job.inputs
  near : ∃ n ≤ 2, Text.Edits n missing.toList type.toList

/-- One type is nearer than another, or as near and before it by its name. -/
def Closer (missing a b : TypeName) : Prop :=
  Text.editDistance missing a < Text.editDistance missing b ∨
    Text.editDistance missing a = Text.editDistance missing b ∧ a < b

theorem Closer.trans {a b c : TypeName} (h : Closer missing a b) (h' : Closer missing b c) :
    Closer missing a c := by
  rcases h with h | ⟨heq, h⟩
  · rcases h' with h' | ⟨heq', -⟩
    · exact .inl (Nat.lt_trans h h')
    · exact .inl (heq' ▸ h)
  · rcases h' with h' | ⟨heq', h'⟩
    · exact .inl (heq ▸ h')
    · exact .inr ⟨heq.trans heq', String.lt_trans h h'⟩

theorem Closer.irrefl (missing a : TypeName) : ¬ Closer missing a a := by
  rintro (h | ⟨-, h⟩)
  · exact Nat.lt_irrefl _ h
  · exact String.lt_irrefl _ h

/-- Types in the order of nearness do not repeat. -/
theorem nodup_of_closer (h : types.Pairwise (Closer missing)) : types.Nodup := by
  refine h.imp ?_
  rintro a b hcloser rfl
  exact Closer.irrefl missing a hcloser

/-- A few edits are enough if and only if the distance is small. -/
theorem near_iff : (∃ n ≤ 2, Text.Edits n missing.toList type.toList) ↔
    Text.editDistance missing type ≤ closeDistance := by
  obtain ⟨hedits, hleast⟩ := Text.isLeast_editDistance missing type
  exact ⟨fun ⟨_, hle, h⟩ => Nat.le_trans (hleast h) hle, fun hle => ⟨_, hle, hedits⟩⟩

/-- All types that may have been meant, in the order of nearness. -/
structure Ranks (job : Job) (missing : TypeName) (types : List TypeName) : Prop where
  ascending : types.Pairwise (Closer missing)
  mem_iff : ∀ t, t ∈ types ↔ job.Meant missing t

/-- **There is only one such list.**  It depends on nothing but which types may have been meant. -/
theorem Ranks.unique (h : job.Ranks missing types) (h' : other.Ranks missing types')
    (hmeant : ∀ t, job.Meant missing t ↔ other.Meant missing t) : types = types' := by
  have hperm : types.Perm types' := by
    refine (List.perm_ext_iff_of_nodup (nodup_of_closer h.ascending)
      (nodup_of_closer h'.ascending)).2 fun t => ?_
    rw [h.mem_iff, h'.mem_iff, hmeant]
  refine hperm.eq_of_pairwise (fun a b _ _ hab hba => ?_) h.ascending h'.ascending
  exact absurd (hab.trans hba) (Closer.irrefl missing a)

/-! ### Sorting by nearness -/

/-- A type with its distance. -/
def measure (missing type : TypeName) : Nat × TypeName :=
  (Text.editDistance missing type, type)

theorem closerLe_iff {a b : Nat × TypeName} :
    closerLe a b = true ↔ a.1 < b.1 ∨ a.1 = b.1 ∧ a.2 ≤ b.2 := by
  simp only [closerLe, Bool.or_eq_true, Bool.and_eq_true, Bool.not_eq_true', decide_eq_true_eq,
    decide_eq_false_iff_not, String.not_lt]

theorem closerLe_trans (a b c : Nat × TypeName) (h : closerLe a b = true) (h' : closerLe b c = true) :
    closerLe a c = true := by
  rw [closerLe_iff] at *
  rcases h with h | ⟨heq, h⟩
  · rcases h' with h' | ⟨heq', -⟩ <;> exact .inl (by omega)
  · rcases h' with h' | ⟨heq', h'⟩
    · exact .inl (by omega)
    · exact .inr ⟨heq.trans heq', String.le_trans h h'⟩

theorem closerLe_total (a b : Nat × TypeName) : (closerLe a b || closerLe b a) = true := by
  rw [Bool.or_eq_true, closerLe_iff, closerLe_iff]
  rcases Nat.lt_trichotomy a.1 b.1 with h | h | h
  · exact .inl (.inl h)
  · exact (String.le_total a.2 b.2).imp (fun hle => .inr ⟨h, hle⟩) fun hle => .inr ⟨h.symm, hle⟩
  · exact .inr (.inl h)

/-- The types that may have been meant, each with its distance. -/
theorem mem_closeTypes {e : Nat × TypeName} :
    e ∈ job.closeTypes missing ↔ job.Meant missing e.2 ∧ e = measure missing e.2 := by
  have hmeant : job.Meant missing e.2 ↔ e.2 ≠ missing ∧
      ((∃ p ∈ job.candidates, p.output = e.2) ∨ e.2 ∈ job.inputs) ∧
        Text.editDistance missing e.2 ≤ closeDistance := by
    rw [← near_iff]
    exact ⟨fun h => ⟨h.other, h.known, h.near⟩, fun ⟨hother, hknown, hnear⟩ => ⟨hother, hknown, hnear⟩⟩
  rw [hmeant]
  simp only [closeTypes, List.mem_filterMap, List.mem_filter, List.mem_eraseDups, List.mem_append,
    List.mem_map, decide_eq_true_eq]
  constructor
  · rintro ⟨type, ⟨hknown, hother⟩, hclose⟩
    split at hclose
    next hle =>
      cases hclose
      exact ⟨⟨hother, hknown, hle⟩, rfl⟩
    next => cases hclose
  · rintro ⟨⟨hother, hknown, hle⟩, he⟩
    exact ⟨e.2, ⟨hknown, hother⟩, by rw [if_pos hle, he]; rfl⟩

theorem nodup_closeTypes (job : Job) (missing : TypeName) : (job.closeTypes missing).Nodup := by
  refine List.Nodup.filterMap ?_ ((nodup_eraseDups _).filter _)
  intro a a' e ha ha'
  simp only [Option.mem_def, Option.ite_none_right_eq_some, Option.some.injEq] at ha ha'
  rw [← ha.2] at ha'
  exact (congrArg Prod.snd ha'.2).symm

/-- The types that may have been meant are in the order of nearness once they are sorted with their distances
and do not repeat. -/
theorem ranks_map_snd {pairs : List (Nat × TypeName)} (hsorted : pairs.Pairwise fun a b => closerLe a b)
    (hnodup : pairs.Nodup) (hmem : ∀ e, e ∈ pairs ↔ e ∈ job.closeTypes missing) :
    job.Ranks missing (pairs.map Prod.snd) := by
  constructor
  case ascending =>
    refine List.pairwise_map.2 ((hsorted.and hnodup).imp_of_mem ?_)
    rintro a b ha hb ⟨hle, hne⟩
    rw [(mem_closeTypes.1 ((hmem a).1 ha)).2, (mem_closeTypes.1 ((hmem b).1 hb)).2] at hle hne
    rcases closerLe_iff.1 hle with hlt | ⟨heq, hle⟩
    · exact .inl hlt
    · exact .inr ⟨heq, Std.lt_of_le_of_ne hle fun hname => hne (by rw [hname])⟩
  case mem_iff =>
    intro t
    rw [List.mem_map]
    constructor
    · rintro ⟨e, he, rfl⟩
      exact (mem_closeTypes.1 ((hmem e).1 he)).1
    · exact fun hmeant => ⟨measure missing t, (hmem _).2 (mem_closeTypes.2 ⟨hmeant, rfl⟩), rfl⟩

/-- **The suggestions are the first of the types that may have been meant.** -/
theorem exists_ranks (job : Job) (missing : TypeName) :
    ∃ close, job.Ranks missing close ∧ job.suggestions missing = close.take maxSuggestions := by
  have hperm := List.mergeSort_perm (job.closeTypes missing) closerLe
  refine ⟨_, ranks_map_snd (List.pairwise_mergeSort closerLe_trans closerLe_total _)
    (hperm.nodup_iff.2 (job.nodup_closeTypes missing)) fun _ => hperm.mem_iff, ?_⟩
  rw [suggestions, List.map_take]

/-! ### Gathering in any order -/

/-- The measured types that are gathered when the types that the candidates make are met in the given order:
these and the inputs, except the missing one and those that are far away. -/
def gatherVia (job : Job) (order : List TypeName) (missing : TypeName) : List (Nat × TypeName) :=
  (((order ++ job.inputs).filter (· ≠ missing)).map (measure missing)).filter (·.1 ≤ closeDistance)

/-- The suggestions that come out when the types that the candidates make are met in the given order.  What
has been gathered is sorted, and a type whose neighbour in front is the same is dropped. -/
def suggestionsVia (job : Job) (order : List TypeName) (missing : TypeName) : List TypeName :=
  ((((job.gatherVia order missing).mergeSort closerLe).destutter fun a b => a.2 ≠ b.2).take
    maxSuggestions).map Prod.snd

/-- An order in which the types that the candidates make may be met, each once. -/
structure Enumerates (job : Job) (order : List TypeName) : Prop where
  nodup : order.Nodup
  mem_iff : ∀ t, t ∈ order ↔ ∃ p ∈ job.candidates, p.output = t

theorem mem_gatherVia (horder : job.Enumerates order) {e : Nat × TypeName} :
    e ∈ job.gatherVia order missing ↔ e ∈ job.closeTypes missing := by
  rw [mem_closeTypes]
  simp only [gatherVia, List.mem_filter, List.mem_map, List.mem_append, horder.mem_iff, decide_eq_true_eq]
  constructor
  · rintro ⟨⟨type, ⟨hknown, hother⟩, rfl⟩, hle⟩
    exact ⟨⟨hother, hknown, near_iff.2 hle⟩, rfl⟩
  · rintro ⟨hmeant, he⟩
    refine ⟨⟨e.2, ⟨hmeant.known, hmeant.other⟩, he.symm⟩, ?_⟩
    rw [he]
    exact near_iff.1 hmeant.near

/-- In a sorted list of measured types the repetitions of a type are neighbours. -/
theorem destutter_eq_dedup {pairs : List (Nat × TypeName)} (hsorted : pairs.Pairwise fun a b => closerLe a b)
    (hpairs : ∀ e ∈ pairs, e = measure missing e.2) :
    (pairs.destutter fun a b => a.2 ≠ b.2) = pairs.dedup := by
  have hantisymm : Std.Antisymm fun a b : Nat × TypeName => closerLe a b = true := by
    refine ⟨fun a b hab hba => ?_⟩
    rw [closerLe_iff] at hab hba
    have hdistance : a.1 = b.1 := by omega
    refine Prod.ext hdistance (String.le_antisymm ?_ ?_)
    · exact (hab.resolve_left (by omega)).2
    · exact (hba.resolve_left (by omega)).2
  rw [← hsorted.destutter_eq_dedup]
  -- a measured type is known from its name
  have hname : ∀ a ∈ pairs, ∀ b ∈ pairs, a.2 ≠ b.2 ↔ a ≠ b := by
    intro a ha b hb
    refine not_congr ⟨fun hname => ?_, congrArg Prod.snd⟩
    rw [hpairs a ha, hpairs b hb, hname]
  have hmap : (pairs.destutter fun a b => a.2 ≠ b.2).map id = (pairs.map id).destutter (· ≠ ·) :=
    List.map_destutter hname
  rwa [List.map_id, List.map_id] at hmap

/-- **The order of gathering does not show.** -/
theorem suggestionsVia_eq (horder : job.Enumerates order) (missing : TypeName) :
    job.suggestionsVia order missing = job.suggestions missing := by
  have hperm := List.mergeSort_perm (job.gatherVia order missing) closerLe
  have hsorted := List.pairwise_mergeSort closerLe_trans closerLe_total (job.gatherVia order missing)
  have hmem : ∀ e, e ∈ (job.gatherVia order missing).mergeSort closerLe ↔ e ∈ job.closeTypes missing :=
    fun _ => hperm.mem_iff.trans (mem_gatherVia horder)
  have hranks : job.Ranks missing
      ((((job.gatherVia order missing).mergeSort closerLe).dedup).map Prod.snd) :=
    ranks_map_snd (hsorted.sublist (List.dedup_sublist _)) (List.nodup_dedup _) fun e => by
      rw [List.mem_dedup, hmem]
  obtain ⟨close, hclose, htake⟩ := job.exists_ranks missing
  rw [suggestionsVia, destutter_eq_dedup hsorted fun e he => (mem_closeTypes.1 ((hmem e).1 he)).2,
    List.map_take, htake, hranks.unique hclose fun _ => Iff.rfl]

/-! ### What is suggested -/

/-- What is suggested for a missing type. -/
structure Suggests (job : Job) (missing : TypeName) (shown : List TypeName) : Prop where
  /-- The first three of all types that may have been meant, or as many as there are. -/
  first : ∃ close, job.Ranks missing close ∧ shown = close.take 3
  nodup : shown.Nodup
  /-- The same in whatever order the types that the candidates make are met. -/
  any : ∀ order, job.Enumerates order → job.suggestionsVia order missing = shown

theorem suggests (job : Job) (missing : TypeName) : job.Suggests missing (job.suggestions missing) := by
  obtain ⟨close, hclose, htake⟩ := job.exists_ranks missing
  refine ⟨⟨close, hclose, htake⟩, ?_, fun order horder => suggestionsVia_eq horder missing⟩
  rw [htake]
  exact (nodup_of_closer hclose.ascending).sublist (List.take_sublist _ _)

/-- Jobs with the same candidates and inputs, in whatever order, suggest the same. -/
theorem suggestions_congr (hcandidates : other.candidates.Perm job.candidates)
    (hinputs : other.inputs.Perm job.inputs) (missing : TypeName) :
    other.suggestions missing = job.suggestions missing := by
  obtain ⟨close, hclose, htake⟩ := job.exists_ranks missing
  obtain ⟨close', hclose', htake'⟩ := other.exists_ranks missing
  have hknown : ∀ t, ((∃ p ∈ other.candidates, p.output = t) ∨ t ∈ other.inputs) ↔
      ((∃ p ∈ job.candidates, p.output = t) ∨ t ∈ job.inputs) := by
    intro t
    simp only [hcandidates.mem_iff, hinputs.mem_iff]
  have hsame : close' = close := hclose'.unique hclose fun t =>
    ⟨fun h => ⟨h.other, (hknown t).1 h.known, h.near⟩, fun h => ⟨h.other, (hknown t).2 h.known, h.near⟩⟩
  rw [htake, htake', hsame]

/-- A failure for a missing type comes with what is suggested for it. -/
theorem shown_eq_suggestions {needer : Option String}
    (h : .noProvider missing needer shown ∈ job.failures) : shown = job.suggestions missing := by
  rw [failures_eq] at h
  have hground := job.outputs_bound.sound.grounded _ h
  cases hground with
  | unmade => rfl

/-- **What is suggested with the failures of a resolution**: of the types that may have been meant the three
nearest, each once, in whatever order the candidates are kept or given. -/
theorem failures_suggest {needer : Option String} (h : .noProvider missing needer shown ∈ job.failures) :
    job.Suggests missing shown ∧
      ∀ other : Job, other.candidates.Perm job.candidates → other.inputs.Perm job.inputs →
        ∀ needer' shown', .noProvider missing needer' shown' ∈ other.failures → shown' = shown := by
  have hshown := shown_eq_suggestions h
  refine ⟨hshown ▸ job.suggests missing, fun other hcandidates hinputs needer' shown' h' => ?_⟩
  rw [shown_eq_suggestions h', suggestions_congr hcandidates hinputs, hshown]

/-- Many types with similar names, two of them made twice, one of them passed in as well. -/
def attic : Job where
  candidates :=
    [{ pkg := "p", name := "NewFar", output := "Far" }, { pkg := "p", name := "NewBat", output := "Bat" },
      { pkg := "p", name := "NewBarn", output := "Barn" }, { pkg := "p", name := "OldBat", output := "Bat" },
      { pkg := "p", name := "NewCab", output := "Cab" }, { pkg := "p", name := "NewCellar", output := "Cellar" }]
  inputs := ["Ba", "Far"]
  outputs := ["Bar"]

/-- All of them that may have been meant. -/
theorem ranks_attic : attic.Ranks "Bar" ["Ba", "Barn", "Bat", "Far", "Cab"] := by
  have hclose : attic.closeTypes "Bar" = [(1, "Far"), (1, "Bat"), (1, "Barn"), (2, "Cab"), (1, "Ba")] := by
    decide +kernel
  have hsorted : ["Ba", "Barn", "Bat", "Far", "Cab"].Pairwise fun a b =>
      Text.editDistance "Bar" a < Text.editDistance "Bar" b ∨
        Text.editDistance "Bar" a = Text.editDistance "Bar" b ∧ a < b := by
    decide +kernel
  refine ⟨hsorted, fun t => ?_⟩
  have hmeant : attic.Meant "Bar" t ↔ t ∈ (attic.closeTypes "Bar").map Prod.snd := by
    rw [List.mem_map]
    exact ⟨fun h => ⟨measure "Bar" t, mem_closeTypes.2 ⟨h, rfl⟩, rfl⟩,
      fun ⟨e, he, het⟩ => het ▸ (mem_closeTypes.1 he).1⟩
  rw [hmeant, hclose]
  simp only [List.map_cons, List.map_nil, List.mem_cons, List.not_mem_nil, or_false]
  grind

/-- Three of five are shown, and those made twice or passed in as well stand once. -/
theorem failures_suggest_attic :
    ∃ needer shown, .noProvider "Bar" needer shown ∈ attic.failures ∧ shown = ["Ba", "Barn", "Bat"] ∧
      ∀ needer' shown', .noProvider "Bar" needer' shown' ∈
        ({ attic with candidates := attic.candidates.reverse } : Job).failures → shown' = shown := by
  have hmissing : "Bar" ∈ attic.last.failures.filterMap Failure.missing? :=
    mem_missing_iff.2 ⟨.output (by decide), by decide, by decide⟩
  obtain ⟨f, hf, hbar⟩ := List.mem_filterMap.1 hmissing
  rw [← failures_eq] at hf
  cases f with
  | noProvider type needer shown =>
      cases hbar
      obtain ⟨hsuggests, halike⟩ := failures_suggest hf
      obtain ⟨close, hclose, hshown⟩ := hsuggests.first
      refine ⟨needer, shown, hf, ?_, halike _ (List.reverse_perm _) (.refl _)⟩
      rw [hshown, hclose.unique ranks_attic fun _ => Iff.rfl]
      rfl
  | _ => cases hbar

end Job

end Wiring
