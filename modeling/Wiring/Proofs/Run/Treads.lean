/-
**The small steps of any run.**

`Wiring/Proofs/Run/Lookups.lean` and `Wiring/Proofs/Run/Tasks.lean` follow runs that nobody cancels and whose
loader answers from a collection.  This module says what a lookup and a task can do at all: the loader may
answer anything, and the run may be cancelled at any moment, so that a lookup is refused or its load is cut
short.

Main definitions:

* `Wiring.Lookup.Treads`, `Wiring.Task.Treads` — the small steps of a lookup and of a task;
* `Wiring.Crew.Owned` — every marker belongs to a task under way.

Main results:

* `Wiring.Lookup.poll_treads`, `Wiring.Task.step_treads` — polling a lookup and stepping a task are some
  small steps;
* `Wiring.Moves.owned` — **no marker is left behind**: throughout a run each belongs to a task that is
  loading.
-/

import Wiring.Proofs.Run.Orders

set_option autoImplicit false

namespace Wiring

/-! ### Lookups -/

/-- What a load that was not cut short says about a package. -/
def LoadVerdict.of : Except Failure Package → LoadVerdict
  | .ok pkg => .found pkg
  | .error failure => .failed failure

namespace Lookup

/-- The small steps of a lookup. -/
inductive Treads (site : LoadSite) (path : String) : World × Lookup → World × Lookup → Prop
  | wakes {world : World} {marker : Marker} (h : world.packages.isPending path marker = false) :
      Treads site path (world, .asleep marker) (world, .start)
  | finds {world : World} {result : Except Failure Package}
      (h : world.packages.slots.get? path = some (.holding result)) :
      Treads site path (world, .start) (world, .done result)
  /-- An eager run has nothing else than what it started with. -/
  | lacks {world : World} (h : world.packages.slots.get? path = none)
      (heager : world.packages.isLazy = false) :
      Treads site path (world, .start) (world, .done (.error (.packageNotFound path)))
  | sleeps {world : World} {marker : Marker} (h : world.packages.isPending path marker = true) :
      Treads site path (world, .start) (world, .asleep marker)
  | begins {world : World} (h : world.packages.slots.get? path = none)
      (hlazy : world.packages.isLazy = true) (hlive : world.cancelled = false) :
      Treads site path (world, .start)
        (world.withPackages (world.packages.granted path),
          .loading world.packages.nextMarker site.loader.pauses)
  /-- The run is cancelled, so the slot is left as it was. -/
  | refused {world : World} (h : world.packages.slots.get? path = none)
      (hlazy : world.packages.isLazy = true) (hcancelled : world.cancelled = true) :
      Treads site path (world, .start)
        (world.withPackages ((world.packages.claim path).1.release path world.packages.nextMarker),
          .done (.error .cancelled))
  | pauses {world : World} {marker : Marker} {pauses : Nat} :
      Treads site path (world, .loading marker (pauses + 1)) (world, .loading marker pauses)
  /-- The loader answers, and the slot is settled. -/
  | settles {world opened : World} {outcome : LoadOutcome} {marker : Marker}
      {result : Except Failure Package}
      (hcall : world.call site.loader (site.requestFor path) = (opened, outcome))
      (h : PackageCache.verdict path outcome opened.cancelled = .of result) :
      Treads site path (world, .loading marker 0)
        (opened.withPackages (world.packages.settle path (.holding result)), .done result)
  /-- The load is cut short, and the marker is taken out. -/
  | yields {world opened : World} {outcome : LoadOutcome} {marker : Marker}
      (hcall : world.call site.loader (site.requestFor path) = (opened, outcome))
      (h : PackageCache.verdict path outcome opened.cancelled = .cancelled) :
      Treads site path (world, .loading marker 0)
        (opened.withPackages (world.packages.release path marker), .done (.error .cancelled))

variable {site : LoadSite} {path : String} {world world' : World} {lookup lookup' : Lookup}

theorem enter_treads : Relation.ReflTransGen (Treads site path) (world, .start)
    (enter site world path .start) := by
  cases hslot : world.packages.slots.get? path with
  | some slot =>
      cases slot with
      | pending marker =>
          have heq : enter site world path .start = (world, .asleep marker) := by
            simp [enter, PackageCache.claim, hslot]
          rw [heq]
          exact .single (.sleeps (PackageCache.isPending_iff.2 hslot))
      | ready pkg =>
          have heq : enter site world path .start = (world, .done (.ok pkg)) := by
            simp [enter, PackageCache.claim, hslot]
          rw [heq]
          exact .single (.finds hslot)
      | failed failure =>
          have heq : enter site world path .start = (world, .done (.error failure)) := by
            simp [enter, PackageCache.claim, hslot]
          rw [heq]
          exact .single (.finds hslot)
  | none =>
      cases hlazy : world.packages.isLazy with
      | false =>
          have heq : enter site world path .start =
              (world, .done (.error (.packageNotFound path))) := by
            simp [enter, PackageCache.claim, hslot, hlazy]
          rw [heq]
          exact .single (.lacks hslot hlazy)
      | true =>
          cases hcancelled : world.cancelled with
          | false =>
              have heq : enter site world path .start =
                  (world.withPackages (world.packages.granted path),
                    .loading world.packages.nextMarker site.loader.pauses) := by
                simp [enter, PackageCache.claim, hslot, hlazy, beginLoad, World.withPackages,
                  hcancelled, PackageCache.countLoad, PackageCache.granted]
              rw [heq]
              exact .single (.begins hslot hlazy hcancelled)
          | true =>
              have heq : enter site world path .start =
                  (world.withPackages
                    ((world.packages.claim path).1.release path world.packages.nextMarker),
                    .done (.error .cancelled)) := by
                simp [enter, PackageCache.claim, hslot, hlazy, beginLoad, World.withPackages,
                  hcancelled]
              rw [heq]
              exact .single (.refused hslot hlazy hcancelled)

theorem proceed_treads : Relation.ReflTransGen (Treads site path) (world, lookup)
    (proceed site world path lookup) := by
  unfold proceed
  split
  next marker =>
    unfold endLoad
    cases hcall : world.call site.loader (site.requestFor path) with
    | mk opened outcome =>
        have hpackages : opened.packages = world.packages := by
          rw [show opened = (world.call site.loader (site.requestFor path)).1 by rw [hcall]]
          rfl
        dsimp only
        rw [hpackages]
        cases hverdict : PackageCache.verdict path outcome opened.cancelled with
        | found pkg =>
            have hfound : PackageCache.verdict path outcome opened.cancelled = .of (.ok pkg) :=
              hverdict
            exact .single (.settles hcall hfound)
        | cancelled => exact .single (.yields hcall hverdict)
        | failed failure =>
            have hfailed : PackageCache.verdict path outcome opened.cancelled =
                .of (.error failure) := hverdict
            exact .single (.settles hcall hfailed)
  · exact .single .pauses
  · exact .refl

/-- **Polling a lookup is some small steps.** -/
theorem poll_treads (lookup : Lookup) : Relation.ReflTransGen (Treads site path) (world, lookup)
    (poll site world path lookup) := by
  have hpoll : poll site world path lookup =
      proceed site (enter site world path (lookup.wake world path)).1 path
        (enter site world path (lookup.wake world path)).2 := rfl
  cases lookup with
  | start => exact enter_treads.trans proceed_treads
  | asleep marker =>
      rw [hpoll, wake]
      cases hpending : world.packages.isPending path marker with
      | true =>
          rw [if_pos rfl]
          exact .refl
      | false =>
          rw [if_neg Bool.false_ne_true]
          exact .head (.wakes hpending) (enter_treads.trans proceed_treads)
  | loading marker pauses => exact proceed_treads
  | done result => exact .refl

end Lookup

/-! ### Markers -/

namespace PackageCache

variable {cache : PackageCache} {path q : String} {marker : Marker}

/-- A lookup that is refused leaves the slots as they were. -/
theorem get?_refused (h : cache.slots.get? path = none) (hlazy : cache.isLazy = true) :
    ((cache.claim path).1.release path cache.nextMarker).slots.get? q = cache.slots.get? q := by
  have hclaim : (cache.claim path).1 =
      { cache with
        slots := cache.slots.put path (.pending cache.nextMarker)
        nextMarker := cache.nextMarker + 1 } := by
    simp [claim, h, hlazy]
  have hpending : (cache.claim path).1.isPending path cache.nextMarker = true := by
    rw [hclaim, isPending_iff, Table.get?_put, if_pos rfl]
  rw [release, if_pos hpending, hclaim, Table.get?_erase]
  split
  next hq => rw [hq, h]
  next hq => rw [Table.get?_put, if_neg hq]

theorem get?_release_of_ne (hq : q ≠ path) :
    (cache.release path marker).slots.get? q = cache.slots.get? q := by
  unfold release
  split
  · rw [Table.get?_erase, if_neg hq]
  · rfl

/-- Only its own marker is taken out of a slot. -/
theorem get?_release_self : (cache.release path marker).slots.get? path = none ∨
    (cache.release path marker).slots.get? path = cache.slots.get? path ∧
      cache.isPending path marker = false := by
  unfold release
  split
  · exact Or.inl (by rw [Table.get?_erase, if_pos rfl])
  next h => exact Or.inr ⟨rfl, by simpa using h⟩

end PackageCache

namespace Lookup

variable {site : LoadSite} {path : String} {world world' : World} {lookup lookup' : Lookup}

/-- A marker that is there after a small step is the lookup's own, or it was there before and was not the
lookup's own. -/
theorem Treads.owner (h : Treads site path (world, lookup) (world', lookup')) {q : String}
    {marker : Marker} (hq : world'.packages.isPending q marker) :
    (q = path ∧ ∃ pauses, lookup' = .loading marker pauses) ∨
      world.packages.isPending q marker ∧
        (q = path → ∀ pauses, lookup ≠ .loading marker pauses) := by
  cases h with
  | wakes => exact Or.inr ⟨hq, fun _ _ hl => by cases hl⟩
  | finds => exact Or.inr ⟨hq, fun _ _ hl => by cases hl⟩
  | lacks => exact Or.inr ⟨hq, fun _ _ hl => by cases hl⟩
  | sleeps => exact Or.inr ⟨hq, fun _ _ hl => by cases hl⟩
  | begins =>
      -- the new marker is in the lookup's own slot, and no other slot has changed
      rcases PackageCache.isPending_of_granted hq with ⟨hpath, rfl⟩ | ⟨hpath, hq⟩
      · exact Or.inl ⟨hpath, _, rfl⟩
      · exact Or.inr ⟨hq, fun heq => absurd heq hpath⟩
  | refused h hlazy =>
      rw [PackageCache.isPending_iff] at hq
      simp only [World.withPackages] at hq
      rw [PackageCache.get?_refused h hlazy] at hq
      exact Or.inr ⟨PackageCache.isPending_iff.2 hq, fun _ _ hl => by cases hl⟩
  | @pauses _ own =>
      by_cases hown : q = path ∧ marker = own
      · exact Or.inl ⟨hown.1, _, by rw [hown.2]⟩
      · refine Or.inr ⟨hq, ?_⟩
        rintro hpath pauses hl
        cases hl
        exact hown ⟨hpath, rfl⟩
  | @settles _ _ _ _ result =>
      obtain ⟨hpath, hq⟩ := PackageCache.isPending_of_settle hq
      exact Or.inr ⟨hq, fun heq => absurd heq hpath⟩
  | @yields _ _ _ own =>
      rw [PackageCache.isPending_iff] at hq
      simp only [World.withPackages] at hq
      by_cases hpath : q = path
      · subst hpath
        rcases @PackageCache.get?_release_self world.packages q own with hnone | ⟨hsame, hother⟩
        · rw [hnone] at hq
          cases hq
        · rw [hsame] at hq
          refine Or.inr ⟨PackageCache.isPending_iff.2 hq, ?_⟩
          rintro - pauses hl
          cases hl
          rw [PackageCache.isPending_iff.2 hq] at hother
          cases hother
      · rw [PackageCache.get?_release_of_ne hpath] at hq
        exact Or.inr ⟨PackageCache.isPending_iff.2 hq, fun heq => absurd heq hpath⟩

end Lookup

/-! ### Tasks -/

namespace Task

/-- The small steps of a task. -/
inductive Treads (setting : Setting) : World × Task → World × Task → Prop
  /-- The lookup goes on. -/
  | looks {world world' : World} {t : Task} {errand : Errand} {lookup lookup' : Lookup}
      (ht : t.stage = .fetching errand lookup)
      (h : Lookup.Treads setting.site errand.id.pkg (world, lookup) (world', lookup')) :
      Treads setting (world, t) (world', { t with stage := .fetching errand lookup' })
  | reads {world : World} {t : Task} (ht : t.stage = .opening) :
      Treads setting (world, t) (world, t.open)
  | takes {world : World} {t : Task} (ht : t.stage = .collecting) :
      Treads setting (world, t) (world, t.takeNext setting)
  /-- The package has been looked up, and its set is asked for. -/
  | arrives {world : World} {t : Task} {errand : Errand} {result : Except Failure Package}
      (ht : t.stage = .fetching errand (.done result)) :
      Treads setting (world, t)
        ((arrive setting world t errand result).1, (arrive setting world t errand result).2.1)

variable {setting : Setting} {world world' : World} {t t' : Task}

/-- The small steps of a lookup are small steps of its task. -/
theorem treads_of_looking {errand : Errand} {lookup lookup' : Lookup}
    (hstage : t.stage = .fetching errand lookup)
    (h : Relation.ReflTransGen (Lookup.Treads setting.site errand.id.pkg) (world, lookup)
      (world', lookup')) :
    Relation.ReflTransGen (Treads setting) (world, t)
      (world', { t with stage := .fetching errand lookup' }) := by
  have hself : t = { t with stage := .fetching errand lookup } := by rw [← hstage]
  have hlift : ∀ x y : World × Lookup, Lookup.Treads setting.site errand.id.pkg x y →
      Treads setting (x.1, { t with stage := .fetching errand x.2 })
        (y.1, { t with stage := .fetching errand y.2 }) := fun _ _ h => .looks rfl h
  have htask : Relation.ReflTransGen (Treads setting)
      (world, { t with stage := .fetching errand lookup })
      (world', { t with stage := .fetching errand lookup' }) :=
    Relation.ReflTransGen.lift
      (fun x : World × Lookup => (x.1, { t with stage := .fetching errand x.2 })) hlift _ _ h
  rwa [← hself] at htask

/-- **A step of a task is some small steps.** -/
theorem step_treads (setting : Setting) (world : World) (t : Task) :
    Relation.ReflTransGen (Treads setting) (world, t)
      ((t.step setting world).1, (t.step setting world).2.1) := by
  cases hstage : t.stage with
  | opening =>
      rw [step_of_opening hstage]
      exact .single (.reads hstage)
  | collecting =>
      rw [step_of_collecting hstage]
      exact .single (.takes hstage)
  | fetching errand lookup =>
      by_cases hdone : ∃ result, lookup = .done result
      · obtain ⟨result, rfl⟩ := hdone
        rw [step_of_done hstage]
        exact .single (.arrives hstage)
      · rw [step_of_looking hstage fun r hr => hdone ⟨r, hr⟩]
        exact treads_of_looking hstage (Lookup.poll_treads lookup)
  | closed r =>
      rw [step_of_result (show t.result? = some r by rw [result?, hstage])]

theorem extractFrom_world (setting : Setting) (world : World) (errand : Errand) (pkg : Package) :
    ∃ sets, (extractFrom setting world errand pkg).1 = { world with sets } := by
  rcases extractFrom_cases setting world errand pkg with
    ⟨-, heq⟩ | ⟨-, ⟨-, heq⟩ | ⟨sets, answer, -, -, heq⟩⟩ <;> rw [heq]
  · exact ⟨world.sets, rfl⟩
  · exact ⟨world.sets, rfl⟩
  · exact ⟨sets, rfl⟩

theorem arrive_ok_world {errand : Errand} {pkg : Package} :
    (arrive setting world t errand (.ok pkg)).1 = (extractFrom setting world errand pkg).1 := by
  rcases arrive_cases setting world t errand pkg with ⟨answer, -, heq⟩ | ⟨-, heq⟩ <;> rw [heq]

/-- Asking for a set changes nothing but the kept sets. -/
theorem arrive_world (setting : Setting) (world : World) (t : Task) (errand : Errand)
    (result : Except Failure Package) :
    ∃ sets, (arrive setting world t errand result).1 = { world with sets } := by
  cases result with
  | error f => exact ⟨world.sets, rfl⟩
  | ok pkg =>
      obtain ⟨sets, hsets⟩ := extractFrom_world setting world errand pkg
      exact ⟨sets, arrive_ok_world.trans hsets⟩

/-- A marker that is there after a small step is the task's own, or it was there before and was not the
task's own. -/
theorem Treads.owner (h : Treads setting (world, t) (world', t')) {path : String} {marker : Marker}
    (hpending : world'.packages.isPending path marker) :
    t'.Loads path marker ∨ world.packages.isPending path marker ∧ ¬ t.Loads path marker := by
  cases h with
  | looks hstage h =>
      rcases h.owner hpending with ⟨rfl, pauses, rfl⟩ | ⟨hbefore, hother⟩
      · exact Or.inl ⟨_, pauses, rfl, rfl⟩
      · refine Or.inr ⟨hbefore, ?_⟩
        rintro ⟨errand, pauses, hloads, rfl⟩
        cases hstage.symm.trans hloads
        exact hother rfl pauses rfl
  | reads hstage =>
      exact Or.inr ⟨hpending, fun ⟨_, _, hloads, _⟩ => by cases hstage.symm.trans hloads⟩
  | takes hstage =>
      exact Or.inr ⟨hpending, fun ⟨_, _, hloads, _⟩ => by cases hstage.symm.trans hloads⟩
  | @arrives _ _ errand result hstage =>
      obtain ⟨sets, hworld⟩ := arrive_world setting world t errand result
      rw [hworld] at hpending
      exact Or.inr ⟨hpending, fun ⟨_, _, hloads, _⟩ => by cases hstage.symm.trans hloads⟩

end Task

/-! ### Crews -/

namespace Crew

/-- Every marker belongs to a task under way that is loading. -/
def Owned (s : Crew) : Prop :=
  ∀ path marker, s.world.packages.isPending path marker → ∃ t ∈ s.underWay, t.Loads path marker

variable {setting : Setting} {workers : Nat} {turn : Turn} {s s' : Crew} {t t' : Task}
  {rest : Multiset Task} {world : World}

/-- Some small steps of one task. -/
theorem Owned.treads (h : s.Owned) (ht : s.underWay = t ::ₘ rest)
    (htreads : Relation.ReflTransGen (Task.Treads setting) (s.world, t) (world, t')) :
    ({ s with world, underWay := t' ::ₘ rest } : Crew).Owned := by
  have happly : ∀ x, Relation.ReflTransGen (Task.Treads setting) (s.world, t) x →
      ({ s with world := x.1, underWay := x.2 ::ₘ rest } : Crew).Owned := by
    intro x hx
    induction hx with
    | refl =>
        intro path marker hpending
        rw [← ht]
        exact h path marker hpending
    | @tail b x _ hstep ih =>
        intro path marker hpending
        rcases hstep.owner hpending with hloads | ⟨hbefore, hother⟩
        · exact ⟨x.2, Multiset.mem_cons_self _ _, hloads⟩
        · -- the marker belongs to a task that has not moved
          obtain ⟨u, hu, hloads⟩ := ih path marker hbefore
          rcases Multiset.mem_cons.1 hu with rfl | hu
          · exact absurd hloads hother
          · exact ⟨u, Multiset.mem_cons_of_mem hu, hloads⟩
  exact happly (world, t') htreads

theorem Owned.move (h : s.Owned) (hmove : Move setting workers turn s s') : s'.Owned := by
  cases hmove with
  | start =>
      intro path marker hpending
      obtain ⟨u, hu, hloads⟩ := h path marker hpending
      exact ⟨u, Multiset.mem_cons_of_mem hu, hloads⟩
  | @advance _ t rest delay _ ht => exact h.treads ht (Task.step_treads _ _ _)
  | @deliver _ t rest result _ ht hr =>
      intro path marker hpending
      obtain ⟨u, hu, hloads⟩ := h path marker hpending
      rw [ht, Multiset.mem_cons] at hu
      rcases hu with rfl | hu
      · exact absurd hr (by simp [hloads.isOpen])
      · exact ⟨u, hu, hloads⟩
  | fire => exact h
  | stop => exact h

end Crew

theorem Moves.owned {setting : Setting} {workers : Nat} {turns : List Turn} {s s' : Crew}
    (h : s.Owned) (hmoves : Moves setting workers turns s s') : s'.Owned := by
  induction hmoves with
  | nil => exact h
  | cons hmove _ ih => exact ih (h.move hmove)

end Wiring
