/-
**What a run knows comes from its loader.**

A run takes its packages from nowhere but the answers of its loader, and a lookup does not care what sets
have been kept.  So two worlds that differ in their kept sets only stay like that, as long as both keep
nothing but sets of packages that have been served: whatever a task asks of either of them, the answer is
the same.

Main definitions:

* `Wiring.Loader.Draws` — all packages that a loader answers with are of a certain kind;
* `Wiring.PackageCache.Drawn`, `Wiring.Lookup.Drawn`, `Wiring.Task.Drawn` — so are those that a run has at
  hand;
* `Wiring.World.Alike` — two worlds that differ in their kept sets only;
* `Wiring.Task.TakesAnew` — a task takes out of a package what the package itself has to say.

Main results:

* `Wiring.Lookup.poll_withSets` — a lookup does not care what sets have been kept;
* `Wiring.Task.step_alike` — **a task goes on alike in two such worlds, and they stay alike**.
-/

import Wiring.Proofs.Run.KeptSets
import Wiring.Proofs.Run.Outset
import Wiring.Proofs.Run.Tasks

set_option autoImplicit false

namespace Wiring

/-- All packages that a loader answers with are of a certain kind. -/
def Loader.Draws (loader : Loader) (given : Package → Prop) : Prop :=
  ∀ request cancelled, ∀ p ∈ (loader.answer request cancelled).1.packages, given p

/-! ### Packages in slots -/

/-- All packages in the slots are of a certain kind. -/
def PackageCache.Drawn (given : Package → Prop) (cache : PackageCache) : Prop :=
  ∀ path p, cache.slots.get? path = some (.ready p) → given p

namespace PackageCache

variable {given : Package → Prop} {cache after : PackageCache} {path : String}

theorem drawn_empty {isLazy : Bool} : ({ isLazy } : PackageCache).Drawn given := by
  intro path p h
  cases h

/-- Anything may be written to a slot except a package of another kind. -/
theorem Drawn.put (h : cache.Drawn given) {slot : PackageSlot}
    (hslot : ∀ p, slot = .ready p → given p) (hafter : after.slots = cache.slots.put path slot) :
    after.Drawn given := by
  intro q p hq
  rw [hafter, Table.get?_put] at hq
  by_cases hpath : q = path
  · rw [if_pos hpath, Option.some.injEq] at hq
    exact hslot p hq
  · rw [if_neg hpath] at hq
    exact h q p hq

theorem Drawn.release (h : cache.Drawn given) (marker : Marker) :
    (cache.release path marker).Drawn given := by
  unfold PackageCache.release
  split
  · intro q p hq
    rw [Table.get?_erase] at hq
    split at hq
    · cases hq
    · exact h q p hq
  · exact h

theorem Drawn.seed (h : cache.Drawn given) {o : LoadOutcome} (ho : ∀ p ∈ o.packages, given p) :
    (cache.seed o).Drawn given := by
  intro path p hslot
  rcases seed_cases hslot with hslot | ⟨q, hq, -, heq⟩ | ⟨e, -, -, heq⟩
  · exact h path p hslot
  · cases heq
    exact ho p hq
  · cases heq

end PackageCache

/-! ### Lookups -/

/-- A package that a lookup has found is of a certain kind. -/
def Lookup.Drawn (given : Package → Prop) (lookup : Lookup) : Prop :=
  ∀ p, lookup = .done (.ok p) → given p

/-- Changes the kept sets. -/
def World.withSets (world : World) (sets : SetCache) : World :=
  { world with sets }

namespace Lookup

variable {given : Package → Prop} {site : LoadSite} {world : World} {path : String}
  {lookup : Lookup}

/-- Where a step of a lookup leads there are only packages of a certain kind. -/
def Keeps (given : Package → Prop) (after : World × Lookup) : Prop :=
  after.1.packages.Drawn given ∧ after.2.Drawn given

theorem keeps_beginLoad (h : world.packages.Drawn given) (marker : Marker) :
    Keeps given (beginLoad site world path marker) := by
  unfold beginLoad
  split
  · exact ⟨h.release marker, nofun⟩
  · exact ⟨h, nofun⟩

theorem keeps_enter (h : world.packages.Drawn given) (hl : lookup.Drawn given) :
    Keeps given (enter site world path lookup) := by
  unfold enter PackageCache.claim
  cases lookup with
  | start =>
      cases hslot : world.packages.slots.get? path with
      | none =>
          by_cases hlazy : world.packages.isLazy = true
          · have hdrawn : PackageCache.Drawn given
                { world.packages with
                  slots := world.packages.slots.put path (.pending world.packages.nextMarker)
                  nextMarker := world.packages.nextMarker + 1 } := h.put (fun p hp => by cases hp) rfl
            simp only [hlazy, if_true]
            exact keeps_beginLoad hdrawn _
          · simp only [hlazy]
            exact ⟨h, nofun⟩
      | some slot =>
          cases slot with
          | pending marker => exact ⟨h, nofun⟩
          | failed failure => exact ⟨h, nofun⟩
          | ready pkg =>
              refine ⟨h, ?_⟩
              intro p hp
              cases hp
              exact h path pkg hslot
  | asleep marker => exact ⟨h, hl⟩
  | loading marker pauses => exact ⟨h, hl⟩
  | done result => exact ⟨h, hl⟩

/-- What a load finds is among the packages that the loader has answered with. -/
theorem keeps_endLoad (hdraws : site.loader.Draws given) (h : world.packages.Drawn given)
    (marker : Marker) : Keeps given (endLoad site world path marker) := by
  have houtcome := hdraws (site.requestFor path) world.cancelled
  unfold endLoad World.call
  dsimp only
  split
  next pkg hverdict =>
    have hpkg : given pkg :=
      houtcome pkg (List.mem_of_find?_eq_some (PackageCache.verdict_eq_found_iff.1 hverdict))
    refine ⟨h.put ?_ rfl, ?_⟩
    · intro p hp
      cases hp
      exact hpkg
    · intro p hp
      cases hp
      exact hpkg
  · exact ⟨h.release marker, nofun⟩
  · exact ⟨h.put (fun p hp => by cases hp) rfl, nofun⟩

theorem keeps_proceed (hdraws : site.loader.Draws given) (h : world.packages.Drawn given)
    (hl : lookup.Drawn given) : Keeps given (proceed site world path lookup) := by
  unfold proceed
  split
  · exact keeps_endLoad hdraws h _
  · exact ⟨h, nofun⟩
  · exact ⟨h, hl⟩

theorem drawn_wake (hl : lookup.Drawn given) : (lookup.wake world path).Drawn given := by
  unfold wake
  split
  · split
    · exact hl
    · exact nofun
  · exact hl

/-- **A lookup finds nothing that the loader has not answered with.** -/
theorem keeps_poll (hdraws : site.loader.Draws given) (h : world.packages.Drawn given)
    (hl : lookup.Drawn given) : Keeps given (poll site world path lookup) := by
  have henter : Keeps given (enter site world path (lookup.wake world path)) :=
    keeps_enter h (drawn_wake hl)
  exact keeps_proceed hdraws henter.1 henter.2

/-! ### Kept sets do not matter -/

variable {sets : SetCache}

theorem beginLoad_withSets (world : World) (marker : Marker) :
    beginLoad site (world.withSets sets) path marker =
      ((beginLoad site world path marker).1.withSets sets,
        (beginLoad site world path marker).2) := by
  unfold beginLoad
  rw [show (world.withSets sets).cancelled = world.cancelled from rfl]
  split <;> rfl

theorem enter_withSets :
    enter site (world.withSets sets) path lookup =
      ((enter site world path lookup).1.withSets sets, (enter site world path lookup).2) := by
  unfold enter
  cases lookup with
  | start =>
      rw [show (world.withSets sets).packages = world.packages from rfl]
      rcases world.packages.claim path with ⟨packages, result | marker | marker⟩
      · rfl
      · rfl
      · exact beginLoad_withSets (world.withPackages packages) marker
  | asleep marker => rfl
  | loading marker pauses => rfl
  | done result => rfl

theorem proceed_withSets :
    proceed site (world.withSets sets) path lookup =
      ((proceed site world path lookup).1.withSets sets, (proceed site world path lookup).2) := by
  unfold proceed
  split
  · unfold endLoad World.call
    simp only [World.withPackages, World.withSets]
    split <;> rfl
  · rfl
  · rfl

/-- A lookup does not care what sets have been kept. -/
theorem poll_withSets (sets : SetCache) :
    poll site (world.withSets sets) path lookup =
      ((poll site world path lookup).1.withSets sets, (poll site world path lookup).2) := by
  have hwake : lookup.wake (world.withSets sets) path = lookup.wake world path := rfl
  unfold poll
  rw [hwake, enter_withSets]
  exact proceed_withSets

end Lookup

/-! ### Two worlds -/

/-- Two worlds that differ in their kept sets only.  All packages that they have at hand have been served,
and so have those that the kept sets were extracted from. -/
structure World.Alike (served : Package → Disk → Prop) (disk : Disk) (a b : World) : Prop where
  same : b = a.withSets b.sets
  packages : a.packages.Drawn fun p => served p disk
  left : a.sets.Sound served
  right : b.sets.Sound served

namespace World.Alike

variable {served : Package → Disk → Prop} {disk : Disk} {a b : World}

theorem symm (h : a.Alike served disk b) : b.Alike served disk a := by
  have hback : a = b.withSets a.sets := by
    rw [h.same]
    rfl
  refine ⟨hback, ?_, h.right, h.left⟩
  rw [h.same]
  exact h.packages

theorem cancelled_eq (h : a.Alike served disk b) : a.cancelled = b.cancelled := by
  rw [h.same]
  rfl

theorem packages_eq (h : a.Alike served disk b) : a.packages = b.packages := by
  rw [h.same]
  rfl

/-- Two worlds stay alike when both change in the same way, kept sets apart. -/
theorem congr (h : a.Alike served disk b) {a' b' : World} (hleft : a'.sets = a.sets)
    (hright : b' = a'.withSets b.sets) (hpackages : a'.packages.Drawn fun p => served p disk) :
    a'.Alike served disk b' := by
  subst hright
  exact ⟨rfl, hpackages, hleft ▸ h.left, h.right⟩

/-- Two worlds stay alike when other sound sets are kept. -/
theorem keep (h : a.Alike served disk b) {sets sets' : SetCache} (hsets : sets.Sound served)
    (hsets' : sets'.Sound served) : (a.withSets sets).Alike served disk (b.withSets sets') := by
  rw [h.same]
  exact ⟨rfl, h.packages, hsets, hsets'⟩

theorem fire (h : a.Alike served disk b) (fires : Bool) :
    (a.fire fires).Alike served disk (b.fire fires) := by
  refine h.congr rfl ?_ h.packages
  rw [h.same]
  rfl

/-- The loader answers alike in both. -/
theorem call (h : a.Alike served disk b) (loader : Loader) (request : LoadRequest) :
    (a.call loader request).1.Alike served disk (b.call loader request).1 ∧
      (a.call loader request).2 = (b.call loader request).2 := by
  rw [h.same]
  exact ⟨h.congr rfl rfl h.packages, rfl⟩

theorem withPackages (h : a.Alike served disk b) {packages : PackageCache}
    (hpackages : packages.Drawn fun p => served p disk) :
    (a.withPackages packages).Alike served disk (b.withPackages packages) := by
  rw [h.same]
  exact h.congr rfl rfl hpackages

/-- A lookup goes on alike in both. -/
theorem poll (h : a.Alike served disk b) {site : LoadSite} (path : String) {lookup : Lookup}
    (hdraws : site.loader.Draws fun p => served p disk) (hl : lookup.Drawn fun p => served p disk) :
    (lookup.poll site a path).1.Alike served disk (lookup.poll site b path).1 ∧
      (lookup.poll site a path).2 = (lookup.poll site b path).2 := by
  have hsets : (lookup.poll site a path).1.sets = a.sets :=
    congrArg (fun after : World × Lookup => after.1.sets) (Lookup.poll_withSets a.sets)
  have hpoll : lookup.poll site b path =
      ((lookup.poll site a path).1.withSets b.sets, (lookup.poll site a path).2) := by
    rw [h.same]
    exact Lookup.poll_withSets b.sets
  rw [hpoll]
  exact ⟨h.congr hsets rfl (Lookup.keeps_poll hdraws h.packages hl).1, rfl⟩

end World.Alike

/-! ### Tasks -/

/-- A package that a task has found is of a certain kind. -/
def Task.Drawn (given : Package → Prop) (t : Task) : Prop :=
  ∀ errand lookup, t.stage = .fetching errand lookup → lookup.Drawn given

/-- What a task takes out of a package that it has found is what the package itself has to say. -/
def Task.TakesAnew (setting : Setting) (world : World) (t : Task) : Prop :=
  ∀ errand pkg, t.stage = .fetching errand (.done (.ok pkg)) →
    (extractFrom setting world errand pkg).2 = some (pkg.supply errand)

namespace Task

variable {served : Package → Disk → Prop} {given : Package → Prop} {setting : Setting}
  {world a b : World} {t : Task}

theorem drawn_open (t : Task) : t.open.Drawn given :=
  fun _ _ h => absurd h t.not_fetching_open

theorem drawn_takeNext (h : t.stage = .collecting) : (t.takeNext setting).Drawn given := by
  intro errand lookup hstage
  rw [start_of_takeNext h hstage]
  exact nofun

theorem drawn_receive (t : Task) (answer : Except Failure ProviderSet) :
    (t.receive answer).Drawn given :=
  fun _ _ h => absurd h (t.not_fetching_receive answer)

/-- No set is taken from an older version of a package. -/
theorem Drawn.takesAnew (ht : t.Drawn fun p => served p setting.disk)
    (hsound : world.sets.Sound served) (htell : Telling served) : t.TakesAnew setting world := by
  intro errand pkg hstage
  have hpkg : served pkg setting.disk := ht errand _ hstage pkg rfl
  obtain ⟨sets, -, heq⟩ := extractFrom_eq hsound htell hpkg errand
  rw [heq]

/-- **A task goes on alike in two worlds that differ in their kept sets only**, and they stay alike. -/
theorem step_alike (htell : Telling served)
    (hdraws : setting.site.loader.Draws fun p => served p setting.disk)
    (h : a.Alike served setting.disk b) (ht : t.Drawn fun p => served p setting.disk) :
    (t.step setting a).1.Alike served setting.disk (t.step setting b).1 ∧
      (t.step setting a).2 = (t.step setting b).2 ∧
      (t.step setting a).2.1.Drawn fun p => served p setting.disk := by
  cases hstage : t.stage with
  | opening =>
      rw [step_of_opening hstage, step_of_opening hstage]
      exact ⟨h, rfl, drawn_open t⟩
  | collecting =>
      rw [step_of_collecting hstage, step_of_collecting hstage]
      exact ⟨h, rfl, drawn_takeNext hstage⟩
  | fetching errand lookup =>
      have hlookup := ht errand lookup hstage
      by_cases hdone : ∃ result, lookup = .done result
      · obtain ⟨result, rfl⟩ := hdone
        have hresult : ∀ pkg, result = .ok pkg → served pkg setting.disk :=
          fun pkg hr => hlookup pkg (congrArg _ hr)
        -- either world answers like an extraction of the task's own
        obtain ⟨sets, hsets, heq⟩ := arrive_eq h.left htell hresult t errand
        obtain ⟨sets', hsets', heq'⟩ := arrive_eq h.right htell hresult t errand
        rw [step_of_done hstage, step_of_done hstage, heq, heq']
        exact ⟨h.keep hsets hsets', rfl, drawn_receive t _⟩
      · have hlooking : ∀ r, lookup ≠ .done r := fun r hr => hdone ⟨r, hr⟩
        obtain ⟨halike, hsame⟩ := h.poll errand.id.pkg hdraws hlookup
        rw [step_of_looking hstage hlooking, step_of_looking hstage hlooking, hsame]
        refine ⟨halike, rfl, ?_⟩
        intro errand' lookup' hstage'
        cases hstage'
        exact hsame ▸ (Lookup.keeps_poll hdraws h.packages hlookup).2
  | closed result =>
      have hresult : t.result? = some result := by rw [result?, hstage]
      rw [step_of_result hresult, step_of_result hresult]
      exact ⟨h, rfl, ht⟩

end Task

end Wiring
