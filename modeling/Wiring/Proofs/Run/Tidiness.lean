/-
**The caches of a run stay tidy.**

A world is tidy when the packages that it keeps are filed under their own paths, and when nothing has come
into its cache of sets but by asking for a set and extracting it from a package.  Then a set that is kept
under an identity has this identity, and a package of its path declares it.

Whatever lookups and tasks do in a tidy world, they leave it tidy.  So a task may count on a tidy world at
every step, whatever the others have done in between.

Main definitions:

* `Wiring.SetId.DeclaredAs` — what a package declares under an identity;
* `Wiring.SetCache.Populated` — the caches of sets that asking and extracting lead to;
* `Wiring.World.Tidy` — the tidy worlds;
* `Wiring.Lookup.Finds` — a lookup finds what it was sent for.

Main results:

* `Wiring.SetCache.Populated.declared_of_getOrExtract` — what a caller is given was declared under the
  identity that it asked for;
* `Wiring.Lookup.poll_tidy`, `Wiring.Task.step_tidy` — lookups and tasks leave a world tidy;
* `Wiring.Moves.tidy` — **so does a run**.
-/

import Wiring.Proofs.Run.Foresight

set_option autoImplicit false

namespace Wiring

/-! ### Sets -/

/-- An extracted set has the identity under which it was asked for. -/
theorem Package.id_of_extractSet {pkg : Package} {name asker : String} {s : ProviderSet}
    (h : pkg.extractSet name asker = .ok s) : s.id = ⟨pkg.path, name⟩ := by
  obtain ⟨decl, -, hid, -⟩ := extractSet_ok_iff.1 h
  exact hid

/-- A package of the path of an identity declares the set, whoever asks for it. -/
def SetId.DeclaredAs (id : SetId) (s : ProviderSet) : Prop :=
  ∃ pkg : Package, pkg.path = id.pkg ∧ ∀ asker, pkg.extractSet id.name asker = .ok s

theorem SetId.DeclaredAs.id_eq {id : SetId} {s : ProviderSet} (h : id.DeclaredAs s) : s.id = id := by
  obtain ⟨pkg, hpath, hset⟩ := h
  rw [Package.id_of_extractSet (hset ""), hpath]

theorem SetId.declaredAs_of_extractSet {pkg : Package} {name asker : String} {s : ProviderSet}
    (h : pkg.extractSet name asker = .ok s) : SetId.DeclaredAs ⟨pkg.path, name⟩ s :=
  ⟨pkg, rfl, pkg.extractSet_ok_congr h⟩

namespace SetCache

/-- The caches of sets that asking and extracting lead to.  Somebody who has been granted a slot may take his
time, so what he has extracted is stored on its own. -/
inductive Populated : SetCache → Prop
  | empty : Populated {}
  | claim {cache : SetCache} (h : Populated cache) (key : SetId) (content : String) :
      Populated (cache.claim key content).1
  | settle {cache : SetCache} (h : Populated cache) (pkg : Package) (name asker : String)
      (marker : Marker) (fingerprint : Fingerprint) :
      Populated (cache.settle ⟨pkg.path, name⟩ marker fingerprint (pkg.extractSet name asker))
  | lookup {cache : SetCache} (h : Populated cache) (disk : Disk) (key : SetId) (files : List Path)
      (fast : Bool) : Populated (cache.lookup disk key files fast).1
  | clear {cache : SetCache} (h : Populated cache) : Populated cache.clear

variable {cache : SetCache} {key : SetId} {kept : KeptSet}

/-- Asking for a set keeps no new one. -/
theorem mem_of_claim {asked : SetId} {content : String}
    (h : (key, .ready kept) ∈ (cache.claim asked content).1.slots.entries) :
    (key, .ready kept) ∈ cache.slots.entries := by
  rcases cache.claim_cases asked content with ⟨_, -, -, heq⟩ | ⟨_, -, heq⟩ | ⟨-, heq⟩ <;> rw [heq] at h
  · exact h
  · exact h
  · exact (Table.mem_put h).resolve_left nofun

/-- A kept set was extracted under its own identity. -/
theorem Populated.declared (h : cache.Populated) (hmem : (key, .ready kept) ∈ cache.slots.entries) :
    key.DeclaredAs kept.set := by
  induction h with
  | empty => cases hmem
  | claim _ _ _ ih => exact ih (mem_of_claim hmem)
  | @settle cache _ pkg name asker marker fingerprint ih =>
      cases hset : pkg.extractSet name asker with
      | ok set =>
          rw [hset] at hmem
          rcases Table.mem_put hmem with heq | hmem
          · cases heq
            exact SetId.declaredAs_of_extractSet hset
          · exact ih hmem
      | error f =>
          rw [hset] at hmem
          simp only [SetCache.settle, abandon] at hmem
          split at hmem
          · exact ih (List.mem_of_mem_filter hmem)
          · exact ih hmem
  | lookup _ disk asked files fast ih =>
      rw [slots_lookup] at hmem
      exact ih hmem
  | clear _ ih => exact ih (List.mem_of_mem_filter hmem)

/-- Asking and extracting at once is one way to populate a cache. -/
theorem Populated.getOrExtract (h : cache.Populated) (pkg : Package) (name asker : String)
    (fingerprint : Fingerprint) :
    (cache.getOrExtract ⟨pkg.path, name⟩ fingerprint (pkg.extractSet name asker)).1.Populated := by
  have hclaimed := h.claim ⟨pkg.path, name⟩ fingerprint.content
  unfold SetCache.getOrExtract
  split
  next after set hclaim =>
    rw [hclaim] at hclaimed
    exact hclaimed
  next after marker hclaim =>
    rw [hclaim] at hclaimed
    exact hclaimed
  next after marker hclaim =>
    rw [hclaim] at hclaimed
    exact hclaimed.settle pkg name asker marker fingerprint

/-- **What a caller is given was declared under the identity that it asked for.** -/
theorem Populated.declared_of_getOrExtract (h : cache.Populated) {pkg : Package} {name asker : String}
    {fingerprint : Fingerprint} {s : ProviderSet}
    (hanswer : (cache.getOrExtract ⟨pkg.path, name⟩ fingerprint (pkg.extractSet name asker)).2 =
      some (.ok s)) : SetId.DeclaredAs ⟨pkg.path, name⟩ s := by
  rw [getOrExtract_snd] at hanswer
  unfold SetSlot.tells at hanswer
  split at hanswer
  next kept hslot =>
    split at hanswer
    · cases hanswer
      exact h.declared (Table.mem_of_get? hslot)
    · exact SetId.declaredAs_of_extractSet (Option.some_inj.1 hanswer)
  · cases hanswer
  · exact SetId.declaredAs_of_extractSet (Option.some_inj.1 hanswer)

end SetCache

/-! ### Worlds -/

/-- The packages are filed under their own paths, and the sets have all been extracted from packages. -/
structure World.Tidy (world : World) : Prop where
  addressed : world.Addressed
  sets : world.sets.Populated

/-- A call of the loader changes no set. -/
theorem World.sets_of_call {world opened : World} {loader : Loader} {request : LoadRequest}
    {outcome : LoadOutcome} (h : world.call loader request = (opened, outcome)) :
    opened.sets = world.sets := by
  rw [show opened = (world.call loader request).1 by rw [h]]
  rfl

/-- Nothing but the two caches matters. -/
theorem World.Tidy.congr {world changed : World} (h : world.Tidy)
    (hpackages : ∀ path pkg, changed.packages.slots.get? path = some (.ready pkg) →
      world.packages.slots.get? path = some (.ready pkg) ∨ pkg.path = path)
    (hsets : changed.sets = world.sets) : changed.Tidy := by
  refine ⟨fun path pkg hpkg => ?_, hsets ▸ h.sets⟩
  exact (hpackages path pkg hpkg).elim (h.addressed path pkg) id

namespace Lookup

variable {site : LoadSite} {path : String} {world world' : World} {lookup lookup' : Lookup}

/-- A lookup that is done with a package has found the one that it was sent for. -/
def Finds (path : String) (lookup : Lookup) : Prop :=
  ∀ pkg, lookup = .done (.ok pkg) → pkg.path = path

/-- A small step of a lookup leaves the world tidy and finds what it was sent for. -/
theorem Treads.tidy (h : Treads site path (world, lookup) (world', lookup')) (hw : world.Tidy) :
    world'.Tidy ∧ lookup'.Finds path := by
  cases h with
  | wakes => exact ⟨hw, by simp [Finds]⟩
  | @finds _ result hslot =>
      refine ⟨hw, ?_⟩
      rintro pkg heq
      cases heq
      exact hw.addressed path pkg hslot
  | lacks => exact ⟨hw, by simp [Finds]⟩
  | sleeps => exact ⟨hw, by simp [Finds]⟩
  | begins =>
      refine ⟨hw.congr (fun q pkg hpkg => ?_) rfl, by simp [Finds]⟩
      simp only [World.withPackages, PackageCache.granted, Table.get?_put] at hpkg
      split at hpkg
      · cases hpkg
      · exact Or.inl hpkg
  | refused hslot hlazy =>
      refine ⟨hw.congr (fun q pkg hpkg => ?_) rfl, by simp [Finds]⟩
      simp only [World.withPackages] at hpkg
      rw [PackageCache.get?_refused hslot hlazy] at hpkg
      exact Or.inl hpkg
  | pauses => exact ⟨hw, by simp [Finds]⟩
  | @settles _ opened outcome _ result hcall hverdict =>
      have hfound : ∀ pkg, result = .ok pkg → pkg.path = path := by
        rintro pkg rfl
        exact PackageCache.path_of_verdict hverdict
      have hsets : opened.sets = world.sets := World.sets_of_call hcall
      refine ⟨hw.congr (fun q pkg hpkg => ?_) hsets, fun pkg heq => ?_⟩
      · simp only [World.withPackages, PackageCache.settle, Table.get?_put] at hpkg
        split at hpkg
        next hq =>
          cases result with
          | ok found =>
              cases hpkg
              rw [hq]
              exact Or.inr (hfound _ rfl)
          | error f => cases hpkg
        · exact Or.inl hpkg
      · cases heq
        exact hfound pkg rfl
  | @yields _ opened outcome marker hcall _ =>
      have hsets : opened.sets = world.sets := World.sets_of_call hcall
      refine ⟨hw.congr (fun q pkg hpkg => ?_) hsets, by simp [Finds]⟩
      simp only [World.withPackages] at hpkg
      by_cases hq : q = path
      · subst hq
        rcases @PackageCache.get?_release_self world.packages q marker with hnone | ⟨hsame, -⟩
        · rw [hnone] at hpkg
          cases hpkg
        · rw [hsame] at hpkg
          exact Or.inl hpkg
      · rw [PackageCache.get?_release_of_ne hq] at hpkg
        exact Or.inl hpkg

/-- Polling a lookup leaves the world tidy and finds what it was sent for. -/
theorem poll_tidy (hw : world.Tidy) (h : lookup.Finds path) :
    (poll site world path lookup).1.Tidy ∧ (poll site world path lookup).2.Finds path := by
  have happly : ∀ x, Relation.ReflTransGen (Treads site path) (world, lookup) x →
      x.1.Tidy ∧ x.2.Finds path := by
    intro x hx
    induction hx with
    | refl => exact ⟨hw, h⟩
    | tail _ hstep ih => exact hstep.tidy ih.1
  exact happly _ (poll_treads lookup)

end Lookup

namespace Task

variable {setting : Setting} {world world' : World} {t t' : Task} {errand : Errand} {pkg : Package}

/-- Asking for a set leaves the world tidy. -/
theorem extractFrom_tidy (hw : world.Tidy) : (extractFrom setting world errand pkg).1.Tidy := by
  rcases extractFrom_cases setting world errand pkg with
    ⟨-, heq⟩ | ⟨-, ⟨-, heq⟩ | ⟨sets, answer, -, hkept, heq⟩⟩ <;> rw [heq]
  · exact hw
  · exact hw
  · obtain rfl := congrArg Prod.fst hkept
    exact ⟨hw.addressed, hw.sets.getOrExtract pkg errand.id.name errand.referencedFrom _⟩

/-- What a task is given for an errand is declared as such. -/
theorem declared_of_extractFrom (hw : world.Tidy) (hpath : pkg.path = errand.id.pkg) {s : ProviderSet}
    (h : (extractFrom setting world errand pkg).2 = some (.ok s)) : errand.id.DeclaredAs s := by
  have hid : (⟨pkg.path, errand.id.name⟩ : SetId) = errand.id := by rw [hpath]
  rw [extractFrom_snd] at h
  split at h
  · split at h
    · rw [← hid]
      exact hw.sets.declared_of_getOrExtract h
    · rw [← hid]
      exact SetId.declaredAs_of_extractSet (Option.some_inj.1 h)
  · cases h

/-- A small step of a task leaves the world tidy. -/
theorem Treads.tidy (h : Treads setting (world, t) (world', t')) (hw : world.Tidy) : world'.Tidy := by
  cases h with
  | looks _ h => exact (h.tidy hw).1
  | reads => exact hw
  | takes => exact hw
  | @arrives _ _ errand result _ =>
      cases result with
      | error f => exact hw
      | ok pkg =>
          rw [arrive_ok_world]
          exact extractFrom_tidy hw

/-- **A step of a task leaves the world tidy.** -/
theorem step_tidy (hw : world.Tidy) : (t.step setting world).1.Tidy := by
  have happly : ∀ x, Relation.ReflTransGen (Treads setting) (world, t) x → x.1.Tidy := by
    intro x hx
    induction hx with
    | refl => exact hw
    | tail _ hstep ih => exact hstep.tidy ih
  exact happly _ (step_treads setting world t)

end Task

/-! ### Runs -/

variable {setting : Setting} {workers : Nat} {turn : Turn} {turns : List Turn} {s s' : Crew}

theorem Move.tidy (h : s.world.Tidy) (hmove : Move setting workers turn s s') : s'.world.Tidy := by
  cases hmove with
  | start => exact h
  | advance => exact Task.step_tidy h
  | deliver => exact h
  | fire => exact h.congr (fun _ _ hpkg => Or.inl hpkg) rfl
  | stop => exact h

/-- **A run leaves its world tidy.** -/
theorem Moves.tidy (h : s.world.Tidy) (hmoves : Moves setting workers turns s s') : s'.world.Tidy := by
  induction hmoves with
  | nil => exact h
  | cons hmove _ ih => exact ih (hmove.tidy h)

end Wiring
