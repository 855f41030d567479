/-
**The start of a run.**

Before the first task is started the cache of packages is filled, by an eager run with everything that
the roots import, directly or not, and by a lazy one with the roots alone.  Either way every package that
the run can reach is there or can be loaded, and so a run that nobody cancels starts as it will go on.

Main definitions:

* `Wiring.LoadOutcome.Right` — a loader's answer agrees with the collection.

Main results:

* `Wiring.PackageCache.get?_seed` — what a slot holds after seeding;
* `Wiring.Collection.ServedAt.loadImports` — what an eager run loads is all that it can reach;
* `Wiring.Crew.steady_outset` — what holds throughout a run holds at its start.
-/

import Wiring.Proofs.Run.Crews

set_option autoImplicit false

namespace Wiring

/-! ### Seeding -/

namespace Table

variable {κ α β : Type} [DecidableEq κ]

/-- A key that has a value keeps it. -/
theorem get?_putNew (t : Table κ α) (key other : κ) (value : α) :
    (t.putNew key value).get? other =
      (t.get? other).or (if other = key then some value else none) := by
  have hcontains : t.contains key = (t.get? key).isSome := by
    rw [contains, get?, Option.isSome_map, List.isSome_find?]
  unfold putNew
  by_cases hkey : t.contains key
  · rw [if_pos hkey]
    rw [hcontains] at hkey
    by_cases h : other = key
    · obtain ⟨old, hold⟩ := Option.isSome_iff_exists.1 hkey
      rw [h, hold]
      rfl
    · rw [if_neg h, Option.or_none]
  · rw [if_neg hkey, get?_put]
    rw [hcontains, Bool.not_eq_true, Option.isSome_eq_false_iff, Option.isNone_iff_eq_none] at hkey
    by_cases h : other = key
    · rw [if_pos h, if_pos h, h, hkey]
      rfl
    · rw [if_neg h, if_neg h, Option.or_none]

/-- Of several values for a key that has none the first one counts. -/
theorem get?_foldl_putNew (xs : List β) (key : β → κ) (value : β → α) (t : Table κ α) (other : κ) :
    (xs.foldl (fun (t : Table κ α) x => t.putNew (key x) (value x)) t).get? other =
      (t.get? other).or ((xs.find? fun x => key x = other).map value) := by
  induction xs generalizing t with
  | nil => rw [List.foldl_nil, List.find?_nil, Option.map_none, Option.or_none]
  | cons x xs ih =>
      rw [List.foldl_cons, ih, get?_putNew, Option.or_assoc]
      congr 1
      by_cases h : key x = other
      · rw [List.find?_cons_of_pos (by simpa using h), if_pos h.symm]
        rfl
      · rw [List.find?_cons_of_neg (by simpa using h), if_neg fun he => h he.symm]
        rfl

end Table

/-- Every package and every error of a loader's answer is what the collection says. -/
structure LoadOutcome.Right (c : Collection) (o : LoadOutcome) : Prop where
  packages : ∀ p ∈ o.packages, c.answer p.path = .ok p
  errors : ∀ e ∈ o.errors, c.answer e.pkg = .error e.toFailure

namespace PackageCache

variable {c : Collection} {cache : PackageCache} {o : LoadOutcome} {path : String}

/-- A slot that is empty before seeding gets the package, or else the error. -/
theorem get?_seed (cache : PackageCache) (o : LoadOutcome) (path : String) :
    (cache.seed o).slots.get? path =
      ((cache.slots.get? path).or
        ((o.packages.find? fun p => p.path = path).map PackageSlot.ready)).or
        ((o.errors.find? fun e => e.pkg = path).map fun e => .failed e.toFailure) := by
  rw [← Table.get?_foldl_putNew, ← Table.get?_foldl_putNew]
  rfl

/-- What a slot holds after seeding it has held before, or it came with a package or an error of its path. -/
theorem seed_cases {slot : PackageSlot} (h : (cache.seed o).slots.get? path = some slot) :
    cache.slots.get? path = some slot ∨ (∃ p ∈ o.packages, p.path = path ∧ slot = .ready p) ∨
      ∃ e ∈ o.errors, e.pkg = path ∧ slot = .failed e.toFailure := by
  rw [get?_seed, Option.or_eq_some_iff, Option.or_eq_some_iff] at h
  rcases h with (hslot | ⟨-, hslot⟩) | ⟨-, hslot⟩
  · exact .inl hslot
  · obtain ⟨p, hp, rfl⟩ := Option.map_eq_some_iff.1 hslot
    exact .inr (.inl ⟨p, List.mem_of_find?_eq_some hp, by simpa using List.find?_some hp, rfl⟩)
  · obtain ⟨e, he, rfl⟩ := Option.map_eq_some_iff.1 hslot
    exact .inr (.inr ⟨e, List.mem_of_find?_eq_some he, by simpa using List.find?_some he, rfl⟩)

/-- Every slot holds what the collection says, and nobody is loading. -/
def Idle (c : Collection) (cache : PackageCache) : Prop :=
  ∀ path slot, cache.slots.get? path = some slot → slot = .holding (c.answer path)

theorem Idle.seed (h : cache.Idle c) (ho : o.Right c) : (cache.seed o).Idle c := by
  intro path slot hslot
  rcases seed_cases hslot with hslot | ⟨p, hp, rfl, rfl⟩ | ⟨e, he, rfl, rfl⟩
  · exact h path slot hslot
  · rw [ho.packages p hp]
    rfl
  · rw [ho.errors e he]
    rfl

theorem get?_seed_of_answers (h : o.Answers path ∨ ∃ slot, cache.slots.get? path = some slot) :
    ∃ slot, (cache.seed o).slots.get? path = some slot := by
  rw [← Option.isSome_iff_exists, get?_seed, Option.isSome_or, Option.isSome_or, Option.isSome_map,
    Option.isSome_map, List.isSome_find?, List.isSome_find?]
  rcases h with (⟨p, hp, hpath⟩ | ⟨e, he, hpath⟩) | ⟨slot, hslot⟩
  · have hany : o.packages.any (fun p => p.path = path) = true :=
      List.any_eq_true.2 ⟨p, hp, by simpa using hpath⟩
    simp [hany]
  · have hany : o.errors.any (fun e => e.pkg = path) = true :=
      List.any_eq_true.2 ⟨e, he, by simpa using hpath⟩
    simp [hany]
  · simp [hslot]

end PackageCache

/-! ### Loading imports -/

theorem mem_missingImports {packages : List Package} {path : String} :
    path ∈ missingImports packages ↔
      (∃ p ∈ packages, path ∈ p.imports) ∧ ∀ p ∈ packages, p.path ≠ path := by
  unfold missingImports
  simp [List.mem_mergeSort, List.mem_eraseDups]

namespace Collection

variable {c : Collection} {input : RunInput} {world : World} {roots : LoadOutcome}

/-- What a loader answers is right. -/
theorem ServedAt.right {site : LoadSite} (h : c.ServedAt site) {request : LoadRequest}
    (hasks : site.Asks request) : (site.loader.answer request false).1.Right c :=
  ⟨h.packages request hasks, h.errors request hasks⟩

end Collection

namespace LoadOutcome.Right

variable {c : Collection} {o : LoadOutcome} {p : Package} {path : String}

/-- What there is to say about the path of a package is the package. -/
theorem mem_of_answers (h : o.Right c) (ho : o.Answers p.path) (hp : c.answer p.path = .ok p) :
    p ∈ o.packages := by
  rcases ho with ⟨q, hq, hpath⟩ | ⟨e, he, hpath⟩
  · have hanswer := h.packages q hq
    rw [hpath, hp, Except.ok.injEq] at hanswer
    rwa [hanswer]
  · have hanswer := h.errors e he
    rw [hpath, hp] at hanswer
    cases hanswer

/-- An import of a root is a root or missing. -/
theorem answers_import (h : o.Right c) (ho : o.Answers p.path) (hp : c.answer p.path = .ok p)
    (hi : path ∈ p.imports) : o.Answers path ∨ path ∈ missingImports o.packages := by
  by_cases hroot : ∃ q ∈ o.packages, q.path = path
  · exact Or.inl (Or.inl hroot)
  · right
    rw [mem_missingImports]
    exact ⟨⟨p, h.mem_of_answers ho hp, hi⟩, fun q hq hpath => hroot ⟨q, hq, hpath⟩⟩

end LoadOutcome.Right

namespace Collection

variable {c : Collection} {input : RunInput} {world : World} {roots : LoadOutcome}

/-- A call of the loader in a run that nobody cancels. -/
theorem ServedAt.call_eq {site : LoadSite} (h : c.ServedAt site) (hlive : world.cancelled = false)
    {request : LoadRequest} (hasks : site.Asks request) :
    world.call site.loader request =
      ({ world with calls := world.calls ++ [⟨request, false⟩] },
        (site.loader.answer request false).1) := by
  have hlasting := h.lasting request hasks
  obtain ⟨packages, sets, cancelled, calls⟩ := world
  subst hlive
  simp only [World.call, hlasting]

/-- **What an eager run loads before it starts is all that it can reach.** -/
theorem ServedAt.loadImports (h : c.ServedAt input.site) (hlive : world.cancelled = false)
    (hroots : roots.Right c) :
    ∃ calls deps, Wiring.loadImports input world roots.packages = ({ world with calls }, deps) ∧
      deps.Right c ∧
      ∀ path, c.Within roots.packages path → roots.Answers path ∨ deps.Answers path := by
  unfold Wiring.loadImports
  cases himports : missingImports roots.packages with
  | nil =>
      refine ⟨world.calls, {}, rfl, ⟨nofun, nofun⟩, ?_⟩
      intro path hpath
      left
      induction hpath with
      | root hp => exact Or.inl ⟨_, hp, rfl⟩
      | further _ hp hi ih =>
          refine (hroots.answers_import ih hp hi).resolve_right ?_
          rw [himports]
          exact List.not_mem_nil
  | cons first rest =>
      let request : LoadRequest :=
        { input.rootRequest with patterns := first :: rest, mode := .withDeps }
      have hasks : input.site.Asks request := ⟨rfl, rfl⟩
      have hcall : world.call input.loader request = _ := h.call_eq hlive hasks
      have hright := h.right hasks
      -- the imports of what the call answers with have been answered too
      have hreached : ∀ path, c.Within roots.packages path →
          roots.Answers path ∨ (input.site.loader.answer request false).1.Answers path := by
        intro path hpath
        induction hpath with
        | root hp => exact Or.inl (Or.inl ⟨_, hp, rfl⟩)
        | further hwithin hp hi ih =>
            rcases ih with ih | ih
            · rcases hroots.answers_import ih hp hi with himport | himport
              · exact Or.inl himport
              · rw [himports] at himport
                exact Or.inr (h.named request hasks _ himport ⟨_, (mem_of_answer hp).1, hi⟩)
            · exact Or.inr (h.closed request hasks rfl _ (hright.mem_of_answers ih hp) _ hi)
      dsimp only
      rw [hcall]
      refine ⟨_, _, rfl, ⟨?_, hright.errors⟩, ?_⟩
      · intro p hp
        exact hright.packages p (List.mem_filter.1 hp).1
      · intro path hpath
        rcases hreached path hpath with hanswers | ⟨p, hp, rfl⟩ | herror
        · exact Or.inl hanswers
        · -- a root that was loaded again is left out, but it is there as a root
          by_cases hloaded : p.path ∈ roots.packages.map Package.path
          · obtain ⟨q, hq, hpath⟩ := List.mem_map.1 hloaded
            exact Or.inl (Or.inl ⟨q, hq, hpath⟩)
          · refine Or.inr (Or.inl ⟨p, List.mem_filter.2 ⟨hp, ?_⟩, rfl⟩)
            simpa using hloaded
        · exact Or.inr (Or.inr herror)

/-! ### The start -/

/-- **The cache is filled with what a run needs.**  Nobody is loading yet. -/
theorem ServedAt.fillPackages (h : c.ServedAt input.site) (hlive : world.cancelled = false)
    (hroots : roots.Right c) :
    ∃ packages calls, Wiring.fillPackages input world roots = { world with packages, calls } ∧
      packages.Idle c ∧
      ∀ path, c.Within roots.packages path → (∃ slot, packages.slots.get? path = some slot) ∨
        packages.isLazy = true ∧ c.Imported path := by
  have hempty : ∀ isLazy, ({ isLazy } : PackageCache).Idle c := fun _ _ _ hslot => by cases hslot
  unfold Wiring.fillPackages
  by_cases hlazy : input.strategy.isLazy = true
  · rw [if_pos hlazy]
    refine ⟨_, world.calls, rfl, (hempty true).seed hroots, ?_⟩
    intro path hpath
    rcases hpath.cases with hroot | himported
    · exact Or.inl (PackageCache.get?_seed_of_answers (Or.inl (Or.inl hroot)))
    · exact Or.inr ⟨rfl, himported⟩
  · obtain ⟨calls, deps, heq, hdeps, hreached⟩ := h.loadImports hlive hroots
    rw [if_neg hlazy, heq]
    refine ⟨_, calls, rfl, ((hempty false).seed hroots).seed hdeps, ?_⟩
    intro path hpath
    left
    rcases hreached path hpath with hanswers | hanswers
    · exact PackageCache.get?_seed_of_answers
        (Or.inr (PackageCache.get?_seed_of_answers (Or.inl hanswers)))
    · exact PackageCache.get?_seed_of_answers (Or.inl hanswers)

end Collection

/-! ### The start -/

theorem firstOfEach_subset {met : List String} {packages : List Package} {p : Package}
    (h : p ∈ firstOfEach met packages) : p ∈ packages := by
  induction packages generalizing met with
  | nil => cases h
  | cons q rest ih =>
      unfold firstOfEach at h
      split at h
      · exact List.mem_cons_of_mem _ (ih h)
      · rcases List.mem_cons.1 h with rfl | h
        · exact List.mem_cons_self
        · exact List.mem_cons_of_mem _ (ih h)

/-- The tasks of a run are injectors of root packages, and they are known by their places. -/
theorem getElem?_discover {options : Options} {packages : List Package} {t : Task} {i : Nat}
    (h : (discover options packages)[i]? = some t) :
    t.index = i ∧ t.pkg ∈ packages ∧ t.decl ∈ t.pkg.injectors ∧ t.queue = [] ∧ t.stage = .opening := by
  unfold discover at h
  rw [List.getElem?_mapIdx] at h
  obtain ⟨⟨pkg, decl⟩, hwanted, rfl⟩ := Option.map_eq_some_iff.1 h
  have hmem := List.mem_of_getElem? hwanted
  obtain ⟨root, hroot, hpair⟩ := List.mem_flatMap.1 hmem
  obtain ⟨decl', hdecl, heq⟩ := List.mem_map.1 hpair
  cases heq
  exact ⟨rfl, firstOfEach_subset (List.mem_filter.1 hroot).1, (List.mem_filter.1 hdecl).1, rfl, rfl⟩

theorem of_mem_discover {options : Options} {packages : List Package} {t : Task}
    (h : t ∈ discover options packages) :
    (discover options packages)[t.index]? = some t ∧ t.pkg ∈ packages ∧
      t.decl ∈ t.pkg.injectors ∧ t.queue = [] ∧ t.stage = .opening := by
  obtain ⟨i, hi⟩ := List.mem_iff_getElem?.1 h
  have hspec := getElem?_discover hi
  exact ⟨hspec.1 ▸ hi, hspec.2⟩

/-- **What holds throughout a run holds at its start.** -/
theorem Crew.steady_outset {c : Collection} {input : RunInput} {world : World} {roots : LoadOutcome}
    (h : c.ServedAt input.site) (hlive : world.cancelled = false)
    (hsets : world.sets.Sound fun p _ => c.answer p.path = .ok p) (hroots : roots.Right c) :
    (Crew.outset input world roots).Steady input.setting c roots.packages
      (discover input.options roots.packages) := by
  -- no task has been started yet, so nobody holds a marker and no result has been taken
  obtain ⟨packages, calls, hworld, hidle, hreach⟩ := h.fillPackages hlive hroots
  have hremaining : (Crew.outset input world roots).remaining =
      (discover input.options roots.packages : Multiset Task) := add_zero _
  refine ⟨rfl, ?_, ?_, ?_, nofun, ?_, ?_, ?_⟩
  · rw [outset, hworld]
    exact ⟨hlive, fun path slot hslot => Or.inl (hidle path slot hslot), hreach, hsets⟩
  · intro t ht
    rw [hremaining, Multiset.mem_coe] at ht
    obtain ⟨-, hpkg, hdecl, hqueue, hstage⟩ := of_mem_discover ht
    refine ⟨hroots.packages _ hpkg, .root hpkg, hdecl, ?_, ?_, ?_⟩
    · rw [hqueue]
      exact nofun
    · exact fun _ _ hl => by cases hstage.symm.trans hl
    · exact fun _ _ hl => by cases hstage.symm.trans hl
  · intro t ht
    rw [hremaining, Multiset.mem_coe] at ht
    exact ⟨t, ht, rfl, fun _ hr => hr⟩
  · intro t ht
    refine Or.inl ⟨t, ?_, rfl⟩
    rwa [hremaining, Multiset.mem_coe]
  · intro path marker hpending
    rw [outset, hworld, PackageCache.isPending_iff] at hpending
    exact absurd (hidle path _ hpending).symm (PackageSlot.holding_ne_pending _ _)
  · exact ⟨nofun, fun ⟨_, hreport, _⟩ => absurd hreport (Multiset.notMem_zero _)⟩

end Wiring
