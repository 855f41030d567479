/-
**Loading by need.**

A lazy run loads what its injectors touch.  An injector touches the sets that it refers to, and every set that
one of these refers to, if that one can be had; it makes no difference that another of its sets cannot be had,
or that nothing comes of the injector in the end.  Of the packages of these sets the run asks its loader for
those that have not been answered for with the roots, for each of them once, and for no others.

All this is said in terms of what the loader answers and what the packages contain, and so is what the run has
loaded.  The order in which the tasks went on does not show in it.

Main definitions:

* `Wiring.RunInput.Finds` — the package that a lazy run finds at a path;
* `Wiring.RunInput.Touches`, `Wiring.RunInput.Needs` — the sets that its injectors touch, and the packages
  that it has to load for them;
* `Wiring.RunInput.LoadsByNeed` — a run has loaded these.

Main results:

* `Wiring.RunInput.touched_muster_iff` — the sets within reach of the tasks are those that are touched;
* `Wiring.RunInput.loads_by_need` — **every lazy run that is not cancelled loads by need**.
-/

import Wiring.Proofs.Run.CutShort
import Wiring.Proofs.Run.Requests

set_option autoImplicit false

namespace Wiring

/-! ### What is touched -/

/-- The package that a lazy run finds at a path: the one that has come with the roots, or, if there was no
answer about it, the one that comes when it is asked for. -/
inductive RunInput.Finds (input : RunInput) (path : String) (pkg : Package) : Prop
  | root (h : (input.loader.answers input.rootRequest).packageAt path = some pkg)
  | loads (hother : ¬ (input.loader.answers input.rootRequest).Answers path)
      (h : (input.loader.answers (input.site.requestFor path)).packageAt path = some pkg)

/-- The sets that the injectors of a run touch. -/
inductive RunInput.Touches (input : RunInput) (world : World) : SetId → Prop
  /-- A selected injector of a valid root package refers to the set, and its own request can be built. -/
  | asked {pkg : Package} {decl : InjectorDecl} {request : Request} {id : SetId}
      (hpkg : (input.loader.answers input.rootRequest).packageAt pkg.path = some pkg)
      (hvalid : pkg.isValid = true) (hdecl : decl ∈ selected input.options pkg)
      (hrequest : pkg.request decl = .ok request) (hid : id ∈ request.references) :
      Touches input world id
  /-- A set that is touched refers to it, and that one can be had. -/
  | refers {id next : SetId} {pkg : Package} {asker : String} {set : ProviderSet}
      (h : Touches input world id) (hpkg : input.Finds id.pkg pkg)
      (hset : (Task.extractFrom input.setting world ⟨id, asker⟩ pkg).2 = some (.ok set))
      (hnext : next ∈ set.references) : Touches input world next

/-- A package that a run has to load: it is the package of a set that is touched, and there was no answer
about it with the roots. -/
def RunInput.Needs (input : RunInput) (world : World) (path : String) : Prop :=
  ¬ (input.loader.answers input.rootRequest).Answers path ∧ ∃ id, input.Touches world id ∧ id.pkg = path

/-- A run has loaded what it needs. -/
structure RunInput.LoadsByNeed (input : RunInput) (before after : World) (loaded : List String) : Prop where
  /-- The loader has been asked for the roots and then for every package that the run needs, for each of them
  once, and for nothing else. -/
  calls : ∃ paths : List String, paths.Nodup ∧ (∀ path, path ∈ paths ↔ input.Needs before path) ∧
    after.calls = before.calls ++ ⟨input.rootRequest, false⟩ ::
      paths.map fun path => ⟨input.site.requestFor path, false⟩
  ascending : loaded.Pairwise (· < ·)
  /-- The roots that have loaded are listed, and the packages that the run needs as far as they load. -/
  loaded : ∀ path, path ∈ loaded ↔ ∃ pkg,
    (input.loader.answers input.rootRequest).packageAt path = some pkg ∨
      input.Needs before path ∧ (input.loader.answers (input.site.requestFor path)).packageAt path = some pkg

namespace RunInput

variable {input : RunInput} {world : World} {path : String} {pkg : Package} {id : SetId}
  {asker : String} {set : ProviderSet}

/-! ### The start -/

section Start

variable (hlazy : input.strategy.isLazy = true)
include hlazy

theorem world_muster : (input.muster world).world =
    (world.call input.loader.steady input.rootRequest).1.withPackages
      (PackageCache.seed { isLazy := true } (input.loader.answers input.rootRequest)) := by
  have hsteady : input.steady.strategy.isLazy = true := hlazy
  rw [muster, Crew.outset_of_lazy hsteady]

theorem get?_muster (path : String) : (input.muster world).world.packages.slots.get? path =
    (((input.loader.answers input.rootRequest).packageAt path).map PackageSlot.ready).or
      (((input.loader.answers input.rootRequest).errors.find? fun e => e.pkg = path).map
        fun e => .failed e.toFailure) := by
  rw [world_muster hlazy, World.withPackages, PackageCache.get?_seed]
  rfl

/-- What came with the roots is in its slot. -/
theorem ready_muster_iff :
    (input.muster world).world.packages.slots.get? path = some (.ready pkg) ↔
      (input.loader.answers input.rootRequest).packageAt path = some pkg := by
  rw [get?_muster hlazy]
  cases (input.loader.answers input.rootRequest).packageAt path with
  | some found => simp
  | none => simp

/-- The slots that are left are those of the packages that the answer about the roots does not mention. -/
theorem leaves_muster_iff : (input.muster world).world.Leaves path ↔
    ¬ (input.loader.answers input.rootRequest).Answers path := by
  unfold World.Leaves
  rw [get?_muster hlazy]
  generalize input.loader.answers input.rootRequest = roots
  cases hfind : roots.packageAt path with
  | some pkg =>
      have hpkg : pkg.path = path := by simpa using List.find?_some hfind
      refine iff_of_false (fun h => h (.ok pkg) rfl) (not_not.2 (Or.inl ⟨pkg, ?_, hpkg⟩))
      exact List.mem_of_find?_eq_some hfind
  | none =>
      have hpackages : ∀ p ∈ roots.packages, p.path ≠ path := by
        simpa [LoadOutcome.packageAt, List.find?_eq_none] using hfind
      cases herror : roots.errors.find? fun e => e.pkg = path with
      | some e =>
          have he : e.pkg = path := by simpa using List.find?_some herror
          refine iff_of_false (fun h => h (.error e.toFailure) rfl) (not_not.2 (Or.inr ⟨e, ?_, he⟩))
          exact List.mem_of_find?_eq_some herror
      | none =>
          have herrors : ∀ e ∈ roots.errors, e.pkg ≠ path := by simpa [List.find?_eq_none] using herror
          refine iff_of_true (fun _ h => by cases h) ?_
          rintro (⟨p, hp, hpath⟩ | ⟨e, he, hpath⟩)
          · exact hpackages p hp hpath
          · exact herrors e he hpath

theorem isLazy_muster : (input.muster world).world.packages.isLazy = true := by
  rw [world_muster hlazy]
  rfl

/-- The packages that are found are those that are known from the start to be found. -/
theorem foretold_muster_iff :
    (input.muster world).world.foretold (input.setting.serving input.loader.answers).site path = .ok pkg ↔
      input.Finds path pkg := by
  by_cases hleaves : (input.muster world).world.Leaves path
  · rw [hleaves.foretold_eq, if_pos (isLazy_muster hlazy)]
    have hother := (leaves_muster_iff hlazy).1 hleaves
    have hverdict : (PackageCache.verdict path (input.loader.answers (input.site.requestFor path))
        false).result = .ok pkg ↔
          (input.loader.answers (input.site.requestFor path)).packageAt path = some pkg :=
      LoadVerdict.result_eq_ok_iff.trans PackageCache.verdict_eq_found_iff
    refine hverdict.trans ⟨.loads hother, ?_⟩
    rintro (hroot | ⟨-, hloads⟩)
    · exact absurd (Or.inl ⟨pkg, List.mem_of_find?_eq_some hroot, by simpa using List.find?_some hroot⟩)
        hother
    · exact hloads
  · have hanswers := mt (leaves_muster_iff hlazy).2 hleaves
    obtain ⟨result, hslot⟩ := not_forall_not.1 hleaves
    rw [World.foretold_of_holding hslot]
    constructor
    · rintro rfl
      exact .root ((ready_muster_iff hlazy).1 hslot)
    · rintro (hroot | ⟨hother, -⟩)
      · have hready : (input.muster world).world.packages.slots.get? path = some (.ready pkg) :=
          (ready_muster_iff hlazy).2 hroot
        exact PackageSlot.holding_injective (Option.some.inj (hslot.symm.trans hready))
      · exact absurd hother hanswers

theorem supplies_muster_iff :
    (input.muster world).world.supplies (input.setting.serving input.loader.answers) ⟨id, asker⟩ =
        some (.ok set) ↔
      ∃ pkg, input.Finds id.pkg pkg ∧
        (Task.extractFrom input.setting world ⟨id, asker⟩ pkg).2 = some (.ok set) := by
  have hsets : (input.muster world).world.sets = world.sets := by
    rw [world_muster hlazy]
    rfl
  have hsame : ∀ pkg, (Task.extractFrom (input.setting.serving input.loader.answers)
      (input.muster world).world ⟨id, asker⟩ pkg).2 =
        (Task.extractFrom input.setting world ⟨id, asker⟩ pkg).2 := by
    intro pkg
    rw [Task.extractFrom_snd, Task.extractFrom_snd, hsets]
    rfl
  have hfinds : ∀ pkg, input.Finds id.pkg pkg ↔ (input.muster world).world.foretold
      (input.setting.serving input.loader.answers).site id.pkg = .ok pkg := fun _ =>
    (foretold_muster_iff hlazy).symm
  simp only [hfinds, World.supplies]
  cases (input.muster world).world.foretold (input.setting.serving input.loader.answers).site id.pkg with
  | error f => simp
  | ok pkg => simp [hsame]

/-- **The sets within reach of the tasks are those that are touched.** -/
theorem touched_muster_iff :
    (input.muster world).world.Touched (input.setting.serving input.loader.answers)
        (discover input.options (input.loader.answers input.rootRequest).packages) id ↔
      input.Touches world id := by
  constructor
  · intro h
    induction h with
    | asked ht hrequest hid =>
        obtain ⟨hfirst, hvalid, hdecl⟩ := mem_firstOfEach_of_task ht
        exact .asked (mem_firstOfEach_iff.1 hfirst).2 hvalid hdecl hrequest hid
    | refers _ hset hnext ih =>
        obtain ⟨pkg, hpkg, hset⟩ := (supplies_muster_iff hlazy).1 hset
        exact .refers ih hpkg hset hnext
  · intro h
    induction h with
    | @asked pkg decl request id hpkg hvalid hdecl hrequest hid =>
        have hfirst : pkg ∈ firstOfEach [] (input.loader.answers input.rootRequest).packages :=
          mem_firstOfEach_iff.2 ⟨List.not_mem_nil, hpkg⟩
        have hwanted : (pkg, decl) ∈ wanted input.options
            (input.loader.answers input.rootRequest).packages :=
          List.mem_flatMap.2 ⟨pkg, List.mem_filter.2 ⟨hfirst, hvalid⟩, List.mem_map_of_mem hdecl⟩
        rw [← map_discover] at hwanted
        obtain ⟨t, ht, heq⟩ := List.mem_map.1 hwanted
        cases heq
        exact .asked ht hrequest hid
    | refers _ hpkg hset hnext ih => exact .refers ih ((supplies_muster_iff hlazy).2 ⟨_, hpkg, hset⟩) hnext

end Start

end RunInput

/-! ### The course -/

theorem Table.Distinct.foldl_putNew {κ α β : Type} [DecidableEq κ] {t : Table κ α} (h : t.Distinct)
    (xs : List β) (key : β → κ) (value : β → α) :
    (xs.foldl (fun t x => t.putNew (key x) (value x)) t).Distinct := by
  induction xs generalizing t with
  | nil => exact h
  | cons x xs ih => exact ih (h.putNew (key x) (value x))

theorem PackageCache.distinct_seed {cache : PackageCache} (h : cache.slots.Distinct) (o : LoadOutcome) :
    (cache.seed o).slots.Distinct :=
  (h.foldl_putNew o.packages Package.path PackageSlot.ready).foldl_putNew o.errors LoadError.pkg
    fun e => .failed e.toFailure

namespace Crew

variable {input : RunInput} {world : World} {s : Crew}

theorem surveys_muster (hlive : world.cancelled = false) :
    (input.muster world).Surveys (input.setting.serving input.loader.answers) (input.muster world).world
      (discover input.options (input.loader.answers input.rootRequest).packages) := by
  have hfaithful := faithful_outset input.steady (world.call input.loader.steady input.rootRequest).1
    (input.loader.answers input.rootRequest) (input.setting.serving input.loader.answers)
  have hcalm : (input.muster world).Calm := calm_outset input.loader.calm_steady hlive
  have htasks : ∀ t ∈ (input.muster world).remaining,
      t ∈ discover input.options (input.loader.answers input.rootRequest).packages := by
    intro t ht
    rwa [RunInput.muster, remaining_outset, Multiset.mem_coe] at ht
  refine ⟨hfaithful.world, hcalm.world, ?_, ?_⟩
  · intro t ht
    have hfresh := eq_of_mem_discover (htasks t ht)
    exact ⟨hfaithful.remaining t ht, hcalm.tasks t ht, .of_fresh (htasks t ht) hfresh⟩
  · intro t ht
    refine Or.inl ⟨t, ?_, rfl, rfl, rfl⟩
    rwa [RunInput.muster, remaining_outset, Multiset.mem_coe]

/-- Before the first task is started nothing has been asked for but the roots. -/
theorem charged_muster (hlazy : input.strategy.isLazy = true) :
    (input.muster world).Charged (input.setting.serving input.loader.answers) (input.muster world).world
      (discover input.options (input.loader.answers input.rootRequest).packages) [] := by
  have hloading : (input.muster world).loading = 0 := by
    rw [loading, RunInput.muster, remaining_outset, Multiset.filterMap_coe, Multiset.coe_eq_zero,
      List.filterMap_eq_nil_iff]
    intro t ht
    rw [eq_of_mem_discover ht]
    rfl
  have hnone : ((([] : List String) : Multiset String) + (input.muster world).loading) = 0 := by
    rw [hloading, add_zero]
    rfl
  refine ⟨(List.append_nil _).symm, ?_, ?_, ?_, ?_⟩
  · rw [hnone]
    exact Multiset.nodup_zero
  · intro path
    rw [hnone]
    refine iff_of_false (Multiset.notMem_zero path) ?_
    rintro ⟨hleaves, slot, hslot⟩
    -- a slot that is filled at the start has something to say
    cases slot with
    | pending marker =>
        have hpending := PackageCache.isPending_iff.2 hslot
        rw [RunInput.muster, outset, quiet_fillPackages] at hpending
        cases hpending
    | ready pkg => exact hleaves (.ok pkg) hslot
    | failed failure => exact hleaves (.error failure) hslot
  · rw [hnone]
    exact fun path hpath => absurd hpath (Multiset.notMem_zero path)
  · rw [RunInput.world_muster hlazy]
    exact PackageCache.distinct_seed Table.distinct_empty _

/-- Throughout a lazy run that is not cancelled its tasks explore, and what has been asked for is accounted
for. -/
theorem surveys_of_treads (hlive : world.cancelled = false) (hlazy : input.strategy.isLazy = true)
    (h : Relation.ReflTransGen (Treads input.setting.steady) (input.muster world) s) :
    s.Surveys (input.setting.serving input.loader.answers) (input.muster world).world
        (discover input.options (input.loader.answers input.rootRequest).packages) ∧
      ∃ paths, s.Charged (input.setting.serving input.loader.answers) (input.muster world).world
        (discover input.options (input.loader.answers input.rootRequest).packages) paths := by
  have hserves : input.setting.steady.site.loader.Serves input.loader.answers :=
    input.loader.serves_steady
  have hcalm : input.setting.steady.site.loader.Calm := input.loader.calm_steady
  have hlazy' : (input.muster world).world.packages.isLazy = true := RunInput.isLazy_muster hlazy
  have hsame : input.setting.serving input.loader.answers =
      input.setting.steady.serving input.loader.answers := rfl
  rw [hsame]
  induction h with
  | refl => exact ⟨surveys_muster hlive, [], charged_muster hlazy⟩
  | tail _ hstep ih =>
      obtain ⟨hsurveys, paths, hcharged⟩ := ih
      exact ⟨hsurveys.treads hstep hserves hcalm hlazy' (addressed_fillPackages _ _ _),
        hcharged.treads hstep hsurveys hcalm hlazy'⟩

end Crew

/-! ### The end -/

namespace RunInput

variable {input : RunInput} {course : Course} {world after : World} {roots : LoadOutcome} {s : Crew}
  {r : Report}

theorem Reaches.loadsByNeed (h : input.Reaches course world roots s) (hheeds : input.loader.Heeds)
    (hlazy : input.strategy.isLazy = true) (hover : s.Over) (hlive : s.cancelled = false) :
    input.LoadsByNeed world s.world s.world.packages.loadedPaths := by
  obtain ⟨hworld, -, hnone, htreads⟩ := h.steady hheeds hlazy hover hlive
  obtain ⟨hsurveys, paths, hcharged⟩ := Crew.surveys_of_treads hworld hlazy htreads
  obtain ⟨hnodup, hpaths⟩ := hcharged.mem_iff hsurveys hnone
  have hneeds : ∀ path, path ∈ paths ↔ input.Needs world path := by
    intro path
    rw [hpaths, leaves_muster_iff hlazy]
    simp only [touched_muster_iff hlazy, Needs]
  refine ⟨⟨paths, hnodup, hneeds, ?_⟩, PackageCache.pairwise_loadedPaths hcharged.distinct, ?_⟩
  · rw [hcharged.calls, world_muster hlazy]
    simp only [World.withPackages, World.call, hworld, List.append_assoc, List.cons_append,
      List.nil_append]
    rfl
  · intro path
    rw [PackageCache.mem_loadedPaths hcharged.distinct]
    refine exists_congr fun pkg => ?_
    constructor
    · intro hslot
      have hheld := hsurveys.world.held path (.ok pkg) hslot
      rcases (foretold_muster_iff hlazy).1 hheld.symm with hroot | ⟨hother, hloads⟩
      · exact Or.inl hroot
      · have htaken := (hcharged.taken path).2 ⟨(leaves_muster_iff hlazy).2 hother, _, hslot⟩
        rw [Crew.loading, hnone, Multiset.filterMap_zero, add_zero, Multiset.mem_coe] at htaken
        exact Or.inr ⟨(hneeds path).1 htaken, hloads⟩
    · rintro (hroot | ⟨⟨hother, id, hid, rfl⟩, hloads⟩)
      · have hready : (input.muster world).world.packages.slots.get? path = some (.ready pkg) :=
          (ready_muster_iff hlazy).2 hroot
        exact hsurveys.world.kept path (.ok pkg) hready
      · obtain ⟨result, hslot⟩ := hsurveys.settles hnone ((touched_muster_iff hlazy).2 hid)
        have hheld := hsurveys.world.held id.pkg result hslot
        rw [(foretold_muster_iff hlazy).2 (.loads hother hloads)] at hheld
        rw [hheld] at hslot
        exact hslot

theorem Follows.loadsByNeed (h : input.Follows course world after r) (hheeds : input.loader.Heeds)
    (hlazy : input.strategy.isLazy = true) (hlive : r.cancelled = false) :
    input.LoadsByNeed world after r.loaded := by
  cases h with
  | refused => cases hlive
  | done hreaches hover hr =>
      obtain ⟨finished, -, rfl⟩ := hr
      rw [reportOn_eq rfl rfl] at hlive ⊢
      exact hreaches.loadsByNeed hheeds hlazy hover hlive

/-- There is one list of packages that a run loads by need. -/
theorem LoadsByNeed.loaded_unique {after' : World} {loaded loaded' : List String}
    (h : input.LoadsByNeed world after loaded) (h' : input.LoadsByNeed world after' loaded') :
    loaded = loaded' := by
  have hne : ∀ {a b : String}, a < b → a ≠ b := by
    rintro a _ hlt rfl
    exact String.lt_irrefl a hlt
  have hperm : loaded.Perm loaded' :=
    (List.perm_ext_iff_of_nodup (h.ascending.imp hne) (h'.ascending.imp hne)).2 fun path =>
      (h.loaded path).trans (h'.loaded path).symm
  exact hperm.eq_of_pairwise (fun _ _ _ _ hlt hgt => absurd hgt (String.lt_asymm hlt)) h.ascending
    h'.ascending

/-- **Every lazy run that is not cancelled loads by need**, whatever course it takes: it asks once for each
package that its injectors touch, apart from those that were answered for with the roots, and for no others;
and what it reports as loaded does not depend on its course.  What `generate` leaves behind and reports is
what comes of one of these courses. -/
theorem loads_by_need (input : RunInput) (world : World) (hheeds : input.loader.Heeds)
    (hlazy : input.strategy.isLazy = true) :
    (∀ course after r, input.Follows course world after r → r.cancelled = false →
      input.LoadsByNeed world after r.loaded) ∧
    (∀ course course' after after' r r', input.Follows course world after r →
      input.Follows course' world after' r' → r.cancelled = false → r'.cancelled = false →
        r.loaded = r'.loaded) ∧
    (input.Returns world →
      ∃ course, input.Follows course world (generate input world).1 (generate input world).2) := by
  refine ⟨fun _ _ _ h => h.loadsByNeed hheeds hlazy, ?_, Returns.follows⟩
  intro course course' after after' r r' h h' hlive hlive'
  exact (h.loadsByNeed hheeds hlazy hlive).loaded_unique (h'.loadsByNeed hheeds hlazy hlive')

end RunInput

/-- A run of two tasks at a time over a package that needs no other and over one that needs two, of which one
does not load. -/
def slowKioskRun : RunInput :=
  (Preset.parallelLazy 2).apply
    { loader := { Loader.plain kioskServed with pauses := 2 }, patterns := ["kiosk", "app"] }

/-- Two injectors touch the package that loads, and it is asked for once. -/
theorem RunInput.loads_by_need_kiosk :
    slowKioskRun.LoadsByNeed {} (generate slowKioskRun {}).1 (generate slowKioskRun {}).2.loaded ∧
      (generate slowKioskRun {}).1.calls.map (fun call => call.request.patterns) =
        [["kiosk", "app"], ["lib"], ["lost"]] := by
  have hended : ((Schedule.step slowKioskRun.setting)^[60] (slowKioskRun.launch {})).ended = true := by
    decide +kernel
  have hends := Schedule.Ends.of_iterate 60 hended
  have hreturns : slowKioskRun.Returns {} := fun _ => ⟨_, hends⟩
  obtain ⟨_, _, hcalm, hmakes⟩ := hreturns.makes rfl
  have hlive := hmakes.not_cancelled hcalm (fun _ => rfl) rfl
  obtain ⟨hall, -, hfollows⟩ := RunInput.loads_by_need slowKioskRun {} (fun _ => rfl) rfl
  obtain ⟨course, hcourse⟩ := hfollows hreturns
  refine ⟨hall course _ _ hcourse hlive, ?_⟩
  rw [hends.generate_eq rfl]
  decide +kernel

end Wiring
