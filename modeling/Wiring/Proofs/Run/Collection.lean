/-
**Collections of packages.**

The packages that a loader answers with are, as far as a run is concerned, a collection: for each path
there is one package or one reason why there is none, and it makes no difference in which mode the
loader is called and what else it is asked for at the same time.  A run reaches the packages that its
roots import, directly or not.  When imports name every package that references lead to, these are all
that it can ever need.

Main definitions:

* `Wiring.Collection`, `Wiring.Collection.answer` — the packages, and what becomes of a path;
* `Wiring.Collection.ServedAt` — a loader answers from the collection and never cancels the run;
* `Wiring.Collection.ImportsComplete` — imports name every foreign package that is referred to;
* `Wiring.Collection.Within`, `Wiring.Collection.Asked` — the paths and the sets that a run can reach.

Main results:

* `Wiring.Collection.ServedAt.verdict_eq` — what a lookup learns from the loader;
* `Wiring.Collection.Asked.of_fetch` — the sets that a run can reach are closed under references.
-/

import Wiring.Proofs.Run.KeptSets

set_option autoImplicit false

namespace Wiring

/-- Finitely many packages, and for every other path the reason why it leads to none. -/
structure Collection where
  packages : List Package
  reason : String → String

/-- A loader's answer has something to say about a path. -/
def LoadOutcome.Answers (o : LoadOutcome) (path : String) : Prop :=
  (∃ p ∈ o.packages, p.path = path) ∨ ∃ e ∈ o.errors, e.pkg = path

/-- A request that comes from here. -/
structure LoadSite.Asks (site : LoadSite) (request : LoadRequest) : Prop where
  workingDir : request.workingDir = site.workingDir
  env : request.env = site.env

namespace Collection

/-- What becomes of a path. -/
def answer (c : Collection) (path : String) : Except Failure Package :=
  match c.packages.find? fun p => p.path = path with
  | some p => .ok p
  | none => .error (.loadFailure path (c.reason path))

/-- Some package imports the path. -/
def Imported (c : Collection) (path : String) : Prop :=
  ∃ p ∈ c.packages, path ∈ p.imports

/-- A loader answers from the collection and lets the run go on.  Of the patterns only those that are
imported somewhere need to be paths; to these, and in a load with dependencies to every import of what
it found, the loader has an answer. -/
structure ServedAt (c : Collection) (site : LoadSite) : Prop where
  lasting : ∀ request, site.Asks request → (site.loader.answer request false).2 = false
  packages : ∀ request, site.Asks request →
    ∀ p ∈ (site.loader.answer request false).1.packages, c.answer p.path = .ok p
  errors : ∀ request, site.Asks request →
    ∀ e ∈ (site.loader.answer request false).1.errors, c.answer e.pkg = .error e.toFailure
  named : ∀ request, site.Asks request →
    ∀ path ∈ request.patterns, c.Imported path → (site.loader.answer request false).1.Answers path
  closed : ∀ request, site.Asks request → request.mode = .withDeps →
    ∀ p ∈ (site.loader.answer request false).1.packages,
      ∀ path ∈ p.imports, (site.loader.answer request false).1.Answers path

/-- The imports of every package hold every foreign package that its sets and injectors refer to. -/
def ImportsComplete (c : Collection) : Prop :=
  ∀ p ∈ c.packages, ∀ reference ∈ p.references,
    (SetId.parse reference p.path).pkg = p.path ∨ (SetId.parse reference p.path).pkg ∈ p.imports

/-- Every set that is referred to anywhere. -/
def ids (c : Collection) : List SetId :=
  c.packages.flatMap fun p => p.references.map fun reference => SetId.parse reference p.path

/-- The paths of some packages and of what they import, directly or not. -/
inductive Within (c : Collection) (roots : List Package) : String → Prop
  | root {p : Package} (h : p ∈ roots) : Within c roots p.path
  | further {p : Package} {path : String} (h : Within c roots p.path) (hp : c.answer p.path = .ok p)
      (hi : path ∈ p.imports) : Within c roots path

/-- A set that some package refers to, in a package that can be reached from the roots. -/
structure Asked (c : Collection) (roots : List Package) (id : SetId) : Prop where
  mem : id ∈ c.ids
  within : c.Within roots id.pkg

/-- What becomes of an errand. -/
def fetch (c : Collection) (errand : Errand) : Except Failure ProviderSet :=
  c.answer errand.id.pkg >>= fun pkg => pkg.supply errand

variable {c : Collection} {site : LoadSite} {roots : List Package} {path : String} {p : Package}

theorem mem_of_answer (h : c.answer path = .ok p) : p ∈ c.packages ∧ p.path = path := by
  unfold answer at h
  split at h
  next q hq =>
    cases h
    exact ⟨List.mem_of_find?_eq_some hq, by simpa using List.find?_some hq⟩
  · cases h

theorem answer_path (h : c.answer path = .ok p) : c.answer p.path = .ok p := by
  rw [(mem_of_answer h).2]
  exact h

/-- The path of a package tells which it is. -/
theorem telling (c : Collection) : Telling fun p _ => c.answer p.path = .ok p := by
  intro p q _ _ hp hq hpath _
  rw [hpath, hq, Except.ok.injEq] at hp
  exact hp ▸ .refl q

/-- How long a loader takes makes no difference. -/
theorem ServedAt.congr {other : LoadSite} (h : c.ServedAt site)
    (hanswer : other.loader.answer = site.loader.answer)
    (hworkingDir : other.workingDir = site.workingDir) (henv : other.env = site.env) :
    c.ServedAt other := by
  have hasks : ∀ request, other.Asks request → site.Asks request := fun request hr =>
    ⟨hr.workingDir.trans hworkingDir, hr.env.trans henv⟩
  constructor
  all_goals
    intro request hr
    rw [hanswer]
  · exact h.lasting request (hasks request hr)
  · exact h.packages request (hasks request hr)
  · exact h.errors request (hasks request hr)
  · exact h.named request (hasks request hr)
  · exact h.closed request (hasks request hr)

/-- A path that can be reached is a root's or is imported. -/
theorem Within.cases (h : c.Within roots path) : (∃ p ∈ roots, p.path = path) ∨ c.Imported path := by
  cases h with
  | root hp => exact Or.inl ⟨_, hp, rfl⟩
  | further _ hp hi => exact Or.inr ⟨_, (mem_of_answer hp).1, hi⟩

/-! ### Lookups -/

/-- **What a lookup learns** about an imported path is what the collection has to say. -/
theorem ServedAt.verdict_eq (h : c.ServedAt site) (hpath : c.Imported path) :
    PackageCache.verdict path (site.loader.answer (site.requestFor path) false).1 false =
      match c.answer path with
      | .ok p => .found p
      | .error f => .failed f := by
  have hasks : site.Asks (site.requestFor path) := ⟨rfl, rfl⟩
  have hnamed := h.named _ hasks path (List.mem_singleton.2 rfl) hpath
  rcases PackageCache.verdict_of_named hnamed with ⟨p, hp, hpp, heq⟩ | ⟨e, he, hep, heq⟩ <;> rw [heq]
  · rw [← hpp, h.packages _ hasks p hp]
  · rw [← hep, h.errors _ hasks e he]
    rfl

end Collection

/-! ### References -/

namespace Package

variable {pkg : Package}

theorem references_of_items {providers sets : List String} {listing : List SetItem}
    (h : pkg.items providers sets = .ok listing) :
    listing.filterMap SetItem.reference? = sets.map fun r => SetId.parse r pkg.path := by
  unfold items at h
  cases hlisted : providers.mapM pkg.named with
  | error f => rw [hlisted] at h; cases h
  | ok listed =>
      rw [hlisted] at h
      cases h
      simp [List.filterMap_map, Function.comp_def, SetItem.reference?]

/-- What an extracted set refers to is written down in its package. -/
theorem references_of_extractSet {name asker : String} {s : ProviderSet} {id : SetId}
    (h : pkg.extractSet name asker = .ok s) (hid : id ∈ s.references) :
    ∃ reference ∈ pkg.references, SetId.parse reference pkg.path = id := by
  obtain ⟨decl, hdecl, -, hitems⟩ := extractSet_ok_iff.1 h
  rw [ProviderSet.references, references_of_items hitems, List.mem_map] at hid
  obtain ⟨reference, hreference, rfl⟩ := hid
  exact ⟨reference, List.mem_append_left _ (List.mem_flatMap.2
    ⟨decl, List.mem_of_find?_eq_some hdecl, hreference⟩), rfl⟩

/-- What an injector refers to is written down in its package. -/
theorem references_of_request {decl : InjectorDecl} {r : Request} {id : SetId}
    (hdecl : decl ∈ pkg.injectors) (h : pkg.request decl = .ok r) (hid : id ∈ r.references) :
    ∃ reference ∈ pkg.references, SetId.parse reference pkg.path = id := by
  obtain ⟨-, -, -, -, hitems⟩ := request_ok_iff.1 h
  rw [Request.references, references_of_items hitems, List.mem_map] at hid
  obtain ⟨reference, hreference, rfl⟩ := hid
  exact ⟨reference, List.mem_append_right _ (List.mem_flatMap.2 ⟨decl, hdecl, hreference⟩), rfl⟩

end Package

namespace Collection

variable {c : Collection} {roots : List Package} {p : Package} {id : SetId}

/-- The references of a package that can be reached lead to what can be reached. -/
theorem Asked.of_reference (hc : c.ImportsComplete) (hp : c.answer p.path = .ok p)
    (hwithin : c.Within roots p.path) {reference : String} (h : reference ∈ p.references) :
    c.Asked roots (SetId.parse reference p.path) := by
  have hmem := (mem_of_answer hp).1
  refine ⟨List.mem_flatMap.2 ⟨p, hmem, List.mem_map.2 ⟨reference, h, rfl⟩⟩, ?_⟩
  rcases hc p hmem reference h with hself | himport
  · rw [hself]
    exact hwithin
  · exact Within.further hwithin hp himport

/-- **What can be reached is closed**: a set that can be reached refers only to such. -/
theorem Asked.of_fetch (hc : c.ImportsComplete) {errand : Errand} {set : ProviderSet}
    (h : c.Asked roots errand.id) (hset : c.fetch errand = .ok set) (hid : id ∈ set.references) :
    c.Asked roots id := by
  unfold fetch at hset
  cases hanswer : c.answer errand.id.pkg with
  | error f => rw [hanswer] at hset; cases hset
  | ok p =>
      rw [hanswer] at hset
      have hpath := (mem_of_answer hanswer).2
      change p.supply errand = .ok set at hset
      unfold Package.supply at hset
      split at hset
      · obtain ⟨reference, hreference, rfl⟩ := Package.references_of_extractSet hset hid
        exact Asked.of_reference hc (by rw [hpath]; exact hanswer) (by rw [hpath]; exact h.within)
          hreference
      · cases hset

theorem Asked.of_request (hc : c.ImportsComplete) (hp : c.answer p.path = .ok p)
    (hwithin : c.Within roots p.path) {decl : InjectorDecl} {r : Request}
    (hdecl : decl ∈ p.injectors) (h : p.request decl = .ok r) (hid : id ∈ r.references) :
    c.Asked roots id := by
  obtain ⟨reference, hreference, rfl⟩ := Package.references_of_request hdecl h hid
  exact Asked.of_reference hc hp hwithin hreference

end Collection

end Wiring
