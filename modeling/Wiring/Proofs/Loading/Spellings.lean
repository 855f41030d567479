/-
**Packages that are reached in two ways.**

A run that loads imports ahead finds a package through the packages that import it, and a run that loads
them by need asks for it alone, as a pattern.  Both look in the same directory, but in different ways: a
pattern is followed to its place first and the package gets the path of that place, an import keeps the path
that it is written with.  For a path that goes down from the module by plain names to something on the disk
this comes to the same.  Where the path leads nowhere, or out of the module, the two errors are worded
differently, and for any other spelling the package alone has another path.

Main definitions:

* `Wiring.Module.Spells` — plain spelling of a path;
* `Wiring.Manifest.told` — what the answer to a request tells of a package;
* `Wiring.Manifest.Compares` — what is said about an import, and about the same path as a pattern.

Main results:

* `Wiring.Module.packageDir?_pathAt`, `Wiring.Module.packagePath?_ofNames` — from plain paths to places and
  back;
* `Wiring.Manifest.told_import`, `Wiring.Manifest.found_alone` — what is said in the two cases;
* `Wiring.Manifest.compares` — **what an import and a pattern have in common, and where they differ**.
-/

import Wiring.Proofs.Loading.Addresses
import Wiring.Proofs.Loading.Verdicts
import Wiring.Proofs.Run.Treads

set_option autoImplicit false

namespace Wiring

/-! ### Places in a module -/

namespace Module

/-- A path that goes down from the module by plain names. -/
def Spells (m : Module) (path : String) : Prop :=
  ∃ names, (∀ name ∈ names, IsName name) ∧ path = m.pathAt names

variable {disk : Disk} {m : Module} {place names loc : List String} {path : String}

/-- A module lies at a place. -/
theorem exists_root (hdisk : disk.Named) {start : Path} (h : discover disk start = .ok m) :
    ∃ place, (∀ name ∈ place, IsName name) ∧ m.root = .ofNames place := by
  unfold discover at h
  cases hstart : disk.locate start with
  | error fault =>
      rw [Disk.canonical, hstart] at h
      cases h
  | ok at_ =>
      have hnames := Disk.names_of_locate hdisk hstart
      rw [Disk.canonical, hstart] at h
      simp only [Except.map] at h
      split at h
      next dir hfind =>
        obtain ⟨above, habove, rfl⟩ :=
          Path.mem_ancestors_ofNames hnames (List.mem_of_find?_eq_some hfind)
        refine ⟨above, fun name hname => hnames name (habove.subset hname), ?_⟩
        unfold ofFile at h
        split at h
        · cases h
        split at h
        · cases h
        dsimp only at h
        split at h
        · cases h
        · cases h
          rfl
      next => cases h

/-- The packages at places are those below the module's directory. -/
theorem packagePath?_ofNames (hroot : m.root = .ofNames place) (hplace : ∀ name ∈ place, IsName name)
    (hloc : ∀ name ∈ loc, IsName name) :
    m.packagePath? (.ofNames loc) = some path ↔ ∃ names, loc = place ++ names ∧ path = m.pathAt names := by
  have hproper : ∀ names : List String, (∀ name ∈ names, IsName name) →
      ∀ part ∈ names.map Text.encode, RawName.Proper part := by
    intro names hnames part hpart
    obtain ⟨name, hname, rfl⟩ := List.mem_map.1 hpart
    exact RawName.proper_encode (hnames name hname)
  have hshown : ∀ names : List String, (names.map Text.encode).map RawName.shown = names := by
    intro names
    rw [List.map_map]
    exact List.map_id'' RawName.shown_encode names
  have hinj : Function.Injective (List.map Text.encode) :=
    List.map_injective_iff.2 fun _ _ => Text.encode_injective
  have hraw : m.raw.root = .ofNames (place.map Text.encode) := by
    rw [raw, hroot, Path.raw_ofNames]
  rw [packagePath?, Path.raw_ofNames,
    RawModule.packagePath?_ofNames hraw (hproper place hplace) (hproper loc hloc)]
  constructor
  · rintro ⟨parts, hparts, rfl⟩
    obtain ⟨above, names, rfl, habove, rfl⟩ := List.map_eq_append_iff.1 hparts
    obtain rfl := hinj habove
    rw [hshown]
    exact ⟨names, rfl, rfl⟩
  · rintro ⟨names, rfl, rfl⟩
    refine ⟨names.map Text.encode, List.map_append, ?_⟩
    rw [hshown]
    rfl

/-- A plain path leads down to its place. -/
theorem packageDir?_pathAt (hroot : m.root = .ofNames place) (hplace : ∀ name ∈ place, IsName name)
    (hnames : ∀ name ∈ names, IsName name) :
    m.packageDir? (m.pathAt names) = some (.ofNames (place ++ names)) := by
  rw [packageDir?, m.segments?_pathAt fun name hname => (hnames name hname).whole, Option.map_some, hroot,
    Path.foldl_join hplace hnames]

end Module

namespace Manifest

/-! ### A package alone -/

/-- A pattern that is taken from the module, and means one directory. -/
structure Direct (pattern : String) : Prop where
  base : patternBase pattern = (pattern, false)
  inside : isRelative pattern = false

/-- What the answer to a request tells of a package, when nobody cancels the run. -/
def told (disk : Disk) (request : LoadRequest) (path : String) : LoadVerdict :=
  PackageCache.verdict path (load disk request fun _ => false) false

/-- The request for a package alone, as a lookup makes it. -/
def aloneRequest (request : LoadRequest) (path : String) : LoadRequest :=
  { request with mode := .roots, patterns := [path] }

section Alone

variable {disk : Disk} {m : Module} {workingDir dir : Path} {request : LoadRequest} {path : String}
  {place : Location} {fault : DiskFault} {t : Target} {e : LoadError}

theorem expand_direct (hdirect : Direct path) : expand disk m workingDir path =
    match m.packageDir? path with
    | some dir => targetsIn disk m path false dir
    | none => .error ⟨path, "package is not inside module " ++ m.path⟩ := by
  cases hdir : m.packageDir? path <;> simp [expand_eq, hdirect.base, hdirect.inside, hdir]

theorem expand_outside (hdirect : Direct path) (hdir : m.packageDir? path = none) :
    expand disk m workingDir path = .error ⟨path, "package is not inside module " ++ m.path⟩ := by
  rw [expand_direct hdirect, hdir]

theorem expand_missing (hdirect : Direct path) (hdir : m.packageDir? path = some dir)
    (hplace : disk.locate dir = .error fault) :
    expand disk m workingDir path =
      .error ⟨path, "cannot access " ++ dir.text ++ ": " ++ fault.text⟩ := by
  rw [expand_direct hdirect, hdir]
  dsimp only
  rw [targetsIn, hplace]

theorem expand_found (hdirect : Direct path) (hdir : m.packageDir? path = some dir)
    (hplace : disk.locate dir = .ok place) :
    expand disk m workingDir path =
      match m.packagePath? (.ofNames place) with
      | some pkg => .ok [⟨pkg, .ofNames place⟩]
      | none => .error ⟨path, (Path.ofNames place).text ++ " is outside module " ++ m.path⟩ := by
  rw [expand_direct hdirect, hdir]
  dsimp only
  rw [targetsIn, hplace]
  dsimp only
  rw [if_neg Bool.false_ne_true, List.mapM_cons, targetAt]
  cases m.packagePath? (.ofNames place) <;> rfl

theorem loadIn_alone_error (hpattern : expand disk m workingDir path = .error e) :
    loadIn disk m workingDir (aloneRequest request path) (fun _ => false) = { errors := [e] } := by
  rw [loadIn, aloneRequest, expandAll, List.foldl_cons, List.foldl_nil]
  dsimp only
  rw [hpattern]
  rfl

theorem loadIn_alone_ok (hpattern : expand disk m workingDir path = .ok [t]) :
    loadIn disk m workingDir (aloneRequest request path) (fun _ => false) =
      match loadPackage disk (enabledTags request) t.pkg t.dir with
      | .ok pkg => { packages := [pkg] }
      | .error e => { errors := [e] } := by
  have htags : enabledTags (aloneRequest request path) = enabledTags request := rfl
  rw [loadIn, htags, aloneRequest, expandAll, List.foldl_cons, List.foldl_nil]
  dsimp only
  rw [hpattern]
  simp only [List.foldl_cons, List.foldl_nil, List.any_nil, Bool.false_eq_true, if_false, List.nil_append,
    List.length_singleton]
  -- one package to try, so a second step finds the queue empty
  have hsteps : 1 + (referencesOn disk).length + 1 = (referencesOn disk).length + 1 + 1 := by omega
  rw [hsteps, Progress.run]
  cases hload : loadPackage disk (enabledTags request) t.pkg t.dir with
  | error e =>
      simp only [Bool.false_eq_true, if_false, Progress.take_error hload]
      rfl
  | ok pkg =>
      simp only [Bool.false_eq_true, if_false, Progress.take_ok hload]
      rfl

end Alone

/-! ### What is told of a package -/

/-- What a load tells of its only package. -/
def verdictOf : Except LoadError Package → LoadVerdict
  | .ok pkg => .found pkg
  | .error e => .failed e.toFailure

section Told

variable {disk : Disk} {m : Module} {mode : LoadMode} {tags : List String} {targets : List Target}
  {refused verdicts : List LoadError} {workingDir dir : Path} {request : LoadRequest} {path : String}
  {o : LoadOutcome} {e : LoadError}

/-- Of a package that is judged an answer tells its verdict. -/
theorem told_of_judged (h : Judged disk m mode tags targets refused (fun _ => false) o verdicts)
    (hpath : path ∈ judged o verdicts) (hrefused : path ∉ refused.map LoadError.pkg) :
    PackageCache.verdict path o false = verdictOf (verdictOn disk m tags targets path) := by
  have hnamed : (∃ p ∈ o.packages, p.path = path) ∨ ∃ e ∈ o.errors, e.pkg = path := by
    rcases List.mem_append.1 hpath with hpackage | hfailed
    · exact Or.inl (List.mem_map.1 hpackage)
    · obtain ⟨e, he, hsame⟩ := List.mem_map.1 hfailed
      refine Or.inr ⟨e, ?_, hsame⟩
      rw [h.errors]
      exact List.mem_append_right _ he
  rcases PackageCache.verdict_of_named hnamed with ⟨pkg, hpkg, rfl, heq⟩ | ⟨e, he, rfl, heq⟩ <;> rw [heq]
  · rw [h.packages pkg hpkg]
    rfl
  · have hverdict : e ∈ verdicts := by
      rw [h.errors] at he
      exact (List.mem_append.1 he).resolve_left fun hr => hrefused (List.mem_map.2 ⟨e, hr, rfl⟩)
    rcases h.failed e hverdict with hverdict | ⟨-, n, hcancelled⟩
    · rw [hverdict]
      rfl
    · cases hcancelled

theorem told_of_discover (hm : Module.discover disk request.workingDir = .ok m)
    (hdir : disk.canonical request.workingDir = .ok workingDir) (path : String) :
    told disk request path =
      PackageCache.verdict path (loadIn disk m workingDir request fun _ => false) false := by
  rw [told, load_of_discover hm hdir]

theorem told_alone_error (hm : Module.discover disk request.workingDir = .ok m)
    (hdir : disk.canonical request.workingDir = .ok workingDir)
    (hpattern : expand disk m workingDir path = .error e) :
    told disk (aloneRequest request path) path = verdictOf (.error e) := by
  have htold := @told_of_discover disk m workingDir (aloneRequest request path) hm hdir path
  rw [htold, loadIn_alone_error hpattern, PackageCache.verdict]
  obtain rfl := expand_error hpattern
  simp only [List.find?_nil, Bool.false_eq_true, if_false, List.find?_cons_of_pos, decide_true]
  rfl

/-- A pattern that leads to a package of its own path tells of that package. -/
theorem told_alone_ok (hm : Module.discover disk request.workingDir = .ok m)
    (hdir : disk.canonical request.workingDir = .ok workingDir)
    (hpattern : expand disk m workingDir path = .ok [⟨path, dir⟩]) :
    told disk (aloneRequest request path) path =
      verdictOf (loadPackage disk (enabledTags request) path dir) := by
  have htold := @told_of_discover disk m workingDir (aloneRequest request path) hm hdir path
  rw [htold, loadIn_alone_ok hpattern]
  cases hload : loadPackage disk (enabledTags request) path dir with
  | error e =>
      obtain rfl := loadPackage_error hload
      simp only [PackageCache.verdict, List.find?_nil, Bool.false_eq_true, if_false,
        List.find?_cons_of_pos, decide_true]
      rfl
  | ok found =>
      obtain ⟨hpath, -⟩ := loadPackage_ok hload
      simp only [PackageCache.verdict, List.find?_cons, hpath, decide_true]
      rfl

end Told

/-! ### Imports and patterns -/

/-- A package that a pattern names lies at a place with proper names, and has the path of that place. -/
theorem exists_place {disk : Disk} {request : LoadRequest} {cancelled : Nat → Bool} {p : Package}
    (hdisk : disk.Tidy) (hmode : request.mode = .roots)
    (hp : p ∈ (load disk request cancelled).packages) :
    ∃ m place, Module.discover disk request.workingDir = .ok m ∧ (∀ name ∈ place, IsName name) ∧
      p.dir = .ofNames place ∧ m.packagePath? p.dir = some p.path := by
  cases hm : Module.discover disk request.workingDir with
  | error message =>
      rw [load, hm] at hp
      cases hp
  | ok m =>
      obtain ⟨workingDir, hdir⟩ := exists_canonical hm
      rw [load_of_discover hm hdir] at hp
      obtain ⟨targets, refused, verdicts, hexpanded, hjudged⟩ :=
        judged_loadIn disk m workingDir request cancelled
      have hpath : p.path ∈ judged (loadIn disk m workingDir request cancelled) verdicts :=
        List.mem_append_left _ (List.mem_map.2 ⟨p, hp, rfl⟩)
      obtain ⟨t, ht, hpkg⟩ := List.mem_map.1 (hjudged.roots hmode _ hpath)
      have hverdict := hjudged.packages p hp
      rw [← hpkg, verdictOn, dirFor?_of_mem hexpanded.single ht] at hverdict
      obtain ⟨-, hpdir⟩ := loadPackage_ok hverdict
      obtain ⟨pattern, -, more, hmore, htmore⟩ := hexpanded.origin t ht
      obtain ⟨hfound, place, hplace, hsource⟩ := mem_of_expand hmore htmore
      refine ⟨m, place, rfl, ?_, hpdir.trans hplace, ?_⟩
      · rcases hsource with ⟨dir, hloc⟩ | ⟨node, hentry⟩
        · exact Disk.names_of_locate hdisk.here hloc
        · exact hdisk.entries _ hentry
      · rw [hpdir, hfound, hpkg]

/-- A package that no pattern of a request leads to, so that it is loaded only when it is imported. -/
def OnlyImported (disk : Disk) (request : LoadRequest) (path : String) : Prop :=
  ∀ pattern ∈ request.patterns, pattern ≠ path ∧
    ∀ targets, expansion disk request pattern = .ok targets → path ∉ targets.map Target.pkg

/-- What a load with dependencies tells of an import, and what is told of the same path as a pattern.  What is
found for the pattern is found for the import, and then the path is spelled plainly.  Let the pattern be one
that is taken from the module and means one directory.  If the path is spelled plainly and leads to
something, both tell the same, be it the package or the message of its error.  If it leads to nothing, or out
of the module, both tell of an error, in different words. -/
structure Compares (disk : Disk) (m : Module) (request : LoadRequest) (path : String) : Prop where
  found : ∀ q, told disk (aloneRequest request path) path = .found q →
    m.Spells path ∧ told disk request path = .found q
  plain : Direct path → m.Spells path → ∀ dir place, m.packageDir? path = some dir →
    disk.locate dir = .ok place → told disk request path = told disk (aloneRequest request path) path
  missing : Direct path → ∀ dir fault, m.packageDir? path = some dir → disk.locate dir = .error fault →
    told disk request path =
        .failed (.loadFailure path ("cannot read " ++ dir.text ++ ": " ++ fault.text)) ∧
      told disk (aloneRequest request path) path =
        .failed (.loadFailure path ("cannot access " ++ dir.text ++ ": " ++ fault.text))
  outside : Direct path → m.packageDir? path = none →
    told disk request path =
        .failed (.loadFailure path ("imported package is not inside module " ++ m.path)) ∧
      told disk (aloneRequest request path) path =
        .failed (.loadFailure path ("package is not inside module " ++ m.path))

/-- A package that is only imported is told of as its path alone decides. -/
theorem told_import {disk : Disk} {m : Module} {request : LoadRequest} {workingDir : Path} {pkg : Package}
    {path : String} (hm : Module.discover disk request.workingDir = .ok m)
    (hdir : disk.canonical request.workingDir = .ok workingDir) (hmode : request.mode = .withDeps)
    (hpkg : pkg ∈ (load disk request fun _ => false).packages) (himport : path ∈ pkg.imports)
    (honly : OnlyImported disk request path) :
    told disk request path = verdictOf (verdictOn disk m (enabledTags request) [] path) := by
  obtain ⟨targets, refused, verdicts, hexpanded, hjudged⟩ :=
    judged_loadIn disk m workingDir request fun _ => false
  rw [load_of_discover hm hdir] at hpkg
  unfold OnlyImported at honly
  rw [expansion_of_discover hm hdir] at honly
  have hrefused : path ∉ refused.map LoadError.pkg := by
    rw [hexpanded.errors]
    intro hmem
    have hpattern := (refusals_sublist (fun _ _ => expand_error) request.patterns).subset hmem
    exact (honly path hpattern).1 rfl
  have htargets : path ∉ targets.map Target.pkg := by
    intro hmem
    obtain ⟨t, ht, hsame⟩ := List.mem_map.1 hmem
    obtain ⟨pattern, hpattern, more, hmore, htmore⟩ := hexpanded.origin t ht
    exact (honly pattern hpattern).2 more hmore (List.mem_map.2 ⟨t, htmore, hsame⟩)
  rw [told_of_discover hm hdir,
    told_of_judged hjudged (hjudged.imports hmode pkg hpkg path himport) hrefused]
  unfold verdictOn
  rw [dirFor?_of_not_mem htargets, dirFor?_of_not_mem List.not_mem_nil]

/-- A package that is found alone has its path from its place, and so the path leads there. -/
theorem found_alone {disk : Disk} {m : Module} {request : LoadRequest} {path : String} {q : Package}
    (hdisk : disk.Tidy) (hm : Module.discover disk request.workingDir = .ok m)
    (h : told disk (aloneRequest request path) path = .found q) :
    m.Spells path ∧ verdictOf (verdictOn disk m (enabledTags request) [] path) = .found q := by
  have hq : q ∈ (load disk (aloneRequest request path) fun _ => false).packages :=
    List.mem_of_find?_eq_some (PackageCache.verdict_eq_found_iff.1 h)
  obtain rfl : q.path = path := PackageCache.path_of_verdict h
  obtain ⟨verdicts, haccounts⟩ := exists_accounts disk (aloneRequest request q.path) fun _ => false
  have hload : loadPackage disk (enabledTags request) q.path q.dir = .ok q := haccounts.packages q hq
  obtain ⟨m', loc, hm', hnames, hdir, hpath⟩ := exists_place hdisk rfl hq
  obtain rfl : m = m' := Except.ok.inj (hm.symm.trans hm')
  obtain ⟨place, hplace, hroot⟩ := Module.exists_root hdisk.here hm
  rw [hdir] at hpath hload
  obtain ⟨names, rfl, hspelled⟩ := (Module.packagePath?_ofNames hroot hplace hnames).1 hpath
  have hbelow : ∀ name ∈ names, IsName name := fun name hname =>
    hnames name (List.mem_append_right _ hname)
  refine ⟨⟨names, hbelow, hspelled⟩, ?_⟩
  have hlead : m.packageDir? q.path = some (.ofNames (place ++ names)) := by
    rw [hspelled]
    exact Module.packageDir?_pathAt hroot hplace hbelow
  rw [verdictOn, dirFor?_of_not_mem List.not_mem_nil, hlead]
  dsimp only
  rw [hload, verdictOf]

/-- **An import and the same path as a pattern**: what is told of the package is the same where the path is
spelled plainly and leads to something, and differs only as described where it does not. -/
theorem compares (disk : Disk) (hdisk : disk.Tidy) (request : LoadRequest)
    (hmode : request.mode = .withDeps) (pkg : Package)
    (hpkg : pkg ∈ (load disk request fun _ => false).packages) (path : String)
    (himport : path ∈ pkg.imports) (honly : OnlyImported disk request path) :
    ∃ m, Module.discover disk request.workingDir = .ok m ∧ Compares disk m request path := by
  cases hm : Module.discover disk request.workingDir with
  | error message =>
      rw [load, hm] at hpkg
      cases hpkg
  | ok m =>
      obtain ⟨workingDir, hwork⟩ := exists_canonical hm
      obtain ⟨place, hplace, hroot⟩ := Module.exists_root hdisk.here hm
      have htold := told_import hm hwork hmode hpkg himport honly
      refine ⟨m, rfl, ?_, ?_, ?_, ?_⟩
      · intro q hq
        obtain ⟨hspells, hverdict⟩ := found_alone hdisk hm hq
        exact ⟨hspells, htold.trans hverdict⟩
      all_goals
        unfold verdictOn at htold
        rw [dirFor?_of_not_mem List.not_mem_nil] at htold
      · rintro hdirect ⟨names, hnames, rfl⟩ dir loc hdir hloc
        have hfound := @expand_found disk m workingDir dir _ loc hdirect hdir hloc
        rw [hdir] at htold
        rw [Module.packageDir?_pathAt hroot hplace hnames, Option.some.injEq] at hdir
        subst hdir
        have hall : ∀ name ∈ place ++ names, IsName name := by
          intro name hname
          exact (List.mem_append.1 hname).elim (hplace name) (hnames name)
        obtain rfl := Disk.eq_of_locate_ofNames hall hloc
        rw [(Module.packagePath?_ofNames hroot hplace hall).2 ⟨names, rfl, rfl⟩] at hfound
        rw [htold, told_alone_ok hm hwork hfound]
      · intro hdirect dir fault hdir hlost
        have hread : loadPackage disk (enabledTags request) path dir =
            .error ⟨path, "cannot read " ++ dir.text ++ ": " ++ fault.text⟩ := by
          have hlist : disk.list dir = .error fault := by
            rw [Disk.list, hlost]
            rfl
          rw [loadPackage, hlist]
          rfl
        rw [hdir] at htold
        dsimp only at htold
        rw [htold, hread, told_alone_error hm hwork (expand_missing hdirect hdir hlost)]
        exact ⟨rfl, rfl⟩
      · intro hdirect hdir
        rw [hdir] at htold
        rw [htold, told_alone_error hm hwork (expand_outside hdirect hdir)]
        exact ⟨rfl, rfl⟩

end Manifest

/-- A module with two packages, one of which refers to a set of the other. -/
def pairDisk : Disk where
  nodes :=
    ⟨[(["wire.mod"], .file (Text.encode "module = \"m\"\n") 0),
      (["a"], .folder),
      (["a", "wire.toml"], .file (Text.encode "[[set]]\nname = \"S\"\nsets = [\"m/b.S\"]\n") 0),
      (["b"], .folder),
      (["b", "wire.toml"], .file (Text.encode "[[set]]\nname = \"S\"\n") 0)]⟩

theorem tidy_pair : pairDisk.Tidy :=
  ⟨nofun, by decide⟩

namespace Manifest

/-- A request for a package with all that it imports. -/
def followRequest : LoadRequest where
  workingDir := ⟨"/"⟩
  mode := .withDeps
  patterns := ["./a"]

/-- The other package is imported. -/
theorem imports_pair :
    ∃ pkg ∈ (load pairDisk followRequest fun _ => false).packages, "m/b" ∈ pkg.imports := by
  decide +kernel

/-- The package that the other refers to, as an import and alone. -/
theorem compares_pair :
    ∃ pkg ∈ (load pairDisk followRequest fun _ => false).packages, "m/b" ∈ pkg.imports ∧
      ∃ m, Module.discover pairDisk followRequest.workingDir = .ok m ∧
        Compares pairDisk m followRequest "m/b" := by
  have htargets : (expansion pairDisk followRequest "./a").toOption = some [⟨"m/a", ⟨"/a"⟩⟩] := by
    decide +kernel
  have honly : OnlyImported pairDisk followRequest "m/b" := by
    intro pattern hpattern
    rw [List.mem_singleton.1 hpattern]
    refine ⟨by decide, ?_⟩
    intro targets hexpansion
    rw [hexpansion, Except.toOption, Option.some.injEq] at htargets
    rw [htargets]
    decide
  obtain ⟨pkg, hpkg, himport⟩ := imports_pair
  exact ⟨pkg, hpkg, himport,
    compares pairDisk tidy_pair followRequest rfl pkg hpkg "m/b" himport honly⟩

/-- The error of a missing package is worded in one way when it is imported and in another when it is asked
for alone. -/
theorem reached_unlike :
    (∃ pkg ∈ (load strayDisk followRequest fun _ => false).packages, "m/lost" ∈ pkg.imports) ∧
      (load strayDisk followRequest fun _ => false).errors =
        [⟨"m/lost", "cannot read /lost: No such file or directory (os error 2)"⟩] ∧
      (load strayDisk (aloneRequest followRequest "m/lost") fun _ => false).errors =
        [⟨"m/lost", "cannot access /lost: No such file or directory (os error 2)"⟩] := by
  decide +kernel

end Manifest

end Wiring
