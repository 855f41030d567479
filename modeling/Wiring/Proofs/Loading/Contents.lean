/-
**What a package is made of.**

A package is read from the declaration files of its directory, one file after the other in the order of their
names.  A file whose tags are not all enabled must be well formed and leaves nothing behind.  What the other
files declare is put together in their order.  The names of providers, sets and injectors share one space, and
types have one of their own.  Within a file no type is declared twice, for a table has each key once, so that
faults of types lie between files only.

Main definitions:

* `Wiring.Manifest.DeclaredIn` — the declaration files of a directory and what they declare;
* `Wiring.Manifest.enabled` — those of them whose tags are enabled;
* `Wiring.Manifest.Assembles` — a package is put together from files;
* `Wiring.Manifest.Draft.Gathered` — the same while the files are read.

Main results:

* `Wiring.Manifest.nodup_types_of_parse` — a file declares a type once;
* `Wiring.Manifest.Draft.Gathered.step`, `Wiring.Manifest.Draft.Gathered.run` — reading one file, and all files;
* `Wiring.Manifest.loadPackage_assembles` — **what a directory of well-formed files is loaded as**.
-/

import Wiring.Proofs.Loading.Worklist
import Wiring.Proofs.Run.Collection
import Wiring.Proofs.Run.Reports
import Wiring.Proofs.Search
import Wiring.Proofs.Toml.Keys

set_option autoImplicit false

namespace Wiring

/-- The names in a folder come in ascending order. -/
theorem Disk.pairwise_list {disk : Disk} {p : Path} {names : List String} (h : disk.list p = .ok names) :
    names.Pairwise (· ≤ ·) := by
  obtain ⟨loc, -, h⟩ := of_bind_eq_ok h
  split at h
  · cases h
    exact pairwise_le_mergeSort _
  · cases h
  · cases h

namespace Toml

/-- A table is read under the keys that it has. -/
theorem map_fst_of_mapM {α : Type} {item? : Value → Option α} {entries : Entries} {read : List (String × α)}
    (h : entries.mapM (fun e => (item? e.2).map fun a => (e.1, a)) = some read) :
    read.map Prod.fst = entries.map Prod.fst := by
  induction entries generalizing read with
  | nil =>
      cases h
      rfl
  | cons e entries ih =>
      rw [List.mapM_cons] at h
      obtain ⟨first, hfirst, h⟩ := Option.bind_eq_some_iff.1 h
      obtain ⟨rest, hrest, h⟩ := Option.bind_eq_some_iff.1 h
      cases h
      obtain ⟨a, -, rfl⟩ := Option.map_eq_some_iff.1 hfirst
      rw [List.map_cons, List.map_cons, ih hrest]

/-- A table that is keyed is read with each key once. -/
theorem Value.Keyed.nodup_entries? {α : Type} {item? : Value → Option α} {v : Value} {read : List (String × α)}
    (h : v.Keyed) (hread : v.entries? item? = some read) : (read.map Prod.fst).Nodup := by
  cases v with
  | table entries =>
      cases h with
      | scalar h => cases h
      | table hkeys _ => exact map_fst_of_mapM hread ▸ hkeys
  | _ => cases hread

/-- What is under a key of a keyed table is keyed. -/
theorem Value.Keyed.of_closed? {v value : Value} {names : List String} {entries : Entries} {key : String}
    (h : v.Keyed) (hentries : v.closed? names = some entries) (hvalue : entries.lookup key = some value) :
    value.Keyed := by
  cases v with
  | table all =>
      have hall : entries = all := by
        rw [Value.closed?] at hentries
        split at hentries
        · exact (Option.some.inj hentries).symm
        · cases hentries
      subst hall
      cases h with
      | scalar h => cases h
      | table _ hinner =>
          obtain ⟨before, after, rfl, -⟩ := List.lookup_eq_some_iff.1 hvalue
          exact hinner (key, value) (List.mem_append_right _ List.mem_cons_self)
  | _ => cases hentries

end Toml

namespace Manifest

open Toml

/-! ### What a file declares -/

/-- **A file declares a type once.** -/
theorem nodup_types_of_parse {text : String} {m : Manifest} (h : parse text = .ok m) :
    (m.types.map Prod.fst).Nodup := by
  obtain ⟨value, hvalue, h⟩ := of_bind_eq_ok h
  have hkeyed := keyed_parse hvalue
  obtain ⟨entries, hentries, h⟩ := Option.bind_eq_some_iff.1 (eq_some_of_orMalformed h)
  obtain ⟨_, -, h⟩ := Option.bind_eq_some_iff.1 h
  obtain ⟨types, htypes, h⟩ := Option.bind_eq_some_iff.1 h
  obtain ⟨_, -, h⟩ := Option.bind_eq_some_iff.1 h
  obtain ⟨_, -, h⟩ := Option.bind_eq_some_iff.1 h
  obtain ⟨_, -, h⟩ := Option.bind_eq_some_iff.1 h
  cases h
  have hsorted : ((sortTypes types).map Prod.fst).Perm (types.map Prod.fst) :=
    (List.mergeSort_perm _ _).map _
  rw [hsorted.nodup_iff]
  obtain ⟨read, hread, rfl⟩ := Option.map_eq_some_iff.1 htypes
  unfold Toml.optional at hread
  split at hread
  · cases hread
    exact List.nodup_nil
  next inner hinner =>
    obtain ⟨shown, hshown, rfl⟩ := Option.map_eq_some_iff.1 hread
    exact (hkeyed.of_closed? hentries hinner).nodup_entries? hshown

/-- What a file declares, if it can be read and is well formed. -/
def declared? (disk : Disk) (file : Path) : Option Manifest :=
  (disk.readText file).toOption.bind fun text => (parse text).toOption

theorem declared?_eq_some_iff {disk : Disk} {file : Path} {m : Manifest} :
    declared? disk file = some m ↔ ∃ text, disk.readText file = .ok text ∧ parse text = .ok m := by
  unfold declared?
  cases disk.readText file with
  | error fault => exact ⟨nofun, fun ⟨_, htext, _⟩ => nomatch htext⟩
  | ok text =>
      have hok : (parse text).toOption = some m ↔ parse text = .ok m := by
        cases parse text with
        | error refusal => exact ⟨nofun, nofun⟩
        | ok found => simp [Except.toOption]
      simpa [Except.toOption] using hok

/-- The declaration files of a directory, by their names and in its order, and what they declare. -/
structure DeclaredIn (disk : Disk) (dir : Path) (found : List (String × Manifest)) : Prop where
  listing : ∃ names, disk.list dir = .ok names ∧ names.filter isFileName = found.map Prod.fst
  wellFormed : ∀ e ∈ found, declared? disk (dir.join ⟨e.1⟩) = some e.2

/-- The files whose tags are all enabled. -/
def enabled (tags : List String) (found : List (String × Manifest)) : List (String × Manifest) :=
  found.filter fun e => e.2.tags.all tags.contains

/-- The names of the types that a file declares. -/
def typeNames (m : Manifest) : List String :=
  m.types.map Prod.fst

/-- No type is declared in two of the files. -/
def TypesApart (files : List (String × Manifest)) : Prop :=
  files.Pairwise fun a b => ∀ name ∈ a.2.typeNames, name ∉ b.2.typeNames

instance (files : List (String × Manifest)) : Decidable (TypesApart files) :=
  inferInstanceAs (Decidable (files.Pairwise _))

/-- A package holds what the files declare, and nothing else, in the order of the files. -/
structure Collects (address : String) (folder : Path) (declared : List (String × Manifest)) (pkg : Package) :
    Prop where
  path : pkg.path = address
  dir : pkg.dir = folder
  files : pkg.files = declared.map fun e => folder.join ⟨e.1⟩
  providers : pkg.providers = declared.flatMap fun e => e.2.providers
  sets : pkg.sets = declared.flatMap fun e => e.2.sets
  injectors : pkg.injectors = declared.flatMap fun e => e.2.injectors
  types : pkg.types = (declared.flatMap fun e => e.2.types).foldl (fun t e => t.put e.1 e.2) {}

variable {disk : Disk} {path : String} {dir file : Path} {m : Manifest}
  {files found : List (String × Manifest)} {pkg : Package}

/-! ### Adding a file -/

/-- Adding types leaves a package without faults if it had none and none of the types was there. -/
theorem errors_foldl_addType (file : Path) {types : List (String × TypeInfo)}
    (hdistinct : (types.map Prod.fst).Nodup) (pkg : Package) :
    (types.foldl (addType file) pkg).errors = [] ↔
      pkg.errors = [] ∧ ∀ name ∈ types.map Prod.fst, pkg.types.get? name = none := by
  induction types generalizing pkg with
  | nil => simp
  | cons entry rest ih =>
      obtain ⟨hnew, hrest⟩ := List.nodup_cons.1 hdistinct
      have hfirst : (addType file pkg entry).errors = [] ↔
          pkg.errors = [] ∧ pkg.types.get? entry.1 = none := by
        rw [addType, Table.contains_eq_isSome_get?]
        cases pkg.types.get? entry.1 <;> simp
      -- The names are distinct, so that adding the first type does not make any of the others a repetition.
      have hlater : (∀ name ∈ rest.map Prod.fst, (addType file pkg entry).types.get? name = none) ↔
          ∀ name ∈ rest.map Prod.fst, pkg.types.get? name = none := by
        refine forall₂_congr fun name hname => ?_
        have hne : name ≠ entry.1 := fun heq => hnew (heq ▸ hname)
        rw [addType, Table.get?_put, if_neg hne]
      rw [List.foldl_cons, ih hrest, hfirst, hlater, List.map_cons, List.forall_mem_cons, and_assoc]

namespace Collects

/-- A package that has been put together has the types of its files. -/
theorem get?_eq_none_iff (h : Collects path dir files pkg) {name : String} :
    pkg.types.get? name = none ↔ ∀ e ∈ files, name ∉ e.2.typeNames := by
  have hnames : (files.flatMap fun e => e.2.types).map Prod.fst = files.flatMap fun e => e.2.typeNames := by
    rw [List.map_flatMap]
    rfl
  rw [h.types, ← not_iff_not, ← ne_eq, Option.ne_none_iff_exists']
  constructor
  · rintro ⟨info, hinfo⟩ hnone
    rcases Table.get?_foldl_put_eq_some_iff.1 hinfo with ⟨before, after, hsplit, -⟩ | ⟨-, hempty⟩
    · have hmem : name ∈ files.flatMap fun e => e.2.typeNames := by
        rw [← hnames, hsplit]
        simp
      obtain ⟨e, he, hname⟩ := List.mem_flatMap.1 hmem
      exact hnone e he hname
    · cases hempty
  · intro hsome
    push Not at hsome
    obtain ⟨e, he, hname⟩ := hsome
    have hmem : name ∈ (files.flatMap fun e => e.2.types).map Prod.fst :=
      hnames ▸ List.mem_flatMap.2 ⟨e, he, hname⟩
    obtain ⟨before, info, after, hsplit, hlast⟩ := Table.exists_last_entry hmem
    exact ⟨info, Table.get?_foldl_put_eq_some_iff.2 (.inl ⟨before, after, hsplit, hlast⟩)⟩

/-- Adding a file puts what it declares behind the rest. -/
theorem addTo (h : Collects path dir files pkg) (name : String) (m : Manifest) :
    Collects path dir (files ++ [(name, m)]) (m.addTo (dir.join ⟨name⟩) pkg) := by
  have hadded := foldl_addType (dir.join ⟨name⟩) m.types pkg
  rw [Manifest.addTo, hadded]
  constructor
  case path => exact h.path
  case dir => exact h.dir
  all_goals simp [h.files, h.providers, h.sets, h.injectors, h.types]

/-- Adding a file leaves a package without faults if it had none and has none of the file's types. -/
theorem errors_addTo (h : Collects path dir files pkg) (hdistinct : m.typeNames.Nodup) (file : Path) :
    (m.addTo file pkg).errors = [] ↔
      pkg.errors = [] ∧ ∀ e ∈ files, ∀ name ∈ e.2.typeNames, name ∉ m.typeNames := by
  have herrors : (m.addTo file pkg).errors = (m.types.foldl (addType file) pkg).errors := rfl
  rw [herrors, errors_foldl_addType file hdistinct]
  refine and_congr_right fun _ => ?_
  constructor
  · intro hnone e he name hmem hname
    exact h.get?_eq_none_iff.1 (hnone name hname) e he hmem
  · intro hapart name hname
    exact h.get?_eq_none_iff.2 fun e he hmem => hapart e he name hmem hname

end Collects

/-! ### Reading the files -/

/-- A package on its way holds what the files read so far declare.  It has no faults as long as they declare
different types. -/
structure Draft.Gathered (path : String) (dir : Path) (files : List (String × Manifest)) (d : Draft) :
    Prop where
  contents : Collects path dir files d.pkg
  faults : d.pkg.errors = [] ↔ TypesApart files

/-- A package on its way starts with nothing. -/
theorem Draft.gathered_start (path : String) (dir : Path) :
    ({ pkg := { path, dir } } : Draft).Gathered path dir [] :=
  ⟨⟨rfl, rfl, rfl, rfl, rfl, rfl, rfl⟩, iff_of_true rfl List.Pairwise.nil⟩

/-- What reading a well-formed file does. -/
theorem Draft.readFile_of_declared? (tags : List String) (h : declared? disk file = some m) (d : Draft) :
    ∃ ledger, d.readFile disk tags file =
      .ok (if m.tags.all tags.contains then ⟨m.addTo file d.pkg, ledger⟩ else d) := by
  obtain ⟨text, htext, hparse⟩ := declared?_eq_some_iff.1 h
  exact ⟨_, Draft.readFile_of_parse htext hparse tags d⟩

/-- **Reading a file** adds what it declares if its tags are enabled. -/
theorem Draft.Gathered.step {d : Draft} (h : d.Gathered path dir files) (tags : List String)
    {e : String × Manifest} (hfile : declared? disk (dir.join ⟨e.1⟩) = some e.2) :
    ∃ d', d.readFile disk tags (dir.join ⟨e.1⟩) = .ok d' ∧
      d'.Gathered path dir (files ++ enabled tags [e]) := by
  obtain ⟨ledger, hread⟩ := Draft.readFile_of_declared? tags hfile d
  refine ⟨_, hread, ?_⟩
  rw [enabled, List.filter_singleton]
  split
  case isTrue htags =>
    rw [htags]
    obtain ⟨text, -, hparse⟩ := declared?_eq_some_iff.1 hfile
    -- Within the file its types differ anyway.  What counts is that no earlier file declares them.
    refine ⟨h.contents.addTo e.1 e.2, ?_⟩
    rw [h.contents.errors_addTo (nodup_types_of_parse hparse), h.faults, TypesApart, TypesApart,
      List.pairwise_append]
    simp
  case isFalse htags =>
    rw [Bool.eq_false_iff.2 htags]
    simpa using h

/-- **Reading all files** adds what those declare whose tags are enabled. -/
theorem Draft.Gathered.run {d : Draft} (h : d.Gathered path dir files) (tags : List String)
    (hfiles : ∀ e ∈ found, declared? disk (dir.join ⟨e.1⟩) = some e.2) :
    ∃ d', (found.map fun e => dir.join ⟨e.1⟩).foldlM (Draft.readFile disk tags) d = .ok d' ∧
      d'.Gathered path dir (files ++ enabled tags found) := by
  induction found generalizing d files with
  | nil => exact ⟨d, rfl, by rwa [enabled, List.filter_nil, List.append_nil]⟩
  | cons e found ih =>
      rw [List.forall_mem_cons] at hfiles
      obtain ⟨next, hread, hnext⟩ := h.step tags hfiles.1
      obtain ⟨d', hrest, hd'⟩ := ih hnext hfiles.2
      refine ⟨d', ?_, ?_⟩
      · rw [List.map_cons, List.foldlM_cons, hread]
        exact hrest
      · have hsplit : enabled tags (e :: found) = enabled tags [e] ++ enabled tags found :=
          List.filter_append [e] found
        rwa [hsplit, ← List.append_assoc]

/-! ### The package -/

/-- Names are repeated nowhere if they are different and none of them has been met before. -/
theorem repeats_eq_nil_iff {met names : List String} :
    repeats met names = [] ↔ names.Nodup ∧ ∀ name ∈ names, name ∉ met := by
  induction names generalizing met with
  | nil => simp [repeats]
  | cons name rest ih =>
      rw [repeats, List.nodup_cons, List.forall_mem_cons]
      by_cases hmet : name ∈ met
      · simp [hmet]
      · rw [if_neg hmet, ih]
        simp only [List.mem_cons, not_or]
        constructor
        · rintro ⟨hrest, hapart⟩
          exact ⟨⟨fun hmem => (hapart name hmem).1 rfl, hrest⟩, hmet,
            fun other hother => (hapart other hother).2⟩
        · rintro ⟨⟨hnew, hrest⟩, -, hapart⟩
          exact ⟨hrest, fun other hother => ⟨fun heq => hnew (heq ▸ hother), hapart other hother⟩⟩

/-- A package is put together from files.  It is valid if they declare different types and if its providers,
sets and injectors have different names.  It imports what its references lead to. -/
structure Assembles (address : String) (folder : Path) (declared : List (String × Manifest)) (pkg : Package) :
    Prop where
  contents : Collects address folder declared pkg
  ascending : (declared.map Prod.fst).Pairwise (· ≤ ·)
  /-- Of several declarations of a type the last one counts. -/
  types : ∀ name info, pkg.types.get? name = some info ↔ ∃ before after,
    (declared.flatMap fun e => e.2.types) = before ++ (name, info) :: after ∧ name ∉ after.map Prod.fst
  valid : pkg.isValid ↔ (declaredNames pkg).Nodup ∧ TypesApart declared
  sorted : pkg.imports.Pairwise (· < ·)
  imports : ∀ other, other ∈ pkg.imports ↔
    other ≠ address ∧ ∃ reference ∈ pkg.references, (SetId.parse reference address).pkg = other
  /-- A set draws from the package itself and from its imports only. -/
  drawsSet : ∀ name asker s, pkg.extractSet name asker = .ok s → ∀ id ∈ s.references,
    id.pkg = address ∨ id.pkg ∈ pkg.imports
  /-- So does an injector. -/
  drawsRequest : ∀ decl ∈ pkg.injectors, ∀ r, pkg.request decl = .ok r → ∀ id ∈ r.references,
    id.pkg = address ∨ id.pkg ∈ pkg.imports

/-- What has been gathered from files is a package once its names are compared and its imports are listed. -/
theorem Draft.Gathered.assembles {d : Draft} (h : d.Gathered path dir files)
    (hfiles : (files.map Prod.fst).Pairwise (· ≤ ·)) : Assembles path dir files d.complete := by
  obtain ⟨hpath, hdir, hread, hproviders, hsets, hinjectors, htypes⟩ := h.contents
  have himports : ∀ other, other ∈ d.complete.imports ↔
      other ≠ path ∧ ∃ reference ∈ d.complete.references, (SetId.parse reference path).pkg = other := by
    intro other
    rw [← hpath]
    exact mem_importsOf
  have hdraws : ∀ id, (∃ reference ∈ d.complete.references, SetId.parse reference path = id) →
      id.pkg = path ∨ id.pkg ∈ d.complete.imports := by
    rintro id ⟨reference, hreference, rfl⟩
    rw [himports, or_iff_not_imp_left]
    exact fun hforeign => ⟨hforeign, reference, hreference, rfl⟩
  have hcomplete : d.complete.path = path := hpath
  constructor
  case contents => exact ⟨hpath, hdir, hread, hproviders, hsets, hinjectors, htypes⟩
  case ascending => exact hfiles
  case types =>
    intro name info
    have hget : d.complete.types = _ := htypes
    rw [hget, Table.get?_foldl_put_eq_some_iff, or_iff_left]
    exact fun hempty => nomatch hempty.2
  case valid =>
    have hfaults : d.complete.errors = [] ↔ d.pkg.errors = [] ∧ repeats [] (declaredNames d.pkg) = [] := by
      rw [Draft.complete, List.append_eq_nil_iff, List.map_eq_nil_iff]
    have hnames : declaredNames d.complete = declaredNames d.pkg := rfl
    rw [Package.isValid, decide_eq_true_eq, hfaults, h.faults, repeats_eq_nil_iff, hnames, and_comm]
    simp
  case sorted => exact pairwise_lt_mergeSort (nodup_eraseDups _)
  case imports => exact himports
  case drawsSet =>
    intro name asker s hs id hid
    obtain ⟨reference, hreference, hparse⟩ := Package.references_of_extractSet hs hid
    exact hdraws id ⟨reference, hreference, hcomplete ▸ hparse⟩
  case drawsRequest =>
    intro decl hdecl r hr id hid
    obtain ⟨reference, hreference, hparse⟩ := Package.references_of_request hdecl hr hid
    exact hdraws id ⟨reference, hreference, hcomplete ▸ hparse⟩

/-- The names of declaration files are in ascending order. -/
theorem DeclaredIn.pairwise_enabled (h : DeclaredIn disk dir found) (tags : List String) :
    ((enabled tags found).map Prod.fst).Pairwise (· ≤ ·) := by
  obtain ⟨names, hlist, hnames⟩ := h.listing
  have hfound : (found.map Prod.fst).Pairwise (· ≤ ·) :=
    hnames ▸ (Disk.pairwise_list hlist).sublist List.filter_sublist
  exact hfound.sublist (List.filter_sublist.map _)

/-- **What a directory of well-formed files is loaded as.**  If no file has its tags enabled, there is no
package.  Otherwise there is one, and it is put together from the files whose tags are enabled. -/
theorem loadPackage_assembles (h : DeclaredIn disk dir found) (tags : List String) (path : String) :
    (enabled tags found = [] →
      loadPackage disk tags path dir = .error ⟨path, "no declaration files in " ++ dir.text⟩) ∧
    (enabled tags found ≠ [] →
      ∃ pkg, loadPackage disk tags path dir = .ok pkg ∧ Assembles path dir (enabled tags found) pkg) := by
  obtain ⟨names, hlist, hnames⟩ := h.listing
  obtain ⟨d, hread, hd⟩ := (Draft.gathered_start path dir).run tags h.wellFormed
  rw [List.nil_append] at hd
  have hpaths : (names.filter isFileName).map (fun name => dir.join ⟨name⟩) =
      found.map fun e => dir.join ⟨e.1⟩ := by
    rw [hnames, List.map_map]
    rfl
  have hload : loadPackage disk tags path dir = if d.pkg.files = [] then
      .error ⟨path, "no declaration files in " ++ dir.text⟩ else .ok d.complete := by
    unfold loadPackage
    simp only [hlist, hpaths, pure, Except.pure, bind, Except.bind, hread]
    split <;> rfl
  have hempty : d.pkg.files = [] ↔ enabled tags found = [] := by
    rw [hd.contents.files, List.map_eq_nil_iff]
  rw [hload]
  refine ⟨fun hnone => if_pos (hempty.2 hnone), fun hsome => ⟨_, if_neg (hempty.not.2 hsome), ?_⟩⟩
  exact hd.assembles (h.pairwise_enabled tags)

/-- A directory with two files that count, one whose tag is not enabled, and one that declares nothing. -/
def orchard : Disk where
  nodes :=
    ⟨[(["p"], .folder),
      (["p", "a.wire.toml"], .file (Text.encode
        "types.Apple = {}\n[[set]]\nname = \"Trees\"\nsets = [\"m/q.Roots\"]\n") 0),
      (["p", "b.wire.toml"], .file (Text.encode "tags = [\"frost\"]\n[[set]]\nname = \"Trees\"\n") 0),
      (["p", "notes.toml"], .file (Text.encode "[[set]]\n") 0),
      (["p", "wire.toml"], .file (Text.encode
        "types.Apple = {}\n[[injector]]\nname = \"Pick\"\nsets = [\"Trees\", \"x.y/z.Baskets\"]\n") 0)]⟩

/-- What the files of the directory declare. -/
def orchardFiles : List (String × Manifest) :=
  [("a.wire.toml",
      { types := [("Apple", {})], sets := [{ name := "Trees", sets := ["m/q.Roots"] }] }),
    ("b.wire.toml", { tags := ["frost"], sets := [{ name := "Trees" }] }),
    ("wire.toml",
      { types := [("Apple", {})], injectors := [{ name := "Pick", sets := ["Trees", "x.y/z.Baskets"] }] })]

deriving instance DecidableEq for Manifest

theorem declaredIn_orchard : DeclaredIn orchard ⟨"/p"⟩ orchardFiles := by
  refine ⟨⟨["a.wire.toml", "b.wire.toml", "notes.toml", "wire.toml"], ?_, by decide⟩, by decide +kernel⟩
  have hplace : orchard.locate ⟨"/p"⟩ = .ok ["p"] := by decide
  have hnames : orchard.nodes.keys.filterMap (Disk.childName? ["p"]) =
      ["a.wire.toml", "b.wire.toml", "notes.toml", "wire.toml"] := by
    decide
  have hsorted : orchard.namesAt ["p"] = ["a.wire.toml", "b.wire.toml", "notes.toml", "wire.toml"] := by
    rw [Disk.namesAt, hnames]
    exact List.mergeSort_of_pairwise (by decide)
  rw [Disk.list, hplace, ← hsorted]
  rfl

/-- Both files declare the same type, and their references lead to two other packages. -/
theorem loadPackage_assembles_orchard :
    DeclaredIn orchard ⟨"/p"⟩ orchardFiles ∧ enabled [] orchardFiles ≠ [] ∧
      ∃ pkg, loadPackage orchard [] "m/p" ⟨"/p"⟩ = .ok pkg ∧
        pkg.files = [⟨"/p/a.wire.toml"⟩, ⟨"/p/wire.toml"⟩] ∧ ¬ pkg.isValid ∧
        ∀ other, other ∈ pkg.imports ↔ other = "m/q" ∨ other = "x.y/z" := by
  have hsome : enabled [] orchardFiles ≠ [] := by decide
  obtain ⟨pkg, hload, h⟩ := (loadPackage_assembles declaredIn_orchard [] "m/p").2 hsome
  refine ⟨declaredIn_orchard, hsome, pkg, hload, ?_, ?_, fun other => ?_⟩
  · rw [h.contents.files]
    decide
  · have hclash : ¬ TypesApart (enabled [] orchardFiles) := by decide +kernel
    exact fun hvalid => hclash (h.valid.1 hvalid).2
  · have hleads : pkg.references.map (fun reference => (SetId.parse reference "m/p").pkg) =
        ["m/q", "m/p", "x.y/z"] := by
      rw [Package.references, h.contents.sets, h.contents.injectors]
      decide +kernel
    rw [h.imports, ← List.mem_map, hleads]
    simp only [List.mem_cons, List.not_mem_nil, or_false]
    constructor
    · rintro ⟨hforeign, rfl | rfl | rfl⟩
      · exact .inl rfl
      · exact absurd rfl hforeign
      · exact .inr rfl
    · rintro (rfl | rfl)
      · exact ⟨by decide, .inl rfl⟩
      · exact ⟨by decide, .inr (.inr rfl)⟩

end Manifest

end Wiring
