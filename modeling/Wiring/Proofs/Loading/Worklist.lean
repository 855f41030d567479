/-
**How a load drains its queue.**

A load takes one package after the other out of its queue and puts the imports of what it has loaded
behind the others.  It ends because every import is named by a reference that stands on the disk: with
each package either the queue becomes shorter or fewer of these are new.

Main definitions:

* `Wiring.Manifest.Draft.Reads` — what holds of a package while its files are read;
* `Wiring.Manifest.Progress.Ends` — how a load goes on to its answer;
* `Wiring.Manifest.Progress.toDo` — an upper bound for the packages that are still to be tried.

Main results:

* `Wiring.Manifest.loadPackage_ok`, `Wiring.Manifest.loadPackage_error` — a package and an error bear the
  path that was to be loaded;
* `Wiring.Manifest.mem_named_of_import` — every import of a package is named on the disk;
* `Wiring.Manifest.Progress.toDo_take_lt` — each package brings the load nearer to its end;
* `Wiring.Manifest.Progress.ends_run` — **a load comes to its end**.
-/

import Wiring.Loading.Manifest
import Wiring.Measure

set_option autoImplicit false

namespace Wiring

/-- A text that can be read stands in a file on the disk. -/
theorem Disk.mem_of_readText {disk : Disk} {p : Path} {text : String} (h : disk.readText p = .ok text) :
    ∃ loc bytes modified, (loc, Node.file bytes modified) ∈ disk.nodes.entries ∧
      Text.decode? bytes = some text := by
  unfold readText read find at h
  cases hloc : disk.locate p with
  | error fault => rw [hloc] at h; cases h
  | ok loc =>
      rw [hloc] at h
      cases hnode : disk.node? loc with
      | none => simp only [bind, Except.bind, hnode] at h; cases h
      | some node =>
          simp only [bind, Except.bind, hnode] at h
          cases node with
          | folder => cases h
          | file bytes modified =>
              simp only [pure, Except.pure] at h
              split at h
              next text' hdecode =>
                cases h
                unfold node? at hnode
                split at hnode
                · cases hnode
                · exact ⟨loc, bytes, modified, Table.mem_of_get? hnode, hdecode⟩
              next => cases h

namespace Manifest

/-! ### Reading a package -/

theorem mem_referencesOn {disk : Disk} {file : Path} {text reference : String} {found : Manifest}
    (htext : disk.readText file = .ok text) (hparse : parse text = .ok found)
    (h : reference ∈ found.sets.flatMap SetDecl.sets ++ found.injectors.flatMap InjectorDecl.sets) :
    reference ∈ referencesOn disk := by
  obtain ⟨loc, bytes, modified, hentry, hdecode⟩ := Disk.mem_of_readText htext
  refine List.mem_flatMap.2 ⟨_, hentry, ?_⟩
  simpa only [hdecode, Option.bind_some, hparse, Except.toOption] using h

/-- The types of a file are all that adding them changes, apart from the faults. -/
theorem foldl_addType (file : Path) (types : List (String × TypeInfo)) (pkg : Package) :
    types.foldl (addType file) pkg =
      { pkg with
        types := types.foldl (fun t e => t.put e.1 e.2) pkg.types
        errors := (types.foldl (addType file) pkg).errors } := by
  induction types generalizing pkg with
  | nil => rfl
  | cons entry rest ih => exact ih (addType file pkg entry)

theorem mem_references_addTo {found : Manifest} {file : Path} {pkg : Package} {reference : String}
    (h : reference ∈ (found.addTo file pkg).references) : reference ∈ pkg.references ∨
      reference ∈ found.sets.flatMap SetDecl.sets ++ found.injectors.flatMap InjectorDecl.sets := by
  rw [addTo, foldl_addType] at h
  simp only [Package.references, List.flatMap_append, List.mem_append] at h ⊢
  rcases h with (h | h) | h | h
  · exact .inl (.inl h)
  · exact .inr (.inl h)
  · exact .inl (.inr h)
  · exact .inr (.inr h)

/-- What holds of a package while its files are read: it keeps its path and its directory, and all that it
refers to is written on the disk. -/
structure Draft.Reads (disk : Disk) (path : String) (dir : Path) (d : Draft) : Prop where
  path : d.pkg.path = path
  dir : d.pkg.dir = dir
  references : ∀ reference ∈ d.pkg.references, reference ∈ referencesOn disk

section Reading

variable {disk : Disk} {tags : List String} {path : String} {dir : Path}

theorem Draft.Reads.step {d d' : Draft} {file : Path} (h : d.Reads disk path dir)
    (hread : d.readFile disk tags file = .ok d') : d'.Reads disk path dir := by
  rcases Draft.readFile_cases disk tags d file with ⟨_, heq⟩ | ⟨text, found, htext, hparse, heq⟩ <;>
    rw [heq] at hread
  · cases hread
  · cases hread
    split
    · have hadded := foldl_addType file found.types d.pkg
      refine ⟨(congrArg Package.path hadded).trans h.path, (congrArg Package.dir hadded).trans h.dir, ?_⟩
      intro reference hreference
      rcases mem_references_addTo hreference with hold | hnew
      · exact h.references reference hold
      · exact mem_referencesOn htext hparse hnew
    · exact h

theorem Draft.readFile_error {d : Draft} {file : Path} {e : LoadError}
    (h : d.readFile disk tags file = .error e) : e.pkg = d.pkg.path := by
  rcases Draft.readFile_cases disk tags d file with ⟨_, heq⟩ | ⟨_, _, -, -, heq⟩ <;> cases heq.symm.trans h
  rfl

theorem Draft.Reads.foldlM {d : Draft} (h : d.Reads disk path dir) (files : List Path) :
    (∀ d', files.foldlM (Draft.readFile disk tags) d = .ok d' → d'.Reads disk path dir) ∧
      ∀ e, files.foldlM (Draft.readFile disk tags) d = .error e → e.pkg = path := by
  induction files generalizing d with
  | nil =>
      constructor
      · intro d' hd'
        cases hd'
        exact h
      · intro e he
        cases he
  | cons file rest ih =>
      rw [List.foldlM_cons]
      cases hread : d.readFile disk tags file with
      | error e' =>
          constructor
          · intro d' hd'
            cases hd'
          · intro e he
            cases he
            exact (Draft.readFile_error hread).trans h.path
      | ok next => exact ih (h.step hread)

/-- What a package is read from.  Either its directory cannot be read, or its files are read one by one. -/
theorem loadPackage_cases (disk : Disk) (tags : List String) (path : String) (dir : Path) :
    (∃ message, loadPackage disk tags path dir = .error ⟨path, message⟩) ∨
      ∃ d : Draft, d.Reads disk path dir ∧ loadPackage disk tags path dir = .ok d.complete := by
  unfold loadPackage
  cases hlist : disk.list dir with
  | error fault => exact .inl ⟨_, rfl⟩
  | ok names =>
      have hstart : ({ pkg := { path, dir } } : Draft).Reads disk path dir :=
        ⟨rfl, rfl, fun reference h => absurd h List.not_mem_nil⟩
      obtain ⟨hok, herror⟩ := @Draft.Reads.foldlM disk tags path dir _ hstart
        ((names.filter isFileName).map fun name => dir.join ⟨name⟩)
      simp only [pure, Except.pure, bind, Except.bind]
      split
      next e he => exact .inl ⟨e.message, by rw [← herror e he]⟩
      next d hd =>
        split
        · exact .inl ⟨_, rfl⟩
        · exact .inr ⟨d, hok d hd, rfl⟩

variable {pkg : Package} {e : LoadError}

/-- A package bears the path that was to be loaded, and its directory. -/
theorem loadPackage_ok (h : loadPackage disk tags path dir = .ok pkg) :
    pkg.path = path ∧ pkg.dir = dir := by
  rcases loadPackage_cases disk tags path dir with ⟨message, herror⟩ | ⟨d, hd, hok⟩
  · cases h.symm.trans herror
  · cases h.symm.trans hok
    exact ⟨hd.path, hd.dir⟩

/-- An error bears the path that was to be loaded. -/
theorem loadPackage_error (h : loadPackage disk tags path dir = .error e) : e.pkg = path := by
  rcases loadPackage_cases disk tags path dir with ⟨message, herror⟩ | ⟨d, hd, hok⟩
  · cases h.symm.trans herror
    rfl
  · cases h.symm.trans hok

/-- The packages that the references on a disk lead to. -/
def namedOn (disk : Disk) : List String :=
  (referencesOn disk).map fun reference => (SetId.parse reference "").pkg

/-- A reference that leads to another package leads there from everywhere. -/
theorem parse_pkg_of_foreign {reference current : String}
    (h : (SetId.parse reference current).pkg ≠ current) (other : String) :
    (SetId.parse reference other).pkg = (SetId.parse reference current).pkg := by
  unfold SetId.parse at h ⊢
  split
  · split <;> simp_all
  · simp_all

/-- A package imports the other packages that its references lead to. -/
theorem mem_importsOf {other : String} : other ∈ importsOf pkg ↔
    other ≠ pkg.path ∧ ∃ reference ∈ pkg.references, (SetId.parse reference pkg.path).pkg = other := by
  simp only [importsOf, List.mem_mergeSort, List.mem_eraseDups, List.mem_filter, List.mem_map,
    decide_eq_true_eq, and_comm]

/-- **Every import of a package is named on the disk**, and no package imports itself. -/
theorem mem_named_of_import (h : loadPackage disk tags path dir = .ok pkg) {other : String}
    (himport : other ∈ pkg.imports) : other ∈ namedOn disk ∧ other ≠ path := by
  rcases loadPackage_cases disk tags path dir with ⟨message, herror⟩ | ⟨d, hd, hok⟩
  · cases h.symm.trans herror
  cases h.symm.trans hok
  obtain ⟨hforeign, reference, hreference, rfl⟩ := mem_importsOf.1 himport
  refine ⟨List.mem_map.2 ⟨reference, hd.references reference hreference, ?_⟩, hd.path ▸ hforeign⟩
  exact parse_pkg_of_foreign hforeign ""

end Reading

/-! ### The queue -/

namespace Progress

/-- Adds a package to what has been loaded. -/
def add (p : Progress) (pkg : Package) : Progress :=
  { p with outcome.packages := p.outcome.packages ++ [pkg] }

/-- Notes an error. -/
def fail (p : Progress) (e : LoadError) : Progress :=
  { p with outcome.errors := p.outcome.errors ++ [e] }

/-- The errors of the packages that a load which is cut off leaves in its queue. -/
def leftOver (p : Progress) : List LoadError :=
  p.queue.map fun t => ⟨t.pkg, loadCancelled⟩

variable {disk : Disk} {m : Module} {mode : LoadMode} {tags : List String} {cancelled : Nat → Bool}
  {p : Progress} {t : Target} {path : String}

theorem want_of_mem (h : path ∈ p.met) : p.want m path = p := by
  rw [want, if_pos h]

theorem want_of_some (h : path ∉ p.met) {dir : Path} (hdir : m.packageDir? path = some dir) :
    p.want m path = { p with met := path :: p.met, queue := p.queue ++ [⟨path, dir⟩] } := by
  rw [want, if_neg h]
  dsimp only
  rw [hdir]

theorem want_of_none (h : path ∉ p.met) (hdir : m.packageDir? path = none) :
    p.want m path = { p with met := path :: p.met }.fail
      ⟨path, "imported package is not inside module " ++ m.path⟩ := by
  rw [want, if_neg h]
  dsimp only
  rw [hdir]
  rfl

/-- It makes no difference whether a package is added before or after its imports are wanted. -/
theorem foldl_want_add (m : Module) (imports : List String) (p : Progress) (pkg : Package) :
    imports.foldl (want m) (p.add pkg) = (imports.foldl (want m) p).add pkg := by
  induction imports generalizing p with
  | nil => rfl
  | cons path rest ih =>
      have hone : (p.add pkg).want m path = (p.want m path).add pkg := by
        by_cases hmet : path ∈ p.met
        · rw [want_of_mem hmet]
          exact want_of_mem hmet
        · cases hdir : m.packageDir? path with
          | none =>
              rw [want_of_none hmet hdir]
              exact want_of_none hmet hdir
          | some dir =>
              rw [want_of_some hmet hdir, want_of_some (p := p.add pkg) hmet hdir]
              rfl
      rw [List.foldl_cons, hone, ih, List.foldl_cons]

theorem take_error {e : LoadError} (h : loadPackage disk tags t.pkg t.dir = .error e) :
    p.take disk m mode tags t = p.fail e := by
  rw [take, h]
  rfl

theorem take_ok {pkg : Package} (h : loadPackage disk tags t.pkg t.dir = .ok pkg) :
    p.take disk m mode tags t =
      (if mode = .withDeps then pkg.imports else []).foldl (want m) (p.add pkg) := by
  rw [take, h, foldl_want_add]
  dsimp only
  split <;> rfl

/-- How a load goes on to its answer: it has drained its queue, or it is cut off, or it takes the first
package out of the queue. -/
inductive Ends (disk : Disk) (m : Module) (mode : LoadMode) (tags : List String)
    (cancelled : Nat → Bool) : Nat → Progress → LoadOutcome → Prop
  | drained {tried : Nat} {p : Progress} (hqueue : p.queue = []) :
      Ends disk m mode tags cancelled tried p p.outcome
  | cut {tried : Nat} {p : Progress} (hcancelled : cancelled tried = true) :
      Ends disk m mode tags cancelled tried p
        { p.outcome with errors := p.outcome.errors ++ p.leftOver }
  | step {tried : Nat} {p : Progress} {t : Target} {rest : List Target} {o : LoadOutcome}
      (hqueue : p.queue = t :: rest) (hlive : cancelled tried = false)
      (h : Ends disk m mode tags cancelled (tried + 1)
        (take disk m mode tags { p with queue := rest } t) o) :
      Ends disk m mode tags cancelled tried p o

/-! ### The end of the queue -/

/-- How many packages are still to be tried at most: those in the queue, and those that are named on the
disk and have not been met. -/
def toDo (disk : Disk) (p : Progress) : Nat :=
  p.queue.length + ((namedOn disk).filter (· ∉ p.met)).length

theorem toDo_want_le (hnamed : path ∈ namedOn disk) : (p.want m path).toDo disk ≤ p.toDo disk := by
  by_cases hmet : path ∈ p.met
  · exact Nat.le_of_eq (by rw [want_of_mem hmet])
  have hfewer : ((namedOn disk).filter (· ∉ path :: p.met)).length <
      ((namedOn disk).filter (· ∉ p.met)).length := by
    refine length_filter_lt ?_ hnamed ?_ ?_
    · simp only [List.mem_cons, not_or, decide_eq_true_eq]
      exact fun _ h => h.2
    · exact decide_eq_true hmet
    · simp
  cases hdir : m.packageDir? path with
  | none =>
      rw [want_of_none hmet hdir]
      exact Nat.add_le_add_left (Nat.le_of_lt hfewer) _
  | some dir =>
      rw [want_of_some hmet hdir]
      simp only [toDo, List.length_append, List.length_singleton]
      omega

theorem toDo_foldl_want_le {imports : List String} (hnamed : ∀ path ∈ imports, path ∈ namedOn disk)
    (p : Progress) : (imports.foldl (want m) p).toDo disk ≤ p.toDo disk := by
  induction imports generalizing p with
  | nil => exact Nat.le_refl _
  | cons path rest ih =>
      have hrest := ih (fun q hq => hnamed q (List.mem_cons_of_mem _ hq)) (p.want m path)
      exact Nat.le_trans hrest (toDo_want_le (hnamed path List.mem_cons_self))

/-- Each package brings the load nearer to its end. -/
theorem toDo_take_lt {rest : List Target} (hqueue : p.queue = t :: rest) :
    (take disk m mode tags { p with queue := rest } t).toDo disk < p.toDo disk := by
  have hrest : ({ p with queue := rest } : Progress).toDo disk < p.toDo disk := by
    simp only [toDo, hqueue, List.length_cons]
    omega
  refine Nat.lt_of_le_of_lt ?_ hrest
  cases hload : loadPackage disk tags t.pkg t.dir with
  | error e =>
      rw [take_error hload]
      exact Nat.le_refl _
  | ok pkg =>
      rw [take_ok hload]
      refine toDo_foldl_want_le ?_ _
      intro path hpath
      split at hpath
      · exact (mem_named_of_import hload hpath).1
      · cases hpath

/-- **A load comes to its end** with as many tries as there is to do. -/
theorem ends_run {n tried : Nat} (h : p.toDo disk < n) :
    Ends disk m mode tags cancelled tried p (run disk m mode tags cancelled tried n p) := by
  induction n generalizing tried p with
  | zero => cases h
  | succ n ih =>
      rw [run]
      split
      next hqueue => exact .drained hqueue
      next t rest hqueue =>
        split
        next hcancelled =>
          rw [← hqueue]
          exact .cut hcancelled
        next hlive =>
          refine .step hqueue (by simpa using hlive) (ih ?_)
          have hlt := @toDo_take_lt disk m mode tags p t rest hqueue
          omega

end Progress

end Manifest

end Wiring
