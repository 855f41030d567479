/-
**Packages and their directories.**

The path of a package is read off the components of its directory, and the directory of a package is found by
cutting its path at the slashes and joining the pieces.  Both come down to the segments of the path that are
not idle: those are the components that a directory goes on with behind the module's own, wherever the slashes
stand, and written one after the other they are the path that the directory is given.

So the two ways undo each other, as far as they can.  A name that is no text goes into the path as it is
shown, and what is shown does not tell which name it was: the path leads to a directory whose name is that
text, and directories that are shown alike have one path.  A path may be written with idle segments, which do
not come back, or with steps up, which lead to no package at all.

Main definitions:

* `Wiring.Module.pathAt` — the path of a package at a place;
* `Wiring.Module.Plain` — a path that goes down from the module's without idle segments and steps up;
* `Wiring.RawModule.Corresponds` — how the paths of packages and directories go together.

Main results:

* `Wiring.RawModule.packagePath?_of_goesDown` — the path of the package in a directory;
* `Wiring.RawModule.packagePath?_foldl_join` — and in the directory that segments lead to;
* `Wiring.Module.raw_packageDir?` — the directory of a package as a text and as the system holds it;
* `Wiring.RawModule.corresponds` — **plain paths and directories with texts for names correspond one to one**;
* `Wiring.RawModule.shown_alike` — **other names are not told apart**.
-/

import Wiring.Loading.Module
import Wiring.Proofs.Disk.RawPaths

set_option autoImplicit false

namespace Wiring

/-! ### Paths of packages -/

namespace Module

variable {π : Type} {m : Module π} {pkg rest : String} {names names' parts : List String}

/-- The path of the package that some names lead down to from the module's directory. -/
def pathAt (m : Module π) (names : List String) : String :=
  names.foldl (fun path name => path ++ "/" ++ name) m.path

theorem pathAt_cons (m : Module π) (name : String) (rest : List String) :
    m.pathAt (name :: rest) = m.path ++ "/" ++ Text.join "/" (name :: rest) := by
  have hfold : ∀ (path name : String) (rest : List String),
      rest.foldl (fun path name => path ++ "/" ++ name) (path ++ "/" ++ name) =
        path ++ "/" ++ Text.join "/" (name :: rest) := by
    intro path name rest
    induction rest generalizing path name with
    | nil => rw [Text.join_singleton, List.foldl_nil]
    | cons second more ih =>
        rw [List.foldl_cons, ih, Text.join_cons_cons]
        simp only [String.append_assoc]
  exact hfold m.path name rest

/-- A path that goes on behind a slash is longer than that of the module. -/
theorem slash_ne_path (m : Module π) (rest : String) : m.path ++ "/" ++ rest ≠ m.path := by
  intro h
  have hlength := congrArg (fun s : String => s.toList.length) h
  simp only [String.toList_append, List.length_append] at hlength
  have hslash : ("/" : String).toList.length = 1 := by decide
  omega

theorem segments?_slash (m : Module π) (rest : String) :
    m.segments? (m.path ++ "/" ++ rest) = some (Text.fields '/' rest) := by
  have hstart : Text.afterStart? (m.path ++ "/") (m.path ++ "/" ++ rest) = some rest := by
    rw [Text.afterStart?, Option.map_eq_some_iff]
    refine ⟨rest.toList, ?_, String.ofList_toList⟩
    simp only [List.isPrefixOf?_eq_some_iff_append_eq, String.toList_append]
  rw [segments?, if_neg (m.slash_ne_path rest), hstart]
  rfl

/-- A path has the segments that it is written with. -/
theorem segments?_pathAt (m : Module π) (hnames : ∀ name ∈ names, '/' ∉ name.toList) :
    m.segments? (m.pathAt names) = some names := by
  cases names with
  | nil => exact if_pos rfl
  | cons name rest =>
      rw [pathAt_cons, segments?_slash, Text.fields_join (List.cons_ne_nil _ _) hnames]

/-- Different names make different paths. -/
theorem pathAt_inj (hnames : ∀ name ∈ names, '/' ∉ name.toList)
    (hnames' : ∀ name ∈ names', '/' ∉ name.toList) :
    m.pathAt names = m.pathAt names' ↔ names = names' := by
  refine ⟨fun h => ?_, congrArg m.pathAt⟩
  have hsegments := m.segments?_pathAt hnames
  rw [h, m.segments?_pathAt hnames', Option.some.injEq] at hsegments
  exact hsegments.symm

/-- A path that has segments is that of the module or goes on behind a slash. -/
theorem segments?_eq_some (h : m.segments? pkg = some parts) :
    pkg = m.path ∧ parts = [] ∨ ∃ rest, pkg = m.path ++ "/" ++ rest ∧ parts = Text.fields '/' rest := by
  unfold segments? at h
  split at h
  next hpkg => exact .inl ⟨hpkg, (Option.some.inj h).symm⟩
  · obtain ⟨rest, hrest, rfl⟩ := Option.map_eq_some_iff.1 h
    obtain ⟨chars, hchars, rfl⟩ := Option.map_eq_some_iff.1 hrest
    rw [List.isPrefixOf?_eq_some_iff_append_eq] at hchars
    refine .inr ⟨String.ofList chars, String.toList_injective ?_, rfl⟩
    rw [String.toList_append, String.toList_ofList, hchars]

theorem segments?_eq_none_iff :
    m.segments? pkg = none ↔ pkg ≠ m.path ∧ ∀ rest, pkg ≠ m.path ++ "/" ++ rest := by
  constructor
  · intro h
    constructor
    · rintro rfl
      rw [segments?, if_pos rfl] at h
      cases h
    · rintro rest rfl
      rw [segments?_slash] at h
      cases h
  · rintro ⟨hmodule, hslash⟩
    cases hparts : m.segments? pkg with
    | none => rfl
    | some parts =>
        rcases segments?_eq_some hparts with ⟨hpkg, -⟩ | ⟨rest, hpkg, -⟩
        · exact absurd hpkg hmodule
        · exact absurd hpkg (hslash rest)

/-- A path that goes on behind a slash is written by its segments. -/
theorem pathAt_eq_iff (hfree : ∀ name ∈ names, '/' ∉ name.toList) :
    m.pathAt names = m.path ++ "/" ++ rest ↔ names = Text.fields '/' rest := by
  cases names with
  | nil =>
      refine ⟨fun h => absurd h.symm (m.slash_ne_path rest), fun h => ?_⟩
      exact absurd (List.map_eq_nil_iff.1 h.symm) (Text.cut_ne_nil _ _)
  | cons name more =>
      rw [pathAt_cons, String.append_right_inj]
      constructor
      · rintro rfl
        rw [Text.fields_join (List.cons_ne_nil _ _) hfree]
      · intro h
        rw [h, Text.join_fields]

/-- A path that goes down from the module's without idle segments and steps up. -/
def Plain (m : Module π) (pkg : String) : Prop :=
  pkg = m.path ∨ ∃ rest, pkg = m.path ++ "/" ++ rest ∧
    ∀ segment ∈ Text.fields '/' rest, segment ≠ "" ∧ segment ≠ "." ∧ segment ≠ ".."

theorem plain_slash_iff : m.Plain (m.path ++ "/" ++ rest) ↔
    ".." ∉ Text.fields '/' rest ∧
      ((Text.fields '/' rest).filter fun s => !Path.isIdle s) = Text.fields '/' rest := by
  have hidle : ∀ segment : String, (!Path.isIdle segment) = true ↔ segment ≠ "" ∧ segment ≠ "." := by
    intro segment
    simp [Path.isIdle]
  rw [List.filter_eq_self]
  simp only [hidle]
  constructor
  · rintro (h | ⟨rest', hrest, hplain⟩)
    · exact absurd h (m.slash_ne_path rest)
    · rw [String.append_right_inj] at hrest
      subst hrest
      exact ⟨fun hup => (hplain _ hup).2.2 rfl, fun s hs => ⟨(hplain s hs).1, (hplain s hs).2.1⟩⟩
  · rintro ⟨hup, hfields⟩
    exact .inr ⟨rest, rfl, fun s hs => ⟨(hfields s hs).1, (hfields s hs).2, fun h => hup (h ▸ hs)⟩⟩

/-- The directories of packages as texts are those that the system holds. -/
theorem raw_packageDir? (m : Module) (pkg : String) :
    (m.packageDir? pkg).map Path.raw = m.raw.packageDir? pkg := by
  have hfold : ∀ (parts : List String) (dir : Path),
      (parts.foldl (fun (dir : Path) part => dir.join ⟨part⟩) dir).raw =
        parts.foldl (fun (dir : RawPath) part => dir.join (.ofText part)) dir.raw := by
    intro parts
    induction parts with
    | nil => exact fun _ => rfl
    | cons part rest ih =>
        intro dir
        rw [List.foldl_cons, ih, Path.raw_join]
        rfl
  rw [packageDir?, Option.map_map]
  exact congrArg (Option.map · (m.segments? pkg)) (funext fun parts => hfold parts m.root)

end Module

/-! ### From directories to paths -/

namespace RawModule

variable {m : RawModule} {dir : RawPath} {pkg rest : String} {names place : List RawName}
  {parts : List String}

theorem packagePath?_of_components {steps : List (Component RawName)}
    (h : dir.components = m.root.components ++ steps) :
    m.packagePath? dir = Module.continuePath m.path steps := by
  have hsteps : m.root.stepsFrom? dir = some steps := by
    rw [RawPath.stepsFrom?, List.isPrefixOf?_eq_some_iff_append_eq]
    exact h.symm
  rw [packagePath?, hsteps, Option.bind_some]

/-- Names continue a path as they are shown. -/
theorem continuePath_normal (path : String) (names : List RawName) :
    Module.continuePath path (names.map .normal) =
      some ((names.map RawName.shown).foldl (fun path name => path ++ "/" ++ name) path) := by
  induction names generalizing path with
  | nil => rfl
  | cons name rest ih => exact ih (path ++ "/" ++ name.shown)

/-- Dots do not change the path of a package. -/
theorem continuePath_filter (path : String) (steps : List (Component RawName)) :
    Module.continuePath path (steps.filter (· ≠ .current)) = Module.continuePath path steps := by
  induction steps generalizing path with
  | nil => rfl
  | cons step rest ih =>
      cases step with
      | current =>
          rw [List.filter_cons_of_neg (by simp), Module.continuePath, ih]
      | normal name =>
          rw [List.filter_cons_of_pos (by simp), Module.continuePath, Module.continuePath, ih]
      | root | parent =>
          rw [List.filter_cons_of_pos (by simp)]
          rfl

/-- A step up leads out of the module, and all other segments continue the path. -/
theorem continuePath_map_stepOf (path : String) (segments : List String) :
    Module.continuePath path ((segments.map Path.stepOf).map (Component.map Text.encode)) =
      if ".." ∈ segments then none
      else some (segments.foldl (fun path name => path ++ "/" ++ name) path) := by
  induction segments generalizing path with
  | nil => rfl
  | cons segment rest ih =>
      rw [List.map_cons, List.map_cons, Path.stepOf]
      by_cases hup : segment = ".."
      · rw [if_pos hup, if_pos (hup ▸ List.mem_cons_self)]
        rfl
      · have hrest : ".." ∈ segment :: rest ↔ ".." ∈ rest := by
          rw [List.mem_cons, or_iff_right (Ne.symm hup)]
        rw [if_neg hup, Component.map, Module.continuePath, RawName.shown_encode, ih]
        simp only [hrest, List.foldl_cons]

/-- **The path of the package in the directory that segments lead to** is written with those that are not
idle.  If there is a step up among them, there is no such package. -/
theorem packagePath?_foldl_join (m : RawModule) (hparts : ∀ part ∈ parts, '/' ∉ part.toList) :
    m.packagePath? (parts.foldl (fun (dir : RawPath) part => dir.join (.ofText part)) m.root) =
      if ".." ∈ parts then none else some (m.pathAt (parts.filter fun s => !Path.isIdle s)) := by
  have hbytes : ∀ part ∈ parts.map Text.encode, RawPath.slash ∉ part := by
    intro part hpart
    obtain ⟨text, htext, rfl⟩ := List.mem_map.1 hpart
    exact Text.slash_not_mem_encode (hparts text htext)
  obtain ⟨steps, hsteps, hkept, -⟩ := RawPath.components_foldl_join m.root hbytes
  have hup : ".." ∈ (parts.filter fun s => !Path.isIdle s) ↔ ".." ∈ parts := by
    rw [List.mem_filter]
    exact and_iff_left (by decide)
  rw [List.foldl_map] at hsteps
  have hpath := packagePath?_of_components hsteps
  rw [← continuePath_filter, hkept, Path.steps_encode, continuePath_map_stepOf] at hpath
  simp only [hup] at hpath
  exact hpath

/-- **The path of the package in a directory** is written with the names that lead there, as they are
shown. -/
theorem packagePath?_of_goesDown (h : m.root.GoesDown names dir) :
    m.packagePath? dir = some (m.pathAt (names.map RawName.shown)) := by
  rw [packagePath?_of_components h, continuePath_normal, Module.pathAt]

/-- The packages at places are those below the module's directory. -/
theorem packagePath?_ofNames {path : String} {loc : List RawName} (hroot : m.root = .ofNames place)
    (hplace : ∀ name ∈ place, name.Proper) (hloc : ∀ name ∈ loc, name.Proper) :
    m.packagePath? (.ofNames loc) = some path ↔
      ∃ names, loc = place ++ names ∧ path = m.pathAt (names.map RawName.shown) := by
  have hsteps : m.root.stepsFrom? (.ofNames loc) =
      (place.map Component.normal).isPrefixOf? (loc.map .normal) := by
    rw [RawPath.stepsFrom?, hroot, RawPath.components_ofNames hplace, RawPath.components_ofNames hloc]
    exact if_pos (beq_self_eq_true _)
  rw [packagePath?, hsteps]
  constructor
  · intro h
    obtain ⟨steps, hprefix, hpath⟩ := Option.bind_eq_some_iff.1 h
    rw [List.isPrefixOf?_eq_some_iff_append_eq] at hprefix
    obtain ⟨above, names, rfl, habove, rfl⟩ := List.map_eq_append_iff.1 hprefix.symm
    obtain rfl := List.map_injective_iff.2 (fun _ _ => Component.normal.inj) habove
    rw [continuePath_normal, Option.some.injEq] at hpath
    exact ⟨names, rfl, hpath.symm⟩
  · rintro ⟨names, rfl, rfl⟩
    refine Option.bind_eq_some_iff.2 ⟨names.map .normal, ?_, continuePath_normal _ _⟩
    rw [List.isPrefixOf?_eq_some_iff_append_eq, List.map_append]

theorem proper_of_goesDown (h : m.root.GoesDown names dir) : ∀ name ∈ names, name.Proper := by
  intro name hname
  refine RawPath.proper_of_mem_components (p := dir) ?_
  rw [h]
  exact List.mem_append_right _ (List.mem_map.2 ⟨name, hname, rfl⟩)

theorem isName_shown (h : ∀ name ∈ names, name.Proper) :
    ∀ text ∈ names.map RawName.shown, IsName text := by
  intro text htext
  obtain ⟨name, hname, rfl⟩ := List.mem_map.1 htext
  exact (h name hname).isName

/-- Directories have one path exactly if the names that lead there are shown alike. -/
theorem packagePath?_eq_packagePath?_iff {names' : List RawName} {dir' : RawPath}
    (h : m.root.GoesDown names dir) (h' : m.root.GoesDown names' dir') :
    m.packagePath? dir = m.packagePath? dir' ↔ names.map RawName.shown = names'.map RawName.shown := by
  rw [packagePath?_of_goesDown h, packagePath?_of_goesDown h', Option.some.injEq, Module.pathAt_inj]
  · exact fun text htext => (isName_shown (proper_of_goesDown h) text htext).whole
  · exact fun text htext => (isName_shown (proper_of_goesDown h') text htext).whole

/-! ### From paths to directories -/

/-- Paths of names lead down by them. -/
theorem packageDir?_pathAt (m : RawModule) {names : List String} (hnames : ∀ name ∈ names, IsName name) :
    m.packageDir? (m.pathAt names) =
      some ((names.map Text.encode).foldl (fun (dir : RawPath) part => dir.join ⟨part⟩) m.root) := by
  rw [packageDir?, m.segments?_pathAt fun name hname => (hnames name hname).whole, List.foldl_map]
  rfl

/-- The path that a directory has leads to the one whose names are what is shown. -/
theorem exists_dir (h : m.root.GoesDown names dir) :
    ∃ dir', m.packageDir? (m.pathAt (names.map RawName.shown)) = some dir' ∧
      m.root.GoesDown (names.map fun name => Text.encode name.shown) dir' := by
  have hnames := isName_shown (proper_of_goesDown h)
  refine ⟨_, m.packageDir?_pathAt hnames, ?_⟩
  rw [List.map_map]
  refine m.root.goesDown_foldl_join fun part hpart => ?_
  obtain ⟨name, hname, rfl⟩ := List.mem_map.1 hpart
  exact RawName.proper_encode (hnames _ (List.mem_map.2 ⟨name, hname, rfl⟩))

theorem encode_shown_of_isText (htexts : ∀ name ∈ names, name.IsText) :
    (names.map RawName.shown).map Text.encode = names := by
  rw [List.map_map]
  exact (List.map_congr_left fun name hname => RawName.isText_iff.1 (htexts name hname)).trans
    (List.map_id _)

/-- What is shown of names leads to the same components if and only if they are texts. -/
theorem components_eq_iff {dir' : RawPath} (h : m.root.GoesDown names dir)
    (h' : m.root.GoesDown (names.map fun name => Text.encode name.shown) dir') :
    dir'.components = dir.components ↔ ∀ name ∈ names, name.IsText := by
  simp only [RawName.isText_iff]
  rw [h, h', List.append_cancel_left_eq, List.map_inj_right fun _ _ => Component.normal.inj]
  exact (Iff.of_eq (congrArg _ (List.map_id names).symm)).trans List.map_inj_left

/-- The path of the package in the directory that a path leads to is that path if it is written plainly, and
else another one or none. -/
theorem packagePath?_eq_iff (h : m.packageDir? pkg = some dir) :
    m.packagePath? dir = some pkg ↔ m.Plain pkg := by
  obtain ⟨parts, hparts, rfl⟩ := Option.map_eq_some_iff.1 h
  rcases Module.segments?_eq_some hparts with ⟨rfl, rfl⟩ | ⟨rest, rfl, rfl⟩
  · have hroot : m.root.GoesDown [] m.root := (List.append_nil _).symm
    rw [List.foldl_nil, packagePath?_of_goesDown hroot]
    exact ⟨fun _ => .inl rfl, fun _ => rfl⟩
  · have hfree : ∀ part ∈ Text.fields '/' rest, '/' ∉ part.toList := fun _ =>
      Text.not_mem_of_mem_fields
    rw [packagePath?_foldl_join m hfree, Module.plain_slash_iff, Option.ite_none_left_eq_some,
      Option.some.injEq, Module.pathAt_eq_iff fun name hname => hfree name (List.mem_filter.1 hname).1]

/-! ### The correspondence -/

/-- How the paths of packages and the directories at and below a module's own go together. -/
structure Corresponds (m : RawModule) : Prop where
  /-- A directory has the path that is written with the names that lead there, as they are shown. -/
  path : ∀ names dir, m.root.GoesDown names dir →
    m.packagePath? dir = some (m.pathAt (names.map RawName.shown))
  /-- The path leads to the directory that the names lead to if each is replaced by what is shown.  That is
  the same directory if and only if all the names are texts. -/
  back : ∀ names dir pkg, m.root.GoesDown names dir → m.packagePath? dir = some pkg →
    ∃ dir', m.packageDir? pkg = some dir' ∧
      m.root.GoesDown (names.map fun name => Text.encode name.shown) dir' ∧
      (dir'.components = dir.components ↔ ∀ name ∈ names, name.IsText)
  /-- For names that are texts the path of a place leads back to it as it is written. -/
  place : ∀ place names, (∀ name ∈ place, name.Proper) → (∀ name ∈ names, name.Proper ∧ name.IsText) →
    m.root = .ofNames place → ∃ pkg, m.packagePath? (.ofNames (place ++ names)) = some pkg ∧
      m.packageDir? pkg = some (.ofNames (place ++ names))
  /-- Directories have one path if and only if the names that lead there are shown alike. -/
  alike : ∀ names dir names' dir', m.root.GoesDown names dir → m.root.GoesDown names' dir' →
    (m.packagePath? dir = m.packagePath? dir' ↔ names.map RawName.shown = names'.map RawName.shown)
  /-- Different directories to which texts lead have different paths. -/
  distinct : ∀ names dir names' dir', m.root.GoesDown names dir → m.root.GoesDown names' dir' →
    (∀ name ∈ names, name.IsText) → (∀ name ∈ names', name.IsText) →
    dir.components ≠ dir'.components → m.packagePath? dir ≠ m.packagePath? dir'
  /-- The directory that a path leads to has that path if and only if it is written plainly. -/
  forth : ∀ pkg dir, m.packageDir? pkg = some dir → (m.packagePath? dir = some pkg ↔ m.Plain pkg)
  /-- A path leads nowhere if and only if it neither is that of the module nor goes on behind a slash. -/
  outside : ∀ pkg, m.packageDir? pkg = none ↔ pkg ≠ m.path ∧ ∀ rest, pkg ≠ m.path ++ "/" ++ rest
  /-- It is not enough to begin like the path of the module. -/
  beginning : ∀ more, more ≠ "" → more.toList.head? ≠ some '/' → m.packageDir? (m.path ++ more) = none

theorem packageDir?_eq_none_iff :
    m.packageDir? pkg = none ↔ pkg ≠ m.path ∧ ∀ rest, pkg ≠ m.path ++ "/" ++ rest := by
  rw [packageDir?, Option.map_eq_none_iff, Module.segments?_eq_none_iff]

theorem corresponds_raw (m : RawModule) : m.Corresponds := by
  constructor
  case path => exact fun names dir => packagePath?_of_goesDown
  case back =>
    intro names dir pkg hdir hpkg
    obtain ⟨dir', hdir', hdown⟩ := exists_dir hdir
    rw [packagePath?_of_goesDown hdir, Option.some.injEq] at hpkg
    exact ⟨dir', hpkg ▸ hdir', hdown, components_eq_iff hdir hdown⟩
  case place =>
    intro place names hplace hnames hroot
    have hproper : ∀ name ∈ names, name.Proper := fun name hname => (hnames name hname).1
    have hall : ∀ name ∈ place ++ names, name.Proper := fun name hname =>
      (List.mem_append.1 hname).elim (hplace name) (hproper name)
    refine ⟨_, (packagePath?_ofNames hroot hplace hall).2 ⟨names, rfl, rfl⟩, ?_⟩
    rw [m.packageDir?_pathAt (isName_shown hproper),
      encode_shown_of_isText fun name hname => (hnames name hname).2, hroot,
      RawPath.foldl_join hplace hproper]
  case alike => exact fun names dir names' dir' => packagePath?_eq_packagePath?_iff
  case distinct =>
    intro names dir names' dir' hdir hdir' htexts htexts' hne hsame
    rw [packagePath?_eq_packagePath?_iff hdir hdir'] at hsame
    refine hne ?_
    rw [hdir, hdir', ← encode_shown_of_isText htexts, ← encode_shown_of_isText htexts', hsame]
  case forth => exact fun pkg dir => packagePath?_eq_iff
  case outside => exact fun pkg => packageDir?_eq_none_iff
  case beginning =>
    intro more hmore hslash
    refine packageDir?_eq_none_iff.2 ⟨?_, ?_⟩
    · intro h
      rw [String.append_eq_left_iff] at h
      exact hmore h
    · intro rest h
      rw [String.append_assoc, String.append_right_inj] at h
      rw [h, String.toList_append] at hslash
      exact hslash rfl

/-- **Plain paths of packages and directories with texts for names correspond one to one**, and the directories
of packages as texts are those that the system holds. -/
theorem corresponds : (∀ m : RawModule, m.Corresponds) ∧
    ∀ (m : Module) (pkg : String), (m.packageDir? pkg).map Path.raw = m.raw.packageDir? pkg :=
  ⟨corresponds_raw, Module.raw_packageDir?⟩

/-- A module in a directory below the root. -/
def smallModule : RawModule :=
  ⟨.ofText "/r", "m"⟩

/-- **Names that are no texts are not told apart.**  Two directories that are shown alike have one path, which
leads to a third.  Spellings of a path are not told apart either: a path with an empty segment leads where the
path without it does. -/
theorem shown_alike :
    smallModule.root.GoesDown [[0xFF]] (.ofNames [Text.encode "r", [0xFF]]) ∧
      smallModule.root.GoesDown [[0xFE]] (.ofNames [Text.encode "r", [0xFE]]) ∧
      smallModule.packagePath? (.ofNames [Text.encode "r", [0xFF]]) = some "m/\uFFFD" ∧
      smallModule.packagePath? (.ofNames [Text.encode "r", [0xFE]]) = some "m/\uFFFD" ∧
      smallModule.packageDir? "m/\uFFFD" = some (.ofNames [Text.encode "r", Text.encode "\uFFFD"]) ∧
      smallModule.packageDir? "m//a" = smallModule.packageDir? "m/a" := by
  decide +kernel

end RawModule

end Wiring
