/-
**The verdicts of a load.**

The answer to a request refuses some of its patterns, and then has a verdict on every package that is
wanted: the package itself, or one error.  No package gets two verdicts and none is forgotten, also when
the load is cut off.  A pattern that is refused is not noted among the packages, though.  When it is written
like the path of one that is wanted as well, that path stands in the answer twice.

Main definitions:

* `Wiring.Manifest.expansion`, `Wiring.Manifest.refusals` — what the patterns of a request lead to;
* `Wiring.Manifest.verdictOn` — what becomes of a package that is wanted;
* `Wiring.Manifest.Progress.Judging` — what holds while a load goes on;
* `Wiring.Manifest.Accounts` — the answer to a request accounts for everything that is wanted.

Main results:

* `Wiring.Manifest.Progress.Judging.judged` — a load has a verdict on everything that it met;
* `Wiring.Manifest.gives_verdicts` — **every package gets one verdict**, and a path stands in the answer
  twice just when a refused pattern is written like it.
-/

import Mathlib.Data.List.Induction
import Mathlib.Data.List.Nodup
import Mathlib.Data.List.Perm.Basic
import Wiring.Proofs.Loading.Worklist
import Wiring.Proofs.Results

set_option autoImplicit false

namespace Wiring

namespace Manifest

/-! ### Patterns -/

/-- The package in a directory that a pattern has led to. -/
def targetAt (m : Module) (pattern : String) (dir : Path) : Except LoadError Target :=
  match m.packagePath? dir with
  | some pkg => .ok ⟨pkg, dir⟩
  | none => .error ⟨pattern, dir.text ++ " is outside module " ++ m.path⟩

/-- The packages that a pattern leads to, once its directory is known. -/
def targetsIn (disk : Disk) (m : Module) (pattern : String) (recursive : Bool) (dir : Path) :
    Except LoadError (List Target) :=
  match disk.locate dir with
  | .ok loc =>
    (if recursive then foldersWithFiles disk loc else [Path.ofNames loc]).mapM (targetAt m pattern)
  | .error fault => .error ⟨pattern, "cannot access " ++ dir.text ++ ": " ++ fault.text⟩

section Patterns

variable {disk : Disk} {m : Module} {workingDir dir : Path} {pattern : String} {recursive : Bool}
  {targets : List Target} {e : LoadError}

theorem expand_eq (disk : Disk) (m : Module) (workingDir : Path) (pattern : String) :
    expand disk m workingDir pattern =
      let base := (patternBase pattern).1
      match if isRelative base then some (workingDir.join ⟨base⟩) else m.packageDir? base with
      | some dir => targetsIn disk m pattern (patternBase pattern).2 dir
      | none => .error ⟨pattern, "package is not inside module " ++ m.path⟩ := by
  have hdir : ∀ dir : Path, (do
      let loc ← match disk.locate dir with
        | .ok loc => pure loc
        | .error fault => throw ⟨pattern, "cannot access " ++ dir.text ++ ": " ++ fault.text⟩
      (if (patternBase pattern).2 then foldersWithFiles disk loc else [Path.ofNames loc]).mapM
        (targetAt m pattern) : Except LoadError (List Target)) =
      targetsIn disk m pattern (patternBase pattern).2 dir := by
    intro dir
    rw [targetsIn]
    cases disk.locate dir <;> rfl
  unfold expand
  dsimp only
  split
  · exact hdir _
  · cases m.packageDir? (patternBase pattern).1 with
    | none => rfl
    | some dir => exact hdir dir

/-- A pattern that is refused stands in its error. -/
theorem expand_error (h : expand disk m workingDir pattern = .error e) : e.pkg = pattern := by
  rw [expand_eq] at h
  dsimp only at h
  split at h
  · unfold targetsIn at h
    split at h
    · obtain ⟨_, place, _, -, -, hplace⟩ := mapM_eq_error_iff.1 h
      unfold targetAt at hplace
      split at hplace
      · cases hplace
      · cases hplace
        rfl
    · cases h
      rfl
  · cases h
    rfl

/-- A pattern leads to places, and to the packages there. -/
theorem mem_of_expand (h : expand disk m workingDir pattern = .ok targets) {t : Target}
    (ht : t ∈ targets) : m.packagePath? t.dir = some t.pkg ∧ ∃ place : Location, t.dir = .ofNames place ∧
      ((∃ dir, disk.locate dir = .ok place) ∨ ∃ node, (place, node) ∈ disk.nodes.entries) := by
  rw [expand_eq] at h
  dsimp only at h
  split at h
  next dir _ =>
    unfold targetsIn at h
    split at h
    next loc hloc =>
      obtain ⟨place, hplace, htarget⟩ := exists_of_forall₂ (mapM_eq_ok_iff.1 h) ht
      have hpath : m.packagePath? place = some t.pkg ∧ t.dir = place := by
        unfold targetAt at htarget
        split at htarget
        · cases htarget
          exact ⟨by assumption, rfl⟩
        · cases htarget
      refine ⟨hpath.2 ▸ hpath.1, ?_⟩
      split at hplace
      · obtain ⟨folder, hfolder, rfl⟩ := List.mem_map.1 hplace
        refine ⟨folder, hpath.2, ?_⟩
        have hmem := List.mem_of_mem_filter hfolder
        unfold Disk.foldersFrom at hmem
        dsimp only at hmem
        rcases List.mem_append.1 hmem with hself | hbelow
        · split at hself
          · exact .inl ⟨dir, List.mem_singleton.1 hself ▸ hloc⟩
          · cases hself
        · obtain ⟨⟨found, node⟩, hentry, hfound⟩ := List.mem_filterMap.1 (List.mem_mergeSort.1 hbelow)
          dsimp only at hfound
          split at hfound
          · cases hfound
            exact .inr ⟨node, hentry⟩
          · cases hfound
      · exact ⟨loc, hpath.2.trans (List.mem_singleton.1 hplace), .inl ⟨dir, hloc⟩⟩
    · cases h
  · cases h

end Patterns

section Expansion

variable {lead : String → Except LoadError (List Target)} {patterns : List String}
  {targets : List Target} {errors : List LoadError}

/-- The errors of the patterns that are refused, in the order of the patterns. -/
def refusals (lead : String → Except LoadError (List Target)) (patterns : List String) : List LoadError :=
  patterns.filterMap fun pattern =>
    match lead pattern with
    | .ok _ => none
    | .error e => some e

/-- Every refused pattern has one error. -/
theorem refusals_sublist (hlead : ∀ pattern e, lead pattern = .error e → e.pkg = pattern)
    (patterns : List String) : ((refusals lead patterns).map LoadError.pkg).Sublist patterns := by
  induction patterns with
  | nil => exact List.Sublist.refl _
  | cons pattern rest ih =>
      unfold refusals at ih ⊢
      rw [List.filterMap_cons]
      cases hpattern : lead pattern with
      | ok ts => exact ih.cons _
      | error e =>
          rw [← hlead pattern e hpattern]
          exact ih.cons_cons _

/-- Puts a target behind others, unless its package is among them. -/
def gatherOne (targets : List Target) (t : Target) : List Target :=
  if targets.any fun u => u.pkg = t.pkg then targets else targets ++ [t]

/-- Puts targets behind others, each package once. -/
def gather (targets more : List Target) : List Target :=
  more.foldl gatherOne targets

theorem nodup_gather (h : (targets.map Target.pkg).Nodup) (more : List Target) :
    ((gather targets more).map Target.pkg).Nodup := by
  induction more generalizing targets with
  | nil => exact h
  | cons t rest ih =>
      refine ih ?_
      unfold gatherOne
      split
      · exact h
      next hnew =>
        rw [List.map_append, List.map_singleton, List.nodup_append]
        refine ⟨h, List.nodup_singleton _, ?_⟩
        rintro path hpath other hother rfl
        obtain ⟨u, hu, rfl⟩ := List.mem_map.1 hpath
        rw [List.mem_singleton] at hother
        exact hnew (List.any_eq_true.2 ⟨u, hu, decide_eq_true hother⟩)

theorem mem_gather_of_mem {t : Target} (h : t ∈ targets) (more : List Target) :
    t ∈ gather targets more := by
  induction more generalizing targets with
  | nil => exact h
  | cons u rest ih =>
      refine ih ?_
      unfold gatherOne
      split
      · exact h
      · exact List.mem_append_left _ h

theorem exists_gather {more : List Target} {t : Target} (h : t ∈ more) :
    ∃ u ∈ gather targets more, u.pkg = t.pkg := by
  induction more generalizing targets with
  | nil => cases h
  | cons first rest ih =>
      rcases List.mem_cons.1 h with rfl | h
      · by_cases hknown : (targets.any fun u => u.pkg = t.pkg) = true
        · obtain ⟨u, hu, hpkg⟩ := List.any_eq_true.1 hknown
          exact ⟨u, mem_gather_of_mem hu (t :: rest), of_decide_eq_true hpkg⟩
        · refine ⟨t, ?_, rfl⟩
          rw [gather, List.foldl_cons, gatherOne, if_neg hknown]
          exact mem_gather_of_mem (List.mem_append_right _ (List.mem_singleton.2 rfl)) rest
      · exact ih h

theorem mem_or_of_mem_gather {more : List Target} {t : Target} (h : t ∈ gather targets more) :
    t ∈ targets ∨ t ∈ more := by
  induction more generalizing targets with
  | nil => exact .inl h
  | cons first rest ih =>
      rcases ih h with hold | hrest
      · unfold gatherOne at hold
        split at hold
        · exact .inl hold
        · rcases List.mem_append.1 hold with hold | hnew
          · exact .inl hold
          · exact .inr (List.mem_cons.2 (.inl (List.mem_singleton.1 hnew)))
      · exact .inr (List.mem_cons_of_mem _ hrest)

/-- What has become of the patterns of a request: targets for different packages, among them all that the
patterns lead to, and an error for each pattern that is refused. -/
structure Expanded (lead : String → Except LoadError (List Target)) (patterns : List String)
    (targets : List Target) (errors : List LoadError) : Prop where
  errors : errors = refusals lead patterns
  single : (targets.map Target.pkg).Nodup
  named : ∀ pattern ∈ patterns, ∀ more, lead pattern = .ok more →
    ∀ t ∈ more, t.pkg ∈ targets.map Target.pkg
  origin : ∀ t ∈ targets, ∃ pattern ∈ patterns, ∃ more, lead pattern = .ok more ∧ t ∈ more

theorem Expanded.refuse (h : Expanded lead patterns targets errors) {pattern : String} {e : LoadError}
    (hpattern : lead pattern = .error e) :
    Expanded lead (patterns ++ [pattern]) targets (errors ++ [e]) where
  errors := by
    rw [h.errors]
    simp only [refusals, List.filterMap_append, List.filterMap_cons, hpattern, List.filterMap_nil]
  single := h.single
  named q hq more hmore := by
    rcases List.mem_append.1 hq with hq | hq
    · exact h.named q hq more hmore
    · rw [List.mem_singleton.1 hq, hpattern] at hmore
      cases hmore
  origin t ht := by
    obtain ⟨q, hq, hlead⟩ := h.origin t ht
    exact ⟨q, List.mem_append_left _ hq, hlead⟩

theorem Expanded.accept (h : Expanded lead patterns targets errors) {pattern : String}
    {more : List Target} (hpattern : lead pattern = .ok more) :
    Expanded lead (patterns ++ [pattern]) (gather targets more) errors where
  errors := by
    rw [h.errors]
    simp only [refusals, List.filterMap_append, List.filterMap_cons, hpattern, List.filterMap_nil,
      List.append_nil]
  single := nodup_gather h.single more
  named q hq others hothers t ht := by
    rcases List.mem_append.1 hq with hq | hq
    · obtain ⟨u, hu, hpkg⟩ := List.mem_map.1 (h.named q hq others hothers t ht)
      exact List.mem_map.2 ⟨u, mem_gather_of_mem hu more, hpkg⟩
    · rw [List.mem_singleton.1 hq, hpattern] at hothers
      cases hothers
      obtain ⟨u, hu, hpkg⟩ := @exists_gather targets more t ht
      exact List.mem_map.2 ⟨u, hu, hpkg⟩
  origin t ht := by
    rcases mem_or_of_mem_gather ht with hold | hnew
    · obtain ⟨q, hq, hlead⟩ := h.origin t hold
      exact ⟨q, List.mem_append_left _ hq, hlead⟩
    · exact ⟨pattern, List.mem_append_right _ (List.mem_singleton.2 rfl), more, hpattern, hnew⟩

theorem expanded_expandAll (disk : Disk) (m : Module) (workingDir : Path) (patterns : List String) :
    Expanded (expand disk m workingDir) patterns (expandAll disk m workingDir patterns).1
      (expandAll disk m workingDir patterns).2 := by
  induction patterns using List.reverseRecOn with
  | nil => exact ⟨rfl, List.nodup_nil, by simp, by simp [expandAll]⟩
  | append_singleton patterns pattern ih =>
      cases hpattern : expand disk m workingDir pattern with
      | error e =>
          have hstep : expandAll disk m workingDir (patterns ++ [pattern]) =
              ((expandAll disk m workingDir patterns).1, (expandAll disk m workingDir patterns).2 ++ [e]) := by
            simp [expandAll, List.foldl_append, hpattern]
          rw [hstep]
          exact ih.refuse hpattern
      | ok more =>
          have hstep : expandAll disk m workingDir (patterns ++ [pattern]) =
              (gather (expandAll disk m workingDir patterns).1 more,
                (expandAll disk m workingDir patterns).2) := by
            simp only [expandAll, List.foldl_append, List.foldl_cons, List.foldl_nil, hpattern]
            rfl
          rw [hstep]
          exact ih.accept hpattern

end Expansion

/-! ### The course of a load -/

/-- The paths on which an answer has a verdict, where some of its errors are verdicts. -/
def judged (o : LoadOutcome) (verdicts : List LoadError) : List String :=
  o.packages.map Package.path ++ verdicts.map LoadError.pkg

/-- The directory in which a load looks for a package: where a pattern has led, or else where the path
leads. -/
def dirFor? (m : Module) (targets : List Target) (path : String) : Option Path :=
  match targets.find? fun t => t.pkg = path with
  | some t => some t.dir
  | none => m.packageDir? path

/-- What becomes of a package that is wanted. -/
def verdictOn (disk : Disk) (m : Module) (tags : List String) (targets : List Target) (path : String) :
    Except LoadError Package :=
  match dirFor? m targets path with
  | some dir => loadPackage disk tags path dir
  | none => .error ⟨path, "imported package is not inside module " ++ m.path⟩

section Course

variable {disk : Disk} {m : Module} {mode : LoadMode} {tags : List String} {cancelled : Nat → Bool}
  {targets : List Target} {refused verdicts : List LoadError} {p : Progress}

theorem dirFor?_of_mem (h : (targets.map Target.pkg).Nodup) {t : Target} (ht : t ∈ targets) :
    dirFor? m targets t.pkg = some t.dir := by
  have hfind : targets.find? (fun u => u.pkg = t.pkg) = some t := by
    cases hfound : targets.find? fun u => u.pkg = t.pkg with
    | none =>
        simp only [List.find?_eq_none, decide_eq_true_eq] at hfound
        exact absurd rfl (hfound t ht)
    | some u =>
        have hpkg : u.pkg = t.pkg := by simpa using List.find?_some hfound
        rw [List.inj_on_of_nodup_map h (List.mem_of_find?_eq_some hfound) ht hpkg]
  rw [dirFor?, hfind]

theorem dirFor?_of_not_mem {path : String} (h : path ∉ targets.map Target.pkg) :
    dirFor? m targets path = m.packageDir? path := by
  have hfind : targets.find? (fun u => u.pkg = path) = none := by
    simp only [List.find?_eq_none, decide_eq_true_eq]
    exact fun u hu hpkg => h (List.mem_map.2 ⟨u, hu, hpkg⟩)
  rw [dirFor?, hfind]

/-- What is wanted is loaded from some directory, or its path leads to none. -/
theorem verdictOn_cases (disk : Disk) (m : Module) (tags : List String) (targets : List Target)
    (path : String) :
    (∃ dir, verdictOn disk m tags targets path = loadPackage disk tags path dir) ∨
      m.packageDir? path = none ∧ verdictOn disk m tags targets path =
        .error ⟨path, "imported package is not inside module " ++ m.path⟩ := by
  unfold verdictOn
  split
  next dir _ => exact .inl ⟨dir, rfl⟩
  next hnone =>
    refine .inr ⟨?_, rfl⟩
    unfold dirFor? at hnone
    split at hnone
    · cases hnone
    · exact hnone

/-- Where a load stands.  Its errors are those of the refused patterns and then verdicts.  Whatever it has
met is different from all else; it waits in the queue or has its verdict.  The targets have been met. -/
structure Progress.Judging (disk : Disk) (m : Module) (tags : List String) (targets : List Target)
    (refused : List LoadError) (p : Progress) (verdicts : List LoadError) : Prop where
  errors : p.outcome.errors = refused ++ verdicts
  single : p.met.Nodup
  met : p.met.Perm (p.queue.map Target.pkg ++ judged p.outcome verdicts)
  waiting : ∀ t ∈ p.queue, dirFor? m targets t.pkg = some t.dir
  packages : ∀ pkg ∈ p.outcome.packages, verdictOn disk m tags targets pkg.path = .ok pkg
  failed : ∀ e ∈ verdicts, verdictOn disk m tags targets e.pkg = .error e
  named : ∀ t ∈ targets, t.pkg ∈ p.met

/-- In a load with dependencies the imports of everything that has been loaded have been met; in one without
only targets have been met. -/
structure Progress.Follows (mode : LoadMode) (targets : List Target) (p : Progress) : Prop where
  imports : mode = .withDeps → ∀ pkg ∈ p.outcome.packages, ∀ path ∈ pkg.imports, path ∈ p.met
  roots : mode = .roots → ∀ path ∈ p.met, path ∈ targets.map Target.pkg

/-- A load has come to its answer: it has one verdict on everything that it met.  What is left when the
run is cancelled is an error too. -/
structure Judged (disk : Disk) (m : Module) (mode : LoadMode) (tags : List String)
    (targets : List Target) (refused : List LoadError) (cancelled : Nat → Bool) (o : LoadOutcome)
    (verdicts : List LoadError) : Prop where
  errors : o.errors = refused ++ verdicts
  single : (judged o verdicts).Nodup
  packages : ∀ pkg ∈ o.packages, verdictOn disk m tags targets pkg.path = .ok pkg
  failed : ∀ e ∈ verdicts, verdictOn disk m tags targets e.pkg = .error e ∨
    e.message = loadCancelled ∧ ∃ n, cancelled n = true
  named : ∀ t ∈ targets, t.pkg ∈ judged o verdicts
  imports : mode = .withDeps → ∀ pkg ∈ o.packages, ∀ path ∈ pkg.imports, path ∈ judged o verdicts
  roots : mode = .roots → ∀ path ∈ judged o verdicts, path ∈ targets.map Target.pkg

namespace Progress.Judging

theorem fail (h : p.Judging disk m tags targets refused verdicts) {t : Target} {rest : List Target}
    (hqueue : p.queue = t :: rest) {e : LoadError}
    (hload : loadPackage disk tags t.pkg t.dir = .error e) :
    ({ p with queue := rest }.fail e).Judging disk m tags targets refused (verdicts ++ [e]) where
  errors := by
    change p.outcome.errors ++ [e] = _
    rw [h.errors, List.append_assoc]
  single := h.single
  met := by
    refine h.met.trans ?_
    rw [hqueue, List.map_cons, List.cons_append]
    have hpkg := loadPackage_error hload
    simp only [judged, Progress.fail, List.map_append, List.map_singleton, hpkg, ← List.append_assoc]
    exact (List.perm_append_singleton _ _).symm
  waiting u hu := h.waiting u (hqueue ▸ List.mem_cons_of_mem _ hu)
  packages := h.packages
  failed e' he' := by
    rcases List.mem_append.1 he' with he' | he'
    · exact h.failed e' he'
    · rw [List.mem_singleton.1 he', loadPackage_error hload, verdictOn,
        h.waiting t (hqueue ▸ List.mem_cons_self)]
      exact hload
  named := h.named

theorem add (h : p.Judging disk m tags targets refused verdicts) {t : Target} {rest : List Target}
    (hqueue : p.queue = t :: rest) {pkg : Package}
    (hload : loadPackage disk tags t.pkg t.dir = .ok pkg) :
    ({ p with queue := rest }.add pkg).Judging disk m tags targets refused verdicts where
  errors := h.errors
  single := h.single
  met := by
    refine h.met.trans ?_
    rw [hqueue, List.map_cons, List.cons_append]
    obtain ⟨hpath, -⟩ := loadPackage_ok hload
    simp only [judged, Progress.add, List.map_append, List.map_singleton, hpath]
    rw [List.append_assoc, List.singleton_append, ← List.append_assoc, ← List.append_assoc]
    exact List.perm_middle.symm
  waiting u hu := h.waiting u (hqueue ▸ List.mem_cons_of_mem _ hu)
  packages pkg' hpkg' := by
    rcases List.mem_append.1 hpkg' with hold | hnew
    · exact h.packages pkg' hold
    · rw [List.mem_singleton.1 hnew, (loadPackage_ok hload).1, verdictOn,
        h.waiting t (hqueue ▸ List.mem_cons_self)]
      exact hload
  failed := h.failed
  named := h.named

/-- What is wanted is met, either in the queue or with its verdict. -/
theorem want (h : p.Judging disk m tags targets refused verdicts) (path : String) :
    ∃ verdicts', (p.want m path).Judging disk m tags targets refused verdicts' ∧
      (p.want m path).outcome.packages = p.outcome.packages ∧
        path ∈ (p.want m path).met ∧ p.met ⊆ (p.want m path).met := by
  by_cases hmet : path ∈ p.met
  · rw [want_of_mem hmet]
    exact ⟨verdicts, h, rfl, hmet, fun _ hq => hq⟩
  have hnew : dirFor? m targets path = m.packageDir? path := by
    refine dirFor?_of_not_mem ?_
    intro htarget
    obtain ⟨t, ht, rfl⟩ := List.mem_map.1 htarget
    exact hmet (h.named t ht)
  have htargets : ∀ t ∈ targets, t.pkg ∈ path :: p.met := fun t ht =>
    List.mem_cons_of_mem _ (h.named t ht)
  cases hdir : m.packageDir? path with
  | none =>
      rw [want_of_none hmet hdir]
      let e : LoadError := ⟨path, "imported package is not inside module " ++ m.path⟩
      refine ⟨verdicts ++ [e], ⟨?_, ?_, ?_, h.waiting, h.packages, ?_, htargets⟩, rfl,
        List.mem_cons_self, List.subset_cons_self _ _⟩
      · change p.outcome.errors ++ [e] = _
        rw [h.errors, List.append_assoc]
      · exact List.nodup_cons.2 ⟨hmet, h.single⟩
      · refine (h.met.cons path).trans ?_
        simp only [judged, Progress.fail, e, List.map_append, List.map_singleton, ← List.append_assoc]
        exact (List.perm_append_singleton _ _).symm
      · intro e' he
        rcases List.mem_append.1 he with he | he
        · exact h.failed e' he
        · rw [List.mem_singleton.1 he, verdictOn, hnew, hdir]
  | some dir =>
      rw [want_of_some hmet hdir]
      refine ⟨verdicts, ⟨h.errors, ?_, ?_, ?_, h.packages, h.failed, htargets⟩, rfl,
        List.mem_cons_self, List.subset_cons_self _ _⟩
      · exact List.nodup_cons.2 ⟨hmet, h.single⟩
      · refine (h.met.cons path).trans ?_
        simp only [List.map_append, List.map_singleton, List.append_assoc, List.singleton_append]
        exact List.perm_middle.symm
      · intro t ht
        rcases List.mem_append.1 ht with ht | ht
        · exact h.waiting t ht
        · rw [List.mem_singleton.1 ht, hnew, hdir]

theorem foldl_want (h : p.Judging disk m tags targets refused verdicts) (imports : List String) :
    ∃ verdicts', (imports.foldl (Progress.want m) p).Judging disk m tags targets refused verdicts' ∧
      (imports.foldl (Progress.want m) p).outcome.packages = p.outcome.packages ∧
        (∀ path ∈ imports, path ∈ (imports.foldl (Progress.want m) p).met) ∧
          p.met ⊆ (imports.foldl (Progress.want m) p).met := by
  induction imports generalizing p verdicts with
  | nil => exact ⟨verdicts, h, rfl, by simp, fun _ hq => hq⟩
  | cons path rest ih =>
      obtain ⟨verdicts₁, h₁, hpackages₁, hmet₁, hsub₁⟩ := h.want path
      obtain ⟨verdicts₂, h₂, hpackages₂, hmet₂, hsub₂⟩ := ih h₁
      refine ⟨verdicts₂, h₂, hpackages₂.trans hpackages₁, ?_, fun _ hq => hsub₂ (hsub₁ hq)⟩
      intro q hq
      rcases List.mem_cons.1 hq with rfl | hq
      · exact hsub₂ hmet₁
      · exact hmet₂ q hq

/-- Taking the first package out of the queue settles it, and meets its imports. -/
theorem take (h : p.Judging disk m tags targets refused verdicts) (hfollows : p.Follows mode targets)
    {t : Target} {rest : List Target} (hqueue : p.queue = t :: rest) :
    ∃ verdicts', (Progress.take disk m mode tags { p with queue := rest } t).Judging disk m tags targets
      refused verdicts' ∧
        (Progress.take disk m mode tags { p with queue := rest } t).Follows mode targets := by
  cases hload : loadPackage disk tags t.pkg t.dir with
  | error e =>
      rw [take_error hload]
      exact ⟨verdicts ++ [e], h.fail hqueue hload, hfollows.imports, hfollows.roots⟩
  | ok pkg =>
      rw [take_ok hload]
      obtain ⟨verdicts', h', hpackages, hmet, hsub⟩ :=
        (h.add hqueue hload).foldl_want (if mode = .withDeps then pkg.imports else [])
      refine ⟨verdicts', h', ?_, ?_⟩
      · intro hmode q hq path hpath
        rw [hpackages] at hq
        rcases List.mem_append.1 hq with hold | hnew
        · exact hsub (hfollows.imports hmode q hold path hpath)
        · rw [List.mem_singleton.1 hnew] at hpath
          rw [if_pos hmode] at hmet ⊢
          exact hmet path hpath
      · intro hmode
        rw [if_neg (by simp [hmode])]
        exact hfollows.roots hmode

/-- **A load has a verdict on everything that it met.** -/
theorem judged {tried : Nat} {o : LoadOutcome}
    (hends : Ends disk m mode tags cancelled tried p o)
    (h : p.Judging disk m tags targets refused verdicts) (hfollows : p.Follows mode targets) :
    ∃ verdicts', Judged disk m mode tags targets refused cancelled o verdicts' := by
  induction hends generalizing verdicts with
  | @drained tried p hqueue =>
      have hmet : p.met.Perm (Manifest.judged p.outcome verdicts) := by
        simpa only [hqueue, List.map_nil, List.nil_append] using h.met
      refine ⟨verdicts, h.errors, hmet.nodup_iff.1 h.single, h.packages, ?_, ?_, ?_, ?_⟩
      · exact fun e he => .inl (h.failed e he)
      · exact fun t ht => hmet.mem_iff.1 (h.named t ht)
      · exact fun hmode pkg hpkg path hpath =>
          hmet.mem_iff.1 (hfollows.imports hmode pkg hpkg path hpath)
      · exact fun hmode path hpath => hfollows.roots hmode path (hmet.mem_iff.2 hpath)
  | @cut tried p hcancelled =>
      have hmet : p.met.Perm (Manifest.judged
          { p.outcome with errors := p.outcome.errors ++ p.leftOver } (verdicts ++ p.leftOver)) := by
        refine h.met.trans (List.perm_append_comm.trans ?_)
        simp only [Manifest.judged, leftOver, List.map_append, List.map_map, List.append_assoc]
        exact List.Perm.refl _
      refine ⟨verdicts ++ p.leftOver, ?_, hmet.nodup_iff.1 h.single, h.packages, ?_, ?_, ?_, ?_⟩
      · dsimp only
        rw [h.errors, List.append_assoc]
      · intro e he
        rcases List.mem_append.1 he with he | he
        · exact .inl (h.failed e he)
        · obtain ⟨t, -, rfl⟩ := List.mem_map.1 he
          exact .inr ⟨rfl, tried, hcancelled⟩
      · exact fun t ht => hmet.mem_iff.1 (h.named t ht)
      · exact fun hmode pkg hpkg path hpath =>
          hmet.mem_iff.1 (hfollows.imports hmode pkg hpkg path hpath)
      · exact fun hmode path hpath => hfollows.roots hmode path (hmet.mem_iff.2 hpath)
  | step hqueue _ _ ih =>
      obtain ⟨verdicts', h', hfollows'⟩ := h.take hfollows hqueue
      exact ih h' hfollows'

end Progress.Judging

/-- **A load in a module has one verdict on every package that it wants.** -/
theorem judged_loadIn (disk : Disk) (m : Module) (workingDir : Path) (request : LoadRequest)
    (cancelled : Nat → Bool) :
    ∃ targets refused verdicts, Expanded (expand disk m workingDir) request.patterns targets refused ∧
      Judged disk m request.mode (enabledTags request) targets refused cancelled
        (loadIn disk m workingDir request cancelled) verdicts := by
  have hexpanded := expanded_expandAll disk m workingDir request.patterns
  unfold loadIn
  generalize expandAll disk m workingDir request.patterns = expanded at hexpanded ⊢
  obtain ⟨targets, refused⟩ := expanded
  dsimp only at hexpanded ⊢
  let start : Progress :=
    { queue := targets, met := targets.map Target.pkg, outcome := { errors := refused } }
  have hstart : start.Judging disk m (enabledTags request) targets refused [] := by
    refine ⟨(List.append_nil _).symm, hexpanded.single, ?_, ?_, ?_, ?_, ?_⟩
    · simp [judged, start]
    · exact fun t ht => dirFor?_of_mem hexpanded.single ht
    · exact fun pkg hpkg => absurd hpkg List.not_mem_nil
    · exact fun e he => absurd he List.not_mem_nil
    · exact fun t ht => List.mem_map.2 ⟨t, ht, rfl⟩
  have henough : start.toDo disk < targets.length + (referencesOn disk).length + 1 := by
    have hnamed := List.length_filter_le (· ∉ start.met) (namedOn disk)
    rw [namedOn, List.length_map] at hnamed
    simp only [Progress.toDo, start, namedOn] at hnamed ⊢
    omega
  have hfollows : start.Follows request.mode targets :=
    ⟨fun _ pkg hpkg => absurd hpkg List.not_mem_nil, fun _ path hpath => hpath⟩
  obtain ⟨verdicts, h⟩ := Progress.Judging.judged (Progress.ends_run henough) hstart hfollows
  exact ⟨targets, refused, verdicts, hexpanded, h⟩

end Course

/-! ### The answer to a request -/

/-- What a pattern of a request leads to: packages, or the reason why it is refused. -/
def expansion (disk : Disk) (request : LoadRequest) (pattern : String) :
    Except LoadError (List Target) :=
  match Module.discover disk request.workingDir, disk.canonical request.workingDir with
  | .error message, _ => .error ⟨pattern, message⟩
  | .ok _, .error fault => .error ⟨pattern, fault.text⟩
  | .ok m, .ok workingDir => expand disk m workingDir pattern

/-- The answer to a request accounts for everything that is wanted.  Its errors are those of the patterns
that are refused, and then verdicts.  There are no two verdicts on one path; every package that a pattern
leads to has one and, in a load with dependencies, every import of a loaded package; in a load without them
nothing else has one.  A verdict is what came of loading the package, or that it is not inside the module or,
once the run is cancelled, that it was not reached. -/
structure Accounts (disk : Disk) (request : LoadRequest) (cancelled : Nat → Bool) (o : LoadOutcome)
    (verdicts : List LoadError) : Prop where
  errors : o.errors = refusals (expansion disk request) request.patterns ++ verdicts
  refused : ((refusals (expansion disk request) request.patterns).map LoadError.pkg).Sublist
    request.patterns
  single : (judged o verdicts).Nodup
  named : ∀ pattern ∈ request.patterns, ∀ targets, expansion disk request pattern = .ok targets →
    ∀ t ∈ targets, t.pkg ∈ judged o verdicts
  imports : request.mode = .withDeps → ∀ pkg ∈ o.packages, ∀ path ∈ pkg.imports,
    path ∈ judged o verdicts
  roots : request.mode = .roots → ∀ path ∈ judged o verdicts, ∃ pattern ∈ request.patterns,
    ∃ targets, expansion disk request pattern = .ok targets ∧ path ∈ targets.map Target.pkg
  packages : ∀ pkg ∈ o.packages,
    loadPackage disk (enabledTags request) pkg.path pkg.dir = .ok pkg
  failed : ∀ e ∈ verdicts, (∃ dir, loadPackage disk (enabledTags request) e.pkg dir = .error e) ∨
    (∃ m, Module.discover disk request.workingDir = .ok m ∧ m.packageDir? e.pkg = none ∧
      e.message = "imported package is not inside module " ++ m.path) ∨
    (e.message = loadCancelled ∧ ∃ n, cancelled n = true)

section Requests

variable {disk : Disk} {request : LoadRequest} {m : Module} {workingDir : Path}

/-- A directory in which a module has been found can be reached. -/
theorem exists_canonical (h : Module.discover disk request.workingDir = .ok m) :
    ∃ workingDir, disk.canonical request.workingDir = .ok workingDir := by
  unfold Module.discover at h
  split at h
  · cases h
  next workingDir hdir => exact ⟨workingDir, hdir⟩

theorem expansion_of_discover (hm : Module.discover disk request.workingDir = .ok m)
    (hdir : disk.canonical request.workingDir = .ok workingDir) :
    expansion disk request = expand disk m workingDir := by
  funext pattern
  rw [expansion, hm, hdir]

theorem load_of_discover (hm : Module.discover disk request.workingDir = .ok m)
    (hdir : disk.canonical request.workingDir = .ok workingDir) (cancelled : Nat → Bool) :
    load disk request cancelled = loadIn disk m workingDir request cancelled := by
  rw [load, hm]
  dsimp only
  rw [hdir]

theorem expansion_error {pattern : String} {e : LoadError} (h : expansion disk request pattern = .error e) :
    e.pkg = pattern := by
  unfold expansion at h
  split at h
  · cases h
    rfl
  · cases h
    rfl
  · exact expand_error h

/-- The answer to every request accounts for everything that is wanted. -/
theorem exists_accounts (disk : Disk) (request : LoadRequest) (cancelled : Nat → Bool) :
    ∃ verdicts, Accounts disk request cancelled (load disk request cancelled) verdicts := by
  have hrefused := refusals_sublist (fun _ _ => @expansion_error disk request _ _) request.patterns
  cases hm : Module.discover disk request.workingDir with
  | error message =>
      -- without a module every pattern is refused, and nothing is wanted
      have hexpansion : ∀ pattern, expansion disk request pattern = .error ⟨pattern, message⟩ := by
        intro pattern
        rw [expansion, hm]
      have hload : load disk request cancelled =
          { errors := refusals (expansion disk request) request.patterns } := by
        simp only [load, hm, refusals, hexpansion, List.filterMap_eq_map']
      rw [hload]
      refine ⟨[], (List.append_nil _).symm, hrefused, List.nodup_nil, ?_, ?_, ?_, ?_, ?_⟩
      · intro pattern _ targets htargets
        cases (hexpansion pattern).symm.trans htargets
      · exact fun _ pkg hpkg => absurd hpkg List.not_mem_nil
      · exact fun _ path hpath => absurd hpath List.not_mem_nil
      · exact fun pkg hpkg => absurd hpkg List.not_mem_nil
      · exact fun e he => absurd he List.not_mem_nil
  | ok m =>
      obtain ⟨workingDir, hdir⟩ := exists_canonical hm
      obtain ⟨targets, refused, verdicts, hexpanded, h⟩ :=
        judged_loadIn disk m workingDir request cancelled
      rw [load_of_discover hm hdir]
      rw [expansion_of_discover hm hdir] at hrefused
      refine ⟨verdicts, ?_, ?_, h.single, ?_, h.imports, ?_, ?_, ?_⟩
      · rw [expansion_of_discover hm hdir, h.errors, hexpanded.errors]
      · rwa [expansion_of_discover hm hdir]
      · rw [expansion_of_discover hm hdir]
        intro pattern hpattern more hmore t ht
        obtain ⟨u, hu, hpkg⟩ := List.mem_map.1 (hexpanded.named pattern hpattern more hmore t ht)
        exact hpkg ▸ h.named u hu
      · rw [expansion_of_discover hm hdir]
        intro hmode path hpath
        obtain ⟨t, ht, hpkg⟩ := List.mem_map.1 (h.roots hmode path hpath)
        obtain ⟨pattern, hpattern, more, hmore, htmore⟩ := hexpanded.origin t ht
        exact ⟨pattern, hpattern, more, hmore, List.mem_map.2 ⟨t, htmore, hpkg⟩⟩
      · intro pkg hpkg
        have hverdict := h.packages pkg hpkg
        rcases verdictOn_cases disk m (enabledTags request) targets pkg.path with ⟨dir, heq⟩ | ⟨-, heq⟩ <;>
          rw [heq] at hverdict
        · rwa [(loadPackage_ok hverdict).2]
        · cases hverdict
      · intro e he
        rcases h.failed e he with hverdict | hcut
        · rcases verdictOn_cases disk m (enabledTags request) targets e.pkg with ⟨dir, heq⟩ | ⟨hnone, heq⟩ <;>
            rw [heq] at hverdict
          · exact .inl ⟨dir, hverdict⟩
          · exact .inr (.inl ⟨m, hm, hnone, (congrArg LoadError.message (Except.error.inj hverdict)).symm⟩)
        · exact .inr (.inr hcut)

/-- **Every package gets one verdict**: the answer accounts for everything that is wanted.  All paths in it
are different, those of refused patterns included, unless a refused pattern is written like the path of a
package that is wanted as well. -/
theorem gives_verdicts (disk : Disk) (request : LoadRequest) (cancelled : Nat → Bool)
    (hdistinct : request.patterns.Nodup) :
    ∃ verdicts, Accounts disk request cancelled (load disk request cancelled) verdicts ∧
      ((judged (load disk request cancelled) (load disk request cancelled).errors).Nodup ↔
        ∀ e ∈ refusals (expansion disk request) request.patterns,
          e.pkg ∉ judged (load disk request cancelled) verdicts) := by
  obtain ⟨verdicts, h⟩ := exists_accounts disk request cancelled
  refine ⟨verdicts, h, ?_⟩
  generalize load disk request cancelled = o at h ⊢
  have hperm : (judged o o.errors).Perm
      ((refusals (expansion disk request) request.patterns).map LoadError.pkg ++ judged o verdicts) := by
    rw [judged, h.errors, List.map_append, judged, ← List.append_assoc, ← List.append_assoc]
    exact List.perm_append_comm.append_right _
  rw [hperm.nodup_iff, List.nodup_append]
  constructor
  · rintro ⟨-, -, hdisjoint⟩ e he hjudged
    exact hdisjoint _ (List.mem_map.2 ⟨e, he, rfl⟩) _ hjudged rfl
  · intro hdisjoint
    refine ⟨h.refused.nodup hdistinct, h.single, ?_⟩
    rintro path hpath other hother rfl
    obtain ⟨e, he, rfl⟩ := List.mem_map.1 hpath
    exact hdisjoint e he hother

end Requests

end Manifest

/-- A module with one package, which refers to a set of a package that is not there. -/
def strayDisk : Disk where
  nodes :=
    ⟨[(["wire.mod"], .file (Text.encode "module = \"m\"\n") 0),
      (["a"], .folder),
      (["a", "wire.toml"],
        .file (Text.encode "[[set]]\nname = \"S\"\nsets = [\"m/lost.S\"]\n") 0)]⟩

namespace Manifest

/-- A request for the package and what it imports, of which the missing one is named as well. -/
def strayRequest : LoadRequest where
  workingDir := ⟨"/"⟩
  mode := .withDeps
  patterns := ["./a", "m/lost"]

/-- Cut off after the first package, the load still has a verdict on what that imports. -/
theorem gives_verdicts_stray :
    (["./a"] : List String).Nodup ∧
      (load strayDisk { strayRequest with patterns := ["./a"] } fun n => n = 1).errors =
        [⟨"m/lost", loadCancelled⟩] ∧
      ∃ verdicts, Accounts strayDisk { strayRequest with patterns := ["./a"] } (fun n => n = 1)
        (load strayDisk { strayRequest with patterns := ["./a"] } fun n => n = 1) verdicts := by
  have hdistinct : (["./a"] : List String).Nodup := by decide
  obtain ⟨verdicts, h, -⟩ := gives_verdicts strayDisk { strayRequest with patterns := ["./a"] }
    (fun n => n = 1) hdistinct
  exact ⟨hdistinct, by decide +kernel, verdicts, h⟩

/-- A package that is missing has two errors when a pattern names it and a loaded package imports it. -/
theorem two_verdicts :
    strayRequest.patterns.Nodup ∧
      (load strayDisk strayRequest fun _ => false).errors.map LoadError.pkg = ["m/lost", "m/lost"] := by
  decide +kernel

end Manifest

end Wiring
