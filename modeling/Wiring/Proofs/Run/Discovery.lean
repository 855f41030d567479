/-
**Which tasks a run has.**

The tasks of a run are the selected injectors of its valid root packages, package by package, and of several
root packages with the same path only the first counts.  The invalid ones have errors instead, under the
names of their selected injectors.

Main results:

* `Wiring.firstOfEach_of_nodup` — packages with different paths all count;
* `Wiring.map_tasksAt_discover` — **the tasks of a package are its selected injectors in their order**;
* `Wiring.filter_discoverErrors` — the errors of an invalid package.
-/

import Wiring.Proofs.Run.Reports

set_option autoImplicit false

namespace Wiring

variable {options : Options} {packages : List Package} {p : Package} {path : String}

/-! ### Packages that count -/

/-- No two packages that count have the same path. -/
theorem nodup_firstOfEach (met : List String) (packages : List Package) :
    ((firstOfEach met packages).map Package.path).Nodup ∧
      ∀ p ∈ firstOfEach met packages, p.path ∉ met := by
  induction packages generalizing met with
  | nil => exact ⟨List.nodup_nil, nofun⟩
  | cons p rest ih =>
      unfold firstOfEach
      split
      · exact ih met
      next hp =>
        obtain ⟨hnodup, hunmet⟩ := ih (p.path :: met)
        refine ⟨?_, ?_⟩
        · rw [List.map_cons, List.nodup_cons]
          refine ⟨?_, hnodup⟩
          intro hmem
          obtain ⟨q, hq, hpath⟩ := List.mem_map.1 hmem
          exact hunmet q hq (hpath ▸ List.mem_cons_self)
        · intro q hq
          rcases List.mem_cons.1 hq with rfl | hq
          · exact hp
          · exact fun hmet => hunmet q hq (List.mem_cons_of_mem _ hmet)

theorem eq_of_mem_firstOfEach {q : Package} (hp : p ∈ firstOfEach [] packages)
    (hq : q ∈ firstOfEach [] packages) (hpath : p.path = q.path) : p = q :=
  List.inj_on_of_nodup_map (nodup_firstOfEach [] packages).1 hp hq hpath

/-- Packages with different paths all count. -/
theorem firstOfEach_of_nodup {met : List String} (h : (packages.map Package.path).Nodup)
    (hmet : ∀ p ∈ packages, p.path ∉ met) : firstOfEach met packages = packages := by
  induction packages generalizing met with
  | nil => rfl
  | cons p rest ih =>
      rw [List.map_cons, List.nodup_cons] at h
      rw [firstOfEach, if_neg (hmet p List.mem_cons_self), ih h.2]
      intro q hq
      rw [List.mem_cons, not_or]
      refine ⟨?_, hmet q (List.mem_cons_of_mem _ hq)⟩
      intro hpath
      exact h.1 (hpath ▸ List.mem_map_of_mem hq)

/-- The package that counts at a path is the first one. -/
theorem mem_firstOfEach_iff {met : List String} : p ∈ firstOfEach met packages ↔
    p.path ∉ met ∧ packages.find? (fun q => q.path = p.path) = some p := by
  induction packages generalizing met with
  | nil => simp [firstOfEach]
  | cons q rest ih =>
      unfold firstOfEach
      split
      next hq =>
        rw [ih]
        refine and_congr_right fun hp => ?_
        rw [List.find?_cons_of_neg]
        simpa using fun hpath : q.path = p.path => hp (hpath ▸ hq)
      next hq =>
        rw [List.mem_cons, ih, List.mem_cons, not_or]
        by_cases hpath : q.path = p.path
        · rw [List.find?_cons_of_pos (by simpa using hpath), Option.some.injEq]
          constructor
          · rintro (rfl | ⟨⟨hne, -⟩, -⟩)
            · exact ⟨hq, rfl⟩
            · exact absurd hpath.symm hne
          · exact fun h => Or.inl h.2.symm
        · rw [List.find?_cons_of_neg (by simpa using hpath)]
          constructor
          · rintro (rfl | ⟨⟨-, hp⟩, hfind⟩)
            · exact absurd rfl hpath
            · exact ⟨hp, hfind⟩
          · exact fun h => Or.inr ⟨⟨fun heq => hpath heq.symm, h.1⟩, h.2⟩

/-! ### Tasks -/

theorem map_discover (options : Options) (packages : List Package) :
    (discover options packages).map (fun t => (t.pkg, t.decl)) = wanted options packages := by
  refine List.ext_getElem (by simp [discover]) ?_
  intro i h h'
  simp [discover]

/-- A task starts with nothing but its place, its package and its injector. -/
theorem eq_of_mem_discover {t : Task} (h : t ∈ discover options packages) :
    t = { index := t.index, pkg := t.pkg, decl := t.decl } := by
  obtain ⟨i, hi, rfl⟩ := List.mem_mapIdx.1 h
  rfl

/-- **The tasks of a package are its selected injectors in their order**, if it is valid. -/
theorem map_tasksAt_discover (hp : p ∈ firstOfEach [] packages) :
    (Report.tasksAt (discover options packages) p.path).map (fun t => (t.pkg, t.decl)) =
      if p.isValid then (selected options p).map fun decl => (p, decl) else [] := by
  have hfilter : (Report.tasksAt (discover options packages) p.path).map (fun t => (t.pkg, t.decl)) =
      (wanted options packages).filter fun x => x.1.path = p.path := by
    rw [← map_discover, List.filter_map]
    rfl
  have hall : ∀ q : Package, q.path = p.path →
      (((selected options q).map fun decl => (q, decl)).filter fun x => x.1.path = p.path) =
        (selected options q).map fun decl => (q, decl) := by
    intro q hq
    rw [List.filter_eq_self]
    intro x hx
    obtain ⟨decl, -, rfl⟩ := List.mem_map.1 hx
    exact decide_eq_true hq
  have hnone : ∀ q ∈ (firstOfEach [] packages).filter Package.isValid, q ≠ p →
      (((selected options q).map fun decl => (q, decl)).filter fun x => x.1.path = p.path) = [] := by
    intro q hq hne
    rw [List.filter_eq_nil_iff]
    intro x hx
    obtain ⟨decl, -, rfl⟩ := List.mem_map.1 hx
    simp only [decide_eq_true_eq]
    exact fun hpath => hne (eq_of_mem_firstOfEach (List.mem_filter.1 hq).1 hp hpath)
  rw [hfilter, wanted, List.filter_flatMap]
  by_cases hvalid : p.isValid
  · rw [if_pos hvalid,
      flatMap_eq_of_single ((nodup_firstOfEach [] packages).1.of_map.filter _) hnone, hall p rfl]
    exact fun hmissing => absurd (List.mem_filter.2 ⟨hp, hvalid⟩) hmissing
  · rw [if_neg hvalid, List.flatMap_eq_nil_iff]
    intro q hq
    refine hnone q hq ?_
    rintro rfl
    exact hvalid (List.mem_filter.1 hq).2

theorem map_decl_tasksAt_discover (hp : p ∈ firstOfEach [] packages) :
    (Report.tasksAt (discover options packages) p.path).map Task.decl =
      if p.isValid then selected options p else [] := by
  have hdecl : (Report.tasksAt (discover options packages) p.path).map Task.decl =
      ((Report.tasksAt (discover options packages) p.path).map fun t => (t.pkg, t.decl)).map
        Prod.snd := by
    rw [List.map_map]
    rfl
  rw [hdecl, map_tasksAt_discover hp]
  split
  · rw [List.map_map]
    exact List.map_id _
  · rfl

/-- All tasks of a package are about this very package. -/
theorem pkg_of_mem_tasksAt_discover {t : Task} (hp : p ∈ firstOfEach [] packages)
    (ht : t ∈ Report.tasksAt (discover options packages) p.path) : t.pkg = p := by
  have hmem : (t.pkg, t.decl) ∈ if p.isValid then (selected options p).map fun decl => (p, decl)
      else [] := by
    rw [← map_tasksAt_discover hp]
    exact List.mem_map_of_mem ht
  split at hmem
  · obtain ⟨decl, -, heq⟩ := List.mem_map.1 hmem
    exact (congrArg Prod.fst heq).symm
  · cases hmem

/-- A package that has tasks counts and is valid. -/
theorem mem_firstOfEach_of_task {t : Task} (ht : t ∈ discover options packages) :
    t.pkg ∈ firstOfEach [] packages ∧ t.pkg.isValid ∧ t.decl ∈ selected options t.pkg := by
  have hmem : (t.pkg, t.decl) ∈ wanted options packages := by
    rw [← map_discover]
    exact List.mem_map_of_mem ht
  obtain ⟨pkg, hpkg, hpair⟩ := List.mem_flatMap.1 hmem
  obtain ⟨decl, hdecl, heq⟩ := List.mem_map.1 hpair
  cases heq
  exact ⟨(List.mem_filter.1 hpkg).1, (List.mem_filter.1 hpkg).2, hdecl⟩

/-! ### Invalid packages -/

theorem mem_invalidErrors {e : RunError} (h : e ∈ invalidErrors options p) :
    e.pkg = p.path ∧ e.failure = .loadFailure p.path p.faultText := by
  unfold invalidErrors at h
  dsimp only at h
  split at h
  · rw [List.mem_singleton.1 h]
    exact ⟨rfl, rfl⟩
  · obtain ⟨decl, -, rfl⟩ := List.mem_map.1 h
    exact ⟨rfl, rfl⟩

theorem mem_discoverErrors {e : RunError} :
    e ∈ discoverErrors options packages ↔
      ∃ p ∈ firstOfEach [] packages, p.isValid = false ∧ e ∈ invalidErrors options p := by
  simp [discoverErrors, List.mem_flatMap, and_assoc]

/-- **The errors of an invalid package** are about all its selected injectors; a valid one has none. -/
theorem filter_discoverErrors (hp : p ∈ firstOfEach [] packages) :
    (discoverErrors options packages).filter (fun e => e.pkg = p.path) =
      if p.isValid then [] else invalidErrors options p := by
  have hnone : ∀ q ∈ (firstOfEach [] packages).filter fun pkg => !pkg.isValid, q ≠ p →
      (invalidErrors options q).filter (fun e => e.pkg = p.path) = [] := by
    intro q hq hne
    rw [List.filter_eq_nil_iff]
    intro e he hpath
    rw [decide_eq_true_eq, (mem_invalidErrors he).1] at hpath
    exact hne (eq_of_mem_firstOfEach (List.mem_filter.1 hq).1 hp hpath)
  rw [discoverErrors, List.filter_flatMap]
  by_cases hvalid : p.isValid
  · rw [if_pos hvalid, List.flatMap_eq_nil_iff]
    intro q hq
    refine hnone q hq ?_
    rintro rfl
    simpa [hvalid] using (List.mem_filter.1 hq).2
  · have hall : (invalidErrors options p).filter (fun e => e.pkg = p.path) =
        invalidErrors options p :=
      List.filter_eq_self.2 fun e he => decide_eq_true (mem_invalidErrors he).1
    rw [if_neg hvalid, flatMap_eq_of_single ((nodup_firstOfEach [] packages).1.of_map.filter _) hnone,
      hall]
    exact fun hmissing => absurd (List.mem_filter.2 ⟨hp, by simpa using hvalid⟩) hmissing

end Wiring
