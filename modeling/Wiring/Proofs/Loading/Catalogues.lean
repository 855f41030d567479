/-
**Catalogues serve collections.**

A catalogue walks over the wanted paths, each once, and has something to say about every one of them.
What it says about a path depends on nothing but the path, so a service that neither cancels the run
nor holds packages back serves a collection.

Main definitions:

* `Wiring.Catalog.Filed` — every package is filed under its path;
* `Wiring.Catalog.collection` — the packages that a catalogue answers with;
* `Wiring.Catalog.Gathering` — what holds while a walk goes on.

Main results:

* `Wiring.Catalog.gathering_collect` — what a walk gathers is right, and it leaves nothing out;
* `Wiring.Service.servedAt` — a plain service serves a collection.
-/

import Mathlib.Data.List.Find
import Wiring.Loading.Catalog
import Wiring.Proofs.Run.Collection

set_option autoImplicit false

namespace Wiring

namespace Catalog

/-! ### The collection of a catalogue -/

/-- Every package of a catalogue is filed under its path. -/
def Filed (c : Catalog) : Prop :=
  ∀ e ∈ c.packages.entries, e.2.path = e.1

/-- The packages that a catalogue answers with. -/
def collection (c : Catalog) : Collection where
  packages := (c.packages.entries.map Prod.snd).filter fun p => (c.failures.lookup p.path).isNone
  reason path := (c.failures.lookup path).getD "package not found"

variable {c : Catalog} {path : String}

theorem find?_entries (hc : c.Filed) :
    (c.packages.entries.map Prod.snd).find? (fun p => p.path = path) = c.packages.get? path := by
  rw [Table.get?, List.find?_map]
  congr 1
  refine List.find?_congr ?_
  intro e he
  simp [hc e he]

theorem collection_answer_failing {message : String} (h : c.failures.lookup path = some message) :
    c.collection.answer path = .error (.loadFailure path message) := by
  have hfind : (c.collection.packages.find? fun p => p.path = path) = none := by
    simp only [collection, List.find?_eq_none, List.mem_filter, decide_eq_true_eq]
    rintro p ⟨-, hp⟩ rfl
    simp [h] at hp
  unfold Collection.answer
  rw [hfind]
  simp [collection, h]

theorem collection_answer (hc : c.Filed) (h : c.failures.lookup path = none) :
    c.collection.answer path =
      match c.packages.get? path with
      | some p => .ok p
      | none => .error (.loadFailure path "package not found") := by
  have hfind : (c.collection.packages.find? fun p => p.path = path) = c.packages.get? path := by
    rw [← find?_entries hc, collection, List.find?_filter]
    refine List.find?_congr ?_
    intro p _
    by_cases hp : p.path = path
    · simp [hp, h]
    · simp [hp]
  unfold Collection.answer
  rw [hfind]
  cases c.packages.get? path <;> simp [collection, h]

/-! ### The walk -/

/-- Where a walk stands: what it has gathered is what the collection says, there is something about
every path that it has met, and the wanted paths and, with dependencies, the imports of what it has
gathered have been met or wait in the queue. -/
structure Gathering (c : Catalog) (mode : LoadMode) (wanted met : List String) (o : LoadOutcome)
    (queue : List String) : Prop where
  packages : ∀ p ∈ o.packages, c.collection.answer p.path = .ok p
  errors : ∀ e ∈ o.errors, c.collection.answer e.pkg = .error e.toFailure
  tried : ∀ path ∈ met, o.Answers path
  wants : ∀ path ∈ wanted, path ∈ met ∨ path ∈ queue
  imports : mode = .withDeps → ∀ p ∈ o.packages, ∀ path ∈ p.imports, path ∈ met ∨ path ∈ queue

namespace Gathering

variable {mode : LoadMode} {wanted met rest : List String} {o : LoadOutcome}

/-- A path that comes up a second time is passed over. -/
theorem skip (h : c.Gathering mode wanted met o (path :: rest)) (hpath : path ∈ met) :
    c.Gathering mode wanted met o rest where
  packages := h.packages
  errors := h.errors
  tried := h.tried
  wants q hq := by
    rcases h.wants q hq with hq | hq
    · exact Or.inl hq
    · rcases List.mem_cons.1 hq with rfl | hq
      · exact Or.inl hpath
      · exact Or.inr hq
  imports hmode p hp q hq := by
    rcases h.imports hmode p hp q hq with hq | hq
    · exact Or.inl hq
    · rcases List.mem_cons.1 hq with rfl | hq
      · exact Or.inl hpath
      · exact Or.inr hq

/-- A path leaves the queue when it is met. -/
theorem meet {q : String} (h : q ∈ met ∨ q ∈ path :: rest) : q ∈ path :: met ∨ q ∈ rest := by
  rcases h with h | h
  · exact Or.inl (List.mem_cons_of_mem _ h)
  · rcases List.mem_cons.1 h with rfl | h
    · exact Or.inl List.mem_cons_self
    · exact Or.inr h

theorem fail (h : c.Gathering mode wanted met o (path :: rest)) {message : String}
    (herror : c.collection.answer path = .error (.loadFailure path message)) :
    c.Gathering mode wanted (path :: met) { o with errors := o.errors ++ [⟨path, message⟩] }
      rest where
  packages := h.packages
  errors e he := by
    rcases List.mem_append.1 he with he | he
    · exact h.errors e he
    · rw [List.mem_singleton.1 he]
      exact herror
  tried q hq := by
    rcases List.mem_cons.1 hq with rfl | hq
    · exact Or.inr ⟨_, List.mem_append_right _ (List.mem_singleton.2 rfl), rfl⟩
    · rcases h.tried q hq with hp | ⟨e, he, hpkg⟩
      · exact Or.inl hp
      · exact Or.inr ⟨e, List.mem_append_left _ he, hpkg⟩
  wants q hq := meet (h.wants q hq)
  imports hmode p hp q hq := meet (h.imports hmode p hp q hq)

theorem add (h : c.Gathering mode wanted met o (path :: rest)) {p : Package} (hpath : p.path = path)
    (hp : c.collection.answer path = .ok p) :
    c.Gathering mode wanted (path :: met) { o with packages := o.packages ++ [p] }
      (if mode = .withDeps then rest ++ p.imports else rest) := by
  -- whatever waits goes on waiting, whether or not imports are put behind it
  have hrest : ∀ q, q ∈ rest → q ∈ if mode = .withDeps then rest ++ p.imports else rest := by
    intro q hq
    split
    · exact List.mem_append_left _ hq
    · exact hq
  refine ⟨?_, h.errors, ?_, ?_, ?_⟩
  · intro q hq
    rcases List.mem_append.1 hq with hq | hq
    · exact h.packages q hq
    · rw [List.mem_singleton.1 hq, hpath]
      exact hp
  · intro q hq
    rcases List.mem_cons.1 hq with rfl | hq
    · exact Or.inl ⟨p, List.mem_append_right _ (List.mem_singleton.2 rfl), hpath⟩
    · rcases h.tried q hq with ⟨x, hx, hxq⟩ | he
      · exact Or.inl ⟨x, List.mem_append_left _ hx, hxq⟩
      · exact Or.inr he
  · intro q hq
    exact (meet (h.wants q hq)).imp_right (hrest q)
  · intro hmode x hx q hq
    rcases List.mem_append.1 hx with hx | hx
    · exact (meet (h.imports hmode x hx q hq)).imp_right (hrest q)
    · rw [List.mem_singleton.1 hx] at hq
      rw [if_pos hmode]
      exact Or.inr (List.mem_append_right _ hq)

end Gathering

theorem path_of_get? (hc : c.Filed) {p : Package} (h : c.packages.get? path = some p) :
    p.path = path := by
  obtain ⟨e, he, rfl⟩ := Option.map_eq_some_iff.1 h
  rw [hc e (List.mem_of_find?_eq_some he)]
  simpa using List.find?_some he

/-- **A walk that nobody cancels leaves nothing out.** -/
theorem gathering_collect (hc : c.Filed) {mode : LoadMode} {wanted met queue : List String}
    {harvest : Harvest} (h : c.Gathering mode wanted met harvest.outcome queue) :
    ∃ tried, c.Gathering mode wanted tried (c.collect mode false met harvest queue).outcome [] := by
  fun_induction Catalog.collect c mode false met harvest queue with
  | case1 met => exact ⟨met, h⟩
  | case2 _ _ _ _ hmet ih => exact ih (h.skip hmet)
  | case3 _ _ _ _ _ hcancelled => cases hcancelled
  | case4 _ _ _ _ _ _ _ hfail ih => exact ih (h.fail (collection_answer_failing hfail))
  | case5 _ _ _ _ _ _ hfail hnone ih =>
      refine ih (h.fail ?_)
      rw [collection_answer hc hfail, hnone]
  | case6 _ _ _ _ _ _ hfail p hp ih =>
      refine ih (h.add (path_of_get? hc hp) ?_)
      rw [collection_answer hc hfail, hp]

end Catalog

namespace Service

variable {s : Service}

/-- A service that neither cancels nor holds anything back answers with what its catalogue has gathered. -/
theorem answer_plain (hcancel : s.cancelOn = []) (hhidden : s.hidden = []) (request : LoadRequest) :
    s.loader.answer request false = (s.catalog.load request false, false) := by
  have hquiet : s.cancels request = false := by
    rw [cancels, hcancel, List.any_eq_false]
    simp
  have hall : ∀ packages : List Package,
      packages.filter (fun p => !s.hidden.contains p.path) = packages := by
    intro packages
    rw [List.filter_eq_self, hhidden]
    simp
  simp only [loader, answer, cancelledAt, hquiet, hall, Bool.false_and, Bool.or_false]

theorem exists_gathering (hc : s.catalog.Filed) (hcancel : s.cancelOn = []) (hhidden : s.hidden = [])
    (request : LoadRequest) :
    ∃ met, s.catalog.Gathering request.mode request.patterns met
      (s.loader.answer request false).1 [] := by
  rw [answer_plain hcancel hhidden]
  refine Catalog.gathering_collect hc ⟨?_, ?_, ?_, ?_, ?_⟩ <;> simp

/-- A plain service has something to say about every path that it is asked for. -/
theorem answers (hc : s.catalog.Filed) (hcancel : s.cancelOn = []) (hhidden : s.hidden = [])
    {request : LoadRequest} {path : String} (hpath : path ∈ request.patterns) :
    (s.loader.answer request false).1.Answers path := by
  obtain ⟨met, h⟩ := exists_gathering hc hcancel hhidden request
  exact h.tried path ((h.wants path hpath).resolve_right List.not_mem_nil)

/-- **A service that neither cancels nor holds anything back serves a collection**, from wherever it
is called. -/
theorem servedAt (hc : s.catalog.Filed) (hcancel : s.cancelOn = []) (hhidden : s.hidden = [])
    (workingDir : Path) (env : List (String × String)) :
    s.catalog.collection.ServedAt ⟨s.loader, workingDir, env⟩ := by
  constructor
  · intro request _
    rw [answer_plain hcancel hhidden]
  · intro request _
    obtain ⟨met, h⟩ := exists_gathering hc hcancel hhidden request
    exact h.packages
  · intro request _
    obtain ⟨met, h⟩ := exists_gathering hc hcancel hhidden request
    exact h.errors
  · intro request _ path hpath _
    exact answers hc hcancel hhidden hpath
  · intro request _ hmode p hp path hpath
    obtain ⟨met, h⟩ := exists_gathering hc hcancel hhidden request
    exact h.tried path ((h.imports hmode p hp path hpath).resolve_right List.not_mem_nil)

end Service

end Wiring
