/-
**Tasks in a run that nobody cancels.**

What a task makes of its injector is settled by the collection alone: as far as the task is concerned,
fetching a set is asking the collection, however long the lookup of its package takes and whatever else
goes on.  The small steps of a task are those of its lookup, which change nothing of this, and one step
at a time towards its result.

Main definitions:

* `Wiring.Task.next` — the next step of a task that asks the collection;
* `Wiring.Task.Ends` — the result that a task comes to in this way;
* `Wiring.Task.Apt` — a task fits the world;
* `Wiring.Task.Goes` — the small steps of a task;
* `Wiring.Task.effort` — how far a task is from its end: the sets that it has not met come first, then
  what its lookup still has to do, then its queue.

Main results:

* `Wiring.Task.Ends.unique` — there is one result;
* `Wiring.Task.step_goes` — a step of a task is some small steps, unless it sleeps;
* `Wiring.Task.Goes.ends`, `Wiring.Task.Goes.apt`, `Wiring.Task.Goes.effort_lt` — what a small step
  does.
-/

import Wiring.Proofs.Run.Lookups

set_option autoImplicit false

namespace Wiring

namespace Task

/-! ### The result of a task -/

/-- The next step of a task that asks the collection for its sets. -/
def next (setting : Setting) (c : Collection) (t : Task) : Task :=
  match t.stage with
  | .opening => t.open
  | .collecting => t.takeNext setting
  | .fetching errand _ => t.receive (c.fetch errand)
  | .closed _ => t

/-- The result that a task comes to when it asks the collection for its sets. -/
inductive Ends (setting : Setting) (c : Collection) : Task → TaskResult → Prop
  | closed {t : Task} {r : TaskResult} (h : t.result? = some r) : Ends setting c t r
  | next {t : Task} {r : TaskResult} (hopen : t.result? = none)
      (h : Ends setting c (t.next setting c) r) : Ends setting c t r

variable {setting : Setting} {c : Collection} {t : Task} {r r' : TaskResult}

/-- **There is one result.** -/
theorem Ends.unique (h : Ends setting c t r) (h' : Ends setting c t r') : r = r' := by
  induction h with
  | closed h =>
      cases h' with
      | closed h' => exact Option.some.inj (h.symm.trans h')
      | next hopen => rw [h] at hopen; cases hopen
  | next hopen _ ih =>
      cases h' with
      | closed h' => rw [h'] at hopen; cases hopen
      | next _ h' => exact ih h'

/-- Of the setting only the policy matters for a step. -/
theorem next_congr {other : Setting} (hpolicy : setting.policy = other.policy) (t : Task) :
    t.next setting c = t.next other c := by
  have hcompose : t.compose setting = t.compose other := by
    simp only [compose, hpolicy]
  unfold next takeNext Task.finish
  rw [hcompose]

theorem Ends.congr {other : Setting} (hpolicy : setting.policy = other.policy)
    (h : Ends setting c t r) : Ends other c t r := by
  induction h with
  | closed h => exact .closed h
  | next hopen _ ih =>
      refine .next hopen ?_
      rwa [next_congr hpolicy] at ih

/-! ### Small steps -/

/-- A task fits the world: its package and injector are the collection's, the sets that it has yet to
fetch can be reached, and so does its lookup. -/
structure Apt (c : Collection) (roots : List Package) (world : World) (t : Task) : Prop where
  pkg : c.answer t.pkg.path = .ok t.pkg
  within : c.Within roots t.pkg.path
  decl : t.decl ∈ t.pkg.injectors
  queue : ∀ errand ∈ t.queue, c.Asked roots errand.id
  asked : ∀ errand lookup, t.stage = .fetching errand lookup → c.Asked roots errand.id
  lookup : ∀ errand lookup, t.stage = .fetching errand lookup → lookup.Apt c world errand.id.pkg

/-- The task is not waiting for a lookup. -/
def Ripe (t : Task) : Prop :=
  ∀ errand lookup, t.stage = .fetching errand lookup → ∃ result, lookup = .done result

/-- The small steps of a task in a run that nobody cancels. -/
inductive Goes (setting : Setting) (c : Collection) : World × Task → World × Task → Prop
  /-- The lookup goes on. -/
  | looks {world world' : World} {t : Task} {errand : Errand} {lookup lookup' : Lookup}
      (ht : t.stage = .fetching errand lookup)
      (h : Lookup.Goes c errand.id.pkg (world, lookup) (world', lookup')) :
      Goes setting c (world, t) (world', { t with stage := .fetching errand lookup' })
  /-- The task itself goes on; if it has fetched a set the cache of sets may have changed. -/
  | takes {world : World} {t : Task} {sets : SetCache}
      (hsets : sets.Sound fun p _ => c.answer p.path = .ok p) (hopen : t.result? = none)
      (hripe : t.Ripe) : Goes setting c (world, t) ({ world with sets }, t.next setting c)

variable {roots : List Package} {world world' : World} {t' : Task}

/-- Another task of the same injector fits the world if its queue and its lookup do. -/
theorem Apt.become (h : t.Apt c roots world) (hpkg : t'.pkg = t.pkg) (hdecl : t'.decl = t.decl)
    (hqueue : ∀ errand ∈ t'.queue, c.Asked roots errand.id)
    (hstage : ∀ errand lookup, t'.stage = .fetching errand lookup →
      lookup = .start ∧ c.Asked roots errand.id) : t'.Apt c roots world' := by
  refine ⟨?_, ?_, ?_, hqueue, fun e l hl => (hstage e l hl).2, ?_⟩
  · rw [hpkg]
    exact h.pkg
  · rw [hpkg]
    exact h.within
  · rw [hpkg, hdecl]
    exact h.decl
  · intro e l hl
    rw [(hstage e l hl).1]
    trivial

/-- A task that goes on by itself fits every world. -/
theorem Apt.next (h : t.Apt c roots world) (hc : c.ImportsComplete) :
    (t.next setting c).Apt c roots world' := by
  have hclose : ∀ r, (t.close r).Apt c roots world' := fun r =>
    h.become rfl rfl h.queue fun _ _ hl => by cases hl
  unfold Task.next
  split
  · -- the declaration is read
    rcases t.open_cases with ⟨f, -, heq⟩ | ⟨request, hrequest, heq⟩ <;> rw [heq]
    · exact hclose _
    · refine h.become rfl rfl ?_ fun _ _ hl => by cases hl
      intro errand herrand
      obtain ⟨id, hid, rfl⟩ := List.mem_map.1 herrand
      exact .of_request hc h.pkg h.within h.decl hrequest hid
  · -- the next set is taken from the queue
    next hcollecting =>
      rcases t.takeNext_cases setting with ⟨-, heq⟩ | ⟨errand, rest, hqueue, htaken⟩
      · rw [heq]
        exact hclose _
      · have hrest : ∀ e ∈ rest, c.Asked roots e.id := fun e he =>
          h.queue e (hqueue ▸ List.mem_cons_of_mem _ he)
        rcases htaken with ⟨-, heq⟩ | ⟨-, heq⟩ <;> rw [heq]
        · exact h.become rfl rfl hrest fun _ _ hl => by cases hcollecting.symm.trans hl
        · refine h.become rfl rfl hrest ?_
          intro e l hl
          cases hl
          exact ⟨rfl, h.queue _ (hqueue ▸ List.mem_cons_self)⟩
  · -- a set has been fetched
    next errand lookup hstage =>
      have hasked := h.asked errand lookup hstage
      rcases t.receive_cases (c.fetch errand) with ⟨set, hset, heq⟩ | ⟨-, heq⟩ | ⟨f, -, -, heq⟩ <;> rw [heq]
      · refine h.become rfl rfl ?_ fun _ _ hl => by cases hl
        intro e he
        rcases List.mem_append.1 he with he | he
        · exact h.queue e he
        · obtain ⟨id, hid, rfl⟩ := List.mem_map.1 he
          exact .of_fetch hc hasked hset hid
      · exact hclose _
      · exact h.become rfl rfl h.queue fun _ _ hl => by cases hl
  · next hclosed => exact h.become rfl rfl h.queue fun _ _ hl => by cases hclosed.symm.trans hl

/-- What a task receives does not depend on how it was looked up. -/
theorem receive_looks (t : Task) (stage : Stage) : ({ t with stage } : Task).receive = t.receive := by
  funext answer
  unfold receive
  split <;> rfl

/-- A task of which only the lookup has gone on. -/
theorem next_looks {errand : Errand} {lookup : Lookup} (ht : t.stage = .fetching errand lookup)
    (lookup' : Lookup) :
    ({ t with stage := .fetching errand lookup' } : Task).next setting c = t.next setting c := by
  unfold Task.next
  rw [ht]
  exact congrFun (t.receive_looks _) _

theorem Apt.of_fills (h : t.Apt c roots world) (hfills : world.packages.Fills c world'.packages) :
    t.Apt c roots world' :=
  ⟨h.pkg, h.within, h.decl, h.queue, h.asked, fun e l hl => (h.lookup e l hl).of_fills hfills⟩

/-! ### What a small step does -/

theorem index_next : (t.next setting c).index = t.index := by
  unfold Task.next
  split
  · rcases t.open_cases with ⟨f, -, heq⟩ | ⟨request, -, heq⟩ <;>
      exact (congrArg index heq).trans rfl
  · rcases t.takeNext_cases setting with ⟨-, heq⟩ | ⟨_, _, -, ⟨-, heq⟩ | ⟨-, heq⟩⟩ <;>
      exact (congrArg index heq).trans rfl
  · rcases t.receive_cases _ with ⟨set, -, heq⟩ | ⟨-, heq⟩ | ⟨f, -, -, heq⟩ <;>
      exact (congrArg index heq).trans rfl
  · rfl

namespace Goes

variable (h : Goes setting c (world, t) (world', t'))
include h

theorem index : t'.index = t.index := by
  cases h with
  | looks => rfl
  | takes => exact index_next

/-- A small step leads to the same result. -/
theorem ends (hr : Ends setting c t' r) : Ends setting c t r := by
  cases h with
  | @looks _ _ _ errand lookup lookup' ht =>
      cases hr with
      | closed hclosed => cases hclosed
      | next _ hnext =>
          rw [next_looks ht] at hnext
          exact .next (by rw [result?, ht]) hnext
  | takes _ hopen => exact .next hopen hr

theorem fills : world.packages.Fills c world'.packages := by
  cases h with
  | looks _ h => exact h.fills
  | takes => exact .refl _

theorem stocked (hw : world.Stocked c roots) : world'.Stocked c roots := by
  cases h with
  | looks _ h => exact h.stocked hw
  | takes hsets => exact ⟨hw.live, hw.slots, hw.reach, hsets⟩

theorem apt (hc : c.ImportsComplete) (ht : t.Apt c roots world) : t'.Apt c roots world' := by
  cases h with
  | looks hstage h =>
      have hasked := ht.asked _ _ hstage
      have hlookup := h.apt (ht.lookup _ _ hstage)
      refine ⟨ht.pkg, ht.within, ht.decl, ht.queue, ?_, ?_⟩
      · intro e l hl
        cases hl
        exact hasked
      · intro e l hl
        cases hl
        exact hlookup
  | takes => exact ht.next hc

end Goes

/-- The task is loading a package under a marker. -/
def Loads (path : String) (marker : Marker) (t : Task) : Prop :=
  ∃ errand pauses, t.stage = .fetching errand (.loading marker pauses) ∧ errand.id.pkg = path

theorem Loads.not_isBlocked {path : String} {marker : Marker} (h : t.Loads path marker) :
    t.isBlocked world = false := by
  obtain ⟨errand, pauses, hstage, -⟩ := h
  rw [isBlocked, hstage]

/-- A task with a result is not loading anything. -/
theorem Loads.isOpen {path : String} {marker : Marker} (h : t.Loads path marker) : t.result? = none := by
  obtain ⟨errand, pauses, hstage, -⟩ := h
  rw [result?, hstage]

theorem pending_of_isBlocked (h : t.isBlocked world = true) :
    ∃ path marker, world.packages.isPending path marker := by
  unfold isBlocked at h
  split at h
  next errand marker _ => exact ⟨errand.id.pkg, marker, h⟩
  · cases h

/-- A marker that is there after a small step is the task's own, or it was there before and was not the
task's own. -/
theorem Goes.owner (h : Goes setting c (world, t) (world', t')) {path : String} {marker : Marker}
    (hpending : world'.packages.isPending path marker) :
    t'.Loads path marker ∨ world.packages.isPending path marker ∧ ¬ t.Loads path marker := by
  cases h with
  | looks hstage h =>
      rcases h.owner hpending with ⟨rfl, pauses, rfl⟩ | ⟨hbefore, hother⟩
      · exact Or.inl ⟨_, pauses, rfl, rfl⟩
      · refine Or.inr ⟨hbefore, ?_⟩
        rintro ⟨errand, pauses, hloads, rfl⟩
        cases hstage.symm.trans hloads
        exact hother rfl pauses rfl
  | takes _ _ hripe =>
      refine Or.inr ⟨hpending, ?_⟩
      rintro ⟨errand, pauses, hloads, -⟩
      obtain ⟨result, hdone⟩ := hripe _ _ hloads
      cases hdone

/-! ### Progress -/

/-- The sets of the collection that the task has not met. -/
def unmet (c : Collection) (t : Task) : Nat :=
  (c.ids.filter fun id => !t.met.contains id).length

/-- How far a task is from its end. -/
def effort (c : Collection) (t : Task) : ℕ ×ₗ ℕ ×ₗ ℕ :=
  match t.stage with
  | .opening => toLex (c.ids.length + 1, toLex (0, 0))
  | .collecting => toLex (t.unmet c, toLex (0, t.queue.length + 1))
  | .fetching _ lookup => toLex (t.unmet c, lookup.rank)
  | .closed _ => toLex (0, toLex (0, 0))

theorem lt_of_rest_lt {n : Nat} {a b : ℕ ×ₗ ℕ} (h : a < b) :
    (toLex (n, a) : ℕ ×ₗ ℕ ×ₗ ℕ) < toLex (n, b) :=
  Prod.Lex.toLex_lt_toLex.2 (Or.inr ⟨rfl, h⟩)

theorem pair_lt {a b m n : Nat} (h : a < b ∨ a = b ∧ m < n) :
    (toLex (a, m) : ℕ ×ₗ ℕ) < toLex (b, n) :=
  Prod.Lex.toLex_lt_toLex.2 h

/-- A task that has a result is at its end, and nothing else is. -/
theorem end_lt {n : Nat} {rest : ℕ ×ₗ ℕ} (h : toLex (0, 0) < rest) :
    (toLex (0, toLex (0, 0)) : ℕ ×ₗ ℕ ×ₗ ℕ) < toLex (n, rest) := by
  rcases Nat.eq_zero_or_pos n with rfl | hn
  · exact lt_of_rest_lt h
  · exact Prod.Lex.toLex_lt_toLex.2 (Or.inl hn)

/-- A set is met for the first time. -/
theorem length_unmet_cons_lt {ids met : List SetId} {id : SetId} (hid : id ∈ ids) (hnew : id ∉ met) :
    (ids.filter fun i => !(id :: met).contains i).length <
      (ids.filter fun i => !met.contains i).length := by
  refine length_filter_lt ?_ hid (by simpa using hnew) (by simp)
  intro i hi
  simp only [List.contains_eq_mem, List.mem_cons, not_or, Bool.not_eq_true',
    decide_eq_false_iff_not] at hi ⊢
  exact hi.2

/-- A task that goes on by itself comes closer to its end. -/
theorem effort_next_lt (ht : t.Apt c roots world) (hopen : t.result? = none) (hripe : t.Ripe) :
    (t.next setting c).effort c < t.effort c := by
  cases hstage : t.stage with
  | opening =>
      have heffort : t.effort c = toLex (c.ids.length + 1, toLex (0, 0)) := by rw [effort, hstage]
      rw [heffort, Task.next, hstage]
      refine Prod.Lex.toLex_lt_toLex.2 (Or.inl ?_)
      rcases t.open_cases with ⟨f, -, heq⟩ | ⟨request, -, heq⟩ <;> rw [heq]
      · exact Nat.succ_pos _
      · exact Nat.lt_succ_of_le (List.length_filter_le _ _)
  | collecting =>
      have heffort : t.effort c = toLex (t.unmet c, toLex (0, t.queue.length + 1)) := by
        rw [effort, hstage]
      rw [heffort, Task.next, hstage]
      dsimp only
      rcases t.takeNext_cases setting with ⟨-, heq⟩ | ⟨errand, rest, hqueue, ⟨-, heq⟩ | ⟨hnew, heq⟩⟩ <;>
        rw [heq]
      · exact end_lt (pair_lt (Or.inr ⟨rfl, Nat.succ_pos _⟩))
      · -- the set has been met before
        have hafter : ({ t with queue := rest } : Task).effort c =
            toLex (t.unmet c, toLex (0, rest.length + 1)) := by
          simp only [effort, hstage]
          rfl
        rw [hafter, hqueue]
        exact lt_of_rest_lt (pair_lt (Or.inr ⟨rfl, Nat.lt_succ_self _⟩))
      · have hasked := ht.queue errand (hqueue ▸ List.mem_cons_self)
        exact Prod.Lex.toLex_lt_toLex.2 (Or.inl (length_unmet_cons_lt hasked.mem hnew))
  | fetching errand lookup =>
      obtain ⟨result, rfl⟩ := hripe errand lookup hstage
      have heffort : t.effort c = toLex (t.unmet c, toLex (1, 0)) := by rw [effort, hstage]; rfl
      rw [heffort, Task.next, hstage]
      dsimp only
      -- whatever the answer is, the lookup is over
      have hback : ∀ n, (toLex (0, n) : ℕ ×ₗ ℕ) < toLex (1, 0) := fun n =>
        pair_lt (Or.inl Nat.one_pos)
      rcases t.receive_cases (c.fetch errand) with ⟨set, -, heq⟩ | ⟨-, heq⟩ | ⟨f, -, -, heq⟩ <;> rw [heq]
      · exact lt_of_rest_lt (hback _)
      · exact end_lt (hback _)
      · exact lt_of_rest_lt (hback _)
  | closed r => rw [result?, hstage] at hopen; cases hopen

/-- **A small step brings a task closer to its end.** -/
theorem Goes.effort_lt (h : Goes setting c (world, t) (world', t')) (ht : t.Apt c roots world) :
    t'.effort c < t.effort c := by
  cases h with
  | @looks _ _ _ errand lookup lookup' hstage h =>
      have hbefore : t.effort c = toLex (t.unmet c, lookup.rank) := by rw [effort, hstage]
      rw [hbefore]
      exact lt_of_rest_lt h.rank_lt
  | takes _ hopen hripe => exact effort_next_lt ht hopen hripe

/-! ### Steps -/

theorem step_of_opening (h : t.stage = .opening) :
    t.step setting world = (world, t.open, .going) := by
  rw [Task.step, h]

theorem step_of_collecting (h : t.stage = .collecting) :
    t.step setting world = (world, t.takeNext setting, .going) := by
  rw [Task.step, h]

/-- A step when the package of a set has been looked up. -/
theorem step_of_done {errand : Errand} {result : Except Failure Package}
    (h : t.stage = .fetching errand (.done result)) :
    t.step setting world = arrive setting world t errand result := by
  rw [Task.step, h]

theorem step_of_result {r : TaskResult} (h : t.result? = some r) :
    t.step setting world = (world, t, .closed) := by
  rw [Task.step, result?_eq_some_iff.1 h]

/-- How a task goes on whose lookup has come so far. -/
def paceOf : Lookup → Pace
  | .asleep _ => .asleep
  | .done _ => .going
  | _ => .resting

/-- A step while the package of a set is being looked up. -/
theorem step_of_looking {errand : Errand} {lookup : Lookup} (hstage : t.stage = .fetching errand lookup)
    (hopen : ∀ r, lookup ≠ .done r) :
    t.step setting world =
      ((lookup.poll setting.site world errand.id.pkg).1,
        { t with stage := .fetching errand (lookup.poll setting.site world errand.id.pkg).2 },
        paceOf (lookup.poll setting.site world errand.id.pkg).2) := by
  unfold Task.step
  rw [hstage]
  cases lookup with
  | done r => exact absurd rfl (hopen r)
  | start => rfl
  | asleep => rfl
  | loading => rfl

/-- A task that has found the package of a set does what it does by itself. -/
theorem goes_of_done (hw : world.Stocked c roots) (ht : t.Apt c roots world)
    {errand : Errand} {result : Except Failure Package}
    (hstage : t.stage = .fetching errand (.done result)) :
    Goes setting c (world, t) ((t.step setting world).1, (t.step setting world).2.1) := by
  obtain rfl : result = c.answer errand.id.pkg := ht.lookup errand _ hstage
  have hopen : t.result? = none := by rw [result?, hstage]
  have hripe : t.Ripe := fun e l hl => by cases hstage.symm.trans hl; exact ⟨_, rfl⟩
  have hserved : ∀ pkg, c.answer errand.id.pkg = .ok pkg → c.answer pkg.path = .ok pkg :=
    fun _ => Collection.answer_path
  -- the kept sets make no difference to what it gets
  obtain ⟨sets, hsets, harrive⟩ :
      ∃ sets, sets.Sound (fun p _ => c.answer p.path = .ok p) ∧
        arrive setting world t errand (c.answer errand.id.pkg) =
          ({ world with sets }, t.receive (c.fetch errand), .going) :=
    arrive_eq hw.sets c.telling hserved t errand
  have hnext : t.receive (c.fetch errand) = t.next setting c := by
    rw [Task.next, hstage]
  rw [step_of_done hstage, harrive, hnext]
  exact .takes hsets hopen hripe

/-- The small steps of a lookup are small steps of its task. -/
theorem goes_of_looking {errand : Errand} {lookup lookup' : Lookup} {world' : World}
    (hstage : t.stage = .fetching errand lookup)
    (h : Relation.TransGen (Lookup.Goes c errand.id.pkg) (world, lookup) (world', lookup')) :
    Relation.TransGen (Goes setting c) (world, t)
      (world', { t with stage := .fetching errand lookup' }) := by
  have hself : t = { t with stage := .fetching errand lookup } := by rw [← hstage]
  have hlift : ∀ x y : World × Lookup, Lookup.Goes c errand.id.pkg x y →
      Goes setting c (x.1, { t with stage := .fetching errand x.2 })
        (y.1, { t with stage := .fetching errand y.2 }) := fun _ _ h => .looks rfl h
  have htask : Relation.TransGen (Goes setting c)
      (world, { t with stage := .fetching errand lookup })
      (world', { t with stage := .fetching errand lookup' }) :=
    Relation.TransGen.lift
      (fun x : World × Lookup => (x.1, { t with stage := .fetching errand x.2 })) hlift _ _ h
  rwa [← hself] at htask

/-- **A step of a task is some small steps, unless it sleeps.** -/
theorem step_goes (hs : c.ServedAt setting.site) (hw : world.Stocked c roots)
    (ht : t.Apt c roots world) (hopen : t.result? = none) :
    (t.isBlocked world ∧ (t.step setting world).1 = world ∧ (t.step setting world).2.1 = t) ∨
      Relation.TransGen (Goes setting c) (world, t)
        ((t.step setting world).1, (t.step setting world).2.1) := by
  cases hstage : t.stage with
  | opening =>
      right
      have hripe : t.Ripe := fun e l hl => by cases hstage.symm.trans hl
      have hnext : t.open = t.next setting c := by rw [Task.next, hstage]
      rw [step_of_opening hstage, hnext]
      exact .single (.takes hw.sets hopen hripe)
  | collecting =>
      right
      have hripe : t.Ripe := fun e l hl => by cases hstage.symm.trans hl
      have hnext : t.takeNext setting = t.next setting c := by rw [Task.next, hstage]
      rw [step_of_collecting hstage, hnext]
      exact .single (.takes hw.sets hopen hripe)
  | fetching errand lookup =>
      by_cases hdone : ∃ r, lookup = .done r
      · obtain ⟨r, rfl⟩ := hdone
        exact Or.inr (.single (goes_of_done hw ht hstage))
      · have hlooking : ∀ r, lookup ≠ .done r := fun r hr => hdone ⟨r, hr⟩
        have hwithin := (ht.asked errand lookup hstage).within
        rw [step_of_looking hstage hlooking]
        rcases Lookup.poll_goes hs hw hwithin (ht.lookup errand lookup hstage) hlooking with
          ⟨marker, rfl, hpending, heq⟩ | hgoes
        · left
          refine ⟨?_, ?_, ?_⟩
          · simp only [isBlocked, hstage, hpending]
          · rw [heq]
          · rw [heq, ← hstage]
        · exact Or.inr (goes_of_looking hstage hgoes)
  | closed r => rw [result?, hstage] at hopen; cases hopen

end Task

end Wiring
