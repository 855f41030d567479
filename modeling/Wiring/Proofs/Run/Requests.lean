/-
**What a lazy run asks its loader for.**

A lazy run begins with its roots and asks for every other package when the first of its tasks needs it.  The
tasks know nothing of each other; what keeps them from asking twice is the cache.  So a package that has been
asked for, or is being asked for, is the business of one task, and in the end every package that some task
has looked up has been asked for once.

Main definitions:

* `Wiring.Crew.Surveys` — the tasks of a run explore what they can reach;
* `Wiring.Crew.loading`, `Wiring.Crew.Charged` — the packages that are being loaded, and those that have been
  asked for.

Main results:

* `Wiring.Crew.Surveys.treads`, `Wiring.Crew.Charged.treads` — every small step preserves both;
* `Wiring.Crew.Surveys.settles` — in the end every package within reach has been looked up;
* `Wiring.Crew.Charged.mem_iff` — **and the packages that have been asked for are these**.
-/

import Wiring.Proofs.Run.Explored
import Wiring.Proofs.Run.Unbroken

set_option autoImplicit false

namespace Wiring

/-! ### Exploring tasks -/

/-- In a run that nobody cancels every task keeps to what is known and explores what it can reach, and an
injector that has no task any more has been explored. -/
structure Crew.Surveys (setting : Setting) (start : World) (tasks : List Task) (s : Crew) : Prop where
  world : s.world.Faithful setting start
  calm : s.world.Calm
  remaining : ∀ t ∈ s.remaining, t.Faithful setting start tasks ∧ t.Calm ∧
    t.Explores setting start tasks s.world
  covered : ∀ t₀ ∈ tasks, (∃ t ∈ s.remaining, t.Stems t₀) ∨
    ∃ ids, t₀.Explored setting start s.world ids

namespace Crew.Surveys

variable {setting : Setting} {served : LoadRequest → LoadOutcome} {start : World} {tasks : List Task}
  {s s' : Crew} {id : SetId}

/-- **A small step of a run keeps its tasks exploring.** -/
theorem treads (h : s.Surveys (setting.serving served) start tasks) (htreads : Treads setting s s')
    (hserves : setting.site.loader.Serves served) (hcalm : setting.site.loader.Calm)
    (hlazy : start.packages.isLazy = true) (haddressed : start.Addressed) :
    s'.Surveys (setting.serving served) start tasks := by
  cases htreads with
  | starts ht =>
      have hsame := remaining_start ht
      exact ⟨h.world, h.calm, hsame ▸ h.remaining, hsame ▸ h.covered⟩
  | @goes t t' rest world delay ht hstep =>
      have hdelayed : (setting.delayed delay).site.loader.Serves served := ⟨hserves.whole, hserves.part⟩
      have hdelayed' : (setting.delayed delay).site.loader.Calm := hcalm
      have hlazy' : s.world.packages.isLazy = true := h.world.isLazy.trans hlazy
      obtain ⟨hfaithful, htask, hexplores⟩ := h.remaining t (mem_remaining ht)
      obtain ⟨hworld', hfaithful'⟩ := hstep.faithful hdelayed haddressed h.world hfaithful
      obtain ⟨hcalm', htask'⟩ := hstep.calm hdelayed' h.calm htask
      have hexplores' : t'.Explores (setting.serving served) start tasks world :=
        hstep.explores hdelayed' h.calm.live hlazy' h.world hfaithful htask hexplores
      have hsettles : ∀ q, s.world.Settles q → world.Settles q := fun _ =>
        hstep.settled hdelayed' h.calm.live hlazy'
      have hothers : ∀ u ∈ s.remaining, u.Faithful (setting.serving served) start tasks ∧ u.Calm ∧
          u.Explores (setting.serving served) start tasks world := fun u hu =>
        ⟨(h.remaining u hu).1, (h.remaining u hu).2.1, (h.remaining u hu).2.2.mono hsettles⟩
      refine ⟨hworld', hcalm',
        forall_remaining_advance ht hothers ⟨hfaithful', htask', hexplores'⟩ world, ?_⟩
      intro t₀ ht₀
      rcases h.covered t₀ ht₀ with ⟨u, hu, hstems⟩ | ⟨ids, hexplored⟩
      · rw [remaining_of_underWay ht, Multiset.mem_cons] at hu
        rcases hu with rfl | hu
        · exact Or.inl ⟨t', mem_remaining rfl, hstep.stems.1.trans hstems⟩
        · refine Or.inl ⟨u, ?_, hstems⟩
          rw [remaining_of_underWay rfl]
          exact Multiset.mem_cons_of_mem hu
      · exact Or.inr ⟨ids, hexplored.mono hsettles⟩
  | @delivers t rest result ht hr =>
      refine ⟨h.world, h.calm, forall_remaining_deliver ht h.remaining _ _, ?_⟩
      intro t₀ ht₀
      refine (h.covered t₀ ht₀).elim ?_ Or.inr
      rintro ⟨u, hu, hstems⟩
      rw [remaining_of_underWay ht, Multiset.mem_cons] at hu
      rcases hu with rfl | hu
      · exact Or.inr ⟨_, (h.remaining u (mem_remaining ht)).2.2.explored hr hstems⟩
      · exact Or.inl ⟨u, hu, hstems⟩

/-- **In the end every package within reach has been looked up.** -/
theorem settles (h : s.Surveys setting start tasks) (hnone : s.remaining = 0)
    (hid : start.Touched setting tasks id) : s.world.Settles id.pkg := by
  -- a set within reach is among those that the task of some injector has explored
  have hmem : ∃ t₀ ∈ tasks, ∃ ids, t₀.Explored setting start s.world ids ∧ id ∈ ids := by
    induction hid with
    | @asked t₀ request id ht₀ hrequest hid =>
        obtain ⟨t, ht, -⟩ | ⟨ids, hexplored⟩ := h.covered t₀ ht₀
        · rw [hnone] at ht
          cases Multiset.notMem_zero _ ht
        · exact ⟨t₀, ht₀, ids, hexplored, hexplored.asked request hrequest id hid⟩
    | refers _ hset hnext ih =>
        obtain ⟨t₀, ht₀, ids, hexplored, hid⟩ := ih
        exact ⟨t₀, ht₀, ids, hexplored, hexplored.refers _ hid _ _ hset _ hnext⟩
  obtain ⟨t₀, -, ids, hexplored, hid⟩ := hmem
  exact hexplored.settled id hid

end Crew.Surveys

/-! ### Packages that have been asked for -/

/-- The package that a task is loading. -/
def Task.load? (t : Task) : Option String :=
  match t.stage with
  | .fetching errand lookup => if lookup.isLoading then some errand.id.pkg else none
  | _ => none

namespace Task

variable {t : Task} {errand : Errand} {lookup : Lookup} {setting : Setting} {world : World}

theorem load?_of_fetching (h : t.stage = .fetching errand lookup) :
    t.load? = if lookup.isLoading then some errand.id.pkg else none := by
  rw [load?, h]

theorem load?_of_not_loading
    (h : ∀ errand lookup, t.stage = .fetching errand lookup → lookup.isLoading = false) :
    t.load? = none := by
  unfold load?
  split
  next errand lookup hstage => rw [h errand lookup hstage, if_neg Bool.false_ne_true]
  · rfl

theorem load?_of_result {result : TaskResult} (h : t.result? = some result) : t.load? = none := by
  rw [load?, result?_eq_some_iff.1 h]

theorem load?_open (t : Task) : t.open.load? = none :=
  load?_of_not_loading fun _ _ h => absurd h t.not_fetching_open

theorem load?_takeNext (h : t.stage = .collecting) : (t.takeNext setting).load? = none :=
  load?_of_not_loading fun _ _ hstage => by rw [start_of_takeNext h hstage]; rfl

theorem load?_receive (t : Task) (answer : Except Failure ProviderSet) :
    (t.receive answer).load? = none :=
  load?_of_not_loading fun _ _ h => absurd h (t.not_fetching_receive answer)

theorem load?_arrive {result : Except Failure Package} (h : t.stage = .fetching errand (.done result)) :
    (arrive setting world t errand result).2.1.load? = none := by
  cases result with
  | error f => exact t.load?_receive _
  | ok pkg =>
      rcases arrive_cases setting world t errand pkg with ⟨answer, -, heq⟩ | ⟨-, heq⟩ <;> rw [heq]
      · exact t.load?_receive answer
      · exact load?_of_fetching h

end Task

namespace Crew

/-- The packages that the tasks of a run are loading. -/
def loading (s : Crew) : Multiset String :=
  s.remaining.filterMap Task.load?

/-- Some packages have been asked for, apart from the roots, in this order.  A package that has been asked for
or is being loaded was not there at the start, is within reach, and is neither asked for nor loaded twice. -/
structure Charged (setting : Setting) (start : World) (tasks : List Task) (paths : List String)
    (s : Crew) : Prop where
  calls : s.world.calls = start.calls ++ paths.map fun path => ⟨setting.site.requestFor path, false⟩
  once : ((paths : Multiset String) + s.loading).Nodup
  taken : ∀ path, path ∈ (paths : Multiset String) + s.loading ↔
    start.Leaves path ∧ ∃ slot, s.world.packages.slots.get? path = some slot
  touched : ∀ path ∈ (paths : Multiset String) + s.loading,
    ∃ id, start.Touched setting tasks id ∧ id.pkg = path
  distinct : s.world.packages.slots.Distinct

variable {setting : Setting} {start world : World} {tasks : List Task} {paths : List String}
  {s s' : Crew} {t t' : Task} {rest : Multiset Task} {path : String}

/-- What the other tasks are loading. -/
theorem loading_eq (ht : s.underWay = t ::ₘ rest) :
    s.loading = t.load?.elim 0 ({·}) + (s.upcoming + rest).filterMap Task.load? := by
  rw [loading, remaining_of_underWay ht]
  cases hload : t.load? with
  | none => rw [Multiset.filterMap_cons_none _ _ hload, Option.elim_none, zero_add]
  | some path =>
      rw [Multiset.filterMap_cons_some _ _ _ hload, Option.elim_some, Multiset.singleton_add]

namespace Charged

/-- A step that does not change the cache, nor what is being loaded. -/
theorem congr (h : s.Charged setting start tasks paths) (hcalls : s'.world.calls = s.world.calls)
    (hpackages : s'.world.packages = s.world.packages) (hloading : s'.loading = s.loading) :
    s'.Charged setting start tasks paths := by
  refine ⟨hcalls.trans h.calls, ?_, ?_, ?_, hpackages ▸ h.distinct⟩
  · rw [hloading]
    exact h.once
  · rw [hloading, hpackages]
    exact h.taken
  · rw [hloading]
    exact h.touched

/-- A task begins to load a package. -/
theorem claim (h : s.Charged setting start tasks paths)
    (hloading : s'.loading = {path} + s.loading) (hcalls : s'.world.calls = s.world.calls)
    {slot : PackageSlot} (hslots : s'.world.packages.slots = s.world.packages.slots.put path slot)
    (hnone : s.world.packages.slots.get? path = none) (hleaves : start.Leaves path)
    (hreached : ∃ id, start.Touched setting tasks id ∧ id.pkg = path) :
    s'.Charged setting start tasks paths := by
  have hall : (paths : Multiset String) + s'.loading = path ::ₘ ((paths : Multiset String) + s.loading) := by
    rw [hloading, Multiset.singleton_add, Multiset.add_cons]
  refine ⟨hcalls.trans h.calls, ?_, ?_, ?_, hslots ▸ h.distinct.put path slot⟩
  · rw [hall, Multiset.nodup_cons]
    refine ⟨fun hmem => ?_, h.once⟩
    -- the slot is empty, so nobody has asked for the package
    obtain ⟨-, other, hother⟩ := (h.taken path).1 hmem
    cases hnone.symm.trans hother
  · intro q
    rw [hall, Multiset.mem_cons, hslots, Table.get?_put, h.taken]
    by_cases hq : q = path
    · subst hq
      simp [hleaves]
    · simp [hq]
  · rw [hall]
    exact Multiset.forall_mem_cons.2 ⟨hreached, h.touched⟩

/-- A load ends. -/
theorem settle (h : s.Charged setting start tasks paths) (hloading : s.loading = {path} + s'.loading)
    (hcalls : s'.world.calls = s.world.calls ++ [⟨setting.site.requestFor path, false⟩])
    {slot : PackageSlot} (hslots : s'.world.packages.slots = s.world.packages.slots.put path slot) :
    s'.Charged setting start tasks (paths ++ [path]) := by
  have hall : ((paths ++ [path] : List String) : Multiset String) + s'.loading =
      (paths : Multiset String) + s.loading := by
    rw [hloading, ← Multiset.coe_add, Multiset.coe_singleton, add_assoc]
  have hmem : path ∈ (paths : Multiset String) + s.loading := by
    rw [hloading, Multiset.singleton_add]
    exact Multiset.mem_add.2 (Or.inr (Multiset.mem_cons_self _ _))
  refine ⟨?_, hall ▸ h.once, ?_, hall ▸ h.touched, hslots ▸ h.distinct.put path slot⟩
  · rw [hcalls, h.calls, List.map_append, List.append_assoc]
    rfl
  · intro q
    rw [hall, hslots, Table.get?_put]
    by_cases hq : q = path
    · subst hq
      simp [hmem, ((h.taken q).1 hmem).1]
    · rw [if_neg hq, h.taken]

/-- **A small step of a run keeps the account of what has been asked for.** -/
theorem treads {served : LoadRequest → LoadOutcome}
    (h : s.Charged (setting.serving served) start tasks paths) (htreads : Treads setting s s')
    (hsurveys : s.Surveys (setting.serving served) start tasks) (hcalm : setting.site.loader.Calm)
    (hlazy : start.packages.isLazy = true) :
    ∃ paths', s'.Charged (setting.serving served) start tasks paths' := by
  cases htreads with
  | starts ht => exact ⟨paths, h.congr rfl rfl (by rw [loading, loading, remaining_start ht])⟩
  | @delivers t rest result ht hr =>
      refine ⟨paths, h.congr rfl rfl ?_⟩
      rw [loading_eq ht, Task.load?_of_result hr, Option.elim_none, zero_add]
      rfl
  | @goes t t' rest world delay ht hstep =>
      have hbefore := loading_eq ht
      have hafter := loading_eq (s := { s with world, underWay := t' ::ₘ rest }) rfl
      -- a step that leaves the cache alone
      have hidle : world.calls = s.world.calls → world.packages = s.world.packages →
          t'.load? = t.load? → ∃ paths',
            ({ s with world, underWay := t' ::ₘ rest } : Crew).Charged (setting.serving served) start tasks
              paths' := by
        intro hcalls hpackages hload
        refine ⟨paths, h.congr hcalls hpackages ?_⟩
        rw [hafter, hload, ← hbefore]
      obtain ⟨-, -, hexplores⟩ := hsurveys.remaining t (mem_remaining ht)
      cases hstep with
      | @looks _ _ _ errand lookup lookup' hstage h' =>
          have hdelayed : (setting.delayed delay).site.loader.Calm := hcalm
          have halters := h'.alters hdelayed hsurveys.calm.live (hsurveys.world.isLazy.trans hlazy)
          have hload := Task.load?_of_fetching hstage
          have hload' : ({ t with stage := .fetching errand lookup' } : Task).load? =
              if lookup'.isLoading then some errand.id.pkg else none := rfl
          cases halters with
          | keeps hloading => exact hidle rfl rfl (by rw [hload, hload', hloading])
          | claims hnone =>
              refine ⟨paths, h.claim ?_ rfl rfl hnone ?_ ?_⟩
              · rw [hafter, hbefore, hload, hload']
                simp [Lookup.isLoading]
              · refine hsurveys.world.leaves ?_
                rw [hnone]
                exact fun _ hs => by cases hs
              · obtain ⟨hmet, -⟩ := hexplores.fetching errand _ hstage
                exact ⟨errand.id, hexplores.touched _ (Or.inl hmet), rfl⟩
          | settles =>
              refine ⟨paths ++ [errand.id.pkg], h.settle ?_ rfl rfl⟩
              rw [hafter, hbefore, hload, hload']
              simp [Lookup.isLoading]
      | reads hstage => exact hidle rfl rfl (by rw [t.load?_open, Task.load?, hstage])
      | takes hstage => exact hidle rfl rfl (by rw [Task.load?_takeNext hstage, Task.load?, hstage])
      | @arrives _ _ errand result hstage =>
          obtain ⟨sets, hworld⟩ := Task.arrive_world (setting.delayed delay) s.world t errand result
          refine hidle ?_ ?_ ?_
          · rw [hworld]
          · rw [hworld]
          · rw [Task.load?_arrive hstage, Task.load?_of_fetching hstage]
            rfl

/-- **In the end the packages that have been asked for are those within reach** that were not there at the
start. -/
theorem mem_iff (h : s.Charged setting start tasks paths) (hsurveys : s.Surveys setting start tasks)
    (hnone : s.remaining = 0) : paths.Nodup ∧ ∀ path, path ∈ paths ↔
      start.Leaves path ∧ ∃ id, start.Touched setting tasks id ∧ id.pkg = path := by
  have hall : (paths : Multiset String) + s.loading = paths := by
    rw [loading, hnone, Multiset.filterMap_zero, add_zero]
  refine ⟨Multiset.coe_nodup.1 (hall ▸ h.once), fun path => ?_⟩
  have htaken := h.taken path
  have htouched := h.touched path
  rw [hall, Multiset.mem_coe] at htaken htouched
  constructor
  · exact fun hpath => ⟨(htaken.1 hpath).1, htouched hpath⟩
  · rintro ⟨hleaves, id, hid, rfl⟩
    obtain ⟨result, hslot⟩ := hsurveys.settles hnone hid
    exact htaken.2 ⟨hleaves, _, hslot⟩

end Charged

end Crew

end Wiring
