/-
**What a task has explored.**

A task fetches the sets that its injector refers to, then those that these refer to, and so on, and each of
them once.  A set that cannot be had does not keep it from fetching the others.  So a task that has its
result, in a run that nobody cancels, has looked up the package of every set that can be reached from its
injector, and it has looked up no other package.

Main definitions:

* `Wiring.World.Touched` — the sets that can be reached from the injectors of some tasks;
* `Wiring.Lookup.Alters` — what a small step of a lookup changes in a lazy run that nobody cancels;
* `Wiring.Task.Explores` — how far a task has come;
* `Wiring.Task.Explored` — everything that can be reached from an injector has been looked up.

Main results:

* `Wiring.Task.Treads.explores` — a small step keeps a task exploring;
* `Wiring.Task.Explores.explored` — **a task that has its result has explored everything**.
-/

import Wiring.Proofs.Run.Calm
import Wiring.Proofs.Run.Foresight

set_option autoImplicit false

namespace Wiring

/-! ### Sets within reach -/

namespace World

/-- The sets that can be reached from the injectors of some tasks: those that the injectors refer to, and
those that such a set refers to if it can be had. -/
inductive Touched (setting : Setting) (start : World) (tasks : List Task) : SetId → Prop
  | asked {t : Task} {request : Request} {id : SetId} (ht : t ∈ tasks)
      (hrequest : t.pkg.request t.decl = .ok request) (hid : id ∈ request.references) :
      Touched setting start tasks id
  | refers {id next : SetId} {asker : String} {set : ProviderSet}
      (h : Touched setting start tasks id)
      (hset : start.supplies setting ⟨id, asker⟩ = some (.ok set)) (hnext : next ∈ set.references) :
      Touched setting start tasks next

/-- The lookup of a package has been settled. -/
def Settles (world : World) (path : String) : Prop :=
  ∃ result, world.packages.slots.get? path = some (.holding result)

variable {setting : Setting} {start world : World} {id : SetId} {a : String} {set : ProviderSet}

/-- Who asks for a set does not show in what there is to be had. -/
theorem supplies_ok_congr (h : start.supplies setting ⟨id, a⟩ = some (.ok set)) (b : String) :
    start.supplies setting ⟨id, b⟩ = some (.ok set) := by
  unfold supplies at h ⊢
  dsimp only at h ⊢
  cases hpkg : start.foretold setting.site id.pkg with
  | error f => rw [hpkg] at h; cases h
  | ok pkg =>
      rw [hpkg] at h
      dsimp only at h ⊢
      rw [Task.extractFrom_snd] at h ⊢
      cases hvalid : pkg.isValid with
      | false => simp [hvalid] at h
      | true =>
          have hextract : ∀ s, pkg.extractSet id.name a = .ok s → pkg.extractSet id.name b = .ok s :=
            fun s hs => pkg.extractSet_ok_congr hs b
          simp only [hvalid, if_true, SetCache.getOrExtract_snd] at h ⊢
          split at h
          next hkeeps =>
            rw [if_pos hkeeps]
            unfold SetSlot.tells at h ⊢
            split at h
            · split at h
              next hfits => rwa [if_pos hfits]
              next hfits =>
                rw [if_neg hfits]
                exact congrArg some (hextract set (Option.some.inj h))
            · cases h
            · exact congrArg some (hextract set (Option.some.inj h))
          next hkeeps =>
            rw [if_neg hkeeps]
            exact congrArg some (hextract set (Option.some.inj h))

end World

/-! ### Lookups -/

namespace Lookup

/-- A lookup is in the middle of a load. -/
def isLoading : Lookup → Bool
  | loading _ _ => true
  | _ => false

/-- What a small step of a lookup changes in a lazy run that nobody cancels. -/
inductive Alters (site : LoadSite) (path : String) : World × Lookup → World × Lookup → Prop
  /-- Nothing in the cache, and a result is what the slot holds. -/
  | keeps {world : World} {lookup lookup' : Lookup} (hloading : lookup'.isLoading = lookup.isLoading)
      (hdone : ∀ result, lookup' = .done result →
        world.packages.slots.get? path = some (.holding result)) :
      Alters site path (world, lookup) (world, lookup')
  /-- The lookup takes an empty slot. -/
  | claims {world : World} {marker : Marker} {pauses : Nat}
      (h : world.packages.slots.get? path = none) :
      Alters site path (world, .start)
        (world.withPackages (world.packages.granted path), .loading marker pauses)
  /-- The loader has answered. -/
  | settles {world : World} {marker : Marker} {pauses : Nat} {result : Except Failure Package} :
      Alters site path (world, .loading marker pauses)
        ({ world with
            packages := world.packages.settle path (.holding result)
            calls := world.calls ++ [⟨site.requestFor path, false⟩] }, .done result)

variable {site : LoadSite} {path q : String} {world world' : World} {lookup lookup' : Lookup}

theorem Treads.alters (h : Treads site path (world, lookup) (world', lookup'))
    (hcalm : site.loader.Calm) (hlive : world.cancelled = false)
    (hlazy : world.packages.isLazy = true) : Alters site path (world, lookup) (world', lookup') := by
  cases h with
  | wakes => exact .keeps rfl fun _ h => by cases h
  | finds hslot =>
      refine .keeps rfl fun _ h => ?_
      cases h
      exact hslot
  | lacks _ heager => cases hlazy.symm.trans heager
  | sleeps => exact .keeps rfl fun _ h => by cases h
  | begins hslot => exact .claims hslot
  | refused _ _ hcancelled => cases hlive.symm.trans hcancelled
  | pauses => exact .keeps rfl fun _ h => by cases h
  | @settles _ opened _ marker result hcall =>
      have hopened : (world.call site.loader (site.requestFor path)).1 = opened := congrArg Prod.fst hcall
      simp only [World.call, hlive, hcalm _] at hopened
      subst hopened
      have hsettles := @Alters.settles site path world marker 0 result
      rwa [hlive] at hsettles
  | @yields _ opened _ _ hcall hverdict =>
      have hopened : (world.call site.loader (site.requestFor path)).1 = opened := congrArg Prod.fst hcall
      simp only [World.call, hlive, hcalm _] at hopened
      subst hopened
      cases PackageCache.cancelled_of_verdict hverdict

/-- What is settled stays settled. -/
theorem Alters.settled (h : Alters site path (world, lookup) (world', lookup')) (hq : world.Settles q) :
    world'.Settles q := by
  obtain ⟨result, hslot⟩ := hq
  cases h with
  | keeps => exact ⟨result, hslot⟩
  | claims hnone =>
      have hne : q ≠ path := by
        rintro rfl
        cases hnone.symm.trans hslot
      refine ⟨result, ?_⟩
      simp only [World.withPackages, PackageCache.granted]
      rwa [Table.get?_put, if_neg hne]
  | @settles _ _ _ settled =>
      by_cases hpath : q = path
      · exact ⟨settled, by simp [PackageCache.settle, Table.get?_put, hpath]⟩
      · refine ⟨result, ?_⟩
        simp only [PackageCache.settle]
        rwa [Table.get?_put, if_neg hpath]

/-- The slot of a lookup that has its result is settled. -/
theorem Alters.settles_path {result : Except Failure Package}
    (h : Alters site path (world, lookup) (world', .done result)) : world'.Settles path := by
  cases h with
  | keeps _ hdone => exact ⟨result, hdone result rfl⟩
  | settles => exact ⟨result, by simp [PackageCache.settle, Table.get?_put]⟩

end Lookup

/-! ### Tasks -/

namespace Task

/-- A task has met a set, or has it in its queue. -/
def Knows (t : Task) (id : SetId) : Prop :=
  id ∈ t.met ∨ ∃ errand ∈ t.queue, errand.id = id

/-- A task is fetching a set. -/
def Fetches (t : Task) (id : SetId) : Prop :=
  ∃ errand lookup, t.stage = .fetching errand lookup ∧ errand.id = id

/-- A set has been followed up: its package has been looked up, and the task knows what it refers to. -/
structure Follows (setting : Setting) (start world : World) (t : Task) (id : SetId) : Prop where
  settled : world.Settles id.pkg
  refers : ∀ asker set, start.supplies setting ⟨id, asker⟩ = some (.ok set) →
    ∀ next ∈ set.references, t.Knows next

/-- How far a task has come: it knows nothing but what can be reached, and of the sets that it has met it has
followed up all but the one that it is fetching. -/
structure Explores (setting : Setting) (start : World) (tasks : List Task) (world : World) (t : Task) :
    Prop where
  stems : ∃ t₀ ∈ tasks, t.Stems t₀
  touched : ∀ id, t.Knows id → start.Touched setting tasks id
  fresh : t.stage = .opening → t.met = [] ∧ t.queue = []
  asked : t.stage ≠ .opening → ∀ request, t.pkg.request t.decl = .ok request →
    ∀ id ∈ request.references, t.Knows id
  fetching : ∀ errand lookup, t.stage = .fetching errand lookup →
    errand.id ∈ t.met ∧ ∀ result, lookup = .done result → world.Settles errand.id.pkg
  followed : ∀ id ∈ t.met, t.Fetches id ∨ t.Follows setting start world id
  closed : ∀ result, t.stage = .closed result → t.queue = []

/-- Everything that can be reached from an injector has been looked up: some sets are closed under what they
refer to. -/
structure Explored (setting : Setting) (start world : World) (t : Task) (ids : List SetId) : Prop where
  asked : ∀ request, t.pkg.request t.decl = .ok request → ∀ id ∈ request.references, id ∈ ids
  settled : ∀ id ∈ ids, world.Settles id.pkg
  refers : ∀ id ∈ ids, ∀ asker set, start.supplies setting ⟨id, asker⟩ = some (.ok set) →
    ∀ next ∈ set.references, next ∈ ids

variable {setting : Setting} {start world world' : World} {tasks : List Task} {t t' t₀ : Task}
  {errand : Errand} {id : SetId} {ids : List SetId}

theorem Follows.mono (h : t.Follows setting start world id) (hknows : ∀ id, t.Knows id → t'.Knows id)
    (hsettles : ∀ q, world.Settles q → world'.Settles q) : t'.Follows setting start world' id :=
  ⟨hsettles _ h.settled, fun asker set hset next hnext => hknows next (h.refers asker set hset next hnext)⟩

namespace Explores

/-- A task that has yet to read its declaration knows nothing. -/
theorem of_fresh (ht : t ∈ tasks) (hfresh : t = { index := t.index, pkg := t.pkg, decl := t.decl }) :
    t.Explores setting start tasks world := by
  have hmet : t.met = [] := by rw [hfresh]
  have hqueue : t.queue = [] := by rw [hfresh]
  have hstage : t.stage = .opening := by rw [hfresh]
  refine ⟨⟨t, ht, rfl, rfl, rfl⟩, ?_, fun _ => ⟨hmet, hqueue⟩, fun hs => absurd hstage hs,
    fun _ _ hs => (by cases hstage.symm.trans hs), ?_, fun _ hs => (by cases hstage.symm.trans hs)⟩
  · rintro id (hid | ⟨errand, herrand, -⟩)
    · rw [hmet] at hid
      cases hid
    · rw [hqueue] at herrand
      cases herrand
  · intro id hid
    rw [hmet] at hid
    cases hid

/-- Nobody else disturbs a task. -/
theorem mono (h : t.Explores setting start tasks world)
    (hsettles : ∀ q, world.Settles q → world'.Settles q) : t.Explores setting start tasks world' :=
  { h with
    fetching := fun errand lookup hstage => (h.fetching errand lookup hstage).imp_right
      fun hlooked result hdone => hsettles _ (hlooked result hdone)
    followed := fun id hid => (h.followed id hid).imp_right fun hf => hf.mono (fun _ hk => hk) hsettles }

/-- A task that is collecting has followed up all that it has met. -/
theorem follows (h : t.Explores setting start tasks world) (hstage : t.stage = .collecting)
    (hid : id ∈ t.met) : t.Follows setting start world id := by
  refine (h.followed id hid).resolve_left ?_
  rintro ⟨errand, lookup, hs, -⟩
  cases hstage.symm.trans hs

/-- A task that has read its declaration goes on exploring as long as it forgets nothing. -/
theorem become (h : t.Explores setting start tasks world) (hstems : t'.Stems t)
    (hopened : t.stage ≠ .opening) (hopened' : t'.stage ≠ .opening)
    (hknows : ∀ id, t.Knows id → t'.Knows id)
    (htouched : ∀ id, t'.Knows id → t.Knows id ∨ start.Touched setting tasks id)
    (hfetching : ∀ errand lookup, t'.stage = .fetching errand lookup →
      errand.id ∈ t'.met ∧ ∀ result, lookup = .done result → world.Settles errand.id.pkg)
    (hfollowed : ∀ id ∈ t'.met, t'.Fetches id ∨ t.Follows setting start world id ∨
      t'.Follows setting start world id)
    (hclosed : ∀ result, t'.stage = .closed result → t'.queue = []) :
    t'.Explores setting start tasks world := by
  obtain ⟨t₀, ht₀, hstems₀⟩ := h.stems
  refine ⟨⟨t₀, ht₀, hstems.trans hstems₀⟩, ?_, fun hs => absurd hs hopened', ?_, hfetching, ?_, hclosed⟩
  · exact fun id hid => (htouched id hid).elim (h.touched id) fun hreached => hreached
  · intro _ request hrequest id hid
    rw [hstems.pkg, hstems.decl] at hrequest
    exact hknows id (h.asked hopened request hrequest id hid)
  · intro id hid
    rcases hfollowed id hid with hf | hf | hf
    · exact Or.inl hf
    · exact Or.inr (hf.mono hknows fun _ hq => hq)
    · exact Or.inr hf

/-- The task reads its declaration. -/
theorem «open» (h : t.Explores setting start tasks world) (hstage : t.stage = .opening) :
    t.open.Explores setting start tasks world := by
  obtain ⟨hmet, hqueue⟩ := h.fresh hstage
  obtain ⟨t₀, ht₀, hstems⟩ := h.stems
  have hstems' : ∃ t₀ ∈ tasks, t.open.Stems t₀ := ⟨t₀, ht₀, t.stems_open.1.trans hstems⟩
  -- the task has not met anything as yet
  have hnone : ∀ id, id ∉ t.met := by
    rw [hmet]
    exact fun _ => List.not_mem_nil
  rcases t.open_cases with ⟨f, hrequest, heq⟩ | ⟨request, hrequest, heq⟩ <;> rw [heq] at hstems' ⊢
  · refine ⟨hstems', h.touched, fun hs => (by cases hs), ?_, fun _ _ hs => (by cases hs),
      fun id hid => absurd hid (hnone id), fun _ _ => hqueue⟩
    intro _ request hok
    cases hrequest.symm.trans hok
  · refine ⟨hstems', ?_, fun hs => (by cases hs), ?_, fun _ _ hs => (by cases hs),
      fun id hid => absurd hid (hnone id), fun _ hs => (by cases hs)⟩
    · rintro id (hid | ⟨errand, herrand, rfl⟩)
      · exact absurd hid (hnone id)
      · obtain ⟨id, hid, rfl⟩ := List.mem_map.1 herrand
        rw [hstems.pkg, hstems.decl] at hrequest
        exact .asked ht₀ hrequest hid
    · intro _ request' hok id hid
      cases hrequest.symm.trans hok
      exact Or.inr ⟨_, List.mem_map_of_mem hid, rfl⟩

/-- The task takes the next set from its queue. -/
theorem takeNext (h : t.Explores setting start tasks world) (hstage : t.stage = .collecting) :
    (t.takeNext setting).Explores setting start tasks world := by
  have hopened : t.stage ≠ .opening := by
    rw [hstage]
    exact fun hs => by cases hs
  have hstems := (@stems_takeNext setting t hstage).1
  rcases t.takeNext_cases setting with ⟨hqueue, heq⟩ | ⟨errand, rest, hqueue, ⟨hmet, heq⟩ | ⟨-, heq⟩⟩ <;>
    rw [heq] at hstems ⊢
  · exact h.become hstems hopened (fun hs => (by cases hs)) (fun _ hid => hid) (fun _ => Or.inl)
      (fun _ _ hs => (by cases hs)) (fun _ hid => Or.inr (Or.inl (h.follows hstage hid)))
      fun _ _ => hqueue
  · -- what is dropped from the queue has been met
    have hknows : ∀ id, ({ t with queue := rest } : Task).Knows id ↔ t.Knows id := by
      intro id
      simp only [Knows, hqueue, List.mem_cons, or_and_right, exists_or, exists_eq_left, ← or_assoc]
      refine or_congr_left ⟨Or.inl, ?_⟩
      rintro (hid | rfl)
      · exact hid
      · exact hmet
    refine h.become hstems hopened hopened (fun id => (hknows id).2)
      (fun id hid => Or.inl ((hknows id).1 hid)) (fun _ _ hs => ?_)
      (fun _ hid => Or.inr (Or.inl (h.follows hstage hid))) (fun _ hs => ?_)
    · cases hstage.symm.trans hs
    · cases hstage.symm.trans hs
  · -- the set that was first in the queue has been met now
    have hknows : ∀ id, ({ t with
        queue := rest
        met := errand.id :: t.met
        stage := .fetching errand .start } : Task).Knows id ↔ t.Knows id := by
      intro id
      simp only [Knows, hqueue, List.mem_cons, or_and_right, exists_or, exists_eq_left, ← or_assoc,
        eq_comm (a := id)]
      exact or_congr_left or_comm
    refine h.become hstems hopened (fun hs => (by cases hs)) (fun id => (hknows id).2)
      (fun id hid => Or.inl ((hknows id).1 hid)) ?_ ?_ (fun _ hs => (by cases hs))
    · intro _ _ hs
      cases hs
      exact ⟨List.mem_cons_self, fun _ hdone => by cases hdone⟩
    · intro id hid
      rcases List.mem_cons.1 hid with rfl | hid
      · exact Or.inl ⟨errand, .start, rfl, rfl⟩
      · exact Or.inr (Or.inl (h.follows hstage hid))

/-- The lookup of the task goes on. -/
theorem looks (h : t.Explores setting start tasks world) {lookup lookup' : Lookup}
    (hstage : t.stage = .fetching errand lookup)
    (hdone : ∀ result, lookup' = .done result → world.Settles errand.id.pkg) :
    ({ t with stage := .fetching errand lookup' } : Task).Explores setting start tasks world := by
  refine h.become ⟨rfl, rfl, rfl⟩ (by rw [hstage]; exact fun hs => by cases hs) (fun hs => (by cases hs))
    (fun _ hid => hid) (fun _ => Or.inl) ?_ ?_ (fun _ hs => (by cases hs))
  · intro _ _ hs
    cases hs
    exact ⟨(h.fetching errand lookup hstage).1, hdone⟩
  · intro id hid
    rcases h.followed id hid with ⟨errand', lookup'', hs, rfl⟩ | hf
    · cases hstage.symm.trans hs
      exact Or.inl ⟨errand, lookup', rfl, rfl⟩
    · exact Or.inr (Or.inl hf)

/-- The task gets what there is to be had. -/
theorem receive (h : t.Explores setting start tasks world) {result : Except Failure Package}
    {answer : Except Failure ProviderSet} (hstage : t.stage = .fetching errand (.done result))
    (hanswer : start.supplies setting errand = some answer) (hplain : Plain answer) :
    (t.receive answer).Explores setting start tasks world := by
  have hopened : t.stage ≠ .opening := by
    rw [hstage]
    exact fun hs => by cases hs
  obtain ⟨hmet, hlooked⟩ := h.fetching errand _ hstage
  have hstems := (t.stems_receive answer).1
  have hfollowed : ∀ id ∈ t.met, errand.id = id ∨ t.Follows setting start world id := by
    intro id hid
    refine (h.followed id hid).imp_left ?_
    rintro ⟨errand', lookup, hs, rfl⟩
    cases hstage.symm.trans hs
    rfl
  -- whoever had asked would have been answered alike
  have hsame : ∀ asker set, start.supplies setting ⟨errand.id, asker⟩ = some (.ok set) →
      answer = .ok set := fun _ _ hset =>
    Option.some.inj (hanswer.symm.trans (World.supplies_ok_congr hset errand.referencedFrom))
  rcases t.receive_cases answer with ⟨set, rfl, -⟩ | ⟨hcancelled, -⟩ | ⟨f, rfl, -, heq⟩
  · have hknows : ∀ id, (t.receive (.ok set)).Knows id ↔ t.Knows id ∨ id ∈ set.references := by
      intro id
      simp [Task.receive, Knows, or_and_right, exists_or, or_assoc]
    refine h.become hstems hopened (fun hs => (by cases hs)) (fun id hid => (hknows id).2 (Or.inl hid)) ?_
      (fun _ _ hs => (by cases hs)) ?_ (fun _ hs => (by cases hs))
    · intro id hid
      exact ((hknows id).1 hid).imp_right (.refers (h.touched errand.id (Or.inl hmet)) hanswer)
    · intro id hid
      rcases hfollowed id hid with rfl | hf
      · refine Or.inr (Or.inr ⟨hlooked result rfl, fun asker set' hset next hnext => ?_⟩)
        cases hsame asker set' hset
        exact (hknows next).2 (Or.inr hnext)
      · exact Or.inr (Or.inl hf)
  · exact absurd hcancelled hplain
  · rw [heq] at hstems ⊢
    refine h.become hstems hopened (fun hs => (by cases hs)) (fun _ hid => hid) (fun _ => Or.inl)
      (fun _ _ hs => (by cases hs)) ?_ (fun _ hs => (by cases hs))
    intro id hid
    refine Or.inr (Or.inl ((hfollowed id hid).elim ?_ fun hf => hf))
    rintro rfl
    refine ⟨hlooked result rfl, fun asker set hset => ?_⟩
    cases hsame asker set hset

/-- **A task that has its result has explored everything.** -/
theorem explored (h : t.Explores setting start tasks world) {result : TaskResult}
    (hr : t.result? = some result) (hstems : t.Stems t₀) : t₀.Explored setting start world t.met := by
  have hstage := result?_eq_some_iff.1 hr
  have hqueue := h.closed result hstage
  -- with an empty queue all that the task knows it has met
  have hmet : ∀ id, t.Knows id → id ∈ t.met := by
    rintro id (hid | ⟨errand, herrand, -⟩)
    · exact hid
    · rw [hqueue] at herrand
      cases herrand
  have hfollows : ∀ id ∈ t.met, t.Follows setting start world id := by
    intro id hid
    refine (h.followed id hid).resolve_left ?_
    rintro ⟨errand, lookup, hs, -⟩
    cases hstage.symm.trans hs
  refine ⟨?_, fun id hid => (hfollows id hid).settled, ?_⟩
  · intro request hrequest id hid
    rw [← hstems.pkg, ← hstems.decl] at hrequest
    exact hmet id (h.asked (by rw [hstage]; exact fun hs => by cases hs) request hrequest id hid)
  · intro id hid asker set hset next hnext
    exact hmet next ((hfollows id hid).refers asker set hset next hnext)

end Explores

theorem Explored.mono (h : t.Explored setting start world ids)
    (hsettles : ∀ q, world.Settles q → world'.Settles q) : t.Explored setting start world' ids :=
  ⟨h.asked, fun id hid => hsettles _ (h.settled id hid), h.refers⟩

/-! ### Small steps of tasks -/

/-- What is settled stays settled. -/
theorem Treads.settled (h : Treads setting (world, t) (world', t')) (hcalm : setting.site.loader.Calm)
    (hlive : world.cancelled = false) (hlazy : world.packages.isLazy = true) {q : String}
    (hq : world.Settles q) : world'.Settles q := by
  cases h with
  | looks _ h => exact (h.alters hcalm hlive hlazy).settled hq
  | reads => exact hq
  | takes => exact hq
  | @arrives _ _ errand result =>
      obtain ⟨sets, hworld⟩ := arrive_world setting world t errand result
      rw [hworld]
      exact hq

/-- **A small step keeps a task exploring.** -/
theorem Treads.explores {served : LoadRequest → LoadOutcome} (h : Treads setting (world, t) (world', t'))
    (hcalm : setting.site.loader.Calm) (hlive : world.cancelled = false)
    (hlazy : world.packages.isLazy = true) (hw : world.Faithful (setting.serving served) start)
    (hfaithful : t.Faithful (setting.serving served) start tasks) (htask : t.Calm)
    (ht : t.Explores (setting.serving served) start tasks world) :
    t'.Explores (setting.serving served) start tasks world' := by
  have hsettled := fun q => h.settled (q := q) hcalm hlive hlazy
  cases h with
  | looks hstage h =>
      refine (ht.mono hsettled).looks hstage fun result hdone => ?_
      subst hdone
      exact (h.alters hcalm hlive hlazy).settles_path
  | reads hstage => exact ht.open hstage
  | takes hstage => exact ht.takeNext hstage
  | @arrives _ _ errand result hstage =>
      have hplain : result ≠ .error .cancelled := by
        rintro rfl
        exact htask.lookup errand hstage
      have hresult := (hfaithful.lookup errand _ hstage).resolve_right hplain
      have hsupplied : (arrive setting world t errand result).2.1 = t ∨ ∃ answer,
          start.supplies (setting.serving served) errand = some answer ∧
            (arrive setting world t errand result).2.1 = t.receive answer :=
        arrive_supplied t hw hresult
      refine Explores.mono ?_ hsettled
      rcases hsupplied with hsame | ⟨answer, hanswer, hreceived⟩
      · rw [hsame]
        exact ht
      · have hplain' : Plain answer := by
          rw [World.supplies, ← hresult] at hanswer
          cases result with
          | error f =>
              cases hanswer
              exact plain_error fun hf => hplain (by rw [hf])
          | ok pkg => exact plain_extractFrom hanswer
        rw [hreceived]
        exact ht.receive hstage hanswer hplain'

end Task

end Wiring
