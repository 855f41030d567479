/-
**Lookups in a run that nobody cancels.**

A lookup goes on in small steps: it finds its slot settled, or falls asleep over somebody else's marker,
or puts in a marker of its own, lets some time pass and settles the slot.  All that a lookup can do to
the cache is one of these five steps, and what holds of the cache throughout a run is read off from
them.

Main definitions:

* `Wiring.World.Stocked` — the cache says what the collection says, and every package that the run can
  reach is there or can be loaded;
* `Wiring.Lookup.Apt` — a lookup fits the cache;
* `Wiring.Lookup.Goes` — the small steps of a lookup;
* `Wiring.PackageCache.Fills` — slots are only ever filled;
* `Wiring.Lookup.rank` — how far a lookup is from its end.

Main results:

* `Wiring.Lookup.poll_goes` — a lookup that is polled sleeps on, or takes some small steps;
* `Wiring.Lookup.Goes.stocked`, `Wiring.Lookup.Goes.fills`, `Wiring.Lookup.Goes.owner`,
  `Wiring.Lookup.Goes.rank_lt` — what a small step does.
-/

import Mathlib.Data.Prod.Lex
import Mathlib.Logic.Relation
import Wiring.Proofs.Run.Collection

set_option autoImplicit false

namespace Wiring

/-! ### The cache and the collection -/

/-- The slot of a package that has been looked for. -/
def PackageSlot.holding : Except Failure Package → PackageSlot
  | .ok pkg => .ready pkg
  | .error failure => .failed failure

theorem PackageSlot.holding_ne_pending (result : Except Failure Package) (marker : Marker) :
    PackageSlot.holding result ≠ .pending marker := by
  cases result <;> exact fun h => by cases h

theorem PackageSlot.holding_injective : Function.Injective holding := by
  intro a b h
  cases a with
  | ok p => cases b with
    | ok q => exact congrArg Except.ok (ready.inj h)
    | error f => cases h
  | error f => cases b with
    | ok q => cases h
    | error g => exact congrArg Except.error (failed.inj h)

/-- The slot of a path holds what the collection says about it. -/
def PackageCache.Holds (c : Collection) (cache : PackageCache) (path : String) : Prop :=
  cache.slots.get? path = some (.holding (c.answer path))

/-- The world of a run that nobody cancels.  Every slot holds what the collection says or a marker, every
package that the run can reach has a slot or can be loaded, and the kept sets are sound. -/
structure World.Stocked (c : Collection) (roots : List Package) (world : World) : Prop where
  live : world.cancelled = false
  slots : ∀ path slot, world.packages.slots.get? path = some slot →
    slot = .holding (c.answer path) ∨ ∃ marker, slot = .pending marker
  reach : ∀ path, c.Within roots path → (∃ slot, world.packages.slots.get? path = some slot) ∨
    world.packages.isLazy = true ∧ c.Imported path
  sets : world.sets.Sound fun p _ => c.answer p.path = .ok p

/-- Slots are only ever filled: what they hold stays, and so does a marker until its slot is settled. -/
structure PackageCache.Fills (c : Collection) (before after : PackageCache) : Prop where
  held : ∀ path, before.Holds c path → after.Holds c path
  marked : ∀ path marker, before.isPending path marker →
    after.isPending path marker ∨ after.Holds c path

namespace PackageCache

variable {c : Collection} {cache after : PackageCache} {path : String} {marker : Marker}

theorem isPending_iff :
    cache.isPending path marker ↔ cache.slots.get? path = some (.pending marker) := by
  simp [isPending]

theorem not_isPending_of_holds (h : cache.Holds c path) : cache.isPending path marker = false := by
  rw [Bool.eq_false_iff, Ne, isPending_iff, h, Option.some.injEq]
  exact PackageSlot.holding_ne_pending _ _

theorem claim_of_holds (h : cache.Holds c path) :
    cache.claim path = (cache, .settled (c.answer path)) := by
  unfold claim
  rw [h]
  cases c.answer path <;> rfl

theorem Fills.refl (cache : PackageCache) : cache.Fills c cache :=
  ⟨fun _ h => h, fun _ _ h => Or.inl h⟩

/-- An empty slot is filled with anything. -/
theorem fills_of_empty {slot : PackageSlot} (h : cache.slots.get? path = none)
    (hafter : after.slots = cache.slots.put path slot) : cache.Fills c after := by
  constructor
  · intro q hq
    have hne : q ≠ path := fun heq => by rw [heq, Holds, h] at hq; cases hq
    rw [Holds, hafter, Table.get?_put, if_neg hne]
    exact hq
  · intro q m hq
    rw [isPending_iff] at hq ⊢
    have hne : q ≠ path := fun heq => by rw [heq, h] at hq; cases hq
    rw [hafter, Table.get?_put, if_neg hne]
    exact Or.inl hq

theorem holds_settle : (cache.settle path (.holding (c.answer path))).Holds c path := by
  simp [Holds, settle, Table.get?_put]

theorem fills_settle : cache.Fills c (cache.settle path (.holding (c.answer path))) := by
  constructor
  · intro q hq
    by_cases hpath : q = path
    · exact hpath ▸ holds_settle
    · rw [Holds, settle, Table.get?_put, if_neg hpath]
      exact hq
  · intro q m hq
    by_cases hpath : q = path
    · exact Or.inr (hpath ▸ holds_settle)
    · rw [isPending_iff, settle, Table.get?_put, if_neg hpath]
      exact Or.inl (isPending_iff.1 hq)

/-- The cache after a caller has been granted a slot and begun to load. -/
def granted (cache : PackageCache) (path : String) : PackageCache :=
  { cache with
    slots := cache.slots.put path (.pending cache.nextMarker)
    nextMarker := cache.nextMarker + 1
    loads := cache.loads + 1 }

/-- A marker in the cache after a slot has been granted is the new one, or it was there before. -/
theorem isPending_of_granted {q : String} (h : (cache.granted path).isPending q marker) :
    (q = path ∧ marker = cache.nextMarker) ∨ (q ≠ path ∧ cache.isPending q marker) := by
  rw [isPending_iff, granted, Table.get?_put] at h
  split at h
  next hpath => exact .inl ⟨hpath, by simpa using h.symm⟩
  next hpath => exact .inr ⟨hpath, isPending_iff.2 h⟩

/-- A marker in the cache after a slot has been settled was there before, in another slot. -/
theorem isPending_of_settle {q : String} {result : Except Failure Package}
    (h : (cache.settle path (.holding result)).isPending q marker) :
    q ≠ path ∧ cache.isPending q marker := by
  rw [isPending_iff, settle, Table.get?_put] at h
  split at h
  next => exact absurd (Option.some.inj h) (PackageSlot.holding_ne_pending _ _)
  next hpath => exact ⟨hpath, isPending_iff.2 h⟩

end PackageCache

namespace Lookup

/-! ### Small steps -/

/-- A lookup fits the cache: one that sleeps has a marker before it or a settled slot, one that loads has
a path that can be loaded, and a result is what the collection says. -/
def Apt (c : Collection) (world : World) (path : String) : Lookup → Prop
  | .start => True
  | .asleep marker => world.packages.isPending path marker ∨ world.packages.Holds c path
  | .loading _ _ => c.Imported path
  | .done result => result = c.answer path

/-- The small steps of a lookup in a run that nobody cancels. -/
inductive Goes (c : Collection) (path : String) : World × Lookup → World × Lookup → Prop
  /-- The slot is settled. -/
  | finds {world : World} {lookup : Lookup} (h : world.packages.Holds c path)
      (hl : lookup = .start ∨ ∃ marker, lookup = .asleep marker) :
      Goes c path (world, lookup) (world, .done (c.answer path))
  /-- Somebody else is loading the package. -/
  | sleeps {world : World} {marker : Marker} (h : world.packages.isPending path marker) :
      Goes c path (world, .start) (world, .asleep marker)
  /-- The slot is empty, and the lookup takes it. -/
  | begins {world : World} {pauses : Nat} (h : world.packages.slots.get? path = none)
      (hpath : c.Imported path) :
      Goes c path (world, .start)
        (world.withPackages (world.packages.granted path),
          .loading world.packages.nextMarker pauses)
  | pauses {world : World} {marker : Marker} {pauses : Nat} :
      Goes c path (world, .loading marker (pauses + 1)) (world, .loading marker pauses)
  /-- The loader answers, and the slot is settled. -/
  | ends {world : World} {marker : Marker} {calls : List LoadCall} :
      Goes c path (world, .loading marker 0)
        ({ world with
            packages := world.packages.settle path (.holding (c.answer path)), calls },
          .done (c.answer path))

/-- How far a lookup is from its end. -/
def rank : Lookup → ℕ ×ₗ ℕ
  | .start => toLex (3, 0)
  | .asleep _ => toLex (2, 0)
  | .loading _ pauses => toLex (2, pauses)
  | .done _ => toLex (1, 0)

variable {c : Collection} {site : LoadSite} {roots : List Package} {path : String}
  {world world' : World} {lookup lookup' : Lookup}

/-! ### What a small step does -/

theorem Goes.rank_lt (h : Goes c path (world, lookup) (world', lookup')) :
    lookup'.rank < lookup.rank := by
  cases h with
  | finds _ hl =>
      rcases hl with rfl | ⟨marker, rfl⟩
      · exact Prod.Lex.toLex_lt_toLex.2 (Or.inl (by decide))
      · exact Prod.Lex.toLex_lt_toLex.2 (Or.inl (by decide))
  | sleeps => exact Prod.Lex.toLex_lt_toLex.2 (Or.inl (by decide))
  | begins => exact Prod.Lex.toLex_lt_toLex.2 (Or.inl (Nat.lt_succ_self 2))
  | pauses => exact Prod.Lex.toLex_lt_toLex.2 (Or.inr ⟨rfl, Nat.lt_succ_self _⟩)
  | ends => exact Prod.Lex.toLex_lt_toLex.2 (Or.inl (by decide))

theorem Goes.fills (h : Goes c path (world, lookup) (world', lookup')) :
    world.packages.Fills c world'.packages := by
  cases h with
  | finds => exact PackageCache.Fills.refl _
  | sleeps => exact PackageCache.Fills.refl _
  | begins h => exact PackageCache.fills_of_empty h rfl
  | pauses => exact PackageCache.Fills.refl _
  | ends => exact PackageCache.fills_settle

/-- No other lookup is disturbed. -/
theorem Apt.of_fills {q : String} {l : Lookup} (h : l.Apt c world q)
    (hfills : world.packages.Fills c world'.packages) : l.Apt c world' q := by
  cases l with
  | start => trivial
  | asleep marker =>
      rcases h with h | h
      · exact hfills.marked q marker h
      · exact Or.inr (hfills.held q h)
  | loading => exact h
  | done => exact h

theorem Goes.apt (h : Goes c path (world, lookup) (world', lookup'))
    (hl : lookup.Apt c world path) : lookup'.Apt c world' path := by
  cases h with
  | finds => rfl
  | sleeps h => exact Or.inl h
  | begins _ hpath => exact hpath
  | pauses => exact hl
  | ends => rfl

theorem Goes.stocked (h : Goes c path (world, lookup) (world', lookup'))
    (hw : world.Stocked c roots) : world'.Stocked c roots := by
  -- a slot that has been written holds what the collection says or a marker
  have hput : ∀ {slots : Table String PackageSlot} {slot : PackageSlot},
      slots = world.packages.slots.put path slot →
      (slot = .holding (c.answer path) ∨ ∃ marker, slot = .pending marker) →
      (∀ q s, slots.get? q = some s → s = .holding (c.answer q) ∨ ∃ marker, s = .pending marker) ∧
      (∀ q, (∃ s, world.packages.slots.get? q = some s) → ∃ s, slots.get? q = some s) := by
    rintro _ slot rfl hslot
    constructor
    · intro q s hs
      rw [Table.get?_put] at hs
      by_cases hq : q = path
      · rw [if_pos hq, Option.some.injEq] at hs
        rw [← hs, hq]
        exact hslot
      · rw [if_neg hq] at hs
        exact hw.slots q s hs
    · intro q hq
      rw [Table.get?_put]
      by_cases hpath : q = path
      · exact ⟨slot, if_pos hpath⟩
      · rwa [if_neg hpath]
  cases h with
  | finds => exact hw
  | sleeps => exact hw
  | begins =>
      obtain ⟨hslots, hreach⟩ := hput rfl (Or.inr ⟨_, rfl⟩)
      exact ⟨hw.live, hslots, fun q hq => (hw.reach q hq).imp_left (hreach q), hw.sets⟩
  | pauses => exact hw
  | ends =>
      obtain ⟨hslots, hreach⟩ := hput rfl (Or.inl rfl)
      exact ⟨hw.live, hslots, fun q hq => (hw.reach q hq).imp_left (hreach q), hw.sets⟩

/-- A marker that is there after a small step is the lookup's own, or it was there before and was not the
lookup's own. -/
theorem Goes.owner (h : Goes c path (world, lookup) (world', lookup')) {q : String} {marker : Marker}
    (hq : world'.packages.isPending q marker) :
    (q = path ∧ ∃ pauses, lookup' = .loading marker pauses) ∨
      world.packages.isPending q marker ∧
        (q = path → ∀ pauses, lookup ≠ .loading marker pauses) := by
  cases h with
  | finds _ hl =>
      refine Or.inr ⟨hq, ?_⟩
      rintro - pauses rfl
      rcases hl with hl | ⟨_, hl⟩ <;> cases hl
  | sleeps => exact Or.inr ⟨hq, fun _ _ hl => by cases hl⟩
  | begins =>
      -- the new marker is in the lookup's own slot, and no other slot has changed
      rcases PackageCache.isPending_of_granted hq with ⟨hpath, rfl⟩ | ⟨hpath, hq⟩
      · exact Or.inl ⟨hpath, _, rfl⟩
      · exact Or.inr ⟨hq, fun heq => absurd heq hpath⟩
  | @pauses _ own =>
      by_cases hown : q = path ∧ marker = own
      · exact Or.inl ⟨hown.1, _, by rw [hown.2]⟩
      · refine Or.inr ⟨hq, ?_⟩
        rintro hpath pauses hl
        cases hl
        exact hown ⟨hpath, rfl⟩
  | ends =>
      obtain ⟨hpath, hq⟩ := PackageCache.isPending_of_settle hq
      exact Or.inr ⟨hq, fun heq => absurd heq hpath⟩

/-! ### Polling -/

/-- The end of a load of an imported path. -/
theorem endLoad_eq (hs : c.ServedAt site) (hlive : world.cancelled = false)
    (hpath : c.Imported path) (marker : Marker) :
    ∃ calls, endLoad site world path marker =
      ({ world with packages := world.packages.settle path (.holding (c.answer path)), calls },
        .done (c.answer path)) := by
  have hlasting : (site.loader.answer (site.requestFor path) false).2 = false :=
    hs.lasting _ ⟨rfl, rfl⟩
  have hverdict := hs.verdict_eq hpath
  refine ⟨world.calls ++ [⟨site.requestFor path, false⟩], ?_⟩
  obtain ⟨packages, sets, cancelled, calls⟩ := world
  subst hlive
  simp only [endLoad, World.call, hlasting, hverdict]
  cases c.answer path <;> rfl

/-- A load that has come to the end of its pauses, or has not. -/
theorem proceed_goes (hs : c.ServedAt site) (hlive : world.cancelled = false)
    (hpath : c.Imported path) (marker : Marker) (pauses : Nat) :
    Goes c path (world, .loading marker pauses)
      (proceed site world path (.loading marker pauses)) := by
  cases pauses with
  | zero =>
      obtain ⟨calls, heq⟩ := endLoad_eq hs hlive hpath marker
      rw [proceed, heq]
      exact .ends
  | succ pauses => exact .pauses

/-- **A lookup that is polled sleeps on, or takes some small steps.** -/
theorem poll_goes (hs : c.ServedAt site) (hw : world.Stocked c roots)
    (hwithin : c.Within roots path) (hl : lookup.Apt c world path) (hopen : ∀ r, lookup ≠ .done r) :
    (∃ marker, lookup = .asleep marker ∧ world.packages.isPending path marker ∧
        poll site world path lookup = (world, lookup)) ∨
      Relation.TransGen (Goes c path) (world, lookup) (poll site world path lookup) := by
  have hfound : ∀ l, (l = .start ∨ ∃ marker, l = .asleep marker) → l.wake world path = .start →
      world.packages.Holds c path →
      Relation.TransGen (Goes c path) (world, l) (poll site world path l) := by
    intro l hl hwake hholds
    have heq : poll site world path l = (world, .done (c.answer path)) := by
      simp [poll, hwake, enter, PackageCache.claim_of_holds hholds, proceed]
    rw [heq]
    exact .single (.finds hholds hl)
  cases lookup with
  | start =>
      right
      cases hslot : world.packages.slots.get? path with
      | some slot =>
          rcases hw.slots path slot hslot with rfl | ⟨marker, rfl⟩
          · exact hfound _ (Or.inl rfl) rfl hslot
          · have heq : poll site world path .start = (world, .asleep marker) := by
              simp [poll, wake, enter, PackageCache.claim, hslot, proceed]
            rw [heq]
            exact .single (.sleeps (PackageCache.isPending_iff.2 hslot))
      | none =>
          obtain ⟨hlazy, himported⟩ := (hw.reach path hwithin).resolve_left (by simp [hslot])
          have heq : poll site world path .start =
              proceed site (world.withPackages (world.packages.granted path)) path
                (.loading world.packages.nextMarker site.loader.pauses) := by
            simp [poll, wake, enter, PackageCache.claim, hslot, hlazy, beginLoad, World.withPackages,
              hw.live, PackageCache.countLoad, PackageCache.granted]
          have hlive : (world.withPackages (world.packages.granted path)).cancelled = false := hw.live
          rw [heq]
          exact .tail (.single (.begins hslot himported)) (proceed_goes hs hlive himported _ _)
  | asleep marker =>
      by_cases hpending : world.packages.isPending path marker
      · left
        exact ⟨marker, rfl, hpending, by simp [poll, wake, hpending, enter, proceed]⟩
      · right
        exact hfound _ (Or.inr ⟨marker, rfl⟩) (by simp [wake, hpending]) (hl.resolve_left hpending)
  | loading marker pauses => exact Or.inr (.single (proceed_goes hs hw.live hl marker pauses))
  | done r => exact absurd rfl (hopen r)

end Lookup

end Wiring
