/-
**What a run would have come to.**

A run that is cancelled comes to less than it would have come to otherwise, but to nothing else.  For every
package it is known from the start of a run what a lookup of it finds, unless the lookup is cancelled, and so
is what there is to be had of its sets; so it is known what a task comes to.  A run that is cancelled half
way has kept to that.

Main definitions:

* `Wiring.Loader.Serves` — a loader answers what there is to answer, as long as it does not cancel the run;
* `Wiring.World.foretold`, `Wiring.World.supplies` — what a lookup and what a task finds;
* `Wiring.Task.Due` — what a task comes to;
* `Wiring.World.Faithful`, `Wiring.Crew.Faithful` — a run has kept to what is known from its start.

Main results:

* `Wiring.Task.Due.unique` — a task comes to one result;
* `Wiring.SetCache.getOrExtract_again` — asking a cache of sets does not change what it answers;
* `Wiring.Moves.faithful` — **every run keeps to what is known from its start**.
-/

import Wiring.Proofs.Run.Tallies

set_option autoImplicit false

namespace Wiring

/-! ### Loaders -/

/-- The package at a path in what a loader has answered. -/
def LoadOutcome.packageAt (o : LoadOutcome) (path : String) : Option Package :=
  o.packages.find? fun p => p.path = path

/-- A loader answers what there is to answer, or it cancels the run.  Then it may leave anything out, and
give any errors, but the packages that it has are the same. -/
structure Loader.Serves (loader : Loader) (served : LoadRequest → LoadOutcome) : Prop where
  whole : ∀ request cancelled, (loader.answer request cancelled).2 = false →
    cancelled = false ∧ (loader.answer request cancelled).1 = served request
  part : ∀ request cancelled path pkg,
    (loader.answer request cancelled).1.packageAt path = some pkg →
      (served request).packageAt path = some pkg

/-- The loader that always answers and cancels no run. -/
def Loader.plain (served : LoadRequest → LoadOutcome) : Loader where
  answer request cancelled := (served request, cancelled)

theorem Loader.plain_serves (served : LoadRequest → LoadOutcome) : (plain served).Serves served :=
  ⟨fun _ _ h => ⟨h, rfl⟩, fun _ _ _ _ h => h⟩

/-- The site with such a loader in the place of its own. -/
def LoadSite.serving (site : LoadSite) (served : LoadRequest → LoadOutcome) : LoadSite :=
  { site with loader := .plain served }

/-- The setting with such a loader in the place of its own. -/
def Setting.serving (setting : Setting) (served : LoadRequest → LoadOutcome) : Setting :=
  { setting with site := setting.site.serving served }

/-! ### Lookups -/

/-- What a verdict says to the caller that looks a package up. -/
def LoadVerdict.result : LoadVerdict → Except Failure Package
  | .found pkg => .ok pkg
  | .cancelled => .error .cancelled
  | .failed failure => .error failure

theorem LoadVerdict.result_of (result : Except Failure Package) :
    (LoadVerdict.of result).result = result := by
  cases result <;> rfl

theorem LoadVerdict.result_eq_ok_iff {v : LoadVerdict} {pkg : Package} :
    v.result = .ok pkg ↔ v = .found pkg := by
  cases v <;> simp [result]

namespace World

/-- What the lookup of a package comes to unless it is cancelled. -/
def foretold (start : World) (site : LoadSite) (path : String) : Except Failure Package :=
  match start.packages.slots.get? path with
  | some (.ready pkg) => .ok pkg
  | some (.failed failure) => .error failure
  | _ =>
    if start.packages.isLazy then
      (PackageCache.verdict path (site.loader.answer (site.requestFor path) false).1 false).result
    else .error (.packageNotFound path)

/-- The slot of a package has nothing to say at the start. -/
def Leaves (start : World) (path : String) : Prop :=
  ∀ result, start.packages.slots.get? path ≠ some (.holding result)

/-- The packages that a world starts with are in the slots of their paths. -/
def Addressed (start : World) : Prop :=
  ∀ path pkg, start.packages.slots.get? path = some (.ready pkg) → pkg.path = path

variable {start : World} {site : LoadSite} {path : String}

theorem foretold_of_holding {result : Except Failure Package}
    (h : start.packages.slots.get? path = some (.holding result)) :
    start.foretold site path = result := by
  unfold foretold
  rw [h]
  cases result <;> rfl

theorem Leaves.foretold_eq (h : start.Leaves path) : start.foretold site path =
    if start.packages.isLazy then
      (PackageCache.verdict path (site.loader.answer (site.requestFor path) false).1 false).result
    else .error (.packageNotFound path) := by
  unfold foretold
  split
  next pkg hslot => exact absurd hslot (h (.ok pkg))
  next failure hslot => exact absurd hslot (h (.error failure))
  · rfl

theorem Addressed.path_eq {pkg : Package} (h : start.Addressed)
    (hpkg : start.foretold site path = .ok pkg) : pkg.path = path := by
  unfold foretold at hpkg
  split at hpkg
  next found hslot =>
    cases hpkg
    exact h path _ hslot
  · cases hpkg
  · split at hpkg
    · exact PackageCache.path_of_verdict (LoadVerdict.result_eq_ok_iff.1 hpkg)
    · cases hpkg

end World

/-! ### Sets -/

/-- What a caller is told that finds this in the slot of a set.  There is no answer while somebody else is
extracting it. -/
def SetSlot.tells (slot : Option SetSlot) (content : String)
    (extracted : Except Failure ProviderSet) : Option (Except Failure ProviderSet) :=
  match slot with
  | some (.ready kept) =>
    if kept.fingerprint.content = content then some (.ok kept.set) else some extracted
  | some (.pending _) => none
  | none => some extracted

namespace SetCache

variable {cache : SetCache} {key other : SetId} {fingerprint : Fingerprint}
  {extracted : Except Failure ProviderSet}

/-- The caches that asking for a set may leave: one with the same slots, or one in which the set has just been
extracted. -/
theorem getOrExtract_cases :
    (∃ after, after.slots = cache.slots ∧ cache.getOrExtract key fingerprint extracted =
      (after, SetSlot.tells (cache.slots.get? key) fingerprint.content extracted)) ∨
    (∀ answer, SetSlot.tells (cache.slots.get? key) fingerprint.content answer = some answer) ∧
      cache.getOrExtract key fingerprint extracted =
        ((cache.grant key).1.settle key cache.nextMarker fingerprint extracted, some extracted) := by
  unfold getOrExtract SetSlot.tells
  rcases cache.claim_cases key fingerprint.content with
    ⟨kept, hslot, hfits, heq⟩ | ⟨marker, hslot, heq⟩ | ⟨hstale, heq⟩ <;> rw [heq]
  · rw [hslot]
    exact Or.inl ⟨cache.countHit, rfl, by simp only [if_pos hfits]⟩
  · rw [hslot]
    exact Or.inl ⟨cache, rfl, rfl⟩
  · refine Or.inr ⟨fun answer => ?_, rfl⟩
    cases hslot : cache.slots.get? key with
    | none => rfl
    | some slot =>
        obtain ⟨kept, rfl, hother⟩ := hstale slot hslot
        exact if_neg hother

theorem getOrExtract_snd : (cache.getOrExtract key fingerprint extracted).2 =
    SetSlot.tells (cache.slots.get? key) fingerprint.content extracted := by
  rcases cache.getOrExtract_cases with ⟨after, -, heq⟩ | ⟨htells, heq⟩
  · rw [heq]
  · rw [heq, htells]

/-- What an extraction leaves in the slots. -/
theorem get?_grant_settle : ((cache.grant key).1.settle key cache.nextMarker fingerprint
    extracted).slots.get? other =
      if other = key then
        match extracted with
        | .ok set => some (.ready ⟨set, fingerprint⟩)
        | .error _ => none
      else cache.slots.get? other := by
  cases extracted with
  | ok set =>
      simp only [settle, store, grant, Table.get?_put]
      split <;> rfl
  | error f =>
      rw [settle, abandon, if_pos (cache.isPending_grant key), Table.get?_erase, get?_grant]
      split <;> rfl

/-- **Asking a cache of sets does not change what it answers**, provided that there is one package for every
path. -/
theorem getOrExtract_again {p q : Package} {disk : Disk} (h : p.path = q.path → p = q)
    (name asker name' asker' : String) :
    ((cache.getOrExtract ⟨p.path, name⟩ (p.fingerprint disk) (p.extractSet name asker)).1.getOrExtract
        ⟨q.path, name'⟩ (q.fingerprint disk) (q.extractSet name' asker')).2 =
      (cache.getOrExtract ⟨q.path, name'⟩ (q.fingerprint disk) (q.extractSet name' asker')).2 := by
  rw [getOrExtract_snd, getOrExtract_snd]
  rcases cache.getOrExtract_cases with ⟨after, hslots, heq⟩ | ⟨hfresh, heq⟩
  · rw [heq, hslots]
  · rw [heq, get?_grant_settle]
    split
    next hkey =>
      obtain ⟨hpath, rfl⟩ := SetId.mk.inj hkey
      obtain rfl := h hpath.symm
      -- there was nothing to be used, so whoever asked would have extracted the set
      rw [hfresh]
      cases hset : p.extractSet name' asker with
      | ok set => simp [SetSlot.tells, p.extractSet_ok_congr hset asker']
      | error f => rfl
    · rfl

end SetCache

namespace Task

variable {setting : Setting} {world world' : World} {errand other : Errand} {pkg q : Package}

/-- What is answered to an errand depends on nothing but the kept sets. -/
theorem extractFrom_snd : (extractFrom setting world errand pkg).2 =
    if pkg.isValid then
      if setting.keepSets then
        (world.sets.getOrExtract ⟨pkg.path, errand.id.name⟩ (pkg.fingerprint setting.disk)
          (pkg.extractSet errand.id.name errand.referencedFrom)).2
      else some (pkg.extractSet errand.id.name errand.referencedFrom)
    else some (.error (.loadFailure pkg.path pkg.faultText)) := by
  rcases extractFrom_cases setting world errand pkg with
    ⟨hvalid, heq⟩ | ⟨hvalid, ⟨hkeep, heq⟩ | ⟨sets, answer, hkeep, hkept, heq⟩⟩ <;> rw [heq, hvalid]
  · rfl
  · rw [hkeep]
    rfl
  · rw [hkeep, hkept]
    rfl

/-- **An errand does not change what is answered to others.** -/
theorem extractFrom_again (h : pkg.path = q.path → pkg = q) :
    (extractFrom setting (extractFrom setting world errand pkg).1 other q).2 =
      (extractFrom setting world other q).2 := by
  rw [extractFrom_snd, extractFrom_snd]
  rcases extractFrom_cases setting world errand pkg with
    ⟨-, heq⟩ | ⟨-, ⟨-, heq⟩ | ⟨sets, answer, -, hkept, heq⟩⟩ <;> rw [heq]
  obtain rfl := congrArg Prod.fst hkept
  dsimp only
  rw [SetCache.getOrExtract_again h]

end Task

/-- What there is to answer to an errand.  There is none if a slot is never freed. -/
def World.supplies (start : World) (setting : Setting) (errand : Errand) :
    Option (Except Failure ProviderSet) :=
  match start.foretold setting.site errand.id.pkg with
  | .error f => some (.error f)
  | .ok pkg => (Task.extractFrom setting start errand pkg).2

/-! ### Worlds -/

/-- A run has kept to what is known from its start: no slot of a package holds anything else than foretold,
and the sets are answered as they were. -/
structure World.Faithful (setting : Setting) (world start : World) : Prop where
  isLazy : world.packages.isLazy = start.packages.isLazy
  kept : ∀ path result, start.packages.slots.get? path = some (.holding result) →
    world.packages.slots.get? path = some (.holding result)
  held : ∀ path result, world.packages.slots.get? path = some (.holding result) →
    result = start.foretold setting.site path
  sets : ∀ errand pkg, start.foretold setting.site errand.id.pkg = .ok pkg →
    (Task.extractFrom setting world errand pkg).2 = (Task.extractFrom setting start errand pkg).2

theorem World.faithful_self (setting : Setting) (start : World) : start.Faithful setting start :=
  ⟨rfl, fun _ _ h => h, fun _ _ h => (foretold_of_holding h).symm, fun _ _ _ => rfl⟩

namespace World.Faithful

variable {setting : Setting} {start world : World} {path : String}

theorem leaves (h : world.Faithful setting start)
    (hslot : ∀ result, world.packages.slots.get? path ≠ some (.holding result)) :
    start.Leaves path :=
  fun result hstart => hslot result (h.kept path result hstart)

/-- Nothing but the two caches matters. -/
theorem congr (h : world.Faithful setting start) {changed : World}
    (hpackages : changed.packages = world.packages) (hsets : changed.sets = world.sets) :
    changed.Faithful setting start := by
  refine ⟨hpackages ▸ h.isLazy, hpackages ▸ h.kept, hpackages ▸ h.held, ?_⟩
  intro errand pkg hpkg
  rw [← h.sets errand pkg hpkg, Task.extractFrom_snd, Task.extractFrom_snd, hsets]

/-- A change of one slot that had nothing to say keeps to what is known, if it does. -/
theorem withSlot (h : world.Faithful setting start) {changed : World}
    (hlazy : changed.packages.isLazy = world.packages.isLazy) (hsets : changed.sets = world.sets)
    (hleaves : start.Leaves path)
    (hother : ∀ q, q ≠ path → changed.packages.slots.get? q = world.packages.slots.get? q)
    (hslot : ∀ result, changed.packages.slots.get? path = some (.holding result) →
      result = start.foretold setting.site path) : changed.Faithful setting start := by
  refine ⟨hlazy.trans h.isLazy, ?_, ?_, ?_⟩
  · intro q result hstart
    by_cases hq : q = path
    · exact absurd (hq ▸ hstart) (hleaves result)
    · rw [hother q hq]
      exact h.kept q result hstart
  · intro q result hchanged
    by_cases hq : q = path
    · subst hq
      exact hslot result hchanged
    · rw [hother q hq] at hchanged
      exact h.held q result hchanged
  · intro errand pkg hpkg
    rw [← h.sets errand pkg hpkg, Task.extractFrom_snd, Task.extractFrom_snd, hsets]

/-- So does an errand. -/
theorem extractFrom (h : world.Faithful setting start) (haddressed : start.Addressed)
    {errand : Errand} {pkg : Package}
    (hpkg : start.foretold setting.site errand.id.pkg = .ok pkg) :
    (Task.extractFrom setting world errand pkg).1.Faithful setting start := by
  obtain ⟨sets, hworld⟩ := Task.extractFrom_world setting world errand pkg
  refine ⟨hworld ▸ h.isLazy, hworld ▸ h.kept, hworld ▸ h.held, ?_⟩
  intro other q hq
  rw [← h.sets other q hq]
  refine Task.extractFrom_again ?_
  intro hpath
  -- two packages with the same path are the same, for there is one that is foretold
  rw [haddressed.path_eq hpkg, haddressed.path_eq hq] at hpath
  rw [hpath, hq] at hpkg
  exact (Except.ok.inj hpkg).symm

end World.Faithful

/-! ### Lookups that keep to it -/

theorem LoadVerdict.of_ne_cancelled (result : Except Failure Package) :
    LoadVerdict.of result ≠ .cancelled := by
  cases result <;> nofun

/-- What a load says that was not cut short is what there is to say. -/
theorem Loader.Serves.verdict {loader : Loader} {served : LoadRequest → LoadOutcome}
    (h : loader.Serves served) {request : LoadRequest} {cancelled : Bool} {path : String}
    {result : Except Failure Package}
    (hverdict : PackageCache.verdict path (loader.answer request cancelled).1
      (loader.answer request cancelled).2 = .of result) :
    PackageCache.verdict path (served request) false = .of result := by
  cases hfind : (loader.answer request cancelled).1.packageAt path with
  | some pkg =>
      have hserved := h.part request cancelled path pkg hfind
      rw [PackageCache.verdict_eq_found_iff.2 hfind] at hverdict
      rwa [PackageCache.verdict_eq_found_iff.2 hserved]
  | none =>
      cases hcut : (loader.answer request cancelled).2 with
      | false =>
          rw [(h.whole request cancelled hcut).2, hcut] at hverdict
          exact hverdict
      | true =>
          rw [hcut, PackageCache.verdict_cut_short hfind] at hverdict
          exact absurd hverdict.symm (LoadVerdict.of_ne_cancelled result)

namespace PackageCache

variable (cache : PackageCache) (path : String) (marker : Marker)

theorem isLazy_claim : (cache.claim path).1.isLazy = cache.isLazy := by
  unfold claim
  split
  · rfl
  · rfl
  · rfl
  · split <;> rfl

theorem isLazy_release : (cache.release path marker).isLazy = cache.isLazy := by
  unfold release
  split <;> rfl

end PackageCache

namespace Lookup

/-- A lookup comes to what is foretold, or it is cancelled. -/
def Faithful (setting : Setting) (start : World) (path : String) : Lookup → Prop
  | loading _ _ => start.Leaves path ∧ start.packages.isLazy = true
  | done result => result = start.foretold setting.site path ∨ result = .error .cancelled
  | _ => True

variable {setting : Setting} {served : LoadRequest → LoadOutcome} {start world world' : World}
  {path : String} {lookup lookup' : Lookup}

/-- **A small step of a lookup keeps to what is known.** -/
theorem Treads.faithful (h : Treads setting.site path (world, lookup) (world', lookup'))
    (hserves : setting.site.loader.Serves served)
    (hw : world.Faithful (setting.serving served) start)
    (hl : lookup.Faithful (setting.serving served) start path) :
    world'.Faithful (setting.serving served) start ∧
      lookup'.Faithful (setting.serving served) start path := by
  have hempty : world.packages.slots.get? path = none → start.Leaves path := by
    intro hslot
    refine hw.leaves ?_
    rw [hslot]
    nofun
  cases h with
  | wakes => exact ⟨hw, trivial⟩
  | finds hslot => exact ⟨hw, Or.inl (hw.held path _ hslot)⟩
  | lacks hslot heager =>
      refine ⟨hw, Or.inl ?_⟩
      rw [(hempty hslot).foretold_eq, ← hw.isLazy, heager]
      rfl
  | sleeps => exact ⟨hw, trivial⟩
  | begins hslot hlazy =>
      refine ⟨hw.withSlot rfl rfl (hempty hslot) ?_ ?_, hempty hslot, hw.isLazy ▸ hlazy⟩
      · intro q hq
        exact (Table.get?_put _ _ _ _).trans (if_neg hq)
      · intro result hresult
        have hpending : some _ = some (PackageSlot.holding result) :=
          ((Table.get?_put _ _ _ _).trans (if_pos rfl)).symm.trans hresult
        exact absurd (Option.some.inj hpending).symm (PackageSlot.holding_ne_pending _ _)
  | refused hslot hlazy =>
      refine ⟨hw.withSlot ?_ rfl (hempty hslot) ?_ ?_, Or.inr rfl⟩
      · exact (PackageCache.isLazy_release _ _ _).trans (PackageCache.isLazy_claim _ _)
      · exact fun q _ => PackageCache.get?_refused hslot hlazy
      · intro result hresult
        have hnone := (PackageCache.get?_refused hslot hlazy).symm.trans hresult
        cases hslot.symm.trans hnone
  | pauses => exact ⟨hw, hl⟩
  | @settles _ opened outcome _ result hcall hverdict =>
      obtain ⟨hleaves, hlazy⟩ := hl
      have hsame : (world.call setting.site.loader (setting.site.requestFor path)).1 = opened :=
        congrArg Prod.fst hcall
      have hanswer : (world.call setting.site.loader (setting.site.requestFor path)).2 = outcome :=
        congrArg Prod.snd hcall
      subst hsame hanswer
      have hforetold : result = start.foretold (setting.serving served).site path := by
        rw [hleaves.foretold_eq, if_pos hlazy, ← LoadVerdict.result_of result]
        exact congrArg LoadVerdict.result (hserves.verdict hverdict).symm
      refine ⟨hw.withSlot rfl rfl hleaves ?_ ?_, Or.inl hforetold⟩
      · exact fun q hq => (Table.get?_put _ _ _ _).trans (if_neg hq)
      · intro result' hresult
        have hput := ((Table.get?_put _ _ _ _).trans (if_pos rfl)).symm.trans hresult
        rw [← PackageSlot.holding_injective (Option.some.inj hput)]
        exact hforetold
  | @yields _ opened outcome marker hcall =>
      have hsame : (world.call setting.site.loader (setting.site.requestFor path)).1 = opened :=
        congrArg Prod.fst hcall
      subst hsame
      refine ⟨hw.withSlot (PackageCache.isLazy_release _ _ _) rfl hl.1 ?_ ?_, Or.inr rfl⟩
      · exact fun q hq => PackageCache.get?_release_of_ne hq
      · intro result hresult
        rcases world.packages.get?_release_self with hnone | ⟨hsame, -⟩
        · cases hnone.symm.trans hresult
        · exact hw.held path result (hsame.symm.trans hresult)

end Lookup

/-! ### Tasks -/

namespace Task

/-- What becomes of a task next, when its errands are answered as it is known from the start. -/
def ahead (setting : Setting) (start : World) (t : Task) : Option Task :=
  match t.stage with
  | .opening => some t.open
  | .collecting => some (t.takeNext setting)
  | .fetching errand _ => (start.supplies setting errand).map t.receive
  | .closed _ => none

/-- What a task comes to in the end. -/
inductive Due (setting : Setting) (start : World) : Task → TaskResult → Prop
  | closed {t : Task} {r : TaskResult} (h : t.result? = some r) : Due setting start t r
  | goes {t t' : Task} {r : TaskResult} (h : t.ahead setting start = some t')
      (hr : Due setting start t' r) : Due setting start t r

variable {setting : Setting} {served : LoadRequest → LoadOutcome} {start world world' : World}
  {tasks : List Task} {t t' : Task} {r r' : TaskResult}

theorem ahead_of_result (h : t.result? = some r) : t.ahead setting start = none := by
  rw [ahead, result?_eq_some_iff.1 h]

/-- **A task comes to one result.** -/
theorem Due.unique (h : Due setting start t r) (h' : Due setting start t r') : r = r' := by
  induction h with
  | closed h =>
      cases h' with
      | closed h' => exact Option.some.inj (h.symm.trans h')
      | goes h' => cases (ahead_of_result h).symm.trans h'
  | goes h _ ih =>
      cases h' with
      | closed h' => cases (ahead_of_result h').symm.trans h
      | goes h' hr' =>
          cases h.symm.trans h'
          exact ih hr'

theorem Due.of_looks {errand : Errand} {lookup lookup' : Lookup}
    (hstage : t.stage = .fetching errand lookup)
    (h : ({ t with stage := .fetching errand lookup' } : Task).Due setting start r) :
    t.Due setting start r := by
  have hahead : t.ahead setting start =
      ({ t with stage := .fetching errand lookup' } : Task).ahead setting start := by
    simp only [ahead, hstage]
    exact congrArg (fun f => Option.map f _) (t.receive_looks _).symm
  cases h with
  | closed h => cases h
  | goes h hr => exact .goes (hahead.trans h) hr

/-- A task of a run that may be cancelled is on its way to the result of the task that it started as, or it
has been cancelled. -/
structure Faithful (setting : Setting) (start : World) (tasks : List Task) (t : Task) : Prop where
  lookup : ∀ errand lookup, t.stage = .fetching errand lookup →
    lookup.Faithful setting start errand.id.pkg
  heads : ∃ t₀ ∈ tasks, t.index = t₀.index ∧
    (t.result? = some (.error [.cancelled]) ∨ ∀ r, t.Due setting start r → t₀.Due setting start r)

/-- A task that has gone on by itself keeps to what is known, if it does not look anything up as yet. -/
theorem Faithful.become (h : t.Faithful setting start tasks) (hopen : t.result? = none)
    (hstems : t'.Stems t) (hlookup : ∀ errand lookup, t'.stage = .fetching errand lookup →
      lookup = .start)
    (hdue : ∀ r, t'.Due setting start r → t.Due setting start r) :
    t'.Faithful setting start tasks := by
  obtain ⟨t₀, ht₀, hindex, hends⟩ := h.heads
  have hends := hends.resolve_left (by rw [hopen]; nofun)
  refine ⟨?_, t₀, ht₀, hstems.index.trans hindex, Or.inr fun r hr => hends r (hdue r hr)⟩
  intro errand lookup hstage
  rw [hlookup errand lookup hstage]
  trivial

/-- A task that has found what there was to be found gets what there is to be had, or nothing as yet. -/
theorem arrive_supplied (t : Task) {errand : Errand} {result : Except Failure Package}
    (hw : world.Faithful setting start)
    (hresult : result = start.foretold setting.site errand.id.pkg) :
    (arrive setting world t errand result).2.1 = t ∨ ∃ answer,
      start.supplies setting errand = some answer ∧
        (arrive setting world t errand result).2.1 = t.receive answer := by
  cases result with
  | error f =>
      refine Or.inr ⟨.error f, ?_, rfl⟩
      rw [World.supplies, ← hresult]
  | ok pkg =>
      have hanswer : start.supplies setting errand = (extractFrom setting world errand pkg).2 := by
        rw [World.supplies, ← hresult, hw.sets errand pkg hresult.symm]
      rw [hanswer]
      rcases arrive_cases setting world t errand pkg with ⟨answer, hextracted, heq⟩ | ⟨-, heq⟩ <;> rw [heq]
      · exact Or.inr ⟨answer, hextracted, rfl⟩
      · exact Or.inl rfl

/-- A task whose lookup is done gets what there is to be had, if it was not cancelled. -/
theorem arrives_faithful {errand : Errand} {result : Except Failure Package}
    (hstage : t.stage = .fetching errand (.done result)) (haddressed : start.Addressed)
    (hw : world.Faithful setting start) (ht : t.Faithful setting start tasks) :
    (arrive setting world t errand result).1.Faithful setting start ∧
      (arrive setting world t errand result).2.1.Faithful setting start tasks := by
  have hopen : t.result? = none := by rw [result?, hstage]
  have hreceive : ∀ answer, start.supplies setting errand = some answer →
      (t.receive answer).Faithful setting start tasks := by
    intro answer hanswer
    refine ht.become hopen (t.stems_receive answer).1 ?_ fun r hr => .goes ?_ hr
    · exact fun _ _ h => absurd h (t.not_fetching_receive _)
    · simp only [ahead, hstage, hanswer, Option.map_some]
  rcases ht.lookup errand _ hstage with hforetold | rfl
  · constructor
    · cases result with
      | error f => exact hw
      | ok pkg =>
          rw [arrive_ok_world]
          exact hw.extractFrom haddressed hforetold.symm
    · rcases arrive_supplied t hw hforetold with hsame | ⟨answer, hanswer, hreceived⟩
      · rw [hsame]
        exact ht
      · rw [hreceived]
        exact hreceive answer hanswer
  · obtain ⟨t₀, ht₀, hindex, -⟩ := ht.heads
    exact ⟨hw, fun _ _ h => absurd h (t.not_fetching_receive _), t₀, ht₀, hindex, Or.inl rfl⟩

/-- **A small step of a task keeps to what is known.** -/
theorem Treads.faithful (h : Treads setting (world, t) (world', t'))
    (hserves : setting.site.loader.Serves served) (haddressed : start.Addressed)
    (hw : world.Faithful (setting.serving served) start)
    (ht : t.Faithful (setting.serving served) start tasks) :
    world'.Faithful (setting.serving served) start ∧
      t'.Faithful (setting.serving served) start tasks := by
  have hstems := h.stems.1
  cases h with
  | @looks _ _ _ errand lookup lookup' hstage h =>
      obtain ⟨hw', hlookup'⟩ := h.faithful hserves hw (ht.lookup errand lookup hstage)
      obtain ⟨t₀, ht₀, hindex, hends⟩ := ht.heads
      have hends := hends.resolve_left (by simp [result?, hstage])
      refine ⟨hw', ?_, t₀, ht₀, hindex, Or.inr fun r hr => hends r (hr.of_looks hstage)⟩
      intro errand' lookup'' heq
      cases heq
      exact hlookup'
  | reads hstage =>
      refine ⟨hw, ht.become (by rw [result?, hstage]) hstems ?_ fun r hr => .goes ?_ hr⟩
      · exact fun _ _ h => absurd h t.not_fetching_open
      · rw [ahead, hstage]
  | takes hstage =>
      refine ⟨hw, ht.become (by rw [result?, hstage]) hstems ?_ fun r hr => .goes ?_ hr⟩
      · exact fun _ _ h => start_of_takeNext hstage h
      · rw [ahead, hstage]
        rfl
  | arrives hstage => exact arrives_faithful hstage haddressed hw ht

theorem Faithful.step (ht : t.Faithful (setting.serving served) start tasks)
    (hserves : setting.site.loader.Serves served) (haddressed : start.Addressed)
    (hw : world.Faithful (setting.serving served) start) :
    (t.step setting world).1.Faithful (setting.serving served) start ∧
      (t.step setting world).2.1.Faithful (setting.serving served) start tasks := by
  have happly : ∀ x, Relation.ReflTransGen (Treads setting) (world, t) x →
      x.1.Faithful (setting.serving served) start ∧
        x.2.Faithful (setting.serving served) start tasks := by
    intro x hx
    induction hx with
    | refl => exact ⟨hw, ht⟩
    | tail _ hstep ih => exact hstep.faithful hserves haddressed ih.1 ih.2
  exact happly _ (step_treads setting world t)

end Task

/-! ### Crews -/

/-- A run that may be cancelled has kept to what is known from its start: every result that has been taken is
what its task comes to, or the task has been cancelled. -/
structure Crew.Faithful (setting : Setting) (start : World) (tasks : List Task) (s : Crew) : Prop where
  world : s.world.Faithful setting start
  remaining : ∀ t ∈ s.remaining, t.Faithful setting start tasks
  finished : ∀ report ∈ s.finished, ∃ t₀ ∈ tasks, report.index = t₀.index ∧
    (t₀.Due setting start report.result ∨ report.result = .error [.cancelled])

theorem Crew.Faithful.move {setting : Setting} {served : LoadRequest → LoadOutcome} {start : World}
    {tasks : List Task} {workers : Nat} {turn : Turn} {s s' : Crew}
    (h : s.Faithful (setting.serving served) start tasks)
    (hserves : setting.site.loader.Serves served) (haddressed : start.Addressed)
    (hmove : Move setting workers turn s s') :
    s'.Faithful (setting.serving served) start tasks := by
  cases hmove with
  | start _ ht => exact ⟨h.world, remaining_start ht ▸ h.remaining, h.finished⟩
  | @advance _ t rest delay _ ht =>
      have hdelayed : (setting.delayed delay).site.loader.Serves served :=
        ⟨hserves.whole, hserves.part⟩
      have hfaithful : t.Faithful ((setting.delayed delay).serving served) start tasks :=
        h.remaining t (mem_remaining ht)
      obtain ⟨hworld, htask⟩ := hfaithful.step hdelayed haddressed h.world
      exact ⟨hworld, forall_remaining_advance ht h.remaining htask _, h.finished⟩
  | @deliver _ t rest result _ ht hr =>
      refine ⟨h.world, forall_remaining_deliver ht h.remaining _ _, ?_⟩
      intro report hreport
      rcases Multiset.mem_cons.1 hreport with rfl | hreport
      · obtain ⟨t₀, ht₀, hindex, hends⟩ := (h.remaining t (mem_remaining ht)).heads
        refine ⟨t₀, ht₀, hindex, ?_⟩
        dsimp only
        unfold Schedule.counted
        split
        · exact Or.inr rfl
        · rcases hends with hlost | hends
          · exact Or.inr (Option.some.inj (hr.symm.trans hlost))
          · exact Or.inl (hends result (.closed hr))
      · exact h.finished report hreport
  | fire => exact ⟨h.world.congr rfl rfl, h.remaining, h.finished⟩
  | stop => exact ⟨h.world, h.remaining, h.finished⟩

/-- **Every run keeps to what is known from its start.** -/
theorem Moves.faithful {setting : Setting} {served : LoadRequest → LoadOutcome} {start : World}
    {tasks : List Task} {workers : Nat} {turns : List Turn} {s s' : Crew}
    (h : s.Faithful (setting.serving served) start tasks)
    (hserves : setting.site.loader.Serves served) (haddressed : start.Addressed)
    (hmoves : Moves setting workers turns s s') :
    s'.Faithful (setting.serving served) start tasks := by
  induction hmoves with
  | nil => exact h
  | cons hmove _ ih => exact ih (h.move hserves haddressed hmove)

/-! ### The start -/

theorem PackageCache.addressed_seed {cache : PackageCache} {path : String}
    (h : ∀ pkg, cache.slots.get? path = some (.ready pkg) → pkg.path = path) (o : LoadOutcome) {pkg : Package}
    (hpkg : (cache.seed o).slots.get? path = some (.ready pkg)) : pkg.path = path := by
  rcases seed_cases hpkg with hslot | ⟨p, -, hpath, heq⟩ | ⟨e, -, -, heq⟩
  · exact h pkg hslot
  · cases heq
    exact hpath
  · cases heq

theorem addressed_fillPackages (input : RunInput) (world : World) (roots : LoadOutcome) :
    (fillPackages input world roots).Addressed := by
  refine fillPackages_induction (P := fun cache => ∀ path pkg,
    cache.slots.get? path = some (.ready pkg) → pkg.path = path) (fun _ _ _ => nofun) ?_ input world roots
  exact fun cache o h path pkg hpkg => PackageCache.addressed_seed (h path) o hpkg

theorem Crew.faithful_outset (input : RunInput) (world : World) (roots : LoadOutcome)
    (setting : Setting) :
    (Crew.outset input world roots).Faithful setting (Crew.outset input world roots).world
      (discover input.options roots.packages) := by
  refine ⟨World.faithful_self _ _, ?_, nofun⟩
  intro t ht
  rw [remaining_outset, Multiset.mem_coe] at ht
  refine ⟨?_, t, ht, rfl, Or.inr fun _ h => h⟩
  rw [eq_of_mem_discover ht]
  exact nofun

/-- The run with a loader that always answers and does not cancel it. -/
def RunInput.serving (input : RunInput) (served : LoadRequest → LoadOutcome) : RunInput :=
  { input with loader := .plain served }

/-- The world in which the first task of a run starts that has not been cancelled by then. -/
def RunInput.foreseen (input : RunInput) (served : LoadRequest → LoadOutcome) (world : World) : World :=
  fillPackages (input.serving served) (world.call (.plain served) input.rootRequest).1
    (served input.rootRequest)

section Start

variable {input : RunInput} {served : LoadRequest → LoadOutcome} {world : World} {roots : LoadOutcome}
  {loader : Loader} {request : LoadRequest} {fires : Bool}

/-- A call after which the run goes on is one of the plain loader, if only runs that go on are answered in
full. -/
theorem World.call_eq_plain
    (hwhole : ∀ cancelled, (loader.answer request cancelled).2 = false →
      cancelled = false ∧ (loader.answer request cancelled).1 = served request)
    (hlive : (world.call loader request).1.cancelled = false) :
    world.cancelled = false ∧ world.call loader request = world.call (.plain served) request := by
  obtain ⟨hbefore, hanswer⟩ := hwhole world.cancelled hlive
  have hafter : (loader.answer request world.cancelled).2 = false := hlive
  refine ⟨hbefore, ?_⟩
  simp only [call, hanswer, hafter, Loader.plain]
  rw [hbefore]

theorem Loader.Serves.call_eq (h : loader.Serves served)
    (hlive : (world.call loader request).1.cancelled = false) :
    world.cancelled = false ∧ world.call loader request = world.call (.plain served) request :=
  World.call_eq_plain (h.whole request) hlive

theorem World.fire_of_live (h : (world.fire fires).cancelled = false) : world.fire fires = world := by
  rw [fire, Bool.or_eq_false_iff] at h
  rw [h.2, fire_false]

theorem Loader.Serves.loadImports_eq (h : input.loader.Serves served) {packages : List Package}
    (hlive : (loadImports input world packages).1.cancelled = false) :
    world.cancelled = false ∧
      loadImports input world packages = loadImports (input.serving served) world packages := by
  unfold loadImports at hlive ⊢
  cases himports : missingImports packages with
  | nil =>
      rw [himports] at hlive
      exact ⟨hlive, rfl⟩
  | cons first rest =>
      rw [himports] at hlive
      obtain ⟨hbefore, hcall⟩ := h.call_eq hlive
      refine ⟨hbefore, ?_⟩
      dsimp only
      rw [hcall]
      rfl

theorem Loader.Serves.fillPackages_eq (h : input.loader.Serves served)
    (hlive : (fillPackages input world roots).cancelled = false) :
    world.cancelled = false ∧
      fillPackages input world roots = fillPackages (input.serving served) world roots := by
  have hstrategy : (input.serving served).strategy = input.strategy := rfl
  unfold fillPackages at hlive ⊢
  rw [hstrategy]
  split
  next hlazy =>
    rw [if_pos hlazy] at hlive
    exact ⟨hlive, rfl⟩
  next heager =>
    rw [if_neg heager] at hlive
    obtain ⟨hbefore, heq⟩ := h.loadImports_eq hlive
    rw [heq]
    exact ⟨hbefore, rfl⟩

/-- **There is one way to start a run that has not been cancelled.** -/
theorem Loader.Serves.start_eq (h : input.loader.Serves served) {opened : World} {fires' : Bool}
    (hroots : (world.fire fires).call input.loader input.rootRequest = (opened, roots))
    (hlive : (fillPackages input (opened.fire fires') roots).cancelled = false) :
    roots = served input.rootRequest ∧
      fillPackages input (opened.fire fires') roots = input.foreseen served world := by
  obtain ⟨hopened, hfill⟩ := h.fillPackages_eq hlive
  have hsame := World.fire_of_live hopened
  rw [hsame] at hopened hfill ⊢
  have hcall : ((world.fire fires).call input.loader input.rootRequest).1.cancelled = false := by
    rw [hroots]
    exact hopened
  obtain ⟨hbefore, heq⟩ := h.call_eq hcall
  rw [World.fire_of_live hbefore] at heq hroots
  rw [heq] at hroots
  obtain ⟨rfl, rfl⟩ := Prod.mk.inj hroots
  exact ⟨rfl, hfill⟩

end Start

/-! ### Results -/

section Results

variable {input : RunInput} {course : Course} {world : World} {roots : LoadOutcome}
  {served : LoadRequest → LoadOutcome} {t : Task} {result : TaskResult}

theorem RunInput.Proceeds.due {s : Crew} (h : input.Proceeds course world roots s)
    (hserves : input.loader.Serves served) (ht : t ∈ discover input.options roots.packages)
    (hreport : ⟨t.index, result⟩ ∈ s.finished) :
    result = .error [.cancelled] ∨ roots = served input.rootRequest ∧
      t.Due (input.setting.serving served) (input.foreseen served world) result := by
  cases h with
  | halts => cases Multiset.notMem_zero _ hreport
  | goes _ hroots hlive hmoves =>
      obtain ⟨hserved, hstart⟩ := hserves.start_eq hroots hlive
      have hsite : input.setting.site.loader.Serves served := hserves
      have hfaithful := hmoves.faithful (Crew.faithful_outset _ _ _ _) hsite
        (addressed_fillPackages _ _ _)
      obtain ⟨t₀, ht₀, hindex, hdue⟩ := hfaithful.finished _ hreport
      obtain rfl := index_discover t₀ ht₀ t ht hindex.symm
      refine hdue.symm.imp_right fun hdue => ⟨hserved, ?_⟩
      rw [← hstart]
      exact hdue

/-- **A task comes to what it would have come to, or it is cancelled.** -/
theorem RunInput.Makes.due {results : List TaskReport} {r : Report}
    (h : input.Makes course world roots results r) (hserves : input.loader.Serves served)
    (ht : t ∈ discover input.options roots.packages)
    (hresult : resultAt results t.index = some result) :
    result = .error [.cancelled] ∨ roots = served input.rootRequest ∧
      t.Due (input.setting.serving served) (input.foreseen served world) result := by
  have hreport := mem_of_resultAt hresult
  cases h with
  | refused => cases hreport
  | @done _ s finished h hover hfinished =>
      have htaken : ⟨t.index, result⟩ ∈ finished → ⟨t.index, result⟩ ∈ s.finished := by
        intro hmem
        rwa [← hfinished, Multiset.mem_coe]
      rcases Schedule.mem_complete hreport with hreport | ⟨-, hcut⟩
      · exact h.due hserves ht (htaken hreport)
      · -- the run was given up before the result was taken
        exact Or.inl hcut

/-- A run that has not been cancelled has had its roots in full. -/
theorem RunInput.Makes.roots_eq {results : List TaskReport} {r : Report}
    (h : input.Makes course world roots results r) (hserves : input.loader.Serves served)
    (hlive : r.cancelled = false) : roots = served input.rootRequest := by
  cases h with
  | refused => cases hlive
  | done h =>
      rw [reportOn_eq rfl rfl] at hlive
      cases h with
      | halts => cases hlive
      | goes _ hroots hgoing => exact (hserves.start_eq hroots hgoing).1

/-- The roots of any run are among those that there are. -/
theorem RunInput.Makes.packageAt {results : List TaskReport} {r : Report}
    (h : input.Makes course world roots results r) (hserves : input.loader.Serves served)
    {path : String} {pkg : Package} (hpkg : roots.packageAt path = some pkg) :
    (served input.rootRequest).packageAt path = some pkg := by
  have hpart : ∀ {opened : World}, (world.fire course.beforeRoots).call input.loader
      input.rootRequest = (opened, roots) →
      (served input.rootRequest).packageAt path = some pkg := by
    intro opened hroots
    have hanswer : ((world.fire course.beforeRoots).call input.loader input.rootRequest).2 = roots :=
      congrArg Prod.snd hroots
    rw [← hanswer] at hpkg
    exact hserves.part _ _ path pkg hpkg
  cases h with
  | refused => cases hpkg
  | done h =>
      cases h with
      | halts _ hroots => exact hpart hroots
      | goes _ hroots => exact hpart hroots

end Results

end Wiring
