/-
**Kept sets are as good as new.**

A set that is taken from the cache was extracted by another task, perhaps in another run and for
another referrer.  This module says what a kept set has to do with the packages that have been served:
it was extracted from one of them, and is kept under the fingerprint which that one had.  As long as
fingerprints tell packages with different declarations apart, whoever asks the cache gets what an
extraction of his own would have made, and that includes the failures.

Main definitions:

* `Wiring.Package.Agrees` — two packages declare the same, as far as sets are made of it;
* `Wiring.Telling` — fingerprints tell the served packages apart;
* `Wiring.SetCache.Sound` — what is kept was extracted from served packages;
* `Wiring.Package.supply` — the answer of a package to an errand, without a cache.

Main results:

* `Wiring.SetCache.Sound.getOrExtract` — a sound cache answers like an extraction, and stays sound;
* `Wiring.Task.arrive_eq` — so does a task that has found the package of a set.
-/

import Wiring.Run.Task

set_option autoImplicit false

namespace Wiring

/-! ### Extraction -/

/-- Two packages declare the same types, providers and sets under the same path. -/
structure Package.Agrees (p q : Package) : Prop where
  path : p.path = q.path
  types : p.types = q.types
  providers : p.providers = q.providers
  sets : p.sets = q.sets

namespace Package

variable {p q : Package} {name a b : String} {s : ProviderSet}

theorem Agrees.refl (p : Package) : p.Agrees p :=
  ⟨rfl, rfl, rfl, rfl⟩

/-- Nothing else of a package counts for its sets. -/
theorem Agrees.extractSet_eq (h : p.Agrees q) : p.extractSet = q.extractSet := by
  obtain ⟨hpath, htypes, hproviders, hsets⟩ := h
  cases p
  cases q
  subst hpath htypes hproviders hsets
  rfl

/-- Who asks for a set does not show in the set. -/
theorem extractSet_ok_congr (h : p.extractSet name a = .ok s) (b : String) :
    p.extractSet name b = .ok s :=
  extractSet_ok_iff.2 (extractSet_ok_iff.1 h)

/-- What a package has to say to an errand. -/
def supply (pkg : Package) (errand : Errand) : Except Failure ProviderSet :=
  if pkg.isValid then pkg.extractSet errand.id.name errand.referencedFrom
  else .error (.loadFailure pkg.path pkg.faultText)

end Package

/-! ### Sound caches -/

/-- The served packages, each with the disk as it was then, are told apart by their fingerprints: of
those with the same path, two with the same content declare the same. -/
def Telling (served : Package → Disk → Prop) : Prop :=
  ∀ ⦃p q : Package⦄ ⦃before now : Disk⦄, served p before → served q now → p.path = q.path →
    (p.fingerprint before).content = (q.fingerprint now).content → p.Agrees q

/-- A kept set was extracted from a served package of its path, and bears its fingerprint. -/
def KeptSet.Vouched (served : Package → Disk → Prop) (key : SetId) (kept : KeptSet) : Prop :=
  ∃ p disk, served p disk ∧ p.path = key.pkg ∧
    kept.fingerprint.content = (p.fingerprint disk).content ∧
    ∀ asker, p.extractSet key.name asker = .ok kept.set

namespace SetCache

/-- Nobody is extracting, and what is kept was extracted from served packages. -/
def Sound (served : Package → Disk → Prop) (cache : SetCache) : Prop :=
  ∀ key slot, cache.slots.get? key = some slot →
    ∃ kept, slot = .ready kept ∧ kept.Vouched served key

variable {served : Package → Disk → Prop} {cache : SetCache} {p : Package} {disk : Disk}

theorem sound_empty : Sound served {} := by
  intro key slot h
  cases h

/-- A fresh extraction leaves the slot with the new set, or without any. -/
theorem Sound.grant_settle (h : Sound served cache) (hp : served p disk) (name asker : String) :
    Sound served ((cache.grant ⟨p.path, name⟩).1.settle ⟨p.path, name⟩ cache.nextMarker
      (p.fingerprint disk) (p.extractSet name asker)) := by
  intro key slot hslot
  cases hset : p.extractSet name asker with
  | ok set =>
      rw [hset] at hslot
      simp only [settle, store, grant, Table.get?_put] at hslot
      by_cases hkey : key = ⟨p.path, name⟩
      · subst hkey
        rw [if_pos rfl, Option.some.injEq] at hslot
        subst hslot
        exact ⟨_, rfl, p, disk, hp, rfl, rfl, p.extractSet_ok_congr hset⟩
      · rw [if_neg hkey, if_neg hkey] at hslot
        exact h key slot hslot
  | error f =>
      rw [hset] at hslot
      rw [settle, abandon, if_pos (cache.isPending_grant _), Table.get?_erase] at hslot
      by_cases hkey : key = ⟨p.path, name⟩
      · rw [if_pos hkey] at hslot
        cases hslot
      · rw [if_neg hkey, get?_grant, if_neg hkey] at hslot
        exact h key slot hslot

/-- **A sound cache answers like an extraction of one's own**, and it stays sound. -/
theorem Sound.getOrExtract (h : Sound served cache) (htell : Telling served) (hp : served p disk)
    (name asker : String) :
    ∃ after, Sound served after ∧
      cache.getOrExtract ⟨p.path, name⟩ (p.fingerprint disk) (p.extractSet name asker) =
        (after, some (p.extractSet name asker)) := by
  have hfresh := h.grant_settle hp name asker
  unfold SetCache.getOrExtract
  rcases cache.claim_cases ⟨p.path, name⟩ (p.fingerprint disk).content with
    ⟨kept, hslot, hfits, heq⟩ | ⟨marker, hslot, heq⟩ | ⟨-, heq⟩ <;> rw [heq]
  · -- a hit: the package of the kept set declares the same
    obtain ⟨_, ⟨⟩, q, before, hq, hpath, hcontent, hset⟩ := h _ _ hslot
    have hagrees : q.Agrees p := htell hq hp hpath (hcontent.symm.trans hfits)
    have hhit : p.extractSet name asker = .ok kept.set := by
      rw [← hagrees.extractSet_eq]
      exact hset asker
    exact ⟨cache.countHit, h, by rw [hhit]⟩
  · obtain ⟨_, ⟨⟩, -⟩ := h _ _ hslot
  · exact ⟨_, hfresh, rfl⟩

end SetCache

/-! ### Tasks -/

namespace Task

variable {served : Package → Disk → Prop} {setting : Setting} {world : World}

/-- What a task gets from a package that has been found. -/
theorem extractFrom_eq (hsound : world.sets.Sound served) (htell : Telling served) {pkg : Package}
    (hpkg : served pkg setting.disk) (errand : Errand) :
    ∃ sets, sets.Sound served ∧
      extractFrom setting world errand pkg = ({ world with sets }, some (pkg.supply errand)) := by
  rcases extractFrom_cases setting world errand pkg with
    ⟨hvalid, heq⟩ | ⟨hvalid, ⟨-, heq⟩ | ⟨sets, answer, -, hkept, heq⟩⟩ <;> rw [heq, Package.supply, hvalid]
  · exact ⟨world.sets, hsound, rfl⟩
  · exact ⟨world.sets, hsound, rfl⟩
  · obtain ⟨sets, hsets, heq⟩ := hsound.getOrExtract htell hpkg errand.id.name errand.referencedFrom
    cases hkept.symm.trans heq
    exact ⟨sets, hsets, rfl⟩

/-- A task whose lookup is done goes on as if there were no cache of sets. -/
theorem arrive_eq (hsound : world.sets.Sound served) (htell : Telling served)
    {result : Except Failure Package} (hresult : ∀ pkg, result = .ok pkg → served pkg setting.disk)
    (t : Task) (errand : Errand) :
    ∃ sets, sets.Sound served ∧
      arrive setting world t errand result =
        ({ world with sets }, t.receive (result >>= fun pkg => pkg.supply errand), .going) := by
  cases result with
  | error f => exact ⟨world.sets, hsound, rfl⟩
  | ok pkg =>
      obtain ⟨sets, hsets, heq⟩ := extractFrom_eq hsound htell (hresult pkg rfl) errand
      exact ⟨sets, hsets, by simp only [arrive, heq]; rfl⟩

end Task

end Wiring
