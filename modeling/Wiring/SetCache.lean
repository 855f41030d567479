/-
**The cache of extracted sets.**

Extracted sets are kept under their identities together with the fingerprint of the files that they
were extracted from.  A kept set is used again only while the fingerprint is the same.

One caller at a time extracts a set: it first puts a marker of its own into the slot, and whoever
finds a marker there waits for it to go.  When the extraction succeeds the set takes the slot; when
it fails the marker is taken out and the next caller tries again.

Main definitions:

* `Wiring.SetCache` — the slots and the counts of hits and misses;
* `Wiring.SetCache.claim` — asks for a set, and takes the slot if there is none to be used;
* `Wiring.SetCache.store`, `Wiring.SetCache.abandon` — the two ends of an extraction;
* `Wiring.SetCache.getOrExtract` — asks, and extracts if it must;
* `Wiring.SetCache.put`, `Wiring.SetCache.lookup`, `Wiring.SetCache.clear` — the plain operations.

Main results:

* `Wiring.SetCache.get?_store`, `Wiring.SetCache.get?_grant`, `Wiring.SetCache.slots_lookup` — what an operation
  leaves in a slot.
-/

import Wiring.Failure
import Wiring.Fingerprint

set_option autoImplicit false

namespace Wiring

/-- The mark of one caller that is filling a slot.  No two callers have the same. -/
abbrev Marker := Nat

/-- A kept set and the fingerprint of what it was extracted from. -/
structure KeptSet where
  set : ProviderSet
  fingerprint : Fingerprint
deriving DecidableEq, Inhabited

/-- What a slot holds. -/
inductive SetSlot where
  /-- A caller is extracting the set. -/
  | pending (marker : Marker)
  | ready (kept : KeptSet)
deriving DecidableEq, Inhabited

/-- The cache of extracted sets. -/
structure SetCache where
  slots : Table SetId SetSlot := {}
  /-- How often a kept set was used. -/
  hits : Nat := 0
  /-- How often there was none to be used. -/
  misses : Nat := 0
  /-- The marker that the next caller gets. -/
  nextMarker : Marker := 0
deriving Inhabited

/-- The answer to a caller that asks for a set. -/
inductive SetClaim where
  /-- Here it is. -/
  | hit (set : ProviderSet)
  /-- Somebody else is extracting it. -/
  | wait (marker : Marker)
  /-- Extract it; the slot is yours under this marker. -/
  | granted (marker : Marker)
deriving DecidableEq, Inhabited

namespace SetCache

/-- Counts a hit. -/
def countHit (cache : SetCache) : SetCache :=
  { cache with hits := cache.hits + 1 }

/-- Counts a miss. -/
def countMiss (cache : SetCache) : SetCache :=
  { cache with misses := cache.misses + 1 }

/-- Takes a slot under a fresh marker. -/
def grant (cache : SetCache) (key : SetId) : SetCache × SetClaim :=
  ({ cache with
      slots := cache.slots.put key (.pending cache.nextMarker)
      misses := cache.misses + 1
      nextMarker := cache.nextMarker + 1 }, .granted cache.nextMarker)

/-- Asks for a set that was extracted from files with the given content fingerprint. -/
def claim (cache : SetCache) (key : SetId) (content : String) : SetCache × SetClaim :=
  match cache.slots.get? key with
  | some (.ready kept) =>
    if kept.fingerprint.content = content then (cache.countHit, .hit kept.set)
    else cache.grant key
  | some (.pending marker) => (cache, .wait marker)
  | none => cache.grant key

/-- Whether a slot is still held under a marker. -/
def isPending (cache : SetCache) (key : SetId) (marker : Marker) : Bool :=
  cache.slots.get? key = some (.pending marker)

/-- Ends an extraction with a set.  It takes the slot whatever is in it by now. -/
def store (cache : SetCache) (key : SetId) (kept : KeptSet) : SetCache :=
  { cache with slots := cache.slots.put key (.ready kept) }

/-- Ends an extraction without a set.  The marker is taken out if it is still there. -/
def abandon (cache : SetCache) (key : SetId) (marker : Marker) : SetCache :=
  if cache.isPending key marker then { cache with slots := cache.slots.erase key } else cache

/-- Ends an extraction. -/
def settle (cache : SetCache) (key : SetId) (marker : Marker) (fingerprint : Fingerprint)
    (result : Except Failure ProviderSet) : SetCache :=
  match result with
  | .ok set => cache.store key ⟨set, fingerprint⟩
  | .error _ => cache.abandon key marker

/-- Asks for a set, and extracts it at once if it is not kept.  There is no answer while somebody
else is extracting it. -/
def getOrExtract (cache : SetCache) (key : SetId) (fingerprint : Fingerprint)
    (extract : Except Failure ProviderSet) : SetCache × Option (Except Failure ProviderSet) :=
  match cache.claim key fingerprint.content with
  | (cache, .hit set) => (cache, some (.ok set))
  | (cache, .wait _) => (cache, none)
  | (cache, .granted marker) => (cache.settle key marker fingerprint extract, some extract)

/-- Keeps a set under the fingerprint of its files as they are now, whatever the slot holds. -/
def put (cache : SetCache) (disk : Disk) (key : SetId) (set : ProviderSet) (files : List Path) :
    SetCache :=
  cache.store key ⟨set, .ofDisk disk files⟩

/-- Whether a kept set fits the files as they are now: by every byte, or only by sizes and times. -/
def KeptSet.fits (kept : KeptSet) (disk : Disk) (files : List Path) (fast : Bool) : Bool :=
  if fast then MetadataFingerprint.agrees kept.fingerprint.metadata (.ofDisk disk files)
  else kept.fingerprint.content = Fingerprint.contentOf disk files

/-- The kept set, if it fits the files as they are now. -/
def peek (cache : SetCache) (disk : Disk) (key : SetId) (files : List Path) (fast : Bool) :
    Option ProviderSet :=
  match cache.slots.get? key with
  | some (.ready kept) => if KeptSet.fits kept disk files fast then some kept.set else none
  | _ => none

/-- Looks for a set without extracting it, and counts a hit or a miss. -/
def lookup (cache : SetCache) (disk : Disk) (key : SetId) (files : List Path) (fast : Bool) :
    SetCache × Option ProviderSet :=
  match cache.peek disk key files fast with
  | some set => (cache.countHit, some set)
  | none => (cache.countMiss, none)

/-- Takes out every kept set.  Markers stay. -/
def clear (cache : SetCache) : SetCache :=
  { cache with slots := cache.slots.filter fun _ slot =>
      match slot with
      | .pending _ => true
      | .ready _ => false }

/-- The number of kept sets. -/
def size (cache : SetCache) : Nat :=
  (cache.slots.filter fun _ slot =>
    match slot with
    | .pending _ => false
    | .ready _ => true).size

/-! ### What an operation leaves in a slot -/

section Slots

variable (cache : SetCache) (key other : SetId)

theorem get?_store (kept : KeptSet) : (cache.store key kept).slots.get? other =
    if other = key then some (.ready kept) else cache.slots.get? other :=
  Table.get?_put cache.slots key other _

theorem get?_grant : (cache.grant key).1.slots.get? other =
    if other = key then some (.pending cache.nextMarker) else cache.slots.get? other :=
  Table.get?_put cache.slots key other _

/-- The marker that was put a moment ago is still there. -/
theorem isPending_grant : (cache.grant key).1.isPending key cache.nextMarker = true := by
  rw [isPending, get?_grant, if_pos rfl, decide_eq_true_eq]

/-- A kept set that fits is handed out.  For a set that is being extracted a caller has to wait, and for any
other it is given the slot. -/
theorem claim_cases (content : String) :
    (∃ kept, cache.slots.get? key = some (.ready kept) ∧ kept.fingerprint.content = content ∧
        cache.claim key content = (cache.countHit, .hit kept.set)) ∨
      (∃ marker, cache.slots.get? key = some (.pending marker) ∧
        cache.claim key content = (cache, .wait marker)) ∨
      (∀ slot, cache.slots.get? key = some slot →
          ∃ kept, slot = .ready kept ∧ kept.fingerprint.content ≠ content) ∧
        cache.claim key content = cache.grant key := by
  unfold claim
  split
  next kept hslot =>
    by_cases hfits : kept.fingerprint.content = content
    · exact .inl ⟨kept, hslot, hfits, if_pos hfits⟩
    · refine .inr (.inr ⟨fun slot hsame => ⟨kept, ?_, hfits⟩, if_neg hfits⟩)
      exact (Option.some.inj (hslot.symm.trans hsame)).symm
  next marker hslot => exact .inr (.inl ⟨marker, hslot, rfl⟩)
  next hslot =>
    refine .inr (.inr ⟨fun slot hsome => ?_, rfl⟩)
    cases hslot.symm.trans hsome

/-- Looking for a set without extracting it changes no slot. -/
theorem slots_lookup (disk : Disk) (files : List Path) (fast : Bool) :
    (cache.lookup disk key files fast).1.slots = cache.slots := by
  unfold lookup
  split <;> rfl

theorem snd_lookup (disk : Disk) (files : List Path) (fast : Bool) :
    (cache.lookup disk key files fast).2 = cache.peek disk key files fast := by
  unfold lookup
  split
  next hpeek => exact hpeek.symm
  next hpeek => exact hpeek.symm

end Slots

end SetCache

end Wiring
