/-
**Hits are justified, and every call counts once.**

Whatever calls come to a cache of sets and in whatever order their pieces of work are done, a kept set
has been stored by one of them: either by a call that extracted it and came to a success, under the
fingerprint that this call gave, or by a call that kept it, under the fingerprint of the files as they
were then.  So whoever is handed a kept set gets what was stored for the same key under the same
content, and a failed extraction is seen by nobody but the call that made it.

A call counts a hit or a miss and never both: a hit when it is handed a set and extracts nothing, a miss
when it begins to extract or when it looked in vain.

Main definitions:

* `Wiring.SetCache.Visit.Stored` — a call has stored a set under a fingerprint;
* `Wiring.SetCache.Visit.Tallied` — what a call must have counted by now;
* `Wiring.SetCache.Traffic.Sound` — what every event preserves.

Main results:

* `Wiring.SetCache.Traffic.sound_after` — it holds after any course of events;
* `Wiring.SetCache.Traffic.accounts` — **hits are justified and every call counts once**.
-/

import Wiring.Proofs.Caches.Traffic

set_option autoImplicit false

namespace Wiring

namespace SetCache

/-! ### Counters -/

section Counters

variable (cache : SetCache) (key : SetId)

@[simp] theorem hits_countHit : cache.countHit.hits = cache.hits + 1 := rfl

@[simp] theorem misses_countHit : cache.countHit.misses = cache.misses := rfl

@[simp] theorem slots_countHit : cache.countHit.slots = cache.slots := rfl

@[simp] theorem hits_countMiss : cache.countMiss.hits = cache.hits := rfl

@[simp] theorem misses_countMiss : cache.countMiss.misses = cache.misses + 1 := rfl

@[simp] theorem slots_countMiss : cache.countMiss.slots = cache.slots := rfl

@[simp] theorem hits_reserve : (cache.reserve key).hits = cache.hits := rfl

@[simp] theorem misses_reserve : (cache.reserve key).misses = cache.misses := rfl

@[simp] theorem hits_sweep (part : SetId → Bool) : (cache.sweep part).hits = cache.hits := rfl

@[simp] theorem misses_sweep (part : SetId → Bool) : (cache.sweep part).misses = cache.misses := rfl

@[simp] theorem hits_put (disk : Disk) (set : ProviderSet) (files : List Path) :
    (cache.put disk key set files).hits = cache.hits := rfl

@[simp] theorem misses_put (disk : Disk) (set : ProviderSet) (files : List Path) :
    (cache.put disk key set files).misses = cache.misses := rfl

@[simp] theorem hits_settle (marker : Marker) (fp : Fingerprint) (result : Result) :
    (cache.settle key marker fp result).hits = cache.hits := by
  cases result with
  | ok set => rfl
  | error e =>
      simp only [settle, abandon]
      split <;> rfl

@[simp] theorem misses_settle (marker : Marker) (fp : Fingerprint) (result : Result) :
    (cache.settle key marker fp result).misses = cache.misses := by
  cases result with
  | ok set => rfl
  | error e =>
      simp only [settle, abandon]
      split <;> rfl

end Counters

/-! ### What a call has counted -/

/-- What a call must have counted by now, and what its extraction must have come to. -/
def Call.Tally : Call → Nat → Nat → List Result → Prop
  | .fetch _ _ (.extracting _), hits, misses, extracted => hits = 0 ∧ misses = 1 ∧ extracted = []
  | .fetch _ _ (.holding _ result), hits, misses, extracted =>
    hits = 0 ∧ misses = 1 ∧ extracted = [result]
  | .fetch _ _ (.leaving _ result), hits, misses, extracted =>
    hits = 0 ∧ misses = 1 ∧ extracted = [result]
  | .fetch _ _ (.done result), hits, misses, extracted =>
    hits = 0 ∧ misses = 1 ∧ extracted = [result] ∨
      hits = 1 ∧ misses = 0 ∧ extracted = [] ∧ ∃ set, result = .ok set
  | .look _ _ _ (.done _ (some _)), hits, misses, extracted => hits = 1 ∧ misses = 0 ∧ extracted = []
  | .look _ _ _ (.done _ none), hits, misses, extracted => hits = 0 ∧ misses = 1 ∧ extracted = []
  | _, hits, misses, extracted => hits = 0 ∧ misses = 0 ∧ extracted = []

/-- Whether a call for a set is over or has begun to extract. -/
def Call.counts : Call → Bool
  | .fetch _ _ (.extracting _) => true
  | .fetch _ _ (.holding _ _) => true
  | .fetch _ _ (.leaving _ _) => true
  | .fetch _ _ (.done _) => true
  | .look _ _ _ (.done _ _) => true
  | _ => false

namespace Call

variable {call : Call} {hits misses : Nat} {extracted : List Result}

theorem tally_come (request : Request) : request.call.Tally 0 0 [] := by
  cases request <;> exact ⟨rfl, rfl, rfl⟩

/-- Whoever is over or has begun to extract has counted once, and nobody else has counted. -/
theorem Tally.add_eq (h : call.Tally hits misses extracted) :
    hits + misses = if call.counts then 1 else 0 := by
  cases call with
  | fetch key fp stage =>
      cases stage with
      | done result => rcases h with ⟨rfl, rfl, -⟩ | ⟨rfl, rfl, -⟩ <;> rfl
      | _ => obtain ⟨rfl, rfl, -⟩ := h; rfl
  | put key set files stage => obtain ⟨rfl, rfl, -⟩ := h; rfl
  | look key files fast stage =>
      cases stage with
      | done disk answer => cases answer <;> obtain ⟨rfl, rfl, -⟩ := h <;> rfl
      | _ => obtain ⟨rfl, rfl, -⟩ := h; rfl
  | clear cleared => obtain ⟨rfl, rfl, -⟩ := h; rfl

theorem Tally.hear (h : call.Tally hits misses extracted) (alert : Option Marker) :
    (call.hear alert).Tally hits misses extracted := by
  unfold Call.hear
  split <;> exact h

theorem Tally.leave (h : call.Tally hits misses extracted) : call.leave.Tally hits misses extracted := by
  unfold Call.leave
  split <;> exact h

end Call

/-! ### What a call has stored -/

/-- A call has stored a set: it has extracted it and stored it under the fingerprint that it gave, or
it has kept it under the fingerprint of the files as they were. -/
inductive Call.Stored : Call → List Result → SetId → KeptSet → Prop
  | leaving {key : SetId} {fp : Fingerprint} {marker : Marker} {set : ProviderSet} :
      Stored (.fetch key fp (.leaving marker (.ok set))) [.ok set] key ⟨set, fp⟩
  | fetched {key : SetId} {fp : Fingerprint} {set : ProviderSet} :
      Stored (.fetch key fp (.done (.ok set))) [.ok set] key ⟨set, fp⟩
  | alerting {key : SetId} {set : ProviderSet} {files : List Path} {disk : Disk} {marker : Marker}
      {extracted : List Result} :
      Stored (.put key set files (.alerting disk marker)) extracted key ⟨set, .ofDisk disk files⟩
  | put {key : SetId} {set : ProviderSet} {files : List Path} {disk : Disk}
      {extracted : List Result} :
      Stored (.put key set files (.done disk)) extracted key ⟨set, .ofDisk disk files⟩

/-- What a call that looks for a kept set has found was stored, and what it hands out fits. -/
def Call.Warranted (stored : SetId → KeptSet → Prop) : Call → Prop
  | .look key _ _ (.judging (some kept)) => stored key kept
  | .look key files fast (.done disk (some set)) =>
    ∃ kept, stored key kept ∧ kept.set = set ∧ KeptSet.fits kept disk files fast = true
  | _ => True

namespace Call

variable {call : Call} {hits misses : Nat} {extracted : List Result} {offer : Offer}
  {cache : SetCache} {effect : Effect} {key : SetId} {kept : KeptSet}
  {known known' : SetId → KeptSet → Prop}

theorem Stored.hear (h : call.Stored extracted key kept) (alert : Option Marker) :
    (call.hear alert).Stored extracted key kept := by
  cases h with
  | leaving => exact .leaving
  | fetched => exact .fetched
  | alerting => exact .alerting
  | put => exact .put

theorem Stored.leave (h : call.Stored extracted key kept) : call.leave.Stored extracted key kept := by
  cases h with
  | leaving => exact .leaving
  | fetched => exact .fetched
  | alerting => exact .alerting
  | put => exact .put

/-- What a call has stored stays to its credit. -/
theorem Stored.advance (h : call.Stored extracted key kept) (hworks : call.Works offer cache effect) :
    effect.call.Stored (extracted ++ effect.extracted) key kept := by
  cases h with
  | leaving => cases hworks with
    | alert => exact .fetched
  | fetched => cases hworks
  | alerting => cases hworks with
    | inform => exact .put
  | put => cases hworks

/-- What a piece of work brings into the cache has been stored by its call. -/
theorem Works.stored (hworks : call.Works offer cache effect)
    (htally : call.Tally hits misses extracted)
    (h : (key, .ready kept) ∈ effect.cache.slots.entries) :
    (key, .ready kept) ∈ cache.slots.entries ∨
      effect.call.Stored (extracted ++ effect.extracted) key kept := by
  cases hworks with
  | grant =>
      rcases Table.mem_put h with heq | hmem
      · cases heq
      · exact .inl hmem
  | @settle key' fp marker result =>
      obtain ⟨-, -, rfl⟩ := htally
      cases result with
      | ok set =>
          rcases Table.mem_put h with heq | hmem
          · cases heq
            exact .inr .leaving
          · exact .inl hmem
      | error e =>
          simp only [SetCache.settle, abandon] at h
          split at h
          · exact .inl ((List.mem_filter.1 h).1)
          · exact .inl h
  | overwrite =>
      rcases Table.mem_put h with heq | hmem
      · cases heq
        exact .inr .alerting
      · exact .inl hmem
  | keep =>
      rcases Table.mem_put h with heq | hmem
      · cases heq
        exact .inr .put
      · exact .inl hmem
  | sweep => exact .inl ((List.mem_filter.1 h).1)
  | _ => exact .inl h

theorem Works.hits_le (hworks : call.Works offer cache effect) : cache.hits ≤ effect.cache.hits := by
  cases hworks <;> simp

theorem Works.misses_le (hworks : call.Works offer cache effect) :
    cache.misses ≤ effect.cache.misses := by
  cases hworks <;> simp

/-- A call for a set is over when it has asked and found it, or when its own extraction is over. -/
theorem Works.of_done (hworks : call.Works offer cache effect) {fp : Fingerprint} {answer : Result}
    (h : effect.call = .fetch key fp (.done answer)) :
    (call = .fetch key fp .asking ∧ ∃ kept, cache.slots.get? key = some (.ready kept) ∧
        kept.fingerprint.content = fp.content ∧ answer = .ok kept.set) ∨
      ∃ marker, call = .fetch key fp (.leaving marker answer) := by
  cases hworks with
  | hit hslot hcontent =>
      cases h
      exact .inl ⟨rfl, _, hslot, hcontent, rfl⟩
  | @alert key' fp' marker result =>
      cases h
      exact .inr ⟨marker, rfl⟩
  | _ => cases h

theorem warranted_come (request : Request) : request.call.Warranted known := by
  cases request <;> trivial

theorem eq_of_hear_eq_done {alert : Option Marker} {fp : Fingerprint} {answer : Result}
    (h : call.hear alert = .fetch key fp (.done answer)) : call = .fetch key fp (.done answer) :=
  Call.of_hear (P := (· = .fetch key fp (.done answer))) h nofun nofun

theorem eq_of_leave_eq_done {fp : Fingerprint} {answer : Result}
    (h : call.leave = .fetch key fp (.done answer)) : call = .fetch key fp (.done answer) :=
  Call.of_leave (P := (· = .fetch key fp (.done answer))) h nofun

theorem Warranted.mono (h : call.Warranted known)
    (hle : ∀ key kept, known key kept → known' key kept) : call.Warranted known' := by
  unfold Warranted at h ⊢
  split at h
  · exact hle _ _ h
  · obtain ⟨kept, hstored, hfits⟩ := h
    exact ⟨kept, hle _ _ hstored, hfits⟩
  · trivial

theorem Warranted.hear (h : call.Warranted known) (alert : Option Marker) :
    (call.hear alert).Warranted known := by
  unfold Call.hear
  split
  · trivial
  · trivial
  · exact h

theorem Warranted.leave (h : call.Warranted known) : call.leave.Warranted known := by
  unfold Call.leave
  split
  · trivial
  · exact h

theorem Warranted.advance (h : call.Warranted known) (hworks : call.Works offer cache effect)
    (hcache : ∀ key kept, (key, .ready kept) ∈ cache.slots.entries → known key kept) :
    effect.call.Warranted known := by
  cases hworks with
  | find hslot => exact hcache _ _ (Table.mem_of_get? hslot)
  | fit hfits => exact ⟨_, h, rfl, hfits⟩
  | _ => trivial

end Call

/-! ### Traffic -/

namespace Visit

def Tallied (v : Visit) : Prop :=
  v.call.Tally v.hits v.misses v.extracted

def Stored (v : Visit) (key : SetId) (kept : KeptSet) : Prop :=
  v.call.Stored v.extracted key kept

variable {v : Visit} {offer : Offer} {cache : SetCache} {effect : Effect}

/-- A piece of work counts what it must. -/
theorem Tallied.advance (h : v.Tallied) (hworks : v.call.Works offer cache effect) :
    (v.advance cache effect).Tallied := by
  obtain ⟨call, hits, misses, extracted⟩ := v
  simp only at hworks
  cases hworks <;> simp_all [Tallied, Call.Tally, Visit.advance]

theorem sum_add_sum {visits : List Visit} (h : ∀ v ∈ visits, v.Tallied) :
    (visits.map Visit.hits).sum + (visits.map Visit.misses).sum =
      visits.countP fun v => v.call.counts := by
  induction visits with
  | nil => rfl
  | cons v rest ih =>
      have hfirst := Call.Tally.add_eq (h v List.mem_cons_self)
      have hrest := ih fun w hw => h w (List.mem_cons_of_mem v hw)
      simp only [List.map_cons, List.sum_cons, List.countP_cons]
      omega

end Visit

namespace Traffic

/-- Some call has stored a set. -/
def Supplied (t : Traffic) (key : SetId) (kept : KeptSet) : Prop :=
  ∃ v ∈ t.visits, v.Stored key kept

/-- Every call has counted what it must, the cache has counted what they have, and every kept set has
been stored by a call. -/
structure Sound (t : Traffic) : Prop where
  tallied : ∀ v ∈ t.visits, v.Tallied
  hits_eq : t.cache.hits = (t.visits.map Visit.hits).sum
  misses_eq : t.cache.misses = (t.visits.map Visit.misses).sum
  supplied : ∀ key kept, (key, .ready kept) ∈ t.cache.slots.entries → t.Supplied key kept
  warranted : ∀ v ∈ t.visits, v.call.Warranted t.Supplied

variable {t : Traffic} {key : SetId} {kept : KeptSet}

theorem sound_new : Sound {} where
  tallied := by simp
  hits_eq := rfl
  misses_eq := rfl
  supplied _ _ h := by cases h
  warranted := by simp

theorem Supplied.enter (h : t.Supplied key kept) (request : Request) :
    (t.enter request).Supplied key kept := by
  obtain ⟨v, hv, hstored⟩ := h
  exact ⟨v, List.mem_append_left _ hv, hstored⟩

theorem Sound.enter (h : t.Sound) (request : Request) : (t.enter request).Sound where
  tallied := by
    intro v hv
    rcases List.mem_append.1 hv with hv | hv
    · exact h.tallied v hv
    · rw [List.mem_singleton.1 hv]
      exact Call.tally_come request
  hits_eq := by simp [Traffic.enter, h.hits_eq]
  misses_eq := by simp [Traffic.enter, h.misses_eq]
  supplied key kept hmem := (h.supplied key kept hmem).enter request
  warranted := by
    intro v hv
    rcases List.mem_append.1 hv with hv | hv
    · exact (h.warranted v hv).mono fun _ _ hs => hs.enter request
    · rw [List.mem_singleton.1 hv]
      exact Call.warranted_come request

/-- A call that changes keeps its credit if it forgets nothing that it has stored. -/
theorem Supplied.set (h : t.Supplied key kept) {i : Nat} {v w : Visit} (hv : t.visits[i]? = some v)
    (hkeep : v.Stored key kept → w.Stored key kept) (cache : SetCache) :
    ({ cache, visits := t.visits.set i w } : Traffic).Supplied key kept := by
  obtain ⟨u, hu, hstored⟩ := h
  obtain ⟨j, hj⟩ := List.mem_iff_getElem?.1 hu
  by_cases hij : i = j
  · subst hij
    have huv : u = v := Option.some.inj (hj.symm.trans hv)
    subst huv
    have hlt : i < t.visits.length := (List.getElem?_eq_some_iff.1 hv).1
    exact ⟨w, List.mem_set hlt w, hkeep hstored⟩
  · refine ⟨u, List.mem_iff_getElem?.2 ⟨j, ?_⟩, hstored⟩
    rw [List.getElem?_set_ne hij]
    exact hj

/-- One call changes and the cache with it, and what the counts go up by goes to this call. -/
theorem Sound.set (h : t.Sound) {i : Nat} {v w : Visit} (hv : t.visits[i]? = some v)
    (cache : SetCache) (htallied : w.Tallied)
    (hhits : w.hits + t.cache.hits = v.hits + cache.hits)
    (hmisses : w.misses + t.cache.misses = v.misses + cache.misses)
    (hkeep : ∀ key kept, v.Stored key kept → w.Stored key kept)
    (hstored : ∀ key kept, (key, .ready kept) ∈ cache.slots.entries →
      (key, .ready kept) ∈ t.cache.slots.entries ∨ w.Stored key kept)
    (hwarranted : w.call.Warranted t.Supplied) :
    ({ cache, visits := t.visits.set i w } : Traffic).Sound := by
  have hmono : ∀ key kept, t.Supplied key kept →
      ({ cache, visits := t.visits.set i w } : Traffic).Supplied key kept :=
    fun key kept hs => hs.set hv (hkeep key kept) cache
  have hlt : i < t.visits.length := (List.getElem?_eq_some_iff.1 hv).1
  refine ⟨?_, ?_, ?_, ?_, ?_⟩
  · intro u hu
    rcases List.mem_or_eq_of_mem_set hu with hu | rfl
    · exact h.tallied u hu
    · exact htallied
  · have hsum := sum_map_set Visit.hits hv w
    have hold := h.hits_eq
    simp only
    omega
  · have hsum := sum_map_set Visit.misses hv w
    have hold := h.misses_eq
    simp only
    omega
  · intro key kept hmem
    rcases hstored key kept hmem with hmem | hw
    · exact hmono key kept (h.supplied key kept hmem)
    · exact ⟨w, List.mem_set hlt w, hw⟩
  · intro u hu
    rcases List.mem_or_eq_of_mem_set hu with hu | rfl
    · exact (h.warranted u hu).mono hmono
    · exact hwarranted.mono hmono

/-- Nor does it matter who hears an alert. -/
theorem Sound.hear (h : t.Sound) (alert : Option Marker) :
    ({ t with visits := t.visits.map (·.hear alert) } : Traffic).Sound := by
  have hmono : ∀ key kept, t.Supplied key kept →
      ({ t with visits := t.visits.map (·.hear alert) } : Traffic).Supplied key kept := by
    rintro key kept ⟨v, hv, hstored⟩
    exact ⟨v.hear alert, List.mem_map_of_mem hv, Call.Stored.hear hstored alert⟩
  refine ⟨?_, ?_, ?_, ?_, ?_⟩
  · intro w hw
    obtain ⟨v, hv, rfl⟩ := List.mem_map.1 hw
    exact Call.Tally.hear (h.tallied v hv) alert
  · rw [List.map_map]
    exact h.hits_eq
  · rw [List.map_map]
    exact h.misses_eq
  · intro key kept hmem
    exact hmono key kept (h.supplied key kept hmem)
  · intro w hw
    obtain ⟨v, hv, rfl⟩ := List.mem_map.1 hw
    exact ((h.warranted v hv).hear alert).mono hmono

theorem Sound.leave (h : t.Sound) (i : Nat) : (t.leave i).Sound := by
  unfold Traffic.leave
  split
  · exact h
  · rename_i v hv
    have hmem : v ∈ t.visits := List.mem_of_getElem? hv
    exact h.set hv t.cache (Call.Tally.leave (h.tallied v hmem)) rfl rfl
      (fun _ _ hs => Call.Stored.leave hs) (fun _ _ hready => .inl hready)
      (h.warranted v hmem).leave

theorem Sound.work (h : t.Sound) (i : Nat) (offer : Offer) : (t.work i offer).Sound := by
  rcases t.work_cases i offer with heq | ⟨v, effect, hv, hworks, heq⟩
  · rwa [heq]
  · rw [heq]
    have hmem : v ∈ t.visits := List.mem_of_getElem? hv
    have hhits := hworks.hits_le
    have hmisses := hworks.misses_le
    refine (h.set hv effect.cache (w := v.advance t.cache effect) ((h.tallied v hmem).advance hworks)
      ?_ ?_ ?_ ?_ ?_).hear effect.alert
    · simp only [Visit.advance]
      omega
    · simp only [Visit.advance]
      omega
    · exact fun _ _ hs => Call.Stored.advance hs hworks
    · exact fun _ _ hready => hworks.stored (h.tallied v hmem) hready
    · exact (h.warranted v hmem).advance hworks h.supplied

theorem Sound.next (h : t.Sound) (e : Event) : (t.next e).Sound := by
  cases e with
  | come request => exact h.enter request
  | work i offer => exact h.work i offer
  | leave i => exact h.leave i

/-- Whatever comes, the cache and its calls stay in order. -/
theorem sound_after (events : List Event) : (after events).Sound :=
  after_induction sound_new (fun _ e h => h.next e) events

/-! ### Hits -/

/-- A call asks, and its answer has been stored under the content that it asks for. -/
def AsksFor (t : Traffic) (i : Nat) (key : SetId) (fp : Fingerprint) (answer : Result) : Prop :=
  (∃ v, t.visits[i]? = some v ∧ v.call = .fetch key fp .asking) ∧
    ∃ kept, t.Supplied key kept ∧ kept.fingerprint.content = fp.content ∧ answer = .ok kept.set

/-- A call is over, and it has extracted nothing. -/
def HandedOut (t : Traffic) (i : Nat) (key : SetId) (fp : Fingerprint) (answer : Result) : Prop :=
  ∃ v, t.visits[i]? = some v ∧ v.call = .fetch key fp (.done answer) ∧ v.extracted = []

variable {i : Nat} {fp : Fingerprint} {answer : Result}

theorem HandedOut.of_enter {request : Request} (h : (t.enter request).HandedOut i key fp answer) :
    t.HandedOut i key fp answer :=
  exists_of_enter (fun ⟨hcall, _⟩ => by cases request <;> cases hcall) h

theorem HandedOut.of_leave {j : Nat} (h : (t.leave j).HandedOut i key fp answer) :
    t.HandedOut i key fp answer :=
  exists_of_leave (fun ⟨hcall, hnone⟩ => ⟨Call.eq_of_leave_eq_done hcall, hnone⟩) h

/-- A piece of work that hands out a set is that of a call which asks for it. -/
theorem HandedOut.of_work (hsound : t.Sound) {j : Nat} {offer : Offer}
    (h : (t.work j offer).HandedOut i key fp answer) :
    t.HandedOut i key fp answer ∨ t.AsksFor i key fp answer := by
  rcases t.work_cases j offer with heq | ⟨w, effect, hw, hworks, heq⟩
  · rw [heq] at h
    exact .inl h
  · rw [heq] at h
    obtain ⟨v, hv, hcall, hnone⟩ := h
    rcases visit_of_advance hw hv with ⟨rfl, rfl⟩ | ⟨-, u, hu, rfl⟩
    · have hdone : effect.call = .fetch key fp (.done answer) := Call.eq_of_hear_eq_done hcall
      rcases hworks.of_done hdone with ⟨hask, kept, hslot, hcontent, rfl⟩ | ⟨marker, hleaving⟩
      · exact .inr ⟨⟨w, hw, hask⟩, kept, hsound.supplied _ _ (Table.mem_of_get? hslot), hcontent, rfl⟩
      · -- its own extraction is on record
        have htally := hsound.tallied w (List.mem_of_getElem? hw)
        rw [Visit.Tallied, hleaving] at htally
        obtain ⟨-, -, hextracted⟩ := htally
        simp [Visit.hear, Visit.advance, hextracted] at hnone
    · exact .inl ⟨u, hu, Call.eq_of_hear_eq_done hcall, hnone⟩

theorem HandedOut.of_next (hsound : t.Sound) {e : Event} (h : (t.next e).HandedOut i key fp answer) :
    t.HandedOut i key fp answer ∨ t.AsksFor i key fp answer := by
  cases e with
  | come request => exact .inl h.of_enter
  | work j offer => exact h.of_work hsound
  | leave j => exact .inl h.of_leave

/-- Whoever was handed a set asked for it at some moment, when it had been stored already. -/
theorem HandedOut.exists_asksFor {events : List Event}
    (h : (after events).HandedOut i key fp answer) :
    ∃ past, past <+: events ∧ (after past).AsksFor i key fp answer := by
  induction events using List.reverseRecOn with
  | nil =>
      obtain ⟨v, hv, -⟩ := h
      cases hv
  | append_singleton events e ih =>
      rw [after_concat] at h
      rcases h.of_next (sound_after events) with h | h
      · obtain ⟨past, hprefix, hasks⟩ := ih h
        exact ⟨past, hprefix.trans (List.prefix_append _ _), hasks⟩
      · exact ⟨events, List.prefix_append _ _, h⟩

/-- How the calls of a course of events are accounted for. -/
structure Accounted (events : List Event) : Prop where
  /-- The cache has counted what the calls have counted. -/
  hits_eq : (after events).cache.hits = ((after events).visits.map Visit.hits).sum
  misses_eq : (after events).cache.misses = ((after events).visits.map Visit.misses).sum
  /-- That is one for each call that is over or has begun to extract. -/
  count_eq : (after events).cache.hits + (after events).cache.misses =
    (after events).visits.countP fun v => v.call.counts
  /-- A call for a set comes to what its one extraction came to, and has counted a miss; or it has
  extracted nothing and counted a hit, and gets a set that had been stored for it when it asked. -/
  fetched : ∀ (i : Nat) (v : Visit) (key : SetId) (fp : Fingerprint) (answer : Result),
    (after events).visits[i]? = some v → v.call = .fetch key fp (.done answer) →
      v.hits = 0 ∧ v.misses = 1 ∧ v.extracted = [answer] ∨
      v.hits = 1 ∧ v.misses = 0 ∧ v.extracted = [] ∧
        ∃ past, past <+: events ∧ (after past).AsksFor i key fp answer
  /-- A call that looks for a kept set extracts nothing.  It has counted a hit and found a set that was
  stored and fits the files, or it has counted a miss and found none. -/
  looked : ∀ v ∈ (after events).visits, ∀ (key : SetId) (files : List Path) (fast : Bool) (disk : Disk)
    (answer : Option ProviderSet), v.call = .look key files fast (.done disk answer) →
      v.extracted = [] ∧
        (v.hits = 1 ∧ v.misses = 0 ∧ (∃ kept, (after events).Supplied key kept ∧
            KeptSet.fits kept disk files fast = true ∧ answer = some kept.set) ∨
          v.hits = 0 ∧ v.misses = 1 ∧ answer = none)

/-- **Every hit is justified and every call counts once.** -/
theorem accounts (events : List Event) : Accounted events := by
  have hsound := sound_after events
  refine ⟨hsound.hits_eq, hsound.misses_eq, ?_, ?_, ?_⟩
  · rw [hsound.hits_eq, hsound.misses_eq]
    exact Visit.sum_add_sum hsound.tallied
  · intro i v key fp answer hv hcall
    have htally := hsound.tallied v (List.mem_of_getElem? hv)
    rw [Visit.Tallied, hcall] at htally
    rcases htally with hown | ⟨hhits, hmisses, hnone, -⟩
    · exact .inl hown
    · have hhanded : (after events).HandedOut i key fp answer := ⟨v, hv, hcall, hnone⟩
      exact .inr ⟨hhits, hmisses, hnone, hhanded.exists_asksFor⟩
  · intro v hv key files fast disk answer hcall
    have htally := hsound.tallied v hv
    have hwarranted := hsound.warranted v hv
    rw [Visit.Tallied, hcall] at htally
    rw [hcall] at hwarranted
    cases answer with
    | none =>
        obtain ⟨hhits, hmisses, hnone⟩ := htally
        exact ⟨hnone, .inr ⟨hhits, hmisses, rfl⟩⟩
    | some set =>
        obtain ⟨hhits, hmisses, hnone⟩ := htally
        obtain ⟨kept, hstored, rfl, hfits⟩ := hwarranted
        exact ⟨hnone, .inl ⟨hhits, hmisses, kept, hstored, hfits, rfl⟩⟩

/-- Two callers want the same set.  The first one fails while the second sleeps, the second then
extracts for itself, and a third one is handed what that came to. -/
example :
    let key : SetId := ⟨"app", "Base"⟩
    let fails : Offer := { result := .error (.unknownSet "Base" "app") }
    let makes : Offer := { result := .ok ⟨key, []⟩ }
    let t := after <|
      [.come (.fetch key ⟨"v1", []⟩), .come (.fetch key ⟨"v1", []⟩)] ++
        [.work 0 fails, .work 1 makes, .work 1 makes, .work 1 makes] ++
        List.replicate 4 (.work 0 fails) ++ List.replicate 6 (.work 1 makes) ++
        [.come (.fetch key ⟨"v1", []⟩), .work 2 fails]
    t.visits.map (fun v => (v.hits, v.misses)) = [(0, 1), (0, 1), (1, 0)] ∧
      t.cache.hits = 1 ∧ t.cache.misses = 2 := by
  decide

end Traffic

end SetCache

end Wiring
