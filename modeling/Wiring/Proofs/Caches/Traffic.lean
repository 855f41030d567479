/-
**Many callers at one cache of sets.**

A cache of sets is shared by callers that do not wait for each other.  A call does its work in small
pieces, and between two pieces of one call any other call may go on: only a single read or write of
one slot is undivided.  In particular the files are read at one moment and the slot is written at a
later one, a marker is put down before the miss is counted, and a slot is settled before those who wait
for it are alerted.  Emptying the cache goes through its parts one by one.

A call that finds the marker of another one first listens for it, then looks whether it is still there,
and only then goes to sleep.  An alert reaches all who listen for its marker by then, and nobody else.

Main definitions:

* `Wiring.SetCache.Call` — a call and how far it has come;
* `Wiring.SetCache.Call.step` — its next piece of work;
* `Wiring.SetCache.Call.Works` — the same piece by piece;
* `Wiring.SetCache.Traffic` — a cache with all calls that have ever come to it;
* `Wiring.SetCache.Traffic.next`, `Wiring.SetCache.Traffic.after` — one event, and a course of events.

Main results:

* `Wiring.SetCache.Call.finish_fetch`, `Wiring.SetCache.Call.finish_put`,
  `Wiring.SetCache.Call.finish_look`, `Wiring.SetCache.sweep_all` — **a call that nobody disturbs does
  what the operation on the cache does**;
* `Wiring.SetCache.Traffic.after_induction` — what every event preserves holds after any course.
-/

import Mathlib.Data.List.Induction
import Wiring.Proofs.Caches.Visits
import Wiring.SetCache

set_option autoImplicit false

namespace Wiring

namespace SetCache

/-- What an extraction comes to. -/
abbrev Result := Except Failure ProviderSet

/-! ### Pieces of work -/

/-- Puts a fresh marker down; nothing is counted yet. -/
def reserve (cache : SetCache) (key : SetId) : SetCache :=
  { cache with
    slots := cache.slots.put key (.pending cache.nextMarker)
    nextMarker := cache.nextMarker + 1 }

/-- Takes the kept sets out of one part of the cache.  Markers stay. -/
def sweep (cache : SetCache) (part : SetId → Bool) : SetCache :=
  { cache with slots := cache.slots.filter fun key slot =>
      match slot with
      | .pending _ => true
      | .ready _ => !part key }

theorem grant_eq (cache : SetCache) (key : SetId) :
    cache.grant key = ((cache.reserve key).countMiss, .granted cache.nextMarker) := rfl

/-- Emptying the cache is sweeping all of it. -/
theorem sweep_all (cache : SetCache) : cache.sweep (fun _ => true) = cache.clear := rfl

/-- How far a call has come that wants a set and extracts it if it must. -/
inductive FetchStage where
  | asking
  /-- It has found the marker of another call. -/
  | told (marker : Marker)
  /-- It listens for that marker, and has yet to look whether it is still there. -/
  | listening (marker : Marker) (alerted : Bool)
  | asleep (marker : Marker) (alerted : Bool)
  /-- It has put its own marker down. -/
  | granted (marker : Marker)
  /-- The extraction runs. -/
  | extracting (marker : Marker)
  /-- The extraction is over, the slot is not settled yet. -/
  | holding (marker : Marker) (result : Result)
  /-- The slot is settled, those who wait for it are not alerted yet. -/
  | leaving (marker : Marker) (result : Result)
  | done (result : Result)
  /-- The caller gave up while it was asleep. -/
  | left

/-- How far a call has come that keeps a set. -/
inductive PutStage where
  | starting
  /-- It has read the files. -/
  | read (disk : Disk)
  /-- It has written over the marker of another call, and those who wait for it are not alerted yet. -/
  | alerting (disk : Disk) (marker : Marker)
  | done (disk : Disk)

/-- How far a call has come that looks for a kept set. -/
inductive LookStage where
  | starting
  /-- It has read the slot. -/
  | judging (found : Option KeptSet)
  /-- It has compared what it found with the files. -/
  | done (disk : Disk) (answer : Option ProviderSet)

/-- A call and how far it has come. -/
inductive Call where
  | fetch (key : SetId) (fingerprint : Fingerprint) (stage : FetchStage)
  | put (key : SetId) (set : ProviderSet) (files : List Path) (stage : PutStage)
  | look (key : SetId) (files : List Path) (fast : Bool) (stage : LookStage)
  | clear (cleared : Bool)

/-- What a caller may ask for. -/
inductive Request where
  | fetch (key : SetId) (fingerprint : Fingerprint)
  | put (key : SetId) (set : ProviderSet) (files : List Path)
  | look (key : SetId) (files : List Path) (fast : Bool)
  | clear

/-- The call before its first piece of work. -/
def Request.call : Request → Call
  | .fetch key fingerprint => .fetch key fingerprint .asking
  | .put key set files => .put key set files .starting
  | .look key files fast => .look key files fast .starting
  | .clear => .clear false

/-- What a piece of work may need from outside. -/
structure Offer where
  /-- The files as they are. -/
  disk : Disk := {}
  /-- What the extraction comes to. -/
  result : Result
  /-- The part of the cache that is emptied, or none if all of it has been. -/
  part : Option (SetId → Bool) := none

/-- What a piece of work does. -/
structure Effect where
  cache : SetCache
  call : Call
  /-- The marker whose waiters it alerts. -/
  alert : Option Marker := none
  /-- What an extraction came to that ran meanwhile. -/
  extracted : List Result := []

namespace Call

variable (offer : Offer) (cache : SetCache)

/-- The next piece of a call that wants a set. -/
def stepFetch (key : SetId) (fingerprint : Fingerprint) : FetchStage → Option Effect
  | .asking =>
    match cache.slots.get? key with
    | some (.pending marker) => some { cache, call := .fetch key fingerprint (.told marker) }
    | some (.ready kept) =>
      if kept.fingerprint.content = fingerprint.content then
        some { cache := cache.countHit, call := .fetch key fingerprint (.done (.ok kept.set)) }
      else some
        { cache := cache.reserve key, call := .fetch key fingerprint (.granted cache.nextMarker) }
    | none => some
        { cache := cache.reserve key, call := .fetch key fingerprint (.granted cache.nextMarker) }
  | .told marker => some { cache, call := .fetch key fingerprint (.listening marker false) }
  | .listening marker alerted =>
    if cache.isPending key marker then
      some { cache, call := .fetch key fingerprint (.asleep marker alerted) }
    else some { cache, call := .fetch key fingerprint .asking }
  | .asleep _ true => some { cache, call := .fetch key fingerprint .asking }
  | .asleep _ false => none
  | .granted marker =>
    some { cache := cache.countMiss, call := .fetch key fingerprint (.extracting marker) }
  | .extracting marker =>
    some
      { cache
        call := .fetch key fingerprint (.holding marker offer.result)
        extracted := [offer.result] }
  | .holding marker result =>
    some
      { cache := cache.settle key marker fingerprint result
        call := .fetch key fingerprint (.leaving marker result) }
  | .leaving marker result =>
    some { cache, call := .fetch key fingerprint (.done result), alert := some marker }
  | .done _ => none
  | .left => none

/-- The next piece of a call that keeps a set. -/
def stepPut (key : SetId) (set : ProviderSet) (files : List Path) : PutStage → Option Effect
  | .starting => some { cache, call := .put key set files (.read offer.disk) }
  | .read disk =>
    match cache.slots.get? key with
    | some (.pending marker) =>
      some
        { cache := cache.put disk key set files
          call := .put key set files (.alerting disk marker) }
    | _ => some { cache := cache.put disk key set files, call := .put key set files (.done disk) }
  | .alerting disk marker =>
    some { cache, call := .put key set files (.done disk), alert := some marker }
  | .done _ => none

/-- The next piece of a call that looks for a kept set. -/
def stepLook (key : SetId) (files : List Path) (fast : Bool) : LookStage → Option Effect
  | .starting =>
    match cache.slots.get? key with
    | some (.ready kept) => some { cache, call := .look key files fast (.judging (some kept)) }
    | _ => some { cache, call := .look key files fast (.judging none) }
  | .judging (some kept) =>
    if KeptSet.fits kept offer.disk files fast then
      some
        { cache := cache.countHit
          call := .look key files fast (.done offer.disk (some kept.set)) }
    else
      some { cache := cache.countMiss, call := .look key files fast (.done offer.disk none) }
  | .judging none =>
    some { cache := cache.countMiss, call := .look key files fast (.done offer.disk none) }
  | .done _ _ => none

/-- The next piece of a call, unless it is over or has to wait. -/
def step : Call → Option Effect
  | .fetch key fingerprint stage => stepFetch offer cache key fingerprint stage
  | .put key set files stage => stepPut offer cache key set files stage
  | .look key files fast stage => stepLook offer cache key files fast stage
  | .clear false =>
    match offer.part with
    | some part => some { cache := cache.sweep part, call := .clear false }
    | none => some { cache, call := .clear true }
  | .clear true => none

/-- An alert comes in. -/
def hear (alert : Option Marker) : Call → Call
  | .fetch key fingerprint (.listening marker alerted) =>
    .fetch key fingerprint (.listening marker (alerted || alert = some marker))
  | .fetch key fingerprint (.asleep marker alerted) =>
    .fetch key fingerprint (.asleep marker (alerted || alert = some marker))
  | call => call

/-- The caller gives up.  It can do so only where it sleeps. -/
def leave : Call → Call
  | .fetch key fingerprint (.asleep _ _) => .fetch key fingerprint .left
  | call => call

end Call

/-! ### Traffic -/

/-- A call at the cache, with what it has counted and what its extraction came to. -/
structure Visit where
  call : Call
  hits : Nat := 0
  misses : Nat := 0
  extracted : List Result := []

namespace Visit

/-- A piece of work is done; what the counts of the cache went up by goes to this call. -/
def advance (v : Visit) (before : SetCache) (effect : Effect) : Visit where
  call := effect.call
  hits := v.hits + (effect.cache.hits - before.hits)
  misses := v.misses + (effect.cache.misses - before.misses)
  extracted := v.extracted ++ effect.extracted

def hear (v : Visit) (alert : Option Marker) : Visit :=
  { v with call := v.call.hear alert }

def leave (v : Visit) : Visit :=
  { v with call := v.call.leave }

end Visit

/-- A cache and all calls that have ever come to it, in the order in which they came. -/
structure Traffic where
  cache : SetCache := {}
  visits : List Visit := []

/-- What may happen. -/
inductive Event where
  | come (request : Request)
  /-- A call goes on by one piece. -/
  | work (i : Nat) (offer : Offer)
  /-- A caller gives up. -/
  | leave (i : Nat)

namespace Traffic

/-- A call comes in. -/
def enter (t : Traffic) (request : Request) : Traffic :=
  { t with visits := t.visits ++ [{ call := request.call }] }

/-- A piece of work of one call is done. -/
def advance (t : Traffic) (i : Nat) (v : Visit) (effect : Effect) : Traffic where
  cache := effect.cache
  visits := (t.visits.set i (v.advance t.cache effect)).map (·.hear effect.alert)

/-- A call goes on by one piece; if it cannot, nothing happens. -/
def work (t : Traffic) (i : Nat) (offer : Offer) : Traffic :=
  match t.visits[i]? with
  | none => t
  | some v =>
    match v.call.step offer t.cache with
    | none => t
    | some effect => t.advance i v effect

/-- A caller gives up. -/
def leave (t : Traffic) (i : Nat) : Traffic :=
  match t.visits[i]? with
  | none => t
  | some v => { t with visits := t.visits.set i v.leave }

/-- One event. -/
def next (t : Traffic) : Event → Traffic
  | .come request => t.enter request
  | .work i offer => t.work i offer
  | .leave i => t.leave i

/-- A new cache after a course of events. -/
def after (events : List Event) : Traffic :=
  events.foldl next {}

theorem after_concat (events : List Event) (e : Event) :
    after (events ++ [e]) = (after events).next e := by
  rw [after, List.foldl_append]
  rfl

/-- What every event preserves holds after any course. -/
theorem after_induction {P : Traffic → Prop} (hnew : P {}) (hnext : ∀ t e, P t → P (t.next e))
    (events : List Event) : P (after events) := by
  induction events using List.reverseRecOn with
  | nil => exact hnew
  | append_singleton events e ih =>
      rw [after_concat]
      exact hnext _ e ih

end Traffic

/-! ### What a piece of work can be -/

/-- The pieces of work, each with what it finds and what it does. -/
inductive Call.Works (offer : Offer) (cache : SetCache) : Call → Effect → Prop
  | hit {key : SetId} {fp : Fingerprint} {kept : KeptSet}
      (hslot : cache.slots.get? key = some (.ready kept))
      (hcontent : kept.fingerprint.content = fp.content) :
      Works offer cache (.fetch key fp .asking)
        { cache := cache.countHit, call := .fetch key fp (.done (.ok kept.set)) }
  | grant {key : SetId} {fp : Fingerprint}
      (hfree : ∀ marker, cache.slots.get? key ≠ some (.pending marker)) :
      Works offer cache (.fetch key fp .asking)
        { cache := cache.reserve key, call := .fetch key fp (.granted cache.nextMarker) }
  | told {key : SetId} {fp : Fingerprint} {marker : Marker}
      (hslot : cache.slots.get? key = some (.pending marker)) :
      Works offer cache (.fetch key fp .asking) { cache, call := .fetch key fp (.told marker) }
  | listen {key : SetId} {fp : Fingerprint} {marker : Marker} :
      Works offer cache (.fetch key fp (.told marker))
        { cache, call := .fetch key fp (.listening marker false) }
  | sleep {key : SetId} {fp : Fingerprint} {marker : Marker} {alerted : Bool}
      (hslot : cache.slots.get? key = some (.pending marker)) :
      Works offer cache (.fetch key fp (.listening marker alerted))
        { cache, call := .fetch key fp (.asleep marker alerted) }
  | gone {key : SetId} {fp : Fingerprint} {marker : Marker} {alerted : Bool}
      (hslot : cache.slots.get? key ≠ some (.pending marker)) :
      Works offer cache (.fetch key fp (.listening marker alerted))
        { cache, call := .fetch key fp .asking }
  | wake {key : SetId} {fp : Fingerprint} {marker : Marker} :
      Works offer cache (.fetch key fp (.asleep marker true))
        { cache, call := .fetch key fp .asking }
  | count {key : SetId} {fp : Fingerprint} {marker : Marker} :
      Works offer cache (.fetch key fp (.granted marker))
        { cache := cache.countMiss, call := .fetch key fp (.extracting marker) }
  | extract {key : SetId} {fp : Fingerprint} {marker : Marker} :
      Works offer cache (.fetch key fp (.extracting marker))
        { cache
          call := .fetch key fp (.holding marker offer.result)
          extracted := [offer.result] }
  | settle {key : SetId} {fp : Fingerprint} {marker : Marker} {result : Result} :
      Works offer cache (.fetch key fp (.holding marker result))
        { cache := cache.settle key marker fp result
          call := .fetch key fp (.leaving marker result) }
  | alert {key : SetId} {fp : Fingerprint} {marker : Marker} {result : Result} :
      Works offer cache (.fetch key fp (.leaving marker result))
        { cache, call := .fetch key fp (.done result), alert := some marker }
  | read {key : SetId} {set : ProviderSet} {files : List Path} :
      Works offer cache (.put key set files .starting)
        { cache, call := .put key set files (.read offer.disk) }
  | overwrite {key : SetId} {set : ProviderSet} {files : List Path} {disk : Disk} {marker : Marker}
      (hslot : cache.slots.get? key = some (.pending marker)) :
      Works offer cache (.put key set files (.read disk))
        { cache := cache.put disk key set files
          call := .put key set files (.alerting disk marker) }
  | keep {key : SetId} {set : ProviderSet} {files : List Path} {disk : Disk}
      (hfree : ∀ marker, cache.slots.get? key ≠ some (.pending marker)) :
      Works offer cache (.put key set files (.read disk))
        { cache := cache.put disk key set files, call := .put key set files (.done disk) }
  | inform {key : SetId} {set : ProviderSet} {files : List Path} {disk : Disk} {marker : Marker} :
      Works offer cache (.put key set files (.alerting disk marker))
        { cache, call := .put key set files (.done disk), alert := some marker }
  | find {key : SetId} {files : List Path} {fast : Bool} {kept : KeptSet}
      (hslot : cache.slots.get? key = some (.ready kept)) :
      Works offer cache (.look key files fast .starting)
        { cache, call := .look key files fast (.judging (some kept)) }
  | lack {key : SetId} {files : List Path} {fast : Bool} :
      Works offer cache (.look key files fast .starting)
        { cache, call := .look key files fast (.judging none) }
  | fit {key : SetId} {files : List Path} {fast : Bool} {kept : KeptSet}
      (hfits : KeptSet.fits kept offer.disk files fast = true) :
      Works offer cache (.look key files fast (.judging (some kept)))
        { cache := cache.countHit
          call := .look key files fast (.done offer.disk (some kept.set)) }
  | miss {key : SetId} {files : List Path} {fast : Bool} {found : Option KeptSet} :
      Works offer cache (.look key files fast (.judging found))
        { cache := cache.countMiss, call := .look key files fast (.done offer.disk none) }
  | sweep {part : SetId → Bool} :
      Works offer cache (.clear false) { cache := cache.sweep part, call := .clear false }
  | cleared : Works offer cache (.clear false) { cache, call := .clear true }

namespace Call

variable {offer : Offer} {cache : SetCache} {effect : Effect}

theorem works_of_stepFetch {key : SetId} {fp : Fingerprint} {stage : FetchStage}
    (h : stepFetch offer cache key fp stage = some effect) :
    Works offer cache (.fetch key fp stage) effect := by
  cases stage with
  | asking =>
      cases hslot : cache.slots.get? key with
      | none =>
          simp only [stepFetch, hslot, Option.some.injEq] at h
          subst h
          exact .grant (by simp [hslot])
      | some slot =>
          cases slot with
          | pending marker =>
              simp only [stepFetch, hslot, Option.some.injEq] at h
              subst h
              exact .told hslot
          | ready kept =>
              by_cases hcontent : kept.fingerprint.content = fp.content
              · simp only [stepFetch, hslot, if_pos hcontent, Option.some.injEq] at h
                subst h
                exact .hit hslot hcontent
              · simp only [stepFetch, hslot, if_neg hcontent, Option.some.injEq] at h
                subst h
                exact .grant (by simp [hslot])
  | told marker => cases h; exact .listen
  | listening marker alerted =>
      by_cases hslot : cache.slots.get? key = some (.pending marker)
      · simp only [stepFetch, isPending, hslot, decide_true, if_true, Option.some.injEq] at h
        subst h
        exact .sleep hslot
      · simp only [stepFetch, isPending, hslot, decide_false, Bool.false_eq_true, if_false,
          Option.some.injEq] at h
        subst h
        exact .gone hslot
  | asleep marker alerted =>
      cases alerted with
      | true => cases h; exact .wake
      | false => cases h
  | granted marker => cases h; exact .count
  | extracting marker => cases h; exact .extract
  | holding marker result => cases h; exact .settle
  | leaving marker result => cases h; exact .alert
  | done result => cases h
  | left => cases h

theorem works_of_stepPut {key : SetId} {set : ProviderSet} {files : List Path} {stage : PutStage}
    (h : stepPut offer cache key set files stage = some effect) :
    Works offer cache (.put key set files stage) effect := by
  cases stage with
  | starting => cases h; exact .read
  | read disk =>
      cases hslot : cache.slots.get? key with
      | none =>
          simp only [stepPut, hslot, Option.some.injEq] at h
          subst h
          exact .keep (by simp [hslot])
      | some slot =>
          cases slot with
          | pending marker =>
              simp only [stepPut, hslot, Option.some.injEq] at h
              subst h
              exact .overwrite hslot
          | ready kept =>
              simp only [stepPut, hslot, Option.some.injEq] at h
              subst h
              exact .keep (by simp [hslot])
  | alerting disk marker => cases h; exact .inform
  | done disk => cases h

theorem works_of_stepLook {key : SetId} {files : List Path} {fast : Bool} {stage : LookStage}
    (h : stepLook offer cache key files fast stage = some effect) :
    Works offer cache (.look key files fast stage) effect := by
  cases stage with
  | starting =>
      simp only [stepLook] at h
      split at h <;> cases h
      · exact .find (by assumption)
      · exact .lack
  | judging found =>
      cases found with
      | none => cases h; exact .miss
      | some kept =>
          simp only [stepLook] at h
          split at h <;> cases h
          · exact .fit (by assumption)
          · exact .miss
  | done disk answer => cases h

/-- There are no other pieces of work. -/
theorem works_of_step {call : Call} (h : call.step offer cache = some effect) :
    call.Works offer cache effect := by
  cases call with
  | fetch key fp stage => exact works_of_stepFetch h
  | put key set files stage => exact works_of_stepPut h
  | look key files fast stage => exact works_of_stepLook h
  | clear cleared =>
      cases cleared with
      | true => cases h
      | false =>
          simp only [step] at h
          split at h <;> cases h
          · exact .sweep
          · exact .cleared

section Others

variable {P : Call → Prop} {call : Call} {alert : Option Marker}

/-- What holds of nobody who listens or sleeps has held before an alert came in. -/
theorem of_hear (h : P (call.hear alert))
    (hlistening : ∀ key fp marker alerted, ¬ P (.fetch key fp (.listening marker alerted)))
    (hasleep : ∀ key fp marker alerted, ¬ P (.fetch key fp (.asleep marker alerted))) : P call := by
  unfold Call.hear at h
  split at h
  · exact absurd h (hlistening _ _ _ _)
  · exact absurd h (hasleep _ _ _ _)
  · exact h

/-- What holds of nobody who has given up has held before. -/
theorem of_leave (h : P call.leave) (hleft : ∀ key fp, ¬ P (.fetch key fp .left)) : P call := by
  unfold Call.leave at h
  split at h
  · exact absurd h (hleft _ _)
  · exact h

end Others

end Call

/-- A call that goes on does a piece of work, or nothing happens. -/
theorem Traffic.work_cases (t : Traffic) (i : Nat) (offer : Offer) :
    t.work i offer = t ∨
      ∃ v effect, t.visits[i]? = some v ∧ v.call.Works offer t.cache effect ∧
        t.work i offer = t.advance i v effect := by
  unfold work
  cases hv : t.visits[i]? with
  | none => exact .inl rfl
  | some v =>
      cases hstep : v.call.step offer t.cache with
      | none => exact .inl (by simp [hstep])
      | some effect =>
          exact .inr ⟨v, effect, rfl, Call.works_of_step hstep, by simp [hstep]⟩

namespace Traffic

variable {t : Traffic} {i j : Nat} {v w : Visit} {effect : Effect}

/-! ### A call before and after an event -/

theorem visit_of_enter {request : Request} (h : (t.enter request).visits[i]? = some v) :
    t.visits[i]? = some v ∨ v = { call := request.call } :=
  getElem?_of_concat h

theorem visit_enter (h : t.visits[i]? = some v) (request : Request) :
    (t.enter request).visits[i]? = some v :=
  getElem?_concat h _

@[simp] theorem cache_leave (t : Traffic) (j : Nat) : (t.leave j).cache = t.cache := by
  unfold leave
  split <;> rfl

/-- Who gives up changes nobody else's entry. -/
theorem visits_leave (t : Traffic) (j : Nat) :
    (t.leave j).visits = t.visits.modify j Visit.leave := by
  unfold leave
  split
  next hnone => exact (List.modify_eq_self (List.getElem?_eq_none_iff.1 hnone)).symm
  next w hw => exact (modify_of_getElem? hw _).symm

theorem visit_of_leave (h : (t.leave j).visits[i]? = some v) :
    ∃ w, t.visits[i]? = some w ∧ (v = w ∨ v = w.leave) := by
  rw [visits_leave] at h
  exact getElem?_of_modify h

/-- What a call is after somebody gave up. -/
theorem visit_leave (h : t.visits[i]? = some v) (j : Nat) :
    (t.leave j).visits[i]? = some v ∨ (t.leave j).visits[i]? = some v.leave := by
  rw [visits_leave]
  exact getElem?_modify_cases h Visit.leave j

/-- It is the one that went on, or it may have heard an alert. -/
theorem visit_of_advance (hw : t.visits[j]? = some w)
    (h : (t.advance j w effect).visits[i]? = some v) :
    (j = i ∧ v = (w.advance t.cache effect).hear effect.alert) ∨
      j ≠ i ∧ ∃ u, t.visits[i]? = some u ∧ v = u.hear effect.alert :=
  getElem?_of_map_set hw h

/-- What the call is that went on. -/
theorem visit_advance_self (hw : t.visits[j]? = some w) (effect : Effect) :
    (t.advance j w effect).visits[j]? = some ((w.advance t.cache effect).hear effect.alert) :=
  getElem?_map_set_at hw _ _

/-- The others may have heard an alert. -/
theorem visit_advance_other (h : t.visits[i]? = some v) (hne : j ≠ i) (w : Visit) (effect : Effect) :
    (t.advance j w effect).visits[i]? = some (v.hear effect.alert) :=
  getElem?_map_set_ne h hne _ _

/-! ### A property of one call -/

section Property

variable {Q : Visit → Prop}

theorem exists_of_enter {request : Request} (hnew : ¬ Q { call := request.call })
    (h : ∃ v, (t.enter request).visits[i]? = some v ∧ Q v) : ∃ v, t.visits[i]? = some v ∧ Q v :=
  exists_of_concat hnew h

theorem exists_enter (h : ∃ v, t.visits[i]? = some v ∧ Q v) (request : Request) :
    ∃ v, (t.enter request).visits[i]? = some v ∧ Q v :=
  exists_concat h _

theorem exists_of_leave (hback : ∀ {w : Visit}, Q w.leave → Q w)
    (h : ∃ v, (t.leave j).visits[i]? = some v ∧ Q v) : ∃ v, t.visits[i]? = some v ∧ Q v := by
  rw [visits_leave] at h
  exact exists_of_modify hback h

theorem exists_leave (hon : ∀ {w : Visit}, Q w → Q w.leave)
    (h : ∃ v, t.visits[i]? = some v ∧ Q v) (j : Nat) : ∃ v, (t.leave j).visits[i]? = some v ∧ Q v := by
  rw [visits_leave]
  exact exists_modify (fun hq => hon hq) h j

end Property

end Traffic

/-! ### Calls that nobody disturbs -/

namespace Call

/-- A call that goes on piece by piece, while nobody else does anything. -/
def finish (offer : Offer) : Nat → SetCache → Call → SetCache × Call
  | 0, cache, call => (cache, call)
  | n + 1, cache, call =>
    match call.step offer cache with
    | none => (cache, call)
    | some effect => finish offer n effect.cache effect.call

variable (offer : Offer) (cache : SetCache)

/-- A call that wants a set gets it as the operation says, if nobody is extracting it. -/
theorem finish_fetch {key : SetId} {fingerprint : Fingerprint} {answer : Result}
    {cache' : SetCache}
    (h : cache.getOrExtract key fingerprint offer.result = (cache', some answer)) :
    finish offer 5 cache (.fetch key fingerprint .asking) =
      (cache', .fetch key fingerprint (.done answer)) := by
  unfold getOrExtract claim at h
  cases hslot : cache.slots.get? key with
  | none =>
      simp only [hslot, grant_eq, Prod.mk.injEq, Option.some.injEq] at h
      obtain ⟨rfl, rfl⟩ := h
      simp [finish, step, stepFetch, hslot]
  | some slot =>
      cases slot with
      | pending marker => simp [hslot] at h
      | ready kept =>
          by_cases hcontent : kept.fingerprint.content = fingerprint.content
          · simp only [hslot, if_pos hcontent, Prod.mk.injEq, Option.some.injEq] at h
            obtain ⟨rfl, rfl⟩ := h
            simp [finish, step, stepFetch, hslot, hcontent]
          · simp only [hslot, if_neg hcontent, grant_eq, Prod.mk.injEq, Option.some.injEq] at h
            obtain ⟨rfl, rfl⟩ := h
            simp [finish, step, stepFetch, hslot, hcontent]

/-- A call that keeps a set has kept it in the end. -/
theorem finish_put (key : SetId) (set : ProviderSet) (files : List Path) :
    finish offer 3 cache (.put key set files .starting) =
      (cache.put offer.disk key set files, .put key set files (.done offer.disk)) := by
  cases hslot : cache.slots.get? key with
  | none => simp [finish, step, stepPut, hslot]
  | some slot => cases slot <;> simp [finish, step, stepPut, hslot]

/-- A call that looks for a kept set finds and counts what the operation does. -/
theorem finish_look (key : SetId) (files : List Path) (fast : Bool) :
    finish offer 2 cache (.look key files fast .starting) =
      ((cache.lookup offer.disk key files fast).1,
        .look key files fast (.done offer.disk (cache.lookup offer.disk key files fast).2)) := by
  cases hslot : cache.slots.get? key with
  | none => simp [finish, step, stepLook, lookup, peek, hslot]
  | some slot =>
      cases slot with
      | pending marker => simp [finish, step, stepLook, lookup, peek, hslot]
      | ready kept =>
          by_cases hfits : KeptSet.fits kept offer.disk files fast = true
          · simp [finish, step, stepLook, lookup, peek, hslot, hfits]
          · simp [finish, step, stepLook, lookup, peek, hslot, hfits]

end Call

end SetCache

end Wiring
