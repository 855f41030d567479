/-
**Many callers at one cache of packages.**

A cache of packages is shared by callers that do not wait for each other, as a cache of sets is.  A call
does its work in small pieces, and between two pieces of one call any other call may go on: only a single
read or write of one slot is undivided.  A load may take any time, and its answer may be another one each
time.  The run may be cancelled at any moment; a call notices that only where it looks.

A caller may give up where it has to wait: before its call has begun, while it sleeps, and while the loader
is at work.  In the last case the marker that it has put down is taken out again, and those who wait for it
are alerted, as they are when a load is cut short.

Main definitions:

* `Wiring.PackageCache.Call` — a call and how far it has come;
* `Wiring.PackageCache.Call.step` — its next piece of work;
* `Wiring.PackageCache.Call.Works` — the same piece by piece;
* `Wiring.PackageCache.Traffic` — a cache with all calls that have ever come to it;
* `Wiring.PackageCache.Traffic.next`, `Wiring.PackageCache.Traffic.after` — one event, and a course of
  events;
* `Wiring.PackageCache.Call.Turns` — what a piece of work does to one slot.

Main results:

* `Wiring.PackageCache.Call.finish_seed`, `Wiring.PackageCache.Call.finish_get` — **a call that nobody
  disturbs does what the operation on the cache does**;
* `Wiring.PackageCache.Call.Works.turns` — there is nothing else that can happen to a slot;
* `Wiring.PackageCache.Traffic.after_induction` — what every event preserves holds after any course.
-/

import Mathlib.Data.List.Induction
import Wiring.Proofs.Caches.Visits
import Wiring.Proofs.Run.Calm

set_option autoImplicit false

namespace Wiring

namespace PackageCache

/-- What a lookup comes to. -/
abbrev Result := Except Failure Package

/-! ### Pieces of work -/

/-- Puts a fresh marker down. -/
def reserve (cache : PackageCache) (path : String) : PackageCache :=
  { cache with
    slots := cache.slots.put path (.pending cache.nextMarker)
    nextMarker := cache.nextMarker + 1 }

/-- Puts a package into its slot, if that is empty. -/
def offerPackage (cache : PackageCache) (pkg : Package) : PackageCache :=
  { cache with slots := seedPackage cache.slots pkg }

/-- Puts a load error into its slot, if that is empty. -/
def offerError (cache : PackageCache) (e : LoadError) : PackageCache :=
  { cache with slots := seedError cache.slots e }

/-- How far a call has come that wants a package. -/
inductive GetStage where
  | asking
  /-- It has found the marker of another call. -/
  | told (marker : Marker)
  /-- It listens for that marker, and has yet to look whether it is still there. -/
  | listening (marker : Marker) (alerted : Bool)
  | asleep (marker : Marker) (alerted : Bool)
  /-- It has put its own marker down. -/
  | granted (marker : Marker)
  /-- It has found that the run is not cancelled. -/
  | admitted (marker : Marker)
  /-- The loader is at work. -/
  | loading (marker : Marker)
  /-- The loader has answered. -/
  | loaded (marker : Marker) (outcome : LoadOutcome)
  /-- It knows what the load says about the package. -/
  | settling (marker : Marker) (result : Result)
  /-- It gives up its marker, with a result or, if the caller has gone, without one. -/
  | releasing (marker : Marker) (result? : Option Result)
  /-- The slot is done with, those who wait for it are not alerted yet. -/
  | leaving (marker : Marker) (result? : Option Result)
  /-- The call is over. -/
  | ended (result? : Option Result)

/-- Whether a call may hear an alert. -/
def GetStage.hears : GetStage → Bool
  | .listening _ _ => true
  | .asleep _ _ => true
  | _ => false

/-- A call and how far it has come. -/
inductive Call where
  | get (path : String) (stage : GetStage)
  /-- A call that fills slots, with what is still to be put in. -/
  | seed (packages : List Package) (errors : List LoadError)

/-- What a caller may ask for. -/
inductive Request where
  | get (path : String)
  | seed (outcome : LoadOutcome)

/-- The call before its first piece of work. -/
def Request.call : Request → Call
  | .get path => .get path .asking
  | .seed outcome => .seed outcome.packages outcome.errors

/-- What a piece of work may need from outside. -/
structure Offer where
  /-- The answer of the loader. -/
  outcome : LoadOutcome := {}
  /-- A sleeper has slept long enough to look at the slot again. -/
  elapsed : Bool := false

/-- What a piece of work does. -/
structure Effect where
  cache : PackageCache
  call : Call
  /-- The marker whose waiters it alerts. -/
  alert : Option Marker := none

namespace Call

variable (offer : Offer) (cancelled : Bool) (cache : PackageCache)

/-- The next piece of a call that wants a package. -/
def stepGet (path : String) : GetStage → Option Effect
  | .asking =>
    match cache.slots.get? path with
    | some (.ready pkg) => some { cache, call := .get path (.ended (some (.ok pkg))) }
    | some (.failed failure) => some { cache, call := .get path (.ended (some (.error failure))) }
    | some (.pending marker) => some { cache, call := .get path (.told marker) }
    | none =>
      if cache.isLazy then
        some { cache := cache.reserve path, call := .get path (.granted cache.nextMarker) }
      else some { cache, call := .get path (.ended (some (.error (.packageNotFound path)))) }
  | .told marker => some { cache, call := .get path (.listening marker false) }
  | .listening marker alerted =>
    if cache.isPending path marker then some { cache, call := .get path (.asleep marker alerted) }
    else some { cache, call := .get path .asking }
  | .asleep marker alerted =>
    if offer.elapsed then some { cache, call := .get path (.listening marker alerted) }
    else if alerted then some { cache, call := .get path .asking }
    else none
  | .granted marker =>
    if cancelled then
      some { cache, call := .get path (.releasing marker (some (.error .cancelled))) }
    else some { cache, call := .get path (.admitted marker) }
  | .admitted marker => some { cache := cache.countLoad, call := .get path (.loading marker) }
  | .loading marker => some { cache, call := .get path (.loaded marker offer.outcome) }
  | .loaded marker outcome =>
    match verdict path outcome cancelled with
    | .found pkg => some { cache, call := .get path (.settling marker (.ok pkg)) }
    | .failed failure => some { cache, call := .get path (.settling marker (.error failure)) }
    | .cancelled => some { cache, call := .get path (.releasing marker (some (.error .cancelled))) }
  | .settling marker result =>
    some
      { cache := cache.settle path (.holding result)
        call := .get path (.leaving marker (some result)) }
  | .releasing marker result? =>
    some { cache := cache.release path marker, call := .get path (.leaving marker result?) }
  | .leaving marker result? => some { cache, call := .get path (.ended result?), alert := some marker }
  | .ended _ => none

/-- The next piece of a call, unless it is over or has to wait. -/
def step : Call → Option Effect
  | .get path stage => stepGet offer cancelled cache path stage
  | .seed (pkg :: packages) errors =>
    some { cache := cache.offerPackage pkg, call := .seed packages errors }
  | .seed [] (e :: errors) => some { cache := cache.offerError e, call := .seed [] errors }
  | .seed [] [] => none

/-- An alert comes in. -/
def hear (alert : Option Marker) : Call → Call
  | .get path (.listening marker alerted) =>
    .get path (.listening marker (alerted || alert = some marker))
  | .get path (.asleep marker alerted) => .get path (.asleep marker (alerted || alert = some marker))
  | call => call

/-- The caller gives up, where it can.  A load that it has begun is dropped, and its marker with it. -/
def leave : Call → Call
  | .get path .asking => .get path (.ended none)
  | .get path (.asleep _ _) => .get path (.ended none)
  | .get path (.loading marker) => .get path (.releasing marker none)
  | call => call

/-- Whether a call is over. -/
def IsOver : Call → Prop
  | .get _ (.ended _) => True
  | .seed [] [] => True
  | _ => False

/-- Whether the caller has given the call up. -/
def isGivenUp : Call → Bool
  | .get _ (.releasing _ none) => true
  | .get _ (.leaving _ none) => true
  | .get _ (.ended none) => true
  | _ => false

/-- Whether a call wants a given package. -/
def wants (path : String) : Call → Bool
  | .get other _ => other = path
  | .seed _ _ => false

/-- What a piece of work can be. -/
inductive Works : Call → Effect → Prop
  | find {path : String} {result : Result}
      (hslot : cache.slots.get? path = some (.holding result)) :
      Works (.get path .asking) { cache, call := .get path (.ended (some result)) }
  | lack {path : String} (hslot : cache.slots.get? path = none) (heager : cache.isLazy = false) :
      Works (.get path .asking)
        { cache, call := .get path (.ended (some (.error (.packageNotFound path)))) }
  | grant {path : String} (hslot : cache.slots.get? path = none) (hlazy : cache.isLazy = true) :
      Works (.get path .asking)
        { cache := cache.reserve path, call := .get path (.granted cache.nextMarker) }
  | told {path : String} {marker : Marker}
      (hslot : cache.slots.get? path = some (.pending marker)) :
      Works (.get path .asking) { cache, call := .get path (.told marker) }
  | listen {path : String} {marker : Marker} :
      Works (.get path (.told marker)) { cache, call := .get path (.listening marker false) }
  | sleep {path : String} {marker : Marker} {alerted : Bool}
      (hslot : cache.slots.get? path = some (.pending marker)) :
      Works (.get path (.listening marker alerted))
        { cache, call := .get path (.asleep marker alerted) }
  | gone {path : String} {marker : Marker} {alerted : Bool}
      (hslot : cache.slots.get? path ≠ some (.pending marker)) :
      Works (.get path (.listening marker alerted)) { cache, call := .get path .asking }
  | look {path : String} {marker : Marker} {alerted : Bool} :
      Works (.get path (.asleep marker alerted))
        { cache, call := .get path (.listening marker alerted) }
  | wake {path : String} {marker : Marker} :
      Works (.get path (.asleep marker true)) { cache, call := .get path .asking }
  | allow {path : String} {marker : Marker} (hlive : cancelled = false) :
      Works (.get path (.granted marker)) { cache, call := .get path (.admitted marker) }
  | refuse {path : String} {marker : Marker} (hcancelled : cancelled = true) :
      Works (.get path (.granted marker))
        { cache, call := .get path (.releasing marker (some (.error .cancelled))) }
  | begin {path : String} {marker : Marker} :
      Works (.get path (.admitted marker))
        { cache := cache.countLoad, call := .get path (.loading marker) }
  | answer {path : String} {marker : Marker} :
      Works (.get path (.loading marker))
        { cache, call := .get path (.loaded marker offer.outcome) }
  | judge {path : String} {marker : Marker} {outcome : LoadOutcome} {result : Result}
      (hverdict : verdict path outcome cancelled = .of result) :
      Works (.get path (.loaded marker outcome))
        { cache, call := .get path (.settling marker result) }
  | cutShort {path : String} {marker : Marker} {outcome : LoadOutcome}
      (hverdict : verdict path outcome cancelled = .cancelled) :
      Works (.get path (.loaded marker outcome))
        { cache, call := .get path (.releasing marker (some (.error .cancelled))) }
  | settle {path : String} {marker : Marker} {result : Result} :
      Works (.get path (.settling marker result))
        { cache := cache.settle path (.holding result)
          call := .get path (.leaving marker (some result)) }
  | release {path : String} {marker : Marker} {result? : Option Result} :
      Works (.get path (.releasing marker result?))
        { cache := cache.release path marker, call := .get path (.leaving marker result?) }
  | alert {path : String} {marker : Marker} {result? : Option Result} :
      Works (.get path (.leaving marker result?))
        { cache, call := .get path (.ended result?), alert := some marker }
  | offerPackage {pkg : Package} {packages : List Package} {errors : List LoadError} :
      Works (.seed (pkg :: packages) errors)
        { cache := cache.offerPackage pkg, call := .seed packages errors }
  | offerError {e : LoadError} {errors : List LoadError} :
      Works (.seed [] (e :: errors)) { cache := cache.offerError e, call := .seed [] errors }

variable {offer cancelled cache} {effect : Effect}

theorem works_of_stepGet {path : String} {stage : GetStage}
    (h : stepGet offer cancelled cache path stage = some effect) :
    Works offer cancelled cache (.get path stage) effect := by
  cases stage with
  | asking =>
      cases hslot : cache.slots.get? path with
      | none =>
          cases hlazy : cache.isLazy with
          | true =>
              simp only [stepGet, hslot, hlazy, if_true, Option.some.injEq] at h
              subst h
              exact .grant hslot hlazy
          | false =>
              simp only [stepGet, hslot, hlazy, Bool.false_eq_true, if_false, Option.some.injEq] at h
              subst h
              exact .lack hslot hlazy
      | some slot =>
          cases slot with
          | pending marker =>
              simp only [stepGet, hslot, Option.some.injEq] at h
              subst h
              exact .told hslot
          | ready pkg =>
              simp only [stepGet, hslot, Option.some.injEq] at h
              subst h
              exact .find hslot
          | failed failure =>
              simp only [stepGet, hslot, Option.some.injEq] at h
              subst h
              exact .find hslot
  | told marker => cases h; exact .listen
  | listening marker alerted =>
      simp only [stepGet] at h
      split at h <;> cases h
      · exact .sleep (by simpa [isPending] using ‹cache.isPending path marker = true›)
      · exact .gone (by simpa [isPending] using ‹¬cache.isPending path marker = true›)
  | asleep marker alerted =>
      simp only [stepGet] at h
      split at h
      · cases h; exact .look
      · cases alerted with
        | true => cases h; exact .wake
        | false => cases h
  | granted marker =>
      cases cancelled with
      | true => cases h; exact .refuse rfl
      | false => cases h; exact .allow rfl
  | admitted marker => cases h; exact .begin
  | loading marker => cases h; exact .answer
  | loaded marker outcome =>
      cases hverdict : verdict path outcome cancelled with
      | found pkg =>
          simp only [stepGet, hverdict, Option.some.injEq] at h
          subst h
          exact .judge hverdict
      | failed failure =>
          simp only [stepGet, hverdict, Option.some.injEq] at h
          subst h
          exact .judge hverdict
      | cancelled =>
          simp only [stepGet, hverdict, Option.some.injEq] at h
          subst h
          exact .cutShort hverdict
  | settling marker result => cases h; exact .settle
  | releasing marker result? => cases h; exact .release
  | leaving marker result? => cases h; exact .alert
  | ended result? => cases h

variable {call : Call} {path : String} {stage : GetStage} {alert : Option Marker}

/-- What holds of nobody who listens or sleeps has held before an alert came in. -/
theorem of_hear {P : Call → Prop} (h : P (call.hear alert))
    (hlistening : ∀ path marker alerted, ¬ P (.get path (.listening marker alerted)))
    (hasleep : ∀ path marker alerted, ¬ P (.get path (.asleep marker alerted))) : P call := by
  unfold Call.hear at h
  split at h
  · exact absurd h (hlistening _ _ _)
  · exact absurd h (hasleep _ _ _)
  · exact h

/-- What holds of nobody whose call is over without a result has held before somebody gave up, if it holds of
a load whenever it holds once the load is dropped. -/
theorem of_leave {P : Call → Prop} (h : P call.leave) (hended : ∀ path, ¬ P (.get path (.ended none)))
    (hdropped : ∀ path marker, P (.get path (.releasing marker none)) → P (.get path (.loading marker))) :
    P call := by
  unfold Call.leave at h
  split at h
  · exact absurd h (hended _)
  · exact absurd h (hended _)
  · exact hdropped _ _ h
  · exact h

/-- An alert changes nothing but for those who listen or sleep. -/
theorem eq_of_hear (h : call.hear alert = .get path stage) (hstage : stage.hears = false) :
    call = .get path stage := by
  refine Call.of_hear (P := (· = .get path stage)) h ?_ ?_
  · rintro _ _ _ ⟨⟩
    cases hstage
  · rintro _ _ _ ⟨⟩
    cases hstage

/-- Whoever gives up is over, or gives its marker up. -/
theorem eq_of_leave (h : call.leave = .get path stage)
    (hstage : (Call.get path stage).isGivenUp = false) :
    call = .get path stage := by
  refine Call.of_leave (P := (· = .get path stage)) h ?_ ?_
  · rintro _ ⟨⟩
    cases hstage
  · rintro _ _ ⟨⟩
    cases hstage

/-- There are no other pieces of work. -/
theorem works_of_step (h : call.step offer cancelled cache = some effect) :
    Works offer cancelled cache call effect := by
  cases call with
  | get path stage => exact works_of_stepGet h
  | seed packages errors =>
      cases packages with
      | cons pkg packages => cases h; exact .offerPackage
      | nil =>
          cases errors with
          | cons e errors => cases h; exact .offerError
          | nil => cases h

end Call

/-! ### Traffic -/

/-- A call at the cache, with how often it has called the loader. -/
structure Visit where
  call : Call
  loads : Nat := 0

namespace Visit

/-- A piece of work is done; what the count of the cache went up by goes to this call. -/
def advance (v : Visit) (before : PackageCache) (effect : Effect) : Visit where
  call := effect.call
  loads := v.loads + (effect.cache.loads - before.loads)

def hear (v : Visit) (alert : Option Marker) : Visit :=
  { v with call := v.call.hear alert }

def leave (v : Visit) : Visit :=
  { v with call := v.call.leave }

end Visit

/-- A cache and all calls that have ever come to it, in the order in which they came. -/
structure Traffic where
  cache : PackageCache
  /-- The run is cancelled. -/
  cancelled : Bool := false
  visits : List Visit := []

/-- What may happen. -/
inductive Event where
  | come (request : Request)
  /-- A call goes on by one piece. -/
  | work (i : Nat) (offer : Offer)
  /-- A caller gives up. -/
  | leave (i : Nat)
  | cancel

namespace Traffic

/-- A new cache that nobody has come to. -/
def opening (isLazy : Bool) : Traffic where
  cache := { isLazy }

/-- A call comes in. -/
def enter (t : Traffic) (request : Request) : Traffic :=
  { t with visits := t.visits ++ [{ call := request.call }] }

/-- A piece of work of one call is done. -/
def advance (t : Traffic) (i : Nat) (v : Visit) (effect : Effect) : Traffic where
  cache := effect.cache
  cancelled := t.cancelled
  visits := (t.visits.set i (v.advance t.cache effect)).map (·.hear effect.alert)

/-- A call goes on by one piece; if it cannot, nothing happens. -/
def work (t : Traffic) (i : Nat) (offer : Offer) : Traffic :=
  match t.visits[i]? with
  | none => t
  | some v =>
    match v.call.step offer t.cancelled t.cache with
    | none => t
    | some effect => t.advance i v effect

/-- A caller gives up. -/
def leave (t : Traffic) (i : Nat) : Traffic :=
  match t.visits[i]? with
  | none => t
  | some v => { t with visits := t.visits.set i v.leave }

/-- The run is cancelled. -/
def cancel (t : Traffic) : Traffic :=
  { t with cancelled := true }

/-- One event. -/
def next (t : Traffic) : Event → Traffic
  | .come request => t.enter request
  | .work i offer => t.work i offer
  | .leave i => t.leave i
  | .cancel => t.cancel

/-- A new cache after a course of events. -/
def after (isLazy : Bool) (events : List Event) : Traffic :=
  events.foldl next (opening isLazy)

variable {isLazy : Bool}

theorem after_concat (events : List Event) (e : Event) :
    after isLazy (events ++ [e]) = (after isLazy events).next e := by
  rw [after, List.foldl_append]
  rfl

/-- What every event preserves holds after any course. -/
theorem after_induction {P : Traffic → Prop} (hnew : P (opening isLazy))
    (hnext : ∀ t e, P t → P (t.next e)) (events : List Event) : P (after isLazy events) := by
  induction events using List.reverseRecOn with
  | nil => exact hnew
  | append_singleton events e ih =>
      rw [after_concat]
      exact hnext _ e ih

/-- What every event preserves lasts from any moment on. -/
theorem after_append_induction {P : Traffic → Prop} {past : List Event} (hpast : P (after isLazy past))
    (hnext : ∀ events e, P (after isLazy events) → P ((after isLazy events).next e))
    (rest : List Event) : P (after isLazy (past ++ rest)) := by
  induction rest using List.reverseRecOn with
  | nil => rwa [List.append_nil]
  | append_singleton rest e ih =>
      rw [← List.append_assoc, after_concat]
      exact hnext _ e ih

variable {t : Traffic} {i j : Nat} {v w : Visit} {effect : Effect}

/-- A call that goes on does a piece of work, or nothing happens. -/
theorem work_cases (t : Traffic) (i : Nat) (offer : Offer) :
    t.work i offer = t ∨
      ∃ v effect, t.visits[i]? = some v ∧ v.call.Works offer t.cancelled t.cache effect ∧
        t.work i offer = t.advance i v effect := by
  unfold work
  cases hv : t.visits[i]? with
  | none => exact .inl rfl
  | some v =>
      cases hstep : v.call.step offer t.cancelled t.cache with
      | none => exact .inl (by simp [hstep])
      | some effect =>
          exact .inr ⟨v, effect, rfl, Call.works_of_step hstep, by simp [hstep]⟩

/-! ### A call before and after an event -/

theorem visit_of_enter {request : Request} (h : (t.enter request).visits[i]? = some v) :
    t.visits[i]? = some v ∨ v = { call := request.call } :=
  getElem?_of_concat h

theorem visit_enter (h : t.visits[i]? = some v) (request : Request) :
    (t.enter request).visits[i]? = some v :=
  getElem?_concat h _

@[simp] theorem cache_leave (t : Traffic) (j : Nat) : (t.leave j).cache = t.cache := by
  unfold leave
  split <;> rfl

@[simp] theorem cancelled_leave (t : Traffic) (j : Nat) : (t.leave j).cancelled = t.cancelled := by
  unfold leave
  split <;> rfl

/-- Who gives up changes nobody else's entry. -/
theorem visits_leave (t : Traffic) (j : Nat) :
    (t.leave j).visits = t.visits.modify j Visit.leave := by
  unfold leave
  split
  next hnone => exact (List.modify_eq_self (List.getElem?_eq_none_iff.1 hnone)).symm
  next w hw => exact (modify_of_getElem? hw _).symm

theorem visit_of_leave (h : (t.leave j).visits[i]? = some v) :
    ∃ w, t.visits[i]? = some w ∧ (v = w ∨ v = w.leave) := by
  rw [visits_leave] at h
  exact getElem?_of_modify h

/-- What a call is after somebody gave up. -/
theorem visit_leave (h : t.visits[i]? = some v) (j : Nat) :
    (t.leave j).visits[i]? = some v ∨ (t.leave j).visits[i]? = some v.leave := by
  rw [visits_leave]
  exact getElem?_modify_cases h Visit.leave j

/-- It is the one that went on, or it may have heard an alert. -/
theorem visit_of_advance (hw : t.visits[j]? = some w)
    (h : (t.advance j w effect).visits[i]? = some v) :
    (j = i ∧ v = (w.advance t.cache effect).hear effect.alert) ∨
      j ≠ i ∧ ∃ u, t.visits[i]? = some u ∧ v = u.hear effect.alert :=
  getElem?_of_map_set hw h

/-- What the call is that went on. -/
theorem visit_advance_self (hw : t.visits[j]? = some w) (effect : Effect) :
    (t.advance j w effect).visits[j]? = some ((w.advance t.cache effect).hear effect.alert) :=
  getElem?_map_set_at hw _ _

/-- The others may have heard an alert. -/
theorem visit_advance_other (h : t.visits[i]? = some v) (hne : j ≠ i) (w : Visit) (effect : Effect) :
    (t.advance j w effect).visits[i]? = some (v.hear effect.alert) :=
  getElem?_map_set_ne h hne _ _

/-! ### A property of one call -/

section Property

variable {Q : Visit → Prop}

theorem exists_of_enter {request : Request} (hnew : ¬ Q { call := request.call })
    (h : ∃ v, (t.enter request).visits[i]? = some v ∧ Q v) : ∃ v, t.visits[i]? = some v ∧ Q v :=
  exists_of_concat hnew h

theorem exists_enter (h : ∃ v, t.visits[i]? = some v ∧ Q v) (request : Request) :
    ∃ v, (t.enter request).visits[i]? = some v ∧ Q v :=
  exists_concat h _

theorem exists_of_leave (hback : ∀ {w : Visit}, Q w.leave → Q w)
    (h : ∃ v, (t.leave j).visits[i]? = some v ∧ Q v) : ∃ v, t.visits[i]? = some v ∧ Q v := by
  rw [visits_leave] at h
  exact exists_of_modify hback h

theorem exists_leave (hon : ∀ {w : Visit}, Q w → Q w.leave)
    (h : ∃ v, t.visits[i]? = some v ∧ Q v) (j : Nat) : ∃ v, (t.leave j).visits[i]? = some v ∧ Q v := by
  rw [visits_leave]
  exact exists_modify (fun hq => hon hq) h j

end Property

end Traffic

/-! ### What happens to a slot -/

/-- What a slot may be settled with: the package of its own path, or a load failure for it. -/
def Proper (path : String) : Result → Prop
  | .ok pkg => pkg.path = path
  | .error failure => ∃ reason, failure = .loadFailure path reason

/-- What a finished load says about a package is about that package. -/
theorem proper_of_verdict {path : String} {outcome : LoadOutcome} {cancelled : Bool} {result : Result}
    (h : verdict path outcome cancelled = .of result) : Proper path result := by
  cases result with
  | ok found => exact path_of_verdict h
  | error failure => exact reason_of_verdict h

namespace Call

/-- What a piece of work does to the slot of a path. -/
inductive Turns (path : String) (cache : PackageCache) (call : Call) (effect : Effect) : Prop
  | keeps (h : effect.cache.slots.get? path = cache.slots.get? path)
  /-- The call puts its marker down. -/
  | reserves (hfree : cache.slots.get? path = none)
      (h : effect.cache.slots.get? path = some (.pending cache.nextMarker))
      (hgranted : effect.call = .get path (.granted cache.nextMarker))
  /-- The slot is filled with what has been loaded already. -/
  | fills (result : Result) (hfree : cache.slots.get? path = none)
      (h : effect.cache.slots.get? path = some (.holding result)) (hproper : Proper path result)
  | settles (marker : Marker) (result : Result) (hcall : call = .get path (.settling marker result))
      (h : effect.cache.slots.get? path = some (.holding result))
  /-- The call takes its marker out. -/
  | releases (marker : Marker) (result? : Option Result)
      (hcall : call = .get path (.releasing marker result?))
      (hslot : cache.slots.get? path = some (.pending marker))
      (h : effect.cache.slots.get? path = none)

variable {offer : Offer} {cancelled : Bool} {cache : PackageCache} {effect : Effect} {call : Call}

/-- Putting something into a slot that may be filled already. -/
theorem turns_of_putNew {path : String} (key : String) (result : Result)
    (hslots : effect.cache.slots = cache.slots.putNew key (.holding result))
    (hproper : Proper key result) : Turns path cache call effect := by
  have hget : effect.cache.slots.get? path =
      (cache.slots.get? path).or (if path = key then some (.holding result) else none) := by
    rw [hslots, Table.get?_putNew]
  by_cases hkey : path = key
  · subst hkey
    cases hslot : cache.slots.get? path with
    | some slot => exact .keeps (by rw [hget, hslot]; rfl)
    | none => exact .fills result hslot (by rw [hget, hslot, if_pos rfl]; rfl) hproper
  · exact .keeps (by rw [hget, if_neg hkey, Option.or_none])

/-- **Nothing else can happen to a slot.** -/
theorem Works.turns (hworks : call.Works offer cancelled cache effect) (path : String) :
    Turns path cache call effect := by
  cases hworks with
  | @grant other hslot hlazy =>
      by_cases hpath : path = other
      · subst hpath
        exact .reserves hslot (by rw [reserve, Table.get?_put, if_pos rfl]) rfl
      · exact .keeps (by rw [reserve, Table.get?_put, if_neg hpath])
  | @settle other marker result =>
      by_cases hpath : path = other
      · subst hpath
        exact .settles marker result rfl (by rw [PackageCache.settle, Table.get?_put, if_pos rfl])
      · exact .keeps (by rw [PackageCache.settle, Table.get?_put, if_neg hpath])
  | @release other marker result? =>
      by_cases hpath : path = other
      · subst hpath
        by_cases hslot : cache.isPending path marker = true
        · refine .releases marker result? rfl (isPending_iff.1 hslot) ?_
          rw [PackageCache.release, if_pos hslot, Table.get?_erase, if_pos rfl]
        · exact .keeps (by rw [PackageCache.release, if_neg hslot])
      · exact .keeps (get?_release_of_ne hpath)
  | @offerPackage pkg packages errors =>
      exact turns_of_putNew pkg.path (.ok pkg) rfl rfl
  | @offerError e errors =>
      exact turns_of_putNew e.pkg (.error e.toFailure) rfl ⟨e.message, rfl⟩
  | _ => exact .keeps rfl

end Call

/-! ### Calls that nobody disturbs -/

namespace Call

/-- A call that goes on piece by piece, while nobody else does anything. -/
def finish (offer : Offer) (cancelled : Bool) : Nat → PackageCache → Call → PackageCache × Call
  | 0, cache, call => (cache, call)
  | n + 1, cache, call =>
    match call.step offer cancelled cache with
    | none => (cache, call)
    | some effect => finish offer cancelled n effect.cache effect.call

variable (offer : Offer) (cancelled : Bool) (cache : PackageCache)

theorem finish_errors (errors : List LoadError) :
    finish offer cancelled errors.length cache (.seed [] errors) =
      ({ cache with slots := errors.foldl seedError cache.slots }, .seed [] []) := by
  induction errors generalizing cache with
  | nil => rfl
  | cons e errors ih => exact ih (cache.offerError e)

/-- A call that fills slots has filled them in the end. -/
theorem finish_seed (packages : List Package) (errors : List LoadError) :
    finish offer cancelled (packages.length + errors.length) cache (.seed packages errors) =
      (cache.seed ⟨packages, errors⟩, .seed [] []) := by
  induction packages generalizing cache with
  | nil =>
      rw [List.length_nil, Nat.zero_add]
      exact finish_errors offer cancelled cache errors
  | cons pkg packages ih =>
      rw [List.length_cons, Nat.add_right_comm]
      exact ih (cache.offerPackage pkg)

/-- A call that wants a package gets it as a lookup does, if nobody is loading it and the loader answers
without giving way and does not cancel the run. -/
theorem finish_get {site : LoadSite} {world world' : World} {path : String} {result : Result}
    (hpauses : site.loader.pauses = 0)
    (hanswer : (site.loader.answer (site.requestFor path) world.cancelled).2 = world.cancelled)
    (h : Lookup.poll site world path .start = (world', .done result)) :
    finish { outcome := (site.loader.answer (site.requestFor path) world.cancelled).1 }
        world.cancelled 7 world.packages (.get path .asking) =
      (world'.packages, .get path (.ended (some result))) := by
  cases hslot : world.packages.slots.get? path with
  | some slot =>
      cases slot with
      | pending marker =>
          simp [Lookup.poll, Lookup.wake, Lookup.enter, PackageCache.claim, hslot, Lookup.proceed] at h
      | ready pkg =>
          simp only [Lookup.poll, Lookup.wake, Lookup.enter, PackageCache.claim, hslot, Lookup.proceed,
            Prod.mk.injEq, Lookup.done.injEq] at h
          obtain ⟨rfl, rfl⟩ := h
          simp [finish, step, stepGet, hslot]
      | failed failure =>
          simp only [Lookup.poll, Lookup.wake, Lookup.enter, PackageCache.claim, hslot, Lookup.proceed,
            Prod.mk.injEq, Lookup.done.injEq] at h
          obtain ⟨rfl, rfl⟩ := h
          simp [finish, step, stepGet, hslot]
  | none =>
      cases hlazy : world.packages.isLazy with
      | false =>
          simp only [Lookup.poll, Lookup.wake, Lookup.enter, PackageCache.claim, hslot, hlazy,
            Bool.false_eq_true, if_false, Lookup.proceed, Prod.mk.injEq, Lookup.done.injEq] at h
          obtain ⟨rfl, rfl⟩ := h
          simp [finish, step, stepGet, hslot, hlazy]
      | true =>
          cases hcancelled : world.cancelled with
          | true =>
              simp only [Lookup.poll, Lookup.wake, Lookup.enter, PackageCache.claim, hslot, hlazy, if_true,
                Lookup.beginLoad, World.withPackages, hcancelled, Lookup.proceed, Prod.mk.injEq,
                Lookup.done.injEq] at h
              obtain ⟨rfl, rfl⟩ := h
              simp [finish, step, stepGet, hslot, hlazy, reserve]
          | false =>
              rw [hcancelled] at hanswer
              simp only [Lookup.poll, Lookup.wake, Lookup.enter, PackageCache.claim, hslot, hlazy, if_true,
                Lookup.beginLoad, World.withPackages, hcancelled, Bool.false_eq_true, if_false,
                Lookup.proceed, hpauses, Lookup.endLoad, World.call, hanswer] at h
              cases hverdict : verdict path (site.loader.answer (site.requestFor path) false).1 false with
              | found pkg =>
                  simp only [hverdict, Prod.mk.injEq, Lookup.done.injEq] at h
                  obtain ⟨rfl, rfl⟩ := h
                  simp [finish, step, stepGet, hslot, hlazy, reserve, hverdict, PackageCache.settle,
                    countLoad, PackageSlot.holding]
              | failed failure =>
                  simp only [hverdict, Prod.mk.injEq, Lookup.done.injEq] at h
                  obtain ⟨rfl, rfl⟩ := h
                  simp [finish, step, stepGet, hslot, hlazy, reserve, hverdict, PackageCache.settle,
                    countLoad, PackageSlot.holding]
              | cancelled => exact absurd (cancelled_of_verdict hverdict) Bool.false_ne_true

end Call

end PackageCache

end Wiring
