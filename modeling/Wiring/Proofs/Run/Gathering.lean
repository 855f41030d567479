/-
**A task gathers the sets within reach.**

A task fetches one set after the other.  Between two of its steps the world may change in any way that leaves
it tidy, for other tasks go on as well.  What it has been given for its errands says where it stands: it is
on a breadth-first search through the sets that were delivered, from those that its injector refers to, and
its graph and its failures are what the search has come upon.

When the queue is empty, it has fetched every set within reach once.  If none of them failed, its graph can
be resolved without missing a set.

Main definitions:

* `Wiring.Delivery`, `Wiring.Task.delivered` — what came of an errand, and the step in which it came;
* `Wiring.Task.Trail` — how a task has come to where it stands, through tidy worlds;
* `Wiring.Task.Steps` — what a step of a task can do;
* `Wiring.Task.Seeks`, `Wiring.Task.Gathers` — the invariant of the search, at each stage;
* `Wiring.Task.Collected` — what a task has gathered when its queue is empty.

Main results:

* `Wiring.Task.Gathers.steps` — a step preserves the invariant;
* `Wiring.Task.Trail.gathers` — so it holds all along;
* `Wiring.Task.Seeks.collected` — **with an empty queue a task has gathered the sets within reach**;
* `Wiring.Task.Collected.order_in` — and these are the ones within reach in any catalogue that the deliveries
  agree with.
-/

import Wiring.Proofs.Resolution.Drawing
import Wiring.Proofs.Run.Tidiness
import Wiring.Proofs.Sets.Kept

set_option autoImplicit false

namespace Wiring

/-! ### Graphs that grow -/

namespace SetGraph

variable {g : SetGraph} {s : ProviderSet} {id : SetId}

theorem references_add_self (h : g.get? s.id = none) : (g.add s).references s.id = s.references := by
  refine references_of_get? ?_
  rw [get?_add, h, Option.none_or, if_pos rfl]

theorem references_add_of_ne (hid : id ≠ s.id) : (g.add s).references id = g.references id := by
  rw [references, get?_add, if_neg (Ne.symm hid), Option.or_none, references]

end SetGraph

/-! ### Deliveries -/

/-- What came of an errand. -/
structure Delivery where
  errand : Errand
  answer : Except Failure ProviderSet

namespace Delivery

/-- The set that the errand was for. -/
def id (d : Delivery) : SetId :=
  d.errand.id

/-- The set that was delivered, if one was. -/
def set? (d : Delivery) : Option ProviderSet :=
  d.answer.toOption

/-- Why none was. -/
def failure? (d : Delivery) : Option Failure :=
  match d.answer with
  | .ok _ => none
  | .error f => some f

theorem set?_eq_some_iff {d : Delivery} {s : ProviderSet} : d.set? = some s ↔ d.answer = .ok s := by
  rw [set?]
  cases d.answer <;> simp [Except.toOption]

theorem failure?_eq_none_iff {d : Delivery} : d.failure? = none ↔ ∃ s, d.answer = .ok s := by
  rw [failure?]
  cases d.answer <;> simp

end Delivery

namespace Task

/-- What a step of a task is given for an errand, if it is given anything. -/
def delivered (setting : Setting) (world : World) (t : Task) : List Delivery :=
  match t.stage with
  | .fetching errand (.done (.error f)) => [⟨errand, .error f⟩]
  | .fetching errand (.done (.ok pkg)) =>
    ((extractFrom setting world errand pkg).2.map fun answer => ⟨errand, answer⟩).toList
  | _ => []

/-- How a task has come from its start to where it stands, through tidy worlds, and what it has been given on
the way. -/
inductive Trail (t₀ : Task) : List Delivery → Task → Prop
  | begins : Trail t₀ [] t₀
  | steps {log : List Delivery} {t : Task} (h : Trail t₀ log t) (setting : Setting) {world : World}
      (hw : world.Tidy) : Trail t₀ (log ++ t.delivered setting world) (t.step setting world).2.1

/-- What a step of a task can do, and what it is given for an errand. -/
inductive Steps (setting : Setting) (world : World) (t : Task) : List Delivery → Task → Prop
  | reads (hstage : t.stage = .opening) : Steps setting world t [] t.open
  | takes (hstage : t.stage = .collecting) : Steps setting world t [] (t.takeNext setting)
  /-- The lookup goes on. -/
  | looks {errand : Errand} {lookup lookup' : Lookup} (hstage : t.stage = .fetching errand lookup)
      (hfinds : world.Tidy → lookup.Finds errand.id.pkg → lookup'.Finds errand.id.pkg) :
      Steps setting world t [] { t with stage := .fetching errand lookup' }
  /-- Somebody else is extracting the set. -/
  | waits {errand : Errand} {lookup : Lookup} (hstage : t.stage = .fetching errand lookup) :
      Steps setting world t [] t
  | receives {errand : Errand} {lookup : Lookup} {answer : Except Failure ProviderSet}
      (hstage : t.stage = .fetching errand lookup)
      (hdeclared : ∀ s, answer = .ok s → world.Tidy → lookup.Finds errand.id.pkg → errand.id.DeclaredAs s) :
      Steps setting world t [⟨errand, answer⟩] (t.receive answer)
  | rests {result : TaskResult} (hstage : t.stage = .closed result) : Steps setting world t [] t

variable {setting : Setting} {world : World} {t t' t₀ : Task} {log given : List Delivery}
  {errand : Errand} {id : SetId} {s : ProviderSet} {queue : List SetId}

theorem step_steps (setting : Setting) (world : World) (t : Task) :
    t.Steps setting world (t.delivered setting world) (t.step setting world).2.1 := by
  cases hstage : t.stage with
  | opening =>
      rw [step_of_opening hstage, delivered, hstage]
      exact .reads hstage
  | collecting =>
      rw [step_of_collecting hstage, delivered, hstage]
      exact .takes hstage
  | closed result =>
      rw [step_of_result (show t.result? = some result by rw [result?, hstage]), delivered, hstage]
      exact .rests hstage
  | fetching errand lookup =>
      by_cases hdone : ∃ result, lookup = .done result
      · obtain ⟨result, rfl⟩ := hdone
        rw [step_of_done hstage, delivered, hstage]
        cases result with
        | error f =>
            refine .receives hstage ?_
            rintro s ⟨⟩
        | ok pkg =>
            dsimp only
            rcases arrive_cases setting world t errand pkg with ⟨answer, hanswer, heq⟩ | ⟨hanswer, heq⟩ <;>
              rw [heq, hanswer]
            · refine .receives hstage ?_
              rintro s rfl hw hfinds
              exact declared_of_extractFrom hw (hfinds pkg rfl) hanswer
            · exact .waits hstage
      · have hopen : ∀ r, lookup ≠ .done r := fun r hr => hdone ⟨r, hr⟩
        have hnone : t.delivered setting world = [] := by
          rw [delivered, hstage]
          cases lookup with
          | done r => exact absurd rfl (hopen r)
          | start => rfl
          | asleep => rfl
          | loading => rfl
        rw [step_of_looking hstage hopen, hnone]
        exact .looks hstage fun hw hfinds => (Lookup.poll_tidy hw hfinds).2

/-! ### The invariant -/

/-- A task is on a breadth-first search through the sets that it has been given, and its graph and its
failures are what it has come upon. -/
structure Seeks (log : List Delivery) (queue : List SetId) (t : Task) : Prop where
  asked : t.pkg.request t.decl = .ok t.request
  search : Searching t.graph.references t.request.references (log.map Delivery.id) queue
  sets : t.graph.sets = log.filterMap Delivery.set?
  failures : t.failures = log.filterMap Delivery.failure?
  declared : ∀ d ∈ log, ∀ s, d.answer = .ok s → d.id.DeclaredAs s

/-- The search at each stage. -/
inductive Gathers (log : List Delivery) (t : Task) : Prop
  | opening (hstage : t.stage = .opening) (hlog : log = [])
      (hfresh : t = { index := t.index, pkg := t.pkg, decl := t.decl })
  | collecting (hstage : t.stage = .collecting) (h : t.Seeks log (t.queue.map Errand.id))
      (hmet : t.met = (log.map Delivery.id).reverse)
  | fetching {errand : Errand} {lookup : Lookup} (hstage : t.stage = .fetching errand lookup)
      (h : t.Seeks log (errand.id :: t.queue.map Errand.id)) (hnew : errand.id ∉ log.map Delivery.id)
      (hmet : t.met = errand.id :: (log.map Delivery.id).reverse) (hfinds : lookup.Finds errand.id.pkg)
  | closed {result : TaskResult} (hstage : t.stage = .closed result)

namespace Seeks

/-- Only the injector, the graph and the failures matter. -/
theorem congr (h : t.Seeks log queue) (hpkg : t'.pkg = t.pkg) (hdecl : t'.decl = t.decl)
    (hrequest : t'.request = t.request) (hgraph : t'.graph = t.graph) (hfailures : t'.failures = t.failures) :
    t'.Seeks log queue := by
  refine ⟨?_, ?_, hgraph ▸ h.sets, hfailures.trans h.failures, h.declared⟩
  · rw [hpkg, hdecl, hrequest]
    exact h.asked
  · rw [hgraph, hrequest]
    exact h.search

/-- What has not been delivered is not in the graph. -/
theorem get?_none (h : t.Seeks log queue) (hnew : id ∉ log.map Delivery.id) : t.graph.get? id = none := by
  cases hfound : t.graph.get? id with
  | none => rfl
  | some s =>
      obtain ⟨hmem, rfl⟩ := SetGraph.mem_sets_of_get? hfound
      rw [h.sets] at hmem
      obtain ⟨d, hd, hs⟩ := List.mem_filterMap.1 hmem
      have hid := (h.declared d hd s (Delivery.set?_eq_some_iff.1 hs)).id_eq
      exact absurd (List.mem_map.2 ⟨d, hd, hid.symm⟩) hnew

/-- The graph holds what has been delivered. -/
theorem get?_iff (h : t.Seeks log queue) :
    t.graph.get? id = some s ↔ ∃ d ∈ log, d.id = id ∧ d.answer = .ok s := by
  constructor
  · intro hfound
    obtain ⟨hmem, rfl⟩ := SetGraph.mem_sets_of_get? hfound
    rw [h.sets] at hmem
    obtain ⟨d, hd, hs⟩ := List.mem_filterMap.1 hmem
    have hanswer := Delivery.set?_eq_some_iff.1 hs
    exact ⟨d, hd, ((h.declared d hd s hanswer).id_eq).symm, hanswer⟩
  · rintro ⟨d, hd, rfl, hanswer⟩
    have hmem : s ∈ t.graph.sets := by
      rw [h.sets]
      exact List.mem_filterMap.2 ⟨d, hd, Delivery.set?_eq_some_iff.2 hanswer⟩
    cases hfound : t.graph.get? d.id with
    | none =>
        have hnone := List.find?_eq_none.1 hfound s hmem
        simp [(h.declared d hd s hanswer).id_eq] at hnone
    | some s' =>
        -- the set that is found was delivered for the same identity, so it came in the same delivery
        obtain ⟨hmem', hid'⟩ := SetGraph.mem_sets_of_get? hfound
        rw [h.sets] at hmem'
        obtain ⟨d', hd', hs'⟩ := List.mem_filterMap.1 hmem'
        have hanswer' := Delivery.set?_eq_some_iff.1 hs'
        have hsame : d' = d := by
          refine List.inj_on_of_nodup_map h.search.nodup hd' hd ?_
          rw [← (h.declared d' hd' s' hanswer').id_eq, hid']
        rw [hsame, hanswer] at hanswer'
        rw [Except.ok.inj hanswer']

/-- A set that could not be had is met, and leads nowhere. -/
theorem fail {f : Failure} (h : t.Seeks log (errand.id :: queue)) (hnew : errand.id ∉ log.map Delivery.id)
    (stage : Stage) :
    ({ t with failures := t.failures ++ [f], stage } : Task).Seeks (log ++ [⟨errand, .error f⟩]) queue := by
  have hmeet := h.search.meet hnew
  rw [SetGraph.references_of_absent (h.get?_none hnew), List.append_nil] at hmeet
  refine ⟨h.asked, ?_, ?_, ?_, ?_⟩
  · rw [List.map_append]
    exact hmeet
  · rw [List.filterMap_append, ← h.sets]
    exact (List.append_nil _).symm
  · rw [List.filterMap_append, ← h.failures]
    rfl
  · intro d hd s hanswer
    rcases List.mem_append.1 hd with hd | hd
    · exact h.declared d hd s hanswer
    · rw [List.mem_singleton.1 hd] at hanswer
      cases hanswer

/-- A set that has been delivered is met, and its references are put at the end of the queue. -/
theorem keep (h : t.Seeks log (errand.id :: queue)) (hnew : errand.id ∉ log.map Delivery.id)
    (hs : errand.id.DeclaredAs s) (stage : Stage) (waiting : List Errand) :
    ({ t with graph := t.graph.add s, queue := waiting, stage } : Task).Seeks (log ++ [⟨errand, .ok s⟩])
      (queue ++ s.references) := by
  have habsent : t.graph.get? s.id = none := hs.id_eq ▸ h.get?_none hnew
  -- the new set leads on, and what has been met before leads where it did
  have hsearch : Searching (t.graph.add s).references t.request.references (log.map Delivery.id)
      (errand.id :: queue) := by
    refine h.search.congr (fun id hid => ?_) fun id next hnext => ?_
    · refine SetGraph.references_add_of_ne ?_
      rintro rfl
      exact hnew (hs.id_eq ▸ hid)
    · by_cases hid : id = s.id
      · rw [hid, SetGraph.references_of_absent habsent] at hnext
        cases hnext
      · rwa [SetGraph.references_add_of_ne hid]
  have hmeet := hsearch.meet hnew
  rw [← hs.id_eq, SetGraph.references_add_self habsent, hs.id_eq] at hmeet
  refine ⟨h.asked, ?_, ?_, ?_, ?_⟩
  · rw [List.map_append]
    exact hmeet
  · rw [List.filterMap_append, ← h.sets]
    exact SetGraph.sets_add habsent
  · rw [List.filterMap_append, ← h.failures]
    exact (List.append_nil _).symm
  · intro d hd s' hanswer
    rcases List.mem_append.1 hd with hd | hd
    · exact h.declared d hd s' hanswer
    · rw [List.mem_singleton.1 hd] at hanswer ⊢
      cases hanswer
      exact hs

end Seeks

namespace Gathers

/-- Reading the declaration of an injector begins the search. -/
theorem reads (h : t = { index := t.index, pkg := t.pkg, decl := t.decl }) : t.open.Gathers [] := by
  rcases t.open_cases with ⟨f, -, heq⟩ | ⟨request, hrequest, heq⟩ <;> rw [heq]
  · exact .closed rfl
  · have hgraph : t.graph = {} := by rw [h]
    have hfailures : t.failures = [] := by rw [h]
    have hmet : t.met = [] := by rw [h]
    have hqueue : (request.references.map fun id => (⟨id, request.qualifiedName⟩ : Errand)).map Errand.id =
        request.references := by
      rw [List.map_map]
      exact List.map_id' _
    refine .collecting rfl ⟨hrequest, ?_, by rw [hgraph]; rfl, hfailures, nofun⟩ hmet
    dsimp only
    rw [hqueue]
    exact .start _ _

/-- Taking the next set from the queue drops it, or sends for it. -/
theorem takes (hstage : t.stage = .collecting) (h : t.Seeks log (t.queue.map Errand.id))
    (hmet : t.met = (log.map Delivery.id).reverse) : (t.takeNext setting).Gathers log := by
  rcases t.takeNext_cases setting with ⟨-, heq⟩ | ⟨errand, rest, hqueue, htaken⟩
  · rw [heq]
    exact .closed rfl
  · have hmem : errand.id ∈ t.met ↔ errand.id ∈ log.map Delivery.id := by rw [hmet, List.mem_reverse]
    rw [hqueue, List.map_cons] at h
    rcases htaken with ⟨hseen, heq⟩ | ⟨hnew, heq⟩ <;> rw [heq]
    · exact .collecting hstage ⟨h.asked, h.search.skip (hmem.1 hseen), h.sets, h.failures, h.declared⟩ hmet
    · exact .fetching rfl (h.congr rfl rfl rfl rfl rfl) (fun hseen => hnew (hmem.2 hseen))
        (by rw [hmet]) nofun

/-- What is received for an errand is met. -/
theorem receives {answer : Except Failure ProviderSet} (h : t.Seeks log (errand.id :: t.queue.map Errand.id))
    (hnew : errand.id ∉ log.map Delivery.id) (hmet : t.met = errand.id :: (log.map Delivery.id).reverse)
    (hdeclared : ∀ s, answer = .ok s → errand.id.DeclaredAs s) :
    (t.receive answer).Gathers (log ++ [⟨errand, answer⟩]) := by
  have hmet' : t.met = ((log ++ [(⟨errand, answer⟩ : Delivery)]).map Delivery.id).reverse := by
    rw [hmet, List.map_append, List.reverse_append]
    rfl
  rcases t.receive_cases answer with ⟨set, rfl, heq⟩ | ⟨-, heq⟩ | ⟨f, rfl, -, heq⟩ <;> rw [heq]
  · have hkeep := h.keep hnew (hdeclared set rfl) .collecting
      (t.queue ++ set.references.map fun id => ⟨id, set.id.text⟩)
    refine .collecting rfl ?_ hmet'
    have hqueue : (t.queue ++ set.references.map fun id => (⟨id, set.id.text⟩ : Errand)).map Errand.id =
        t.queue.map Errand.id ++ set.references := by
      rw [List.map_append, List.map_map]
      exact congrArg _ (List.map_id' _)
    dsimp only
    rwa [hqueue]
  · exact .closed rfl
  · exact .collecting rfl (h.fail hnew .collecting) hmet'

theorem of_opening (h : t.Gathers log) (hstage : t.stage = .opening) :
    log = [] ∧ t = { index := t.index, pkg := t.pkg, decl := t.decl } := by
  cases h with
  | opening _ hlog hfresh => exact ⟨hlog, hfresh⟩
  | collecting hstage' => cases hstage.symm.trans hstage'
  | fetching hstage' => cases hstage.symm.trans hstage'
  | closed hstage' => cases hstage.symm.trans hstage'

theorem of_collecting (h : t.Gathers log) (hstage : t.stage = .collecting) :
    t.Seeks log (t.queue.map Errand.id) ∧ t.met = (log.map Delivery.id).reverse := by
  cases h with
  | opening hstage' => cases hstage.symm.trans hstage'
  | collecting _ hseeks hmet => exact ⟨hseeks, hmet⟩
  | fetching hstage' => cases hstage.symm.trans hstage'
  | closed hstage' => cases hstage.symm.trans hstage'

theorem of_fetching {lookup : Lookup} (h : t.Gathers log) (hstage : t.stage = .fetching errand lookup) :
    t.Seeks log (errand.id :: t.queue.map Errand.id) ∧ errand.id ∉ log.map Delivery.id ∧
      t.met = errand.id :: (log.map Delivery.id).reverse ∧ lookup.Finds errand.id.pkg := by
  cases h with
  | opening hstage' => cases hstage.symm.trans hstage'
  | collecting hstage' => cases hstage.symm.trans hstage'
  | fetching hstage' hseeks hnew hmet hfinds =>
      cases hstage.symm.trans hstage'
      exact ⟨hseeks, hnew, hmet, hfinds⟩
  | closed hstage' => cases hstage.symm.trans hstage'

/-- **A step preserves the invariant.** -/
theorem steps (h : t.Gathers log) (hw : world.Tidy) (hsteps : t.Steps setting world given t') :
    t'.Gathers (log ++ given) := by
  cases hsteps with
  | reads hstage =>
      obtain ⟨rfl, hfresh⟩ := h.of_opening hstage
      exact reads hfresh
  | takes hstage =>
      obtain ⟨hseeks, hmet⟩ := h.of_collecting hstage
      rw [List.append_nil]
      exact takes hstage hseeks hmet
  | looks hstage hfinds' =>
      obtain ⟨hseeks, hnew, hmet, hfinds⟩ := h.of_fetching hstage
      rw [List.append_nil]
      exact .fetching rfl (hseeks.congr rfl rfl rfl rfl rfl) hnew hmet (hfinds' hw hfinds)
  | waits => rwa [List.append_nil]
  | receives hstage hdeclared =>
      obtain ⟨hseeks, hnew, hmet, hfinds⟩ := h.of_fetching hstage
      exact receives hseeks hnew hmet fun s hs => hdeclared s hs hw hfinds
  | rests => rwa [List.append_nil]

end Gathers

/-- **The invariant holds all along.** -/
theorem Trail.gathers {index : Nat} {pkg : Package} {decl : InjectorDecl}
    (h : Trail { index, pkg, decl } log t) : t.Gathers log := by
  induction h with
  | begins => exact .opening rfl rfl rfl
  | steps _ setting hw ih => exact ih.steps hw (step_steps setting _ _)

/-! ### What has been gathered -/

/-- What a task has gathered when its queue is empty. -/
structure Collected (log : List Delivery) (t : Task) : Prop where
  /-- The sets within reach have been asked for, breadth first. -/
  order : BreadthFirst t.graph.references t.request.references (log.map Delivery.id)
  once : (log.map Delivery.id).Nodup
  /-- The graph holds what was delivered. -/
  sets : t.graph.sets = log.filterMap Delivery.set?
  /-- A set is held under the identity that it was referred to by. -/
  held : ∀ id s, t.graph.get? id = some s ↔ ∃ d ∈ log, d.id = id ∧ d.answer = .ok s
  declared : ∀ id s, t.graph.get? id = some s → s.id = id ∧ id.DeclaredAs s
  /-- Without a failure the graph holds all that is within reach, and nothing else. -/
  whole : t.failures = [] → ∀ id,
    (∃ s, t.graph.get? id = some s) ↔ Reachable t.graph.references t.request.references id
  /-- There is a failure for every set that could not be had, in the same order. -/
  failures : t.failures = log.filterMap Delivery.failure?
  /-- Then the task ends in these failures, and otherwise the graph is resolved. -/
  ends : ∀ setting, (t.takeNext setting).result? =
    some (if t.failures = [] then t.compose setting else .error t.failures)
  /-- Without a failure no set is missed, -/
  known : t.failures = [] → ∀ policy failures, resolveRequest policy t.graph t.request = .error failures →
    ∀ set asker, .unknownSet set asker ∉ failures
  /-- the sets are refused exactly for a circle within reach, -/
  circle : ∀ policy, (∃ failures chain, resolveRequest policy t.graph t.request = .error failures ∧
      .setCycle chain ∈ failures) ↔
    ∃ id, Reachable t.graph.references t.request.references id ∧ Relation.TransGen t.graph.Refers id id
  /-- and what a plan runs is listed by the injector or by a set within reach. -/
  drawn : ∀ policy plan, resolveRequest policy t.graph t.request = .ok plan → ∀ p ∈ plan.providers,
    .provider p ∈ t.request.items ∨ ∃ id s, Reachable t.graph.references t.request.references id ∧
      t.graph.get? id = some s ∧ p ∈ s.providers

/-- Without a failure everything has been delivered. -/
theorem Seeks.exists_set (h : t.Seeks log queue) (hnone : t.failures = []) {d : Delivery} (hd : d ∈ log) :
    ∃ s, d.answer = .ok s := by
  rw [h.failures, List.filterMap_eq_nil_iff] at hnone
  exact Delivery.failure?_eq_none_iff.1 (hnone d hd)

/-- When its queue is empty, a task has gathered the sets within reach. -/
theorem Seeks.collected (h : t.Seeks log []) (hqueue : t.queue = []) : t.Collected log := by
  have horder := h.search.finish
  have hwhole : t.failures = [] → ∀ id, (∃ s, t.graph.get? id = some s) ↔
      Reachable t.graph.references t.request.references id := by
    intro hnone id
    rw [← horder.mem_iff, List.mem_map]
    constructor
    · rintro ⟨s, hs⟩
      obtain ⟨d, hd, hid, -⟩ := h.get?_iff.1 hs
      exact ⟨d, hd, hid⟩
    · rintro ⟨d, hd, hid⟩
      obtain ⟨s, hs⟩ := h.exists_set hnone hd
      exact ⟨s, h.get?_iff.2 ⟨d, hd, hid, hs⟩⟩
  have hreached : ∀ id next, t.graph.Refers id next →
      Reachable t.graph.references t.request.references id := by
    intro id next hrefers
    cases hfound : t.graph.get? id with
    | none =>
        rw [SetGraph.Refers, SetGraph.references_of_absent hfound] at hrefers
        cases hrefers
    | some s =>
        obtain ⟨d, hd, hid, -⟩ := h.get?_iff.1 hfound
        exact horder.mem_iff.1 (List.mem_map.2 ⟨d, hd, hid⟩)
  exact
    { order := horder
      once := horder.nodup
      sets := h.sets
      held := fun _ _ => h.get?_iff
      declared := by
        intro id s hs
        obtain ⟨d, hd, rfl, hanswer⟩ := h.get?_iff.1 hs
        have hdeclared := h.declared d hd s hanswer
        exact ⟨hdeclared.id_eq, hdeclared⟩
      whole := hwhole
      failures := h.failures
      ends := by
        intro setting
        rw [takeNext, hqueue]
        rfl
      known := fun hnone _ _ => unknownSet_not_mem fun id hreach => (hwhole hnone id).2 hreach
      circle := by
        intro policy
        rw [resolveRequest_circle_iff]
        refine exists_congr fun id => ⟨fun hcircle => ⟨?_, hcircle⟩, And.right⟩
        obtain ⟨next, hrefers, -⟩ := Relation.TransGen.head'_iff.1 hcircle
        exact hreached id next hrefers
      drawn := fun _ _ hplan _ hp => offers_of_resolveRequest hplan hp }

/-- What has been gathered is what can be reached in any catalogue of sets that the deliveries agree with. -/
theorem Collected.order_in {catalogue : SetId → Option ProviderSet} (h : t.Collected log)
    (hagree : ∀ d ∈ log, d.set? = catalogue d.id) :
    BreadthFirst (fun id => (catalogue id).elim [] ProviderSet.references) t.request.references
      (log.map Delivery.id) := by
  refine h.order.congr fun id hid => ?_
  obtain ⟨d, hd, rfl⟩ := List.mem_map.1 hid
  have hfound : t.graph.get? d.id = d.set? := by
    cases hset : d.set? with
    | some s => exact (h.held _ s).2 ⟨d, hd, rfl, Delivery.set?_eq_some_iff.1 hset⟩
    | none =>
        -- nothing else was delivered for this identity
        refine Option.eq_none_iff_forall_ne_some.2 fun s hs => ?_
        obtain ⟨d', hd', hid', hanswer⟩ := (h.held _ s).1 hs
        obtain rfl := List.inj_on_of_nodup_map h.once hd' hd hid'
        rw [Delivery.set?_eq_some_iff.2 hanswer] at hset
        cases hset
  rw [SetGraph.references, hfound, hagree d hd]

end Task

end Wiring
