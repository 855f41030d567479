/-
**Injectors that list no set.**

An injector that lists no set needs nothing but its own package: whatever the caches hold and whatever the
loader has to say, it comes to the same result.  A run that takes such injectors one by one comes to its end
and reports on these results.

Main definitions:

* `Wiring.Task.Lone` — a task that needs nothing but its package;
* `Wiring.Task.alone` — its result;
* `Wiring.Schedule.Between` — a schedule before its next task.

Main results:

* `Wiring.Schedule.Between.ends` — a schedule of such tasks comes to its end, with all their results;
* `Wiring.RunInput.generate_of_lone`, `Wiring.RunInput.outputs_of_lone` — **what a run over such injectors
  reports**;
* `Wiring.Task.alone_of_bare` — an injector that asks for nothing has code.
-/

import Wiring.Proofs.Run.Calm
import Wiring.Proofs.Run.Discovery
import Wiring.Proofs.Run.History

set_option autoImplicit false

namespace Wiring

namespace Task

/-- A task that has not been started and whose injector lists no set. -/
structure Lone (t : Task) : Prop where
  stage : t.stage = .opening
  failures : t.failures = []
  sets : t.decl.sets = []

/-- The result of a task whose injector lists no set. -/
def alone (setting : Setting) (t : Task) : TaskResult :=
  match t.pkg.request t.decl with
  | .error f => .error [f]
  | .ok request => ({ t with request } : Task).compose setting

/-- What it gives when it is done. -/
def reportAlone (setting : Setting) (t : Task) : TaskReport :=
  ⟨t.index, Schedule.counted (t.alone setting)⟩

/-- There is nothing for it to fetch. -/
theorem Lone.references_eq_nil {t : Task} (h : t.Lone) {request : Request}
    (hrequest : t.pkg.request t.decl = .ok request) : request.references = [] := by
  obtain ⟨-, -, -, -, hitems⟩ := Package.request_ok_iff.1 hrequest
  rw [Request.references, Package.references_of_items hitems, h.sets, List.map_nil]

end Task

namespace Schedule

variable {setting : Setting} {s : Schedule} {t u : Task} {rest : List Task} {world : World}

/-- The schedule of a run that takes its tasks one by one, before the next of them. -/
structure Between (s : Schedule) : Prop where
  workers : s.workers = 1
  ready : s.ready = []
  resting : s.resting = []
  asleep : s.asleep = []
  checking : s.checking = true
  going : s.ended = false
  live : s.world.cancelled = false

/-- The schedule while its only task goes on. -/
def busy (s : Schedule) (t : Task) (rest : List Task) : Schedule :=
  { s with upcoming := rest, ready := [t], left := 1, checking := false }

/-- The schedule when its next task has given its result. -/
def after (setting : Setting) (s : Schedule) (t : Task) (rest : List Task) : Schedule :=
  ({ s with upcoming := rest, left := 1 } : Schedule).takeResult t.index (t.alone setting)

namespace Between

theorem next (h : s.Between) : (s.after setting t rest).Between :=
  ⟨h.workers, h.ready, h.resting, h.asleep, rfl, h.going, h.live⟩

/-- The next task is started. -/
theorem step_start (h : s.Between) (hupcoming : s.upcoming = t :: rest) :
    s.step setting = s.busy t rest := by
  rw [step_of_checking h.going h.checking, Schedule.check, if_neg (by simp [h.live])]
  simp [fill, begin, underWay, busy, h.workers, h.ready, h.resting, h.asleep, hupcoming]

theorem step_eq (h : s.Between) (u : Task) (rest : List Task) :
    (s.busy u rest).step setting =
      (place { s.busy u rest with world := (u.step setting s.world).1 } []
        (u.step setting s.world).2.1 (u.step setting s.world).2.2).wake :=
  step_of_ready (s := s.busy u rest) h.going rfl rfl Nat.one_ne_zero

/-- It goes on by itself. -/
theorem step_goes (h : s.Between) (hstep : u.step setting s.world = (s.world, t, .going)) :
    (s.busy u rest).step setting = s.busy t rest := by
  rw [h.step_eq, hstep]
  simp only [busy, place, wake, h.asleep, List.filter_nil, List.append_nil]

/-- Its result is taken. -/
theorem step_done (h : s.Between) (hresult : u.result? = some (t.alone setting))
    (hindex : u.index = t.index) : (s.busy u rest).step setting = s.after setting t rest := by
  rw [h.step_eq, Task.step_of_result hresult]
  simp only [busy, place, hresult, wake, takeResult, h.asleep, List.filter_nil, List.append_nil, after,
    hindex, h.ready]

/-- With no task left the schedule ends. -/
theorem ends_last (h : s.Between) (hupcoming : s.upcoming = []) :
    ∃ last, s.Ends setting last ∧ last.finished = s.finished ∧ last.cancelled = s.cancelled := by
  have hfill : s.fill = s := by
    rw [fill, hupcoming, List.take_nil, List.drop_nil, List.append_nil, ← hupcoming]
  have hcheck : s.step setting = s.begin := by
    rw [step_of_checking h.going h.checking, Schedule.check, if_neg (by simp [h.live]), hfill]
  have hturn : s.begin.step setting = { s.begin with ended := true } := by
    rw [step_of_left (s := s.begin) h.going rfl (.inl h.ready), turn]
    simp [begin, h.ready, h.resting]
  refine ⟨{ s.begin with ended := true }, .step h.going ?_, rfl, rfl⟩
  rw [hcheck]
  refine .step h.going ?_
  rw [hturn]
  exact .ended rfl

/-- A task that lists no set gives its result before another one is started. -/
theorem ends_next {last : Schedule} (h : s.Between) (hupcoming : s.upcoming = t :: rest) (hlone : t.Lone)
    (hends : (s.after setting t rest).Ends setting last) : s.Ends setting last := by
  refine .step h.going ?_
  rw [h.step_start hupcoming]
  refine .step h.going ?_
  rw [h.step_goes (Task.step_of_opening hlone.stage)]
  cases hrequest : t.pkg.request t.decl with
  | error f =>
      have hopen : t.open = t.close (t.alone setting) := by
        rw [Task.open, Task.alone, hrequest]
      refine .step h.going ?_
      rw [h.step_done (t := t) (by rw [hopen]; rfl) (by rw [hopen]; rfl)]
      exact hends
  | ok request =>
      have hopen : t.open = { t with request, queue := [], stage := .collecting } := by
        rw [Task.open, hrequest]
        simp only [hlone.references_eq_nil hrequest, List.map_nil]
      have hfinish : (t.open.takeNext setting).result? = some (t.alone setting) ∧
          (t.open.takeNext setting).index = t.index := by
        rw [hopen, Task.alone, hrequest]
        simp only [Task.takeNext, Task.finish, hlone.failures, if_true]
        exact ⟨rfl, rfl⟩
      refine .step h.going ?_
      rw [h.step_goes (Task.step_of_collecting (by rw [hopen]))]
      refine .step h.going ?_
      rw [h.step_done hfinish.1 hfinish.2]
      exact hends

/-- **A schedule of such tasks comes to its end**, with the results of all of them. -/
theorem ends (h : s.Between) (hlone : ∀ t ∈ s.upcoming, t.Lone) :
    ∃ last, s.Ends setting last ∧
      last.finished = s.finished ++ s.upcoming.map (Task.reportAlone setting) ∧
      last.cancelled = (s.cancelled || s.upcoming.any fun t => isCancelled (t.alone setting)) := by
  induction hupcoming : s.upcoming generalizing s with
  | nil =>
      obtain ⟨last, hends, hfinished, hcancelled⟩ := @ends_last setting s h hupcoming
      exact ⟨last, hends, by simp [hfinished], by simp [hcancelled]⟩
  | cons t rest ih =>
      rw [hupcoming] at hlone
      obtain ⟨last, hends, hfinished, hcancelled⟩ := @ih (s.after setting t rest) h.next
        (fun u hu => hlone u (List.mem_cons_of_mem _ hu)) rfl
      refine ⟨last, h.ends_next hupcoming (hlone t List.mem_cons_self) hends, ?_, ?_⟩
      · rw [hfinished, after, takeResult, List.append_assoc]
        rfl
      · rw [hcancelled, after, takeResult, List.any_cons, Bool.or_assoc]

end Between

end Schedule

/-! ### Runs -/

namespace RunInput

variable {input : RunInput} {world : World}

/-- A run is not cancelled before its first task, if the loader does not cancel it. -/
theorem live_launch (hlive : world.cancelled = false) (hcalm : input.loader.Calm) :
    (input.launch world).world.cancelled = false :=
  live_fillPackages hcalm (World.live_call hcalm hlive input.rootRequest) _

/-- **A run over injectors that list no set reports on what they come to alone.** -/
theorem generate_of_lone (hlive : world.cancelled = false) (hworkers : input.strategy.workers = 1)
    (hcalm : input.loader.Calm)
    (hsets : ∀ t ∈ (input.launch world).upcoming, t.decl.sets = []) :
    ∃ last, (input.launch world).Ends input.setting last ∧ generate input world =
      (last.world, reportOn input (world.call input.loader input.rootRequest).2
        ((input.launch world).upcoming.any fun t => Schedule.isCancelled (t.alone input.setting))
        ((input.launch world).upcoming.map (Task.reportAlone input.setting)) last.world) := by
  have hbetween : (input.launch world).Between :=
    ⟨hworkers, rfl, rfl, rfl, rfl, rfl, live_launch hlive hcalm⟩
  have hlone : ∀ t ∈ (input.launch world).upcoming, t.Lone := by
    intro t ht
    refine ⟨?_, ?_, hsets t ht⟩ <;> rw [eq_of_mem_discover ht]
  obtain ⟨last, hends, hfinished, hcancelled⟩ := @Schedule.Between.ends input.setting _ hbetween hlone
  refine ⟨last, hends, ?_⟩
  rw [hends.generate_eq hlive, hfinished, hcancelled]
  rfl

/-- The files of such a run. -/
theorem outputs_of_lone (hlive : world.cancelled = false) (hworkers : input.strategy.workers = 1)
    (hcalm : input.loader.Calm)
    (hsets : ∀ t ∈ (input.launch world).upcoming, t.decl.sets = []) :
    (generate input world).2.outputs =
      (Report.taskPaths (input.launch world).upcoming).flatMap
        (Report.filesAt input.makeFile input.options
          ((input.launch world).upcoming.map (Task.reportAlone input.setting))
          (input.launch world).upcoming) := by
  obtain ⟨last, -, hgenerate⟩ := generate_of_lone hlive hworkers hcalm hsets
  rw [hgenerate, outputs_reportOn rfl rfl, Schedule.complete_eq]
  · rfl
  · intro t ht
    have hreport : (input.launch world).upcoming.any (fun u => u.index = t.index) = true :=
      List.any_eq_true.2 ⟨t, ht, by simp⟩
    rw [← Option.isSome_iff_exists, resultAt, Option.isSome_map, List.isSome_find?, List.any_map]
    exact hreport

end RunInput

/-- Two tasks of a run at its start, by what they are about and what is known of their packages. -/
theorem exists_pair_of_discover {options : Options} {packages : List Package}
    {decl decl' : InjectorDecl} {path path' : String} {dir dir' : Path} {made made' : List ProviderDecl}
    (h : (discover options packages).map
      (fun t => (t.index, t.decl, t.pkg.path, t.pkg.dir, t.pkg.providers)) =
        [(0, decl, path, dir, made), (1, decl', path', dir', made')]) :
    ∃ a b : Package, discover options packages =
      [{ index := 0, pkg := a, decl }, { index := 1, pkg := b, decl := decl' }] ∧
      a.path = path ∧ a.dir = dir ∧ a.providers = made ∧ b.path = path' ∧ b.providers = made' := by
  have hplain : ∀ t ∈ discover options packages, t = { index := t.index, pkg := t.pkg, decl := t.decl } :=
    fun t ht => eq_of_mem_discover ht
  have hlength : (discover options packages).length = 2 := by simpa using congrArg List.length h
  obtain ⟨t, u, htasks⟩ := List.length_eq_two.1 hlength
  rw [htasks] at h hplain ⊢
  simp only [List.map_cons, List.map_nil, List.cons.injEq, Prod.mk.injEq, and_true] at h
  obtain ⟨⟨hindex, hdecl, hpath, hdir, hmade⟩, hindex', hdecl', hpath', -, hmade'⟩ := h
  refine ⟨t.pkg, u.pkg, ?_, hpath, hdir, hmade, hpath', hmade'⟩
  rw [hplain t List.mem_cons_self, hplain u (List.mem_cons_of_mem _ List.mem_cons_self), hindex, hdecl,
    hindex', hdecl']

/-! ### Injectors that ask for nothing -/

theorem resolveRequest_nothing (policy : Policy) (pkg name : String) :
    resolveRequest policy {} { pkg, name } = .ok {} := by
  have hacyclic : ({} : SetGraph).checkAcyclic = .ok () := by
    simp [SetGraph.checkAcyclic, SetGraph.findCycle?, SetGraph.nodes, SetGraph.explore]
  have hflatten : ({} : SetGraph).flatten [] (pkg ++ "." ++ name) = .ok [] := by
    simp [SetGraph.flatten, hacyclic, SetGraph.walk, SetGraph.rootVisits, SetGraph.rootCandidates]
    rfl
  rw [resolveRequest, Request.qualifiedName, hflatten]
  simp [Job.resolve, Job.bindInputs]

/-- **An injector that asks for nothing has code**, unless its name is taken. -/
theorem Task.alone_of_bare {setting : Setting} {t : Task}
    (hrequest : t.pkg.request t.decl = .ok { pkg := t.pkg.path, name := t.decl.name })
    (hgraph : t.graph = {}) (hname : Emit.collision? t.pkg t.decl = none) :
    t.alone setting = .ok
      { name := t.decl.name, plan := {}, code := (Emit.functionOf t.pkg t.decl {}).print } := by
  have hrender : Emit.render t.pkg t.decl {} = .ok (Emit.functionOf t.pkg t.decl {}).print := by
    rw [Emit.render, Emit.function?, hname]
    rfl
  rw [alone, hrequest]
  simp only [compose, hgraph, resolveRequest_nothing]
  simp only [bind, Except.bind, hrender]
  rfl

end Wiring
