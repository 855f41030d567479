/-
**A task whose errands are answered comes to its end.**

Circles among the references of sets do not keep a task from coming to an end: it sends for every set once,
and a circle is found only when its graph is flattened.  So as long as every errand is answered some time,
and finitely many sets are referred to, there is a result some time.  By then the task has gathered exactly
the sets within reach.

Main definitions:

* `Wiring.Task.left` — what is left to do for a task that stays among some sets;
* `Wiring.Task.Ended` — the ways in which a task ends;
* `Wiring.Crew.Trails` — the tasks of a run have come along trails through its tidy worlds.

Main results:

* `Wiring.Task.Steps.left_lt` — a step leaves less to do, or waits for an errand;
* `Wiring.Task.exists_result` — a task whose errands are answered comes to its end;
* `Wiring.Task.Trail.ended` — it ends over its declaration, when it is cancelled, or with all gathered;
* `Wiring.Task.gathers_within_reach` — **a task gathers exactly the sets within reach, and comes to an end**;
* `Wiring.RunInput.Reaches.trails` — so does every task of a run: it comes along such a trail.
-/

import Wiring.Proofs.Run.Gathering

set_option autoImplicit false

namespace Wiring

namespace Task

variable {setting : Setting} {world : World} {t t' t₀ : Task} {log given : List Delivery}

/-! ### The end -/

/-- A task has sent for a set and has not received it. -/
def Awaits (t : Task) : Prop :=
  ∃ errand lookup, t.stage = .fetching errand lookup

/-- The sets among some that a task has not met. -/
def unseen (ids : List SetId) (t : Task) : Nat :=
  (ids.filter fun id => !t.met.contains id).length

/-- What is left to do for a task that stays among some sets: to send for those that it has not met, to
receive the one that it has sent for, and to go through its queue. -/
def left (ids : List SetId) (t : Task) : ℕ ×ₗ ℕ :=
  match t.stage with
  | .opening => toLex (2 * ids.length + 1, 0)
  | .collecting => toLex (2 * t.unseen ids, t.queue.length)
  | .fetching _ _ => toLex (2 * t.unseen ids + 1, t.queue.length)
  | .closed _ => toLex (0, 0)

/-- A task stays among some sets. -/
def Among (ids : List SetId) (t : Task) : Prop :=
  ∀ errand ∈ t.queue, errand.id ∈ ids

theorem unseen_le (ids : List SetId) (t : Task) : t.unseen ids ≤ ids.length :=
  List.length_filter_le _ _

namespace Steps

variable {ids : List SetId}

/-- A task stays about its injector. -/
theorem stems (h : t.Steps setting world given t') : t'.Stems t := by
  cases h with
  | reads => exact t.stems_open.1
  | takes hstage => exact (stems_takeNext hstage).1
  | looks => exact ⟨rfl, rfl, rfl⟩
  | waits => exact ⟨rfl, rfl, rfl⟩
  | receives => exact (t.stems_receive _).1
  | rests => exact ⟨rfl, rfl, rfl⟩

/-- A task stays among some sets if its injector and all that it is given refer to no others. -/
theorem among (h : t.Steps setting world given t') (ht : t.Among ids)
    (hrequest : ∀ request, t.pkg.request t.decl = .ok request → ∀ id ∈ request.references, id ∈ ids)
    (hgiven : ∀ d ∈ given, ∀ s ∈ d.set?, ∀ id ∈ s.references, id ∈ ids) : t'.Among ids := by
  cases h with
  | reads =>
      rcases t.open_cases with ⟨f, -, heq⟩ | ⟨request, hread, heq⟩ <;> rw [heq]
      · exact ht
      · intro errand herrand
        obtain ⟨id, hid, rfl⟩ := List.mem_map.1 herrand
        exact hrequest request hread id hid
  | takes hstage =>
      rcases t.takeNext_cases setting with ⟨-, heq⟩ | ⟨errand, rest, hqueue, htaken⟩
      · rw [heq]
        exact ht
      · have hrest : ∀ e ∈ rest, e.id ∈ ids := fun e he => ht e (hqueue ▸ List.mem_cons_of_mem _ he)
        rcases htaken with ⟨-, heq⟩ | ⟨-, heq⟩ <;> rw [heq] <;> exact hrest
  | looks => exact ht
  | waits => exact ht
  | @receives errand _ answer =>
      rcases t.receive_cases answer with ⟨set, rfl, heq⟩ | ⟨-, heq⟩ | ⟨f, -, -, heq⟩ <;> rw [heq]
      · intro e he
        rcases List.mem_append.1 he with he | he
        · exact ht e he
        · obtain ⟨id, hid, rfl⟩ := List.mem_map.1 he
          exact hgiven _ (List.mem_singleton.2 rfl) set (Delivery.set?_eq_some_iff.2 rfl) id hid
      · exact ht
      · exact ht
  | rests => exact ht

/-- A step ends the task, or leaves less to do, or only waits for a set that has been sent for. -/
theorem left_lt (h : t.Steps setting world given t') (ht : t.Among ids) (hopen : t.result? = none) :
    t'.result? ≠ none ∨ t'.left ids < t.left ids ∨ t'.Awaits ∧ t'.left ids = t.left ids := by
  cases h with
  | reads hstage =>
      have hleft : t.left ids = toLex (2 * ids.length + 1, 0) := by rw [left, hstage]
      rw [hleft]
      rcases t.open_cases with ⟨f, -, heq⟩ | ⟨request, -, heq⟩ <;> rw [heq]
      · exact Or.inl nofun
      · refine Or.inr (Or.inl (Prod.Lex.toLex_lt_toLex.2 (Or.inl ?_)))
        have hle := unseen_le ids t
        exact Nat.lt_succ_of_le (Nat.mul_le_mul_left 2 hle)
  | takes hstage =>
      have hleft : t.left ids = toLex (2 * t.unseen ids, t.queue.length) := by rw [left, hstage]
      rw [hleft]
      rcases t.takeNext_cases setting with ⟨-, heq⟩ | ⟨errand, rest, hqueue, ⟨-, heq⟩ | ⟨hnew, heq⟩⟩ <;>
        rw [heq]
      · exact Or.inl nofun
      · have hafter : ({ t with queue := rest } : Task).left ids =
            toLex (2 * t.unseen ids, rest.length) := by
          simp only [left, hstage]
          rfl
        rw [hafter, hqueue]
        exact Or.inr (Or.inl (Prod.Lex.toLex_lt_toLex.2 (Or.inr ⟨rfl, Nat.lt_succ_self _⟩)))
      · have hfewer := length_unmet_cons_lt (ht errand (hqueue ▸ List.mem_cons_self)) hnew
        refine Or.inr (Or.inl (Prod.Lex.toLex_lt_toLex.2 (Or.inl ?_)))
        change 2 * _ + 1 < 2 * (ids.filter fun i => !t.met.contains i).length
        exact Nat.lt_of_lt_of_le (Nat.lt_succ_self _) (Nat.mul_le_mul_left 2 hfewer)
  | looks hstage => exact Or.inr (Or.inr ⟨⟨_, _, rfl⟩, by simp only [left, hstage]; rfl⟩)
  | waits hstage => exact Or.inr (Or.inr ⟨⟨_, _, hstage⟩, rfl⟩)
  | @receives _ _ answer hstage =>
      have hleft : t.left ids = toLex (2 * t.unseen ids + 1, t.queue.length) := by rw [left, hstage]
      rw [hleft]
      rcases t.receive_cases answer with ⟨set, -, heq⟩ | ⟨-, heq⟩ | ⟨f, -, -, heq⟩ <;> rw [heq]
      · exact Or.inr (Or.inl (Prod.Lex.toLex_lt_toLex.2 (Or.inl (Nat.lt_succ_self _))))
      · exact Or.inl nofun
      · exact Or.inr (Or.inl (Prod.Lex.toLex_lt_toLex.2 (Or.inl (Nat.lt_succ_self _))))
  | rests hstage =>
      rw [result?, hstage] at hopen
      cases hopen

end Steps

/-- **A task whose errands are answered comes to its end**, if its injector and all that it is given refer to
finitely many sets, in circles or not. -/
theorem exists_result {index : Nat} {pkg : Package} {decl : InjectorDecl} {ids : List SetId}
    {run : ℕ → Task} {settings : ℕ → Setting} {worlds : ℕ → World}
    (hstart : run 0 = { index, pkg, decl })
    (hrun : ∀ n, run (n + 1) = ((run n).step (settings n) (worlds n)).2.1)
    (hrequest : ∀ request, pkg.request decl = .ok request → ∀ id ∈ request.references, id ∈ ids)
    (hgiven : ∀ n, ∀ d ∈ (run n).delivered (settings n) (worlds n), ∀ s ∈ d.set?, ∀ id ∈ s.references,
      id ∈ ids)
    (hfair : ∀ n, ∃ m, n ≤ m ∧ ¬ (run m).Awaits) : ∃ n, (run n).result? ≠ none := by
  have hsteps : ∀ n, (run n).Steps (settings n) (worlds n) ((run n).delivered (settings n) (worlds n))
      (run (n + 1)) := fun n => hrun n ▸ step_steps _ _ _
  have hamong : ∀ n, (run n).Stems (run 0) ∧ (run n).Among ids := by
    intro n
    induction n with
    | zero =>
        refine ⟨⟨rfl, rfl, rfl⟩, ?_⟩
        rw [hstart]
        exact nofun
    | succ n ih =>
        obtain ⟨hstems, hids⟩ := ih
        refine ⟨(hsteps n).stems.trans hstems, (hsteps n).among hids ?_ (hgiven n)⟩
        rw [hstems.pkg, hstems.decl, hstart]
        exact hrequest
  by_contra hnever
  have hopen : ∀ n, (run n).result? = none := by
    intro n
    by_contra hresult
    exact hnever ⟨n, hresult⟩
  have hstep : ∀ n, (run (n + 1)).left ids < (run n).left ids ∨
      (run (n + 1)).Awaits ∧ (run (n + 1)).left ids = (run n).left ids := fun n =>
    ((hsteps n).left_lt (hamong n).2 (hopen n)).resolve_left fun hresult => hresult (hopen (n + 1))
  -- as long as nothing is received there is as much to do as before
  have hlater : ∀ n d, (∃ m, (run m).left ids < (run n).left ids) ∨
      (run (n + 1 + d)).Awaits ∧ (run (n + 1 + d)).left ids = (run n).left ids := by
    intro n d
    induction d with
    | zero => exact (hstep n).imp_left fun hlt => ⟨_, hlt⟩
    | succ d ih =>
        rcases ih with hlt | ⟨-, hsame⟩
        · exact Or.inl hlt
        · rw [← hsame]
          exact (hstep (n + 1 + d)).imp_left fun hlt => ⟨_, hlt⟩
  have hless : ∀ n, ∃ m, (run m).left ids < (run n).left ids := by
    intro n
    obtain ⟨m, hm, hreceived⟩ := hfair (n + 1)
    obtain ⟨d, rfl⟩ := Nat.exists_eq_add_of_le hm
    exact (hlater n d).resolve_right fun h => hreceived h.1
  have hdescent : ∀ l : ℕ ×ₗ ℕ, ∀ n, (run n).left ids ≠ l := by
    intro l
    induction l using WellFoundedLT.induction with
    | _ l ih =>
        rintro n rfl
        obtain ⟨m, hlt⟩ := hless n
        exact ih _ hlt m rfl
  exact hdescent _ 0 rfl

/-! ### The whole of it -/

/-- A task on a trail is about the injector that it began with. -/
theorem Trail.stems (h : Trail t₀ log t) : t.Stems t₀ := by
  induction h with
  | begins => exact ⟨rfl, rfl, rfl⟩
  | steps _ setting _ ih => exact (step_steps setting _ _).stems.trans ih

/-- The ways in which a task ends. -/
inductive Ended (t₀ : Task) (log : List Delivery) : TaskResult → Prop
  | refused {f : Failure} (h : t₀.pkg.request t₀.decl = .error f) : Ended t₀ log (.error [f])
  | cancelled {d : Delivery} (hd : d ∈ log) (h : d.answer = .error .cancelled) :
      Ended t₀ log (.error [.cancelled])
  /-- Everything has been gathered, and nothing is resolved if some set could not be had. -/
  | gathered {t : Task} (setting : Setting) (h : Trail t₀ log t) (hstage : t.stage = .collecting)
      (hqueue : t.queue = []) :
      Ended t₀ log (if t.failures = [] then t.compose setting else .error t.failures)

/-- Only these steps end a task. -/
theorem Steps.ended {result : TaskResult} (h : t.Steps setting world given t') (htrail : Trail t₀ log t)
    (hopen : t.result? = none) (hresult : t'.result? = some result) : Ended t₀ (log ++ given) result := by
  cases h with
  | reads hstage =>
      rcases t.open_cases with ⟨f, hrequest, heq⟩ | ⟨request, -, heq⟩ <;> rw [heq] at hresult
      · cases Option.some_inj.1 hresult
        refine .refused ?_
        rwa [← htrail.stems.pkg, ← htrail.stems.decl]
      · cases hresult
  | takes hstage =>
      rw [List.append_nil]
      rcases t.takeNext_cases setting with ⟨hqueue, heq⟩ | ⟨_, _, -, ⟨-, heq⟩ | ⟨-, heq⟩⟩ <;>
        rw [heq] at hresult
      · cases Option.some_inj.1 hresult
        exact .gathered setting htrail hstage hqueue
      · rw [result?, hstage] at hresult
        cases hresult
      · cases hresult
  | looks => cases hresult
  | waits => cases hopen.symm.trans hresult
  | @receives errand _ answer =>
      rcases t.receive_cases answer with ⟨set, -, heq⟩ | ⟨rfl, heq⟩ | ⟨f, -, -, heq⟩ <;> rw [heq] at hresult
      · cases hresult
      · cases Option.some_inj.1 hresult
        exact .cancelled (List.mem_append_right _ (List.mem_singleton_self _)) rfl
      · cases hresult
  | rests => cases hopen.symm.trans hresult

/-- A task ends over its declaration, when it is cancelled, or with all gathered. -/
theorem Trail.ended {result : TaskResult} (h : Trail t₀ log t) (hfresh : t₀.result? = none)
    (hresult : t.result? = some result) : Ended t₀ log result := by
  induction h with
  | begins => cases hfresh.symm.trans hresult
  | @steps log t htrail setting world _ ih =>
      cases hopen : t.result? with
      | none => exact (step_steps setting world t).ended htrail hopen hresult
      | some r =>
          -- what has ended rests, and is given nothing more
          rw [step_of_result hopen] at hresult
          have hnone : t.delivered setting world = [] := by
            rw [delivered, result?_eq_some_iff.1 hopen]
          rw [hnone, List.append_nil]
          exact ih hresult

/-- **A task gathers exactly the sets within reach, and comes to an end.**  Whatever tidy worlds it comes
through, when its queue is empty it has gathered what can be reached from its injector, in its own graph and
in any catalogue of sets that the deliveries agree with; and it ends with that unless its declaration is
refused or it is cancelled.  When every errand is answered some time, it has a result some time, provided that
finitely many sets are referred to. -/
theorem gathers_within_reach :
    (∀ (index : Nat) (pkg : Package) (decl : InjectorDecl) (log : List Delivery) (t : Task),
      Trail { index, pkg, decl } log t →
        (t.stage = .collecting → t.queue = [] → pkg.request decl = .ok t.request ∧ t.Collected log ∧
          ∀ catalogue : SetId → Option ProviderSet, (∀ d ∈ log, d.set? = catalogue d.id) →
            BreadthFirst (fun id => (catalogue id).elim [] ProviderSet.references) t.request.references
              (log.map Delivery.id)) ∧
        ∀ result, t.result? = some result → Ended { index, pkg, decl } log result) ∧
    ∀ (index : Nat) (pkg : Package) (decl : InjectorDecl) (ids : List SetId) (run : ℕ → Task)
      (settings : ℕ → Setting) (worlds : ℕ → World),
      run 0 = { index, pkg, decl } →
      (∀ n, run (n + 1) = ((run n).step (settings n) (worlds n)).2.1) →
      (∀ request, pkg.request decl = .ok request → ∀ id ∈ request.references, id ∈ ids) →
      (∀ n, ∀ d ∈ (run n).delivered (settings n) (worlds n), ∀ s ∈ d.set?, ∀ id ∈ s.references,
        id ∈ ids) →
      (∀ n, ∃ m, n ≤ m ∧ ¬ (run m).Awaits) → ∃ n, (run n).result? ≠ none := by
  constructor
  · intro index pkg decl log t htrail
    refine ⟨fun hstage hqueue => ?_, fun result => htrail.ended rfl⟩
    obtain ⟨hseeks, -⟩ := htrail.gathers.of_collecting hstage
    have hasked := hseeks.asked
    rw [htrail.stems.pkg, htrail.stems.decl] at hasked
    rw [hqueue] at hseeks
    have hcollected := hseeks.collected hqueue
    exact ⟨hasked, hcollected, fun _ => hcollected.order_in⟩
  · intro index pkg decl ids run settings worlds hstart hrun hrequest hgiven hfair
    exact exists_result hstart hrun hrequest hgiven hfair

section Ring

/-- Two sets that refer to each other, and one of them to itself. -/
def ringPackage : Package where
  path := "ring"
  sets := [{ name := "A", sets := ["B", "A"] }, { name := "B", sets := ["A"] }]

/-- An injector that refers to one of them. -/
def ringDecl : InjectorDecl where
  name := "Turn"
  outputs := ["Wheel"]
  sets := ["A"]

def ringSetting : Setting :=
  ({ loader := .plain fun _ => {}, patterns := [] } : RunInput).setting

def ringWorld : World where
  packages := { slots := ⟨[("ring", .ready ringPackage)]⟩ }

/-- The injector on its way, when nobody else changes anything. -/
def ringRun : ℕ → Task
  | 0 => { index := 0, pkg := ringPackage, decl := ringDecl }
  | n + 1 => ((ringRun n).step ringSetting ringWorld).2.1

/-- What it has been given. -/
def ringLog : ℕ → List Delivery
  | 0 => []
  | n + 1 => ringLog n ++ (ringRun n).delivered ringSetting ringWorld

theorem ringWorld_tidy : ringWorld.Tidy := by
  refine ⟨fun path pkg hpkg => ?_, .empty⟩
  have hmem := Table.mem_of_get? hpkg
  cases List.mem_singleton.1 hmem
  rfl

theorem ring_trail (n : ℕ) :
    Trail { index := 0, pkg := ringPackage, decl := ringDecl } (ringLog n) (ringRun n) := by
  induction n with
  | zero => exact .begins
  | succ n ih => exact ih.steps ringSetting ringWorld_tidy

theorem ringRun_closed (n : ℕ) : ringRun (10 + n) = ringRun 10 := by
  induction n with
  | zero => rfl
  | succ n ih =>
      have hclosed : (ringRun 10).result?.isSome = true := by decide +kernel
      obtain ⟨result, hresult⟩ := Option.isSome_iff_exists.1 hclosed
      rw [← Nat.add_assoc, ringRun, ih, step_of_result hresult]

/-- In a ring each set is fetched once, and the task comes to an end. -/
theorem gathers_within_reach_ring :
    (ringLog 9).map Delivery.id = [⟨"ring", "A"⟩, ⟨"ring", "B"⟩] ∧ (ringRun 9).Collected (ringLog 9) ∧
      (∃ result, (ringRun 10).result? = some result ∧
        Ended { index := 0, pkg := ringPackage, decl := ringDecl } (ringLog 10) result) ∧
      ∃ n, (ringRun n).result? ≠ none := by
  have hids : (ringLog 9).map Delivery.id = [⟨"ring", "A"⟩, ⟨"ring", "B"⟩] := by decide +kernel
  have hstage : (ringRun 9).stage = .collecting := rfl
  have hqueue : (ringRun 9).queue = [] := by decide +kernel
  have hclosed : (ringRun 10).result?.isSome = true := by decide +kernel
  have hcollected := ((gathers_within_reach.1 0 ringPackage ringDecl (ringLog 9) (ringRun 9)
    (ring_trail 9)).1 hstage hqueue).2.1
  have hended := (gathers_within_reach.1 0 ringPackage ringDecl (ringLog 10) (ringRun 10) (ring_trail 10)).2
  obtain ⟨result, hresult⟩ := Option.isSome_iff_exists.1 hclosed
  refine ⟨hids, hcollected, ⟨result, hresult, hended result hresult⟩, gathers_within_reach.2 0 ringPackage
    ringDecl [⟨"ring", "A"⟩, ⟨"ring", "B"⟩] ringRun (fun _ => ringSetting) (fun _ => ringWorld) rfl
    (fun _ => rfl) ?_ ?_ ?_⟩
  · intro request hrequest
    have hreferences : (ringPackage.request ringDecl).toOption.map Request.references =
        some [⟨"ring", "A"⟩] := by decide +kernel
    rw [hrequest] at hreferences
    rw [Option.some_inj.1 hreferences]
    decide
  · have hall : ∀ n < 11, ∀ d ∈ (ringRun n).delivered ringSetting ringWorld, ∀ s ∈ d.set?,
        ∀ id ∈ s.references, id ∈ [(⟨"ring", "A"⟩ : SetId), ⟨"ring", "B"⟩] := by decide +kernel
    intro n
    by_cases hn : n < 11
    · exact hall n hn
    · obtain ⟨k, rfl⟩ := Nat.exists_eq_add_of_le (show 10 ≤ n by omega)
      rw [ringRun_closed]
      exact hall 10 (by decide)
  · intro n
    refine ⟨10 + n, Nat.le_add_left n 10, ?_⟩
    rw [ringRun_closed]
    rintro ⟨errand, lookup, hfetching⟩
    rw [result?, hfetching] at hclosed
    cases hclosed

end Ring

end Task

/-! ### Runs -/

/-- The tasks that remain of a run have come along trails through its tidy worlds. -/
structure Crew.Trails (tasks : List Task) (s : Crew) : Prop where
  world : s.world.Tidy
  trails : ∀ t ∈ s.remaining, ∃ t₀ ∈ tasks, ∃ log, Task.Trail t₀ log t

section Runs

variable {setting : Setting} {workers : Nat} {turn : Turn} {turns : List Turn} {s s' : Crew}
  {tasks : List Task}

theorem Crew.Trails.move (h : s.Trails tasks) (hmove : Move setting workers turn s s') :
    s'.Trails tasks := by
  refine ⟨hmove.tidy h.world, ?_⟩
  cases hmove with
  | start _ ht => exact Crew.remaining_start ht ▸ h.trails
  | @advance _ t rest delay _ ht =>
      obtain ⟨t₀, ht₀, log, htrail⟩ := h.trails t (Crew.mem_remaining ht)
      exact Crew.forall_remaining_advance ht h.trails
        ⟨t₀, ht₀, _, htrail.steps (setting.delayed delay) h.world⟩ _
  | deliver _ ht => exact Crew.forall_remaining_deliver ht h.trails _ _
  | fire => exact h.trails
  | stop => exact h.trails

/-- **The tasks of a run come along trails.** -/
theorem Moves.trails (h : s.Trails tasks) (hmoves : Moves setting workers turns s s') :
    s'.Trails tasks := by
  induction hmoves with
  | nil => exact h
  | cons hmove _ ih => exact ih (h.move hmove)

/-- Loading packages changes no set. -/
theorem sets_loadImports (input : RunInput) (world : World) (packages : List Package) :
    (loadImports input world packages).1.sets = world.sets := by
  unfold loadImports
  split <;> rfl

theorem sets_fillPackages (input : RunInput) (world : World) (roots : LoadOutcome) :
    (fillPackages input world roots).sets = world.sets := by
  unfold fillPackages
  split
  · rfl
  · exact sets_loadImports input world roots.packages

/-- So it is from the first call of the loader on, if the run begins with sets that have been extracted. -/
theorem RunInput.Reaches.trails {input : RunInput} {course : Course} {world : World} {roots : LoadOutcome}
    (h : input.Reaches course world roots s) (hsets : world.sets.Populated) :
    s.Trails (discover input.options roots.packages) := by
  cases h with
  | @intro opened _ _ _ hroots hmoves =>
      refine hmoves.trails ⟨⟨addressed_fillPackages _ _ _, ?_⟩, fun t ht => ?_⟩
      · have hopened : opened.sets = (world.fire course.beforeRoots).sets := World.sets_of_call hroots
        have hfilled := sets_fillPackages input (opened.fire course.beforeImports) roots
        rw [Crew.outset, hfilled]
        exact hopened ▸ hsets
      · rw [Crew.remaining_outset, Multiset.mem_coe] at ht
        exact ⟨t, ht, [], .begins⟩

end Runs

end Wiring
