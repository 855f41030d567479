/-
**Binding ends.**

Binding goes down from the outputs to the inputs of chosen providers, wherever the candidates lead.  Seen one
step at a time, it is a stack of loops, one for each provider whose inputs are being bound, and a chain that all
of them share: a loop that begins puts its type on the chain, and when it is over the type is taken off.

What holds a descent back is that the types on the chain are distinct and undecided.  A call for one of them is
answered at once, and so is a call for a decided type, so a provider's inputs are walked at most once.  Every
call is owed by the outputs or by a provider that has been walked, so that there are only so many.

Main definitions:

* `Wiring.Job.ask` — the answer to a call, or the provider whose inputs have to be walked for it;
* `Wiring.Descent`, `Wiring.Descent.step` — binding under way, and its next step;
* `Wiring.Descent.Runs` — one state leads to another in any number of steps;
* `Wiring.Descent.Orderly` — the invariant of the chain, of the walks and of the calls;
* `Wiring.Job.Terminates` — what is said of a resolution as a whole.

Main results:

* `Wiring.Descent.Orderly.step` — **every step preserves the invariant**;
* `Wiring.Descent.Orderly.calls_le` — the calls are bounded by the outputs and the inputs of distinct candidates;
* `Wiring.Descent.completes` — **steps come to what the recursion says**, in whatever state they begin;
* `Wiring.Job.leaves_bindAll`, `Wiring.Job.decided_bind` — what a call keeps and what it decides;
* `Wiring.Job.descent_terminates` — **every call returns, and the inputs of a provider are walked once**.
-/

import Mathlib.Algebra.GroupWithZero.Nat
import Mathlib.Algebra.Order.BigOperators.Group.List
import Mathlib.Algebra.Order.Group.Nat
import Mathlib.Data.List.Perm.Subperm
import Wiring.Proofs.Resolution.Diagnosis

set_option autoImplicit false

namespace Wiring

/-! ### One call -/

/-- What a call comes to at first: an answer and the state that is left, or a provider whose inputs have to be
walked. -/
inductive Answer where
  | told (progress : Progress) (bound : Bool)
  | walk (maker : Provider)

namespace Job

variable {job : Job} {chain : List TypeName} {needer : Option Provider} {type : TypeName}
  {types : List TypeName} {p q : Progress} {maker : Provider} {bound : Bool}

/-- Asks for a type. -/
def ask (job : Job) (chain : List TypeName) (needer : Option Provider) (type : TypeName) (p : Progress) :
    Answer :=
  match p.verdicts.get? type with
  | some bound => .told p bound
  | none =>
    if type ∈ chain then .told (p.fail (.cycle (closeChain chain type))) false
    else match job.choose type with
      | .none =>
        let missing := Failure.noProvider type (needer.map Provider.qualifiedName) (job.suggestions type)
        .told ((p.fail missing).decide type false) false
      | .conflict ps =>
        let conflict := Failure.duplicateProvider type (ps.map Provider.qualifiedName)
        .told ((p.fail conflict).decide type false) false
      | .one maker => .walk maker

/-- A provider is walked for an undecided type that is not on the chain. -/
theorem of_ask_eq_walk (h : job.ask chain needer type p = .walk maker) :
    p.verdicts.get? type = none ∧ type ∉ chain ∧ job.choose type = .one maker := by
  rw [ask] at h
  split at h
  · cases h
  next hnone =>
    split at h
    · cases h
    next hnew =>
      split at h
      · cases h
      · cases h
      next hc =>
        cases h
        exact ⟨hnone, hnew, hc⟩

/-- An answer is what binding comes to. -/
theorem bind_of_ask_eq_told (h : job.ask chain needer type p = .told q bound) :
    job.bind chain needer type p = (q, bound) := by
  rw [ask] at h
  split at h
  next hv =>
    cases h
    exact bind_of_decided hv
  next hnone =>
    split at h
    next hmem =>
      cases h
      exact bind_of_mem hnone hmem
    next hnew =>
      split at h
      next hc =>
        cases h
        exact bind_of_unmade hnone hnew hc
      next hc =>
        cases h
        exact bind_of_conflict hnone hnew hc
      · cases h

/-! ### What binding keeps -/

/-- A later state only adds to an earlier one and leaves the types of a chain open. -/
structure Leaves (chain : List TypeName) (p q : Progress) : Prop where
  grows : p.Grows q
  opens : ∀ t ∈ chain, p.verdicts.get? t = none → q.verdicts.get? t = none

theorem Leaves.trans {r : Progress} (h : Leaves chain p q) (h' : Leaves chain q r) : Leaves chain p r :=
  ⟨h.grows.trans h'.grows, fun t ht hopen => h'.opens t ht (h.opens t ht hopen)⟩

/-- Binding one type leaves the chain open, if binding the inputs of its chosen provider does so for the longer
chain. -/
theorem leaves_bind_of (ih : type ∉ chain → ∀ maker, job.choose type = .one maker →
      Leaves (chain ++ [type]) p (job.bindAll (chain ++ [type]) (some maker) maker.inputs p).1) :
    Leaves chain p (job.bind chain needer type p).1 := by
  have hout : job.Outcome chain needer type p (job.bind chain needer type p) := bind_outcome
  have hother : type ∉ chain → ∀ t ∈ chain, t ≠ type := fun hnew t ht heq => hnew (heq ▸ ht)
  generalize job.bind chain needer type p = result at hout
  cases hout with
  | decided => exact ⟨.refl p, fun _ _ hopen => hopen⟩
  | circle => exact ⟨p.grows_fail _, fun _ _ hopen => hopen⟩
  | unmade hnone hnew =>
      refine ⟨(p.grows_fail _).trans (Progress.grows_decide (p := p.fail _) hnone false), ?_⟩
      intro t ht hopen
      rwa [Progress.get?_decide, if_neg (hother hnew t ht)]
  | contested hnone hnew =>
      refine ⟨(p.grows_fail _).trans (Progress.grows_decide (p := p.fail _) hnone false), ?_⟩
      intro t ht hopen
      rwa [Progress.get?_decide, if_neg (hother hnew t ht)]
  | @concluded maker hnone hnew hc =>
      have hbelow := ih hnew maker hc
      have hopen := hbelow.opens type (by simp) hnone
      refine ⟨hbelow.grows.trans (Progress.grows_conclude hopen maker _), fun t ht hnot => ?_⟩
      rw [Progress.get?_conclude, if_neg (hother hnew t ht)]
      exact hbelow.opens t (List.mem_append_left _ ht) hnot

/-- **Binding only adds, and decides nothing that is on the chain**, in whatever state it begins. -/
theorem leaves_bindAll : Leaves chain p (job.bindAll chain needer types p).1 := by
  induction chain, needer, types, p using bindAll_induction job with
  | nil chain needer p =>
      rw [bindAll_nil]
      exact ⟨.refl p, fun _ _ hopen => hopen⟩
  | cons chain needer type rest p ihBelow ihRest =>
      rw [bindAll_cons]
      exact (leaves_bind_of ihBelow).trans ihRest

/-- A type that is not on the chain has been decided when it has been bound. -/
theorem decided_bind (hnew : type ∉ chain) : (job.bind chain needer type p).1.Decided type := by
  have hout : job.Outcome chain needer type p (job.bind chain needer type p) := bind_outcome
  generalize job.bind chain needer type p = result at hout
  cases hout with
  | @decided b hv =>
      rw [Progress.Decided, hv]
      exact Option.some_ne_none b
  | circle _ hmem => exact absurd hmem hnew
  | unmade => exact Progress.decided_decide.2 (.inl rfl)
  | contested => exact Progress.decided_decide.2 (.inl rfl)
  | concluded => exact Progress.decided_conclude.2 (.inl rfl)

end Job

/-! ### Binding one step at a time -/

/-- A loop under way. -/
structure Loop where
  /-- The type that waits for the loop, with the provider whose inputs it binds; there is none for the
  outputs. -/
  target : Option (TypeName × Provider) := none
  /-- The types that are still to be asked for. -/
  rest : List TypeName
  /-- Whether all types so far could be bound. -/
  ok : Bool := true

/-- Binding under way. -/
structure Descent where
  /-- The types in progress, which all loops share. -/
  chain : List TypeName := []
  progress : Progress
  /-- The loops, the innermost first. -/
  loops : List Loop
  /-- The number of calls that have been made. -/
  calls : Nat := 0
  /-- The types for which a provider's inputs have begun to be walked, with these providers. -/
  walks : List (TypeName × Provider) := []

namespace Descent

variable {job : Job} {d d' : Descent} {target : Option (TypeName × Provider)} {ok : Bool}
  {outer : List Loop} {type : TypeName} {rest : List TypeName}

/-- The next step: the innermost loop asks for its next type, or it is over and the loop around it goes on.
There is none when the outputs have been asked for. -/
def step (job : Job) (d : Descent) : Option Descent :=
  match d.loops with
  | ⟨target, type :: rest, ok⟩ :: outer =>
    match job.ask d.chain (target.map Prod.snd) type d.progress with
    | .told progress bound =>
      some { d with progress, loops := ⟨target, rest, ok && bound⟩ :: outer, calls := d.calls + 1 }
    | .walk maker =>
      some { d with
        chain := d.chain ++ [type]
        loops := ⟨some (type, maker), maker.inputs, true⟩ :: ⟨target, rest, ok⟩ :: outer
        calls := d.calls + 1
        walks := d.walks ++ [(type, maker)] }
  | ⟨some (type, maker), [], bound⟩ :: ⟨target, rest, ok⟩ :: outer =>
    some { d with
      chain := d.chain.dropLast
      progress := d.progress.conclude type maker bound
      loops := ⟨target, rest, ok && bound⟩ :: outer }
  | _ => none

/-- The three kinds of steps: a call is answered, a call begins a loop of its own, or a loop is over. -/
inductive Step (job : Job) (d : Descent) : Descent → Prop
  | told {target : Option (TypeName × Provider)} {type : TypeName} {rest : List TypeName} {ok bound : Bool}
      {outer : List Loop} {progress : Progress} (hloops : d.loops = ⟨target, type :: rest, ok⟩ :: outer)
      (hask : job.ask d.chain (target.map Prod.snd) type d.progress = .told progress bound) :
      Step job d
        { d with progress, loops := ⟨target, rest, ok && bound⟩ :: outer, calls := d.calls + 1 }
  | walk {target : Option (TypeName × Provider)} {type : TypeName} {rest : List TypeName} {ok : Bool}
      {outer : List Loop} {maker : Provider} (hloops : d.loops = ⟨target, type :: rest, ok⟩ :: outer)
      (hask : job.ask d.chain (target.map Prod.snd) type d.progress = .walk maker) :
      Step job d
        { d with
          chain := d.chain ++ [type]
          loops := ⟨some (type, maker), maker.inputs, true⟩ :: ⟨target, rest, ok⟩ :: outer
          calls := d.calls + 1
          walks := d.walks ++ [(type, maker)] }
  | back {target : Option (TypeName × Provider)} {type : TypeName} {rest : List TypeName} {ok bound : Bool}
      {outer : List Loop} {maker : Provider}
      (hloops : d.loops = ⟨some (type, maker), [], bound⟩ :: ⟨target, rest, ok⟩ :: outer) :
      Step job d
        { d with
          chain := d.chain.dropLast
          progress := d.progress.conclude type maker bound
          loops := ⟨target, rest, ok && bound⟩ :: outer }

theorem step_eq_some_iff : d.step job = some d' ↔ Step job d d' := by
  constructor
  · intro h
    rw [step] at h
    split at h
    next hloops =>
      split at h
      next hask =>
        cases h
        exact .told hloops hask
      next hask =>
        cases h
        exact .walk hloops hask
    next hloops =>
      cases h
      exact .back hloops
    · cases h
  · intro h
    cases h with
    | told hloops hask => rw [step, hloops]; simp only [hask]
    | walk hloops hask => rw [step, hloops]; simp only [hask]
    | back hloops => rw [step, hloops]

/-- One state leads to another. -/
def Runs (job : Job) : Descent → Descent → Prop :=
  Relation.ReflTransGen fun d d' => d.step job = some d'

theorem Step.runs (h : Step job d d') : Runs job d d' :=
  .single (step_eq_some_iff.2 h)

/-- A resolution begins with the loop over its outputs. -/
def outset (job : Job) : Descent where
  progress := job.start
  loops := [{ rest := job.outputs }]

/-! ### Steps come to what the recursion says -/

section Recursion

variable {chain types : List TypeName} {p : Progress}

/-- The steps of a loop over some types come to what the recursion says, and leave the chain and the loops
around it as they were. -/
def Completes (job : Job) (chain : List TypeName) (target : Option (TypeName × Provider))
    (types : List TypeName) (p : Progress) : Prop :=
  ∀ more ok outer calls walks, ∃ calls' walks',
    Runs job ⟨chain, p, ⟨target, types ++ more, ok⟩ :: outer, calls, walks⟩
      ⟨chain, (job.bindAll chain (target.map Prod.snd) types p).1,
        ⟨target, more, ok && (job.bindAll chain (target.map Prod.snd) types p).2⟩ :: outer, calls', walks'⟩

/-- A call returns, if the loop over the inputs of its chosen provider does. -/
theorem completes_singleton (ih : type ∉ chain → ∀ maker, job.choose type = .one maker →
      Completes job (chain ++ [type]) (some (type, maker)) maker.inputs p) :
    Completes job chain target [type] p := by
  intro more ok outer calls walks
  rw [← Job.bind]
  cases hask : job.ask chain (target.map Prod.snd) type p with
  | told q bound =>
      rw [Job.bind_of_ask_eq_told hask]
      exact ⟨_, _, (Step.told rfl hask).runs⟩
  | walk maker =>
      obtain ⟨hnone, hnew, hc⟩ := Job.of_ask_eq_walk hask
      obtain ⟨calls', walks', hbelow⟩ :=
        ih hnew maker hc [] true (⟨target, more, ok⟩ :: outer) (calls + 1) (walks ++ [(type, maker)])
      rw [List.append_nil] at hbelow
      rw [Job.bind_of_one hnone hnew hc]
      have hwalk : Runs job ⟨chain, p, ⟨target, type :: more, ok⟩ :: outer, calls, walks⟩ _ :=
        (Step.walk rfl hask).runs
      refine ⟨calls', walks', (hwalk.trans hbelow).tail ?_⟩
      rw [step, List.dropLast_concat]
      rfl

/-- Calls are made one after the other. -/
theorem Completes.cons (hfirst : Completes job chain target [type] p)
    (hothers : Completes job chain target rest (job.bind chain (target.map Prod.snd) type p).1) :
    Completes job chain target (type :: rest) p := by
  intro more ok outer calls walks
  obtain ⟨calls₁, walks₁, hone⟩ := hfirst (rest ++ more) ok outer calls walks
  rw [← Job.bind] at hone
  obtain ⟨calls₂, walks₂, htwo⟩ := hothers more (ok && (job.bind chain (target.map Prod.snd) type p).2)
    outer calls₁ walks₁
  rw [Job.bindAll_cons, ← Bool.and_assoc]
  exact ⟨calls₂, walks₂, hone.trans htwo⟩

/-- **Every loop completes**, in whatever state it begins. -/
theorem completes (job : Job) (chain : List TypeName) (target : Option (TypeName × Provider))
    (types : List TypeName) (p : Progress) : Completes job chain target types p := by
  generalize hneeder : target.map Prod.snd = needer
  induction chain, needer, types, p using Job.bindAll_induction job generalizing target with
  | nil chain needer p =>
      intro more ok outer calls walks
      rw [Job.bindAll_nil, List.nil_append, Bool.and_true]
      exact ⟨calls, walks, .refl⟩
  | cons chain needer type rest p ihBelow ihRest =>
      subst hneeder
      refine (completes_singleton fun hnew maker hc => ?_).cons (ihRest target rfl)
      exact ihBelow hnew maker hc (some (type, maker)) rfl

end Recursion

/-! ### The invariant -/

/-- The types that wait for loops, the outermost first. -/
def waiting (loops : List Loop) : List TypeName :=
  ((loops.filterMap Loop.target).map Prod.fst).reverse

theorem waiting_cons (type : TypeName) (maker : Provider) (rest : List TypeName) (ok : Bool)
    (outer : List Loop) :
    waiting (⟨some (type, maker), rest, ok⟩ :: outer) = waiting outer ++ [type] := by
  simp [waiting]

/-- The invariant of the chain, of the walks and of the calls. -/
structure Orderly (job : Job) (d : Descent) : Prop where
  distinct : d.chain.Nodup
  undecided : ∀ t ∈ d.chain, d.progress.verdicts.get? t = none
  /-- The chain holds the types that wait for loops. -/
  chain_eq : d.chain = waiting d.loops
  chosen : ∀ w ∈ d.walks, job.choose w.1 = .one w.2
  once : (d.walks.map Prod.fst).Nodup
  /-- A walk is under way, or its type has been decided. -/
  walked : ∀ w ∈ d.walks, w.1 ∈ d.chain ∨ d.progress.Decided w.1
  /-- The calls that have been made and those that remain are owed by the outputs and by the walks. -/
  owed : d.calls + (d.loops.map fun l => l.rest.length).sum =
    job.outputs.length + (d.walks.map fun w => w.2.inputs.length).sum

theorem outset_orderly (job : Job) : (outset job).Orderly job where
  distinct := List.nodup_nil
  undecided := nofun
  chain_eq := rfl
  chosen := nofun
  once := List.nodup_nil
  walked := nofun
  owed := by simp [outset]

/-- An answer preserves the invariant. -/
theorem Orderly.told {progress : Progress} {bound : Bool} (h : d.Orderly job)
    (hloops : d.loops = ⟨target, type :: rest, ok⟩ :: outer)
    (hask : job.ask d.chain (target.map Prod.snd) type d.progress = .told progress bound) :
    Orderly job
      { d with progress, loops := ⟨target, rest, ok && bound⟩ :: outer, calls := d.calls + 1 } := by
  have hleaves : Job.Leaves d.chain d.progress progress := by
    have hbind : Job.Leaves d.chain d.progress (job.bind d.chain (target.map Prod.snd) type d.progress).1 :=
      Job.leaves_bindAll
    rwa [Job.bind_of_ask_eq_told hask] at hbind
  obtain ⟨hdistinct, hundecided, hchain, hchosen, honce, hwalked, howed⟩ := h
  refine ⟨hdistinct, fun t ht => hleaves.opens t ht (hundecided t ht), ?_, hchosen, honce, ?_, ?_⟩
  · rw [hloops] at hchain
    exact hchain
  · exact fun w hw => (hwalked w hw).imp_right hleaves.grows.decided
  · rw [hloops, List.map_cons, List.sum_cons, List.length_cons] at howed
    simp only [List.map_cons, List.sum_cons]
    omega

/-- A walk that begins preserves the invariant. -/
theorem Orderly.walk {maker : Provider} (h : d.Orderly job)
    (hloops : d.loops = ⟨target, type :: rest, ok⟩ :: outer)
    (hask : job.ask d.chain (target.map Prod.snd) type d.progress = .walk maker) :
    Orderly job
      { d with
        chain := d.chain ++ [type]
        loops := ⟨some (type, maker), maker.inputs, true⟩ :: ⟨target, rest, ok⟩ :: outer
        calls := d.calls + 1
        walks := d.walks ++ [(type, maker)] } := by
  obtain ⟨hnone, hnew, hc⟩ := Job.of_ask_eq_walk hask
  obtain ⟨hdistinct, hundecided, hchain, hchosen, honce, hwalked, howed⟩ := h
  -- a type that has been walked is on the chain or decided, and this one is neither
  have hfresh : type ∉ d.walks.map Prod.fst := by
    intro hmem
    obtain ⟨w, hw, rfl⟩ := List.mem_map.1 hmem
    exact (hwalked w hw).elim hnew fun hdecided => hdecided hnone
  refine ⟨?_, ?_, ?_, ?_, ?_, ?_, ?_⟩
  · rw [← List.concat_eq_append]
    exact hdistinct.concat hnew
  · exact List.forall_mem_append.2 ⟨hundecided, List.forall_mem_singleton.2 hnone⟩
  · rw [hloops] at hchain
    rw [waiting_cons]
    exact congrArg (· ++ [type]) hchain
  · exact List.forall_mem_append.2 ⟨hchosen, List.forall_mem_singleton.2 hc⟩
  · rw [List.map_append, List.map_singleton, ← List.concat_eq_append]
    exact honce.concat hfresh
  · refine List.forall_mem_append.2 ⟨fun w hw => ?_, List.forall_mem_singleton.2 (.inl ?_)⟩
    · exact (hwalked w hw).imp_left (List.mem_append_left _)
    · exact List.mem_append_right _ (List.mem_singleton.2 rfl)
  · rw [hloops, List.map_cons, List.sum_cons, List.length_cons] at howed
    simp only [List.map_cons, List.sum_cons, List.map_append, List.sum_append, List.map_nil, List.sum_nil]
    omega

/-- A loop that is over preserves the invariant. -/
theorem Orderly.back {maker : Provider} {bound : Bool} (h : d.Orderly job)
    (hloops : d.loops = ⟨some (type, maker), [], bound⟩ :: ⟨target, rest, ok⟩ :: outer) :
    Orderly job
      { d with
        chain := d.chain.dropLast
        progress := d.progress.conclude type maker bound
        loops := ⟨target, rest, ok && bound⟩ :: outer } := by
  obtain ⟨hdistinct, hundecided, hchain, hchosen, honce, hwalked, howed⟩ := h
  rw [hloops, waiting_cons] at hchain
  generalize hshorter : waiting (⟨target, rest, ok⟩ :: outer) = shorter at hchain
  rw [hchain] at hdistinct hundecided hwalked
  have hnew : ∀ t ∈ shorter, t ≠ type := by
    rintro t ht rfl
    exact (List.nodup_append.1 hdistinct).2.2 t ht t (List.mem_singleton.2 rfl) rfl
  rw [hchain, List.dropLast_concat]
  refine ⟨(List.nodup_append.1 hdistinct).1, ?_, hshorter.symm, hchosen, honce, ?_, ?_⟩
  · intro t ht
    rw [Progress.get?_conclude, if_neg (hnew t ht)]
    exact hundecided t (List.mem_append_left _ ht)
  · intro w hw
    rw [Progress.decided_conclude]
    rcases hwalked w hw with hmem | hdecided
    · rcases List.mem_append.1 hmem with hmem | htype
      · exact .inl hmem
      · exact .inr (.inl (List.mem_singleton.1 htype))
    · exact .inr (.inr hdecided)
  · rw [hloops] at howed
    simpa using howed

/-- **Every step preserves the invariant.** -/
theorem Orderly.step (h : d.Orderly job) (hstep : d.step job = some d') : d'.Orderly job := by
  cases step_eq_some_iff.1 hstep with
  | told hloops hask => exact h.told hloops hask
  | walk hloops hask => exact h.walk hloops hask
  | back hloops => exact h.back hloops

/-- So does every run. -/
theorem Orderly.runs (h : d.Orderly job) (hruns : Runs job d d') : d'.Orderly job := by
  induction hruns with
  | refl => exact h
  | tail _ hstep ih => exact ih.step hstep

/-! ### The number of calls -/

/-- The providers that have been walked are distinct candidates. -/
theorem Orderly.sum_walks_le (h : d.Orderly job) :
    (d.walks.map fun w => w.2.inputs.length).sum ≤
      (job.candidates.eraseDups.map fun p => p.inputs.length).sum := by
  have hmaker : ∀ w ∈ d.walks, w.2 ∈ job.candidates ∧ w.2.output = w.1 := fun w hw =>
    Job.mem_of_choose (h.chosen w hw)
  have hnodup : (d.walks.map Prod.snd).Nodup := by
    have honce := h.once
    rw [← List.map_congr_left fun w hw => (hmaker w hw).2] at honce
    refine .of_map Provider.output ?_
    rwa [List.map_map]
  have hsub : d.walks.map Prod.snd ⊆ job.candidates.eraseDups := by
    intro p hp
    obtain ⟨w, hw, rfl⟩ := List.mem_map.1 hp
    exact List.mem_eraseDups.2 (hmaker w hw).1
  obtain ⟨walked, hperm, hsublist⟩ := hnodup.subperm hsub
  calc (d.walks.map fun w => w.2.inputs.length).sum
      = ((d.walks.map Prod.snd).map fun p => p.inputs.length).sum := by rw [List.map_map]; rfl
    _ = (walked.map fun p => p.inputs.length).sum := (hperm.map _).sum_eq.symm
    _ ≤ (job.candidates.eraseDups.map fun p => p.inputs.length).sum :=
        (hsublist.map _).sum_le_sum fun _ _ => Nat.zero_le _

/-- The calls are bounded by the outputs and the inputs of distinct candidates. -/
theorem Orderly.calls_le (h : d.Orderly job) :
    d.calls ≤ job.outputs.length + (job.candidates.eraseDups.map fun p => p.inputs.length).sum := by
  have howed := h.owed
  have hwalks := h.sum_walks_le
  omega

/-- What a call leaves when it has returned: the chain as it was found, every earlier verdict, and a verdict on
its type, unless this was on the chain. -/
structure Returned (d d' : Descent) (type : TypeName) : Prop where
  chain : d'.chain = d.chain
  kept : ∀ t bound, d.progress.verdicts.get? t = some bound → d'.progress.verdicts.get? t = some bound
  decided : type ∉ d.chain → d'.progress.Decided type

/-- A call that is about to be made returns, and the loop that has made it goes on. -/
theorem exists_returned (hloops : d.loops = ⟨target, type :: rest, ok⟩ :: outer) :
    ∃ d' bound, Runs job d d' ∧ d'.loops = ⟨target, rest, ok && bound⟩ :: outer ∧
      (d'.progress, bound) = job.bind d.chain (target.map Prod.snd) type d.progress ∧
      Returned d d' type := by
  obtain ⟨chain, p, loops, calls, walks⟩ := d
  obtain rfl : loops = _ := hloops
  obtain ⟨calls', walks', hruns⟩ := completes job chain target [type] p rest ok outer calls walks
  have hleaves : Job.Leaves chain p (job.bind chain (target.map Prod.snd) type p).1 := Job.leaves_bindAll
  exact ⟨_, _, hruns, rfl, rfl, rfl, hleaves.grows.verdicts, Job.decided_bind⟩

end Descent

namespace Job

open Descent

/-- What is said of binding for a job. -/
structure Terminates (job : Job) : Prop where
  /-- Every call returns, whatever state it is made in. -/
  returns : ∀ d target type rest ok outer, d.loops = ⟨target, type :: rest, ok⟩ :: outer →
    ∃ d' bound, Runs job d d' ∧ d'.loops = ⟨target, rest, ok && bound⟩ :: outer ∧
      (d'.progress, bound) = job.bind d.chain (target.map Prod.snd) type d.progress ∧ Returned d d' type
  /-- The types on the chain are distinct and undecided. -/
  chain : ∀ d, Runs job (outset job) d → d.chain.Nodup ∧ ∀ t ∈ d.chain, d.progress.verdicts.get? t = none
  /-- The inputs of a type's chosen provider are walked once at most. -/
  once : ∀ d, Runs job (outset job) d →
    (d.walks.map Prod.fst).Nodup ∧ ∀ w ∈ d.walks, job.choose w.1 = .one w.2
  calls_le : ∀ d, Runs job (outset job) d →
    d.calls ≤ job.outputs.length + (job.candidates.eraseDups.map fun p => p.inputs.length).sum
  /-- The resolution ends, with one call for each output and for each input that has been walked. -/
  ends : ∃ d, Runs job (outset job) d ∧ d.step job = none ∧ d.progress = job.last ∧
    d.calls = job.outputs.length + (d.walks.map fun w => w.2.inputs.length).sum

/-- **Binding terminates and walks the inputs of each type's provider once**, however the candidates need one
another. -/
theorem descent_terminates (job : Job) : job.Terminates := by
  have horderly : ∀ d, Runs job (outset job) d → d.Orderly job := fun d hruns =>
    (outset_orderly job).runs hruns
  constructor
  case returns => exact fun d target type rest ok outer hloops => exists_returned hloops
  case chain => exact fun d hruns => ⟨(horderly d hruns).distinct, (horderly d hruns).undecided⟩
  case once => exact fun d hruns => ⟨(horderly d hruns).once, (horderly d hruns).chosen⟩
  case calls_le => exact fun d hruns => (horderly d hruns).calls_le
  case ends =>
    obtain ⟨calls, walks, hruns⟩ := completes job [] none job.outputs job.start [] true [] 0 []
    rw [List.append_nil] at hruns
    have howed := (horderly _ hruns).owed
    exact ⟨_, hruns, rfl, rfl, by simpa using howed⟩

/-- Two types that need each other. -/
def henAndEgg : Job where
  candidates :=
    [{ pkg := "p", name := "NewHen", inputs := ["Egg"], output := "Hen" },
     { pkg := "p", name := "NewEgg", inputs := ["Hen"], output := "Egg" }]
  outputs := ["Hen"]

/-- The second call for the hen closes the circle, and then two loops are left. -/
example : ((Nat.iterate (·.bind (step henAndEgg)) 5 (some (outset henAndEgg))).map fun d =>
    (d.calls, d.chain, (d.step henAndEgg).isNone)) = some (3, [], true) := by decide

end Job

end Wiring
