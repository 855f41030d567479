/-
**Resolution.**

Resolution turns the candidates, the inputs and the requested outputs of an injector into a plan.
It binds each requested type in turn.  A type that is bound is used again; a type that is being
bound already closes a circle; for any other type the candidates are asked, the inputs of the chosen
provider are bound one after the other, and then the provider becomes the next step.

Every type is decided once.  A failure only spoils the types that depend on it, so that the other
branches go on and all failures are reported together.

Main definitions:

* `Wiring.Policy`, `Wiring.Choice`, `Wiring.Job.choose` — which provider makes a type;
* `Wiring.Progress` — what has been decided so far;
* `Wiring.Job.bindAll` — the recursion; it ends because the types that have candidates and are not
  being bound become fewer;
* `Wiring.Job.resolve`, `Wiring.resolveRequest` — the whole of it.
-/

import Wiring.Plan
import Wiring.SetGraph
import Wiring.Table
import Wiring.Text.EditDistance

set_option autoImplicit false

namespace Wiring

/-- What to do with distinct providers of one type. -/
inductive Policy where
  /-- Refuse. -/
  | strict
  /-- Take the one of the highest precedence. -/
  | firstMatch
deriving DecidableEq, Inhabited

/-- What is given to a resolution. -/
structure Job where
  policy : Policy := .strict
  /-- The candidates in the order of precedence. -/
  candidates : List Provider := []
  inputs : List TypeName := []
  outputs : List TypeName := []

/-- What the candidates say about a type. -/
inductive Choice where
  | none
  | one (p : Provider)
  | conflict (ps : List Provider)

/-- The farthest that a close match may lie from a missing name. -/
def closeDistance : Nat := 2

/-- The largest number of close matches that are mentioned. -/
def maxSuggestions : Nat := 3

namespace Job

/-- The distinct candidates for a type. -/
def makersOf (job : Job) (type : TypeName) : List Provider :=
  (job.candidates.filter fun p => p.output = type).eraseDups

/-- The provider that makes a type. -/
def choose (job : Job) (type : TypeName) : Choice :=
  match job.makersOf type with
  | [] => .none
  | [only] => .one only
  | first :: others =>
    match job.policy with
    | .firstMatch => .one first
    | .strict => .conflict (first :: others)

/-- The types that a missing one could have been meant for, with their distances. -/
def closeTypes (job : Job) (missing : TypeName) : List (Nat × TypeName) :=
  ((job.candidates.map Provider.output ++ job.inputs).eraseDups.filter (· ≠ missing)).filterMap
    fun type =>
      let distance := Text.editDistance missing type
      if distance ≤ closeDistance then some (distance, type) else none

/-- Nearer types come first, and of types at the same distance the lesser name. -/
def closerLe (a b : Nat × TypeName) : Bool :=
  a.1 < b.1 || (a.1 = b.1 && !decide (b.2 < a.2))

/-- The close matches that are mentioned for a missing type. -/
def suggestions (job : Job) (missing : TypeName) : List TypeName :=
  (((job.closeTypes missing).mergeSort closerLe).take maxSuggestions).map Prod.snd

/-- The number of candidates that make none of the given types. -/
def unmade (job : Job) (types : List TypeName) : Nat :=
  (job.candidates.filter fun p => !types.contains p.output).length

theorem mem_of_choose {job : Job} {type : TypeName} {p : Provider}
    (h : job.choose type = .one p) : p ∈ job.candidates ∧ p.output = type := by
  have hmem : p ∈ job.makersOf type := by
    unfold choose at h
    split at h
    · cases h
    · next only hm => cases h; simp [hm]
    · next first others _ hm =>
      split at h
      · cases h; simp [hm]
      · cases h
  simpa [makersOf] using hmem

theorem unmade_lt {job : Job} {type : TypeName} {p : Provider} {chain : List TypeName}
    (h : job.choose type = .one p) (hchain : type ∉ chain) :
    job.unmade (chain ++ [type]) < job.unmade chain := by
  obtain ⟨hp, rfl⟩ := mem_of_choose h
  refine length_filter_lt (fun x hx => ?_) hp (by simpa using hchain) (by simp)
  simp only [List.contains_eq_mem, List.mem_append, not_or, Bool.not_eq_true',
    decide_eq_false_iff_not] at hx ⊢
  exact hx.1

end Job

/-- What a resolution has decided so far. -/
structure Progress where
  /-- Whether each decided type is bound. -/
  verdicts : Table TypeName Bool := {}
  /-- The providers to run, in order. -/
  steps : List Binding := []
  failures : List Failure := []

namespace Progress

/-- Adds a failure. -/
def fail (p : Progress) (f : Failure) : Progress :=
  { p with failures := p.failures ++ [f] }

/-- Decides a type. -/
def decide (p : Progress) (type : TypeName) (bound : Bool) : Progress :=
  { p with verdicts := p.verdicts.put type bound }

/-- Decides a type whose provider has been chosen, when it is known whether all its inputs could be
bound. -/
def conclude (p : Progress) (type : TypeName) (maker : Provider) (ok : Bool) : Progress :=
  if ok then { p.decide type true with steps := p.steps ++ [⟨type, .provider maker⟩] }
  else p.decide type false

end Progress

/-- The circle that closes when a chain of types reaches one of its own members again. -/
def closeChain (chain : List TypeName) (type : TypeName) : List TypeName :=
  chain.dropWhile (· ≠ type) ++ [type]

namespace Job

/-- Binds the types of a list in order, and says whether all could be bound.  `chain` holds the
types that are being bound, and `needer` the provider that takes the listed types. -/
def bindAll (job : Job) (chain : List TypeName) (needer : Option Provider) :
    List TypeName → Progress → Progress × Bool
  | [], progress => (progress, true)
  | type :: rest, progress =>
    let first : Progress × Bool :=
      match progress.verdicts.get? type with
      | some bound => (progress, bound)
      | none =>
        if _inChain : type ∈ chain then (progress.fail (.cycle (closeChain chain type)), false)
        else match _chosen : job.choose type with
          | .none =>
            let missing := Failure.noProvider type (needer.map Provider.qualifiedName)
              (job.suggestions type)
            ((progress.fail missing).decide type false, false)
          | .conflict ps =>
            let conflict := Failure.duplicateProvider type (ps.map Provider.qualifiedName)
            ((progress.fail conflict).decide type false, false)
          | .one maker =>
            let below := job.bindAll (chain ++ [type]) (some maker) maker.inputs progress
            (below.1.conclude type maker below.2, below.2)
    let others := job.bindAll chain needer rest first.1
    (others.1, first.2 && others.2)
termination_by types => (job.unmade chain, types.length)
decreasing_by
  · exact Prod.Lex.left _ _ (unmade_lt _chosen _inChain)
  · exact Prod.Lex.right _ (Nat.lt_succ_self _)

/-- Binds the inputs.  One that is there already is a failure and is left out, but keeps its
position. -/
def bindInputs : List (TypeName × Nat) → Progress → Progress × List Binding
  | [], progress => (progress, [])
  | (type, index) :: rest, progress =>
    match progress.verdicts.get? type with
    | some _ => bindInputs rest (progress.fail (.duplicateInput type))
    | none =>
      let (last, bindings) := bindInputs rest (progress.decide type true)
      (last, ⟨type, .input index⟩ :: bindings)

/-- A plan for the outputs, or every failure in the order of discovery. -/
def resolve (job : Job) : Except (List Failure) Plan :=
  let (start, inputs) := bindInputs job.inputs.zipIdx {}
  let (last, _) := job.bindAll [] none job.outputs start
  if last.failures = [] then .ok { inputs, steps := last.steps, outputs := job.outputs }
  else .error last.failures

end Job

/-- Flattens what a request lists and resolves it. -/
def resolveRequest (policy : Policy) (graph : SetGraph) (request : Request) :
    Except (List Failure) Plan :=
  match graph.flatten request.items request.qualifiedName with
  | .error f => .error [f]
  | .ok candidates =>
    Job.resolve
      { policy, candidates := candidates.map Candidate.provider
        inputs := request.inputs, outputs := request.outputs }

/-- A request is refused over its sets, or resolved with the candidates that they have. -/
theorem resolveRequest_cases (policy : Policy) (graph : SetGraph) (request : Request) :
    (∃ f, graph.flatten request.items request.qualifiedName = .error f ∧
        resolveRequest policy graph request = .error [f]) ∨
      ∃ candidates, graph.flatten request.items request.qualifiedName = .ok candidates ∧
        resolveRequest policy graph request = Job.resolve
          { policy, candidates := candidates.map Candidate.provider
            inputs := request.inputs, outputs := request.outputs } := by
  unfold resolveRequest
  cases graph.flatten request.items request.qualifiedName with
  | error f => exact .inl ⟨f, rfl, rfl⟩
  | ok candidates => exact .inr ⟨candidates, rfl, rfl⟩

end Wiring
