/-
**Searches.**

A breadth-first search keeps a queue.  It meets everything once, when it first comes out of the queue, and
what it leads to is put at the end.  So what has come out of the queue and what is still in it are together
the roots, followed by what everything that has been met leads to, and what has been met is what has come
out, with every repetition left out.

When the queue is empty, this determines the order: it lists what can be reached, and it is the list of the
roots followed by what each of its members leads to, as they first occur there.

A depth-first search keeps the path to where it stands.  When it comes back to a member of the path, the
rest of the path from there on is a circle.

Main definitions:

* `Wiring.Reachable` — what some roots lead to;
* `Wiring.BreadthFirst` — a list is the breadth-first order of what can be reached;
* `Wiring.Searching` — a breadth-first search under way.

Main results:

* `Wiring.Searching.skip`, `Wiring.Searching.meet`, `Wiring.Searching.finish` — the steps of a search;
* `Wiring.Searching.exists_finish` — a search among finitely many can be carried on to its end;
* `Wiring.BreadthFirst.mem_iff` — the order lists exactly what can be reached;
* `Wiring.BreadthFirst.unique` — **there is one such order**;
* `Wiring.closed_eq`, `Wiring.transGen_of_isChain` — the circle on which a path closes;
* `Wiring.not_transGen_of_acc` — what leads to an end is on no circle.
-/

import Mathlib.Data.List.Basic
import Mathlib.Data.List.Chain
import Mathlib.Data.List.Nodup
import Mathlib.Data.List.Perm.Basic
import Mathlib.Logic.Relation
import Wiring.Measure

set_option autoImplicit false

namespace Wiring

variable {α β : Type} [DecidableEq α] [DecidableEq β]

/-! ### First occurrences -/

theorem nodup_eraseDups (l : List α) : l.eraseDups.Nodup := by
  induction h : l.length using Nat.strongRecOn generalizing l with
  | _ n ih =>
      cases l with
      | nil => simp
      | cons a l =>
          rw [List.eraseDups_cons, List.nodup_cons, List.mem_eraseDups, List.mem_filter]
          refine ⟨by simp, ih _ ?_ _ rfl⟩
          rw [← h, List.length_cons]
          exact Nat.lt_succ_of_le (List.length_filter_le _ _)

theorem eraseDups_of_nodup {l : List α} (h : l.Nodup) : l.eraseDups = l := by
  induction l with
  | nil => rfl
  | cons a l ih =>
      obtain ⟨hfresh, hl⟩ := List.nodup_cons.1 h
      have hkept : l.filter (fun b => !b == a) = l := by
        refine List.filter_eq_self.2 fun b hb => ?_
        have hne : b ≠ a := fun heq => hfresh (heq ▸ hb)
        simpa using hne
      rw [List.eraseDups_cons, hkept, ih hl]

/-- What has occurred before adds nothing. -/
theorem eraseDups_append_of_subset {l m : List α} (h : ∀ a ∈ m, a ∈ l) :
    (l ++ m).eraseDups = l.eraseDups := by
  have hnone : m.removeAll l = [] := by
    refine List.filter_eq_nil_iff.2 fun a ha => ?_
    simpa using h a ha
  rw [List.eraseDups_append, hnone, List.eraseDups_nil, List.append_nil]

theorem eraseDups_concat_of_not_mem {l : List α} {a : α} (h : a ∉ l) :
    (l ++ [a]).eraseDups = l.eraseDups ++ [a] := by
  have hkept : [a].removeAll l = [a] := by
    refine List.filter_eq_self.2 fun b hb => ?_
    rw [List.mem_singleton.1 hb]
    simpa using h
  rw [List.eraseDups_append, hkept, eraseDups_of_nodup (List.nodup_singleton a)]

/-- Repetitions may be left out early. -/
theorem eraseDups_eraseDups_append (l m : List α) :
    (l.eraseDups ++ m).eraseDups = (l ++ m).eraseDups := by
  have hsame : m.removeAll l.eraseDups = m.removeAll l := by
    refine List.filter_congr fun a _ => ?_
    simp
  rw [List.eraseDups_append, List.eraseDups_append, hsame, eraseDups_of_nodup (nodup_eraseDups l)]

theorem eraseDups_prefix_append (l m : List α) : l.eraseDups <+: (l ++ m).eraseDups := by
  rw [List.eraseDups_append]
  exact List.prefix_append _ _

/-- What keeps the members of a list apart keeps their first occurrences. -/
theorem eraseDups_map {f : α → β} {l : List α} (h : ∀ a ∈ l, ∀ b ∈ l, f a = f b → a = b) :
    (l.map f).eraseDups = l.eraseDups.map f := by
  induction hn : l.length using Nat.strongRecOn generalizing l with
  | _ n ih =>
      cases l with
      | nil => rfl
      | cons a l =>
          have hothers : (l.map f).filter (fun b => !b == f a) = (l.filter fun b => !b == a).map f := by
            rw [List.filter_map]
            refine congrArg (List.map f) (List.filter_congr fun b hb => ?_)
            have hiff : f b = f a ↔ b = a :=
              ⟨h b (List.mem_cons_of_mem _ hb) a List.mem_cons_self, congrArg f⟩
            simp [hiff]
          have hshorter : (l.filter fun b => !b == a).length < n := by
            rw [← hn, List.length_cons]
            exact Nat.lt_succ_of_le (List.length_filter_le _ _)
          have hsub : ∀ b ∈ l.filter fun b => !b == a, b ∈ a :: l := fun b hb =>
            List.mem_cons_of_mem _ (List.mem_of_mem_filter hb)
          rw [List.map_cons, List.eraseDups_cons, hothers, List.eraseDups_cons, List.map_cons,
            ih _ hshorter (fun b hb c hc => h b (hsub b hb) c (hsub c hc)) rfl]

/-- First occurrences stand in the order of the list that they are taken from. -/
theorem pairwise_idxOf_eraseDups (l : List α) (keep : α → Bool) :
    (l.filter keep).eraseDups.Pairwise fun a b => l.idxOf a < l.idxOf b := by
  induction l generalizing keep with
  | nil => simp
  | cons a l ih =>
      -- behind the first element the positions are those of the rest, one further on
      have hlater : ∀ keep : α → Bool, keep a = false →
          (l.filter keep).eraseDups.Pairwise fun b c => (a :: l).idxOf b < (a :: l).idxOf c := by
        intro keep hkeep
        refine List.Pairwise.imp_of_mem ?_ (ih keep)
        intro b c hb hc hlt
        have hne : ∀ d ∈ (l.filter keep).eraseDups, a ≠ d := by
          rintro d hd rfl
          have hmem := List.mem_filter.1 (List.mem_eraseDups.1 hd)
          simp [hkeep] at hmem
        rw [List.idxOf_cons_ne _ (hne b hb), List.idxOf_cons_ne _ (hne c hc)]
        exact Nat.succ_lt_succ hlt
      cases hkeep : keep a with
      | false =>
          rw [List.filter_cons_of_neg (by simp [hkeep])]
          exact hlater keep hkeep
      | true =>
          rw [List.filter_cons_of_pos hkeep, List.eraseDups_cons, List.filter_filter,
            List.pairwise_cons]
          refine ⟨fun b hb => ?_, hlater _ (by simp)⟩
          have hne : a ≠ b := by
            rintro rfl
            simp at hb
          rw [List.idxOf_cons_self, List.idxOf_cons_ne _ hne]
          exact Nat.succ_pos _

/-! ### What can be reached -/

variable {next next' : α → List α} {roots order order' queue : List α} {a b : α}

omit [DecidableEq α] in
/-- Something is a root, or some roots lead to it step by step. -/
def Reachable (next : α → List α) (roots : List α) (a : α) : Prop :=
  ∃ root ∈ roots, Relation.ReflTransGen (fun a b => b ∈ next a) root a

namespace Reachable

omit [DecidableEq α]

theorem root (h : a ∈ roots) : Reachable next roots a :=
  ⟨a, h, .refl⟩

theorem step (h : Reachable next roots a) (hb : b ∈ next a) : Reachable next roots b := by
  obtain ⟨root, hroot, hpath⟩ := h
  exact ⟨root, hroot, hpath.tail hb⟩

theorem mono (h : Reachable next roots a) (hmore : ∀ a b, b ∈ next a → b ∈ next' a) :
    Reachable next' roots a := by
  obtain ⟨root, hroot, hpath⟩ := h
  exact ⟨root, hroot, Relation.ReflTransGen.mono hmore _ _ hpath⟩

/-- A list that holds the roots and what its members lead to holds all that can be reached. -/
theorem mem_of_closed (h : Reachable next roots a) (hroots : ∀ root ∈ roots, root ∈ order)
    (hclosed : ∀ a ∈ order, ∀ b ∈ next a, b ∈ order) : a ∈ order := by
  obtain ⟨root, hroot, hpath⟩ := h
  induction hpath with
  | refl => exact hroots root hroot
  | tail _ hstep ih => exact hclosed _ ih _ hstep

end Reachable

/-! ### Breadth-first order -/

/-- A list is the breadth-first order of what can be reached: the roots come first, then what the first of
them leads to, then what the second leads to, and so on, and everything is listed where it first occurs. -/
structure BreadthFirst (next : α → List α) (roots order : List α) : Prop where
  order_eq : order = (roots ++ order.flatMap next).eraseDups
  reached : ∀ a ∈ order, Reachable next roots a

namespace BreadthFirst

theorem nodup (h : BreadthFirst next roots order) : order.Nodup := by
  rw [h.order_eq]
  exact nodup_eraseDups _

/-- The members of the order are the roots and what its members lead to. -/
theorem mem_order (h : BreadthFirst next roots order) :
    a ∈ order ↔ a ∈ roots ∨ ∃ b ∈ order, a ∈ next b := by
  conv_lhs => rw [h.order_eq]
  rw [List.mem_eraseDups, List.mem_append, List.mem_flatMap]

/-- **The order lists exactly what can be reached.** -/
theorem mem_iff (h : BreadthFirst next roots order) : a ∈ order ↔ Reachable next roots a :=
  ⟨h.reached a, fun hreach => hreach.mem_of_closed (fun _ hroot => h.mem_order.2 (Or.inl hroot))
    fun b hb _ hnext => h.mem_order.2 (Or.inr ⟨b, hb, hnext⟩)⟩

/-- It only matters where the members of the order lead. -/
theorem congr (h : BreadthFirst next roots order) (hsame : ∀ a ∈ order, next' a = next a) :
    BreadthFirst next' roots order := by
  refine ⟨?_, fun a ha => ?_⟩
  · rw [List.flatMap_congr hsame]
    exact h.order_eq
  · -- all that a path leads through is in the order
    obtain ⟨root, hroot, hpath⟩ := h.reached a ha
    have hthrough : ∀ b, Relation.ReflTransGen (fun a b => b ∈ next a) root b →
        b ∈ order ∧ Reachable next' roots b := by
      intro b hb
      induction hb with
      | refl => exact ⟨h.mem_order.2 (Or.inl hroot), .root hroot⟩
      | tail _ hstep ih =>
          exact ⟨h.mem_order.2 (Or.inr ⟨_, ih.1, hstep⟩), ih.2.step (hsame _ ih.1 ▸ hstep)⟩
    exact (hthrough a hpath).2

/-- The roots and what the first members lead to come before everything else. -/
theorem prefix_of_take (h : BreadthFirst next roots order) (n : Nat) :
    (roots ++ (order.take n).flatMap next).eraseDups <+: order := by
  have hsplit : roots ++ order.flatMap next =
      (roots ++ (order.take n).flatMap next) ++ (order.drop n).flatMap next := by
    rw [List.append_assoc, ← List.flatMap_append, List.take_append_drop]
  have hprefix := eraseDups_prefix_append (roots ++ (order.take n).flatMap next)
    ((order.drop n).flatMap next)
  rwa [← hsplit, ← h.order_eq] at hprefix

/-- Before the last member something is still to come: the first members lead to more than themselves. -/
theorem lt_length_of_take (h : BreadthFirst next roots order) {n : Nat} (hn : n < order.length) :
    n < (roots ++ (order.take n).flatMap next).eraseDups.length := by
  by_contra hshort
  -- otherwise the first members are closed, and the next one could not be reached
  have hsub : (roots ++ (order.take n).flatMap next).eraseDups <+: order.take n := by
    refine List.prefix_of_prefix_length_le (h.prefix_of_take n) (List.take_prefix n order) ?_
    rw [List.length_take, Nat.min_eq_left (Nat.le_of_lt hn)]
    exact Nat.le_of_not_lt hshort
  have hmem : ∀ a ∈ roots ++ (order.take n).flatMap next, a ∈ order.take n := fun a ha =>
    hsub.subset (List.mem_eraseDups.2 ha)
  have hlater : order[n] ∈ order.take n :=
    (h.reached _ (List.getElem_mem hn)).mem_of_closed
      (fun root hroot => hmem root (List.mem_append_left _ hroot))
      fun a ha b hb => hmem b (List.mem_append_right _ (List.mem_flatMap.2 ⟨a, ha, hb⟩))
  obtain ⟨i, hi, heq⟩ := List.getElem_of_mem hlater
  rw [List.length_take, Nat.min_eq_left (Nat.le_of_lt hn)] at hi
  rw [List.getElem_take] at heq
  exact Nat.ne_of_lt hi (h.nodup.getElem_inj_iff.1 heq)

/-- **There is one breadth-first order.** -/
theorem unique (h : BreadthFirst next roots order) (h' : BreadthFirst next roots order') :
    order = order' := by
  have hlength : order.length = order'.length :=
    ((List.perm_ext_iff_of_nodup h.nodup h'.nodup).2 fun a => h.mem_iff.trans h'.mem_iff.symm).length_eq
  have htake : ∀ n, order.take n = order'.take n := by
    intro n
    induction n with
    | zero => rw [List.take_zero, List.take_zero]
    | succ n ih =>
        by_cases hn : n < order.length
        · -- both orders go on alike, as far as the members that they share lead
          have hn' : n < order'.length := hlength ▸ hn
          have hlong := h.lt_length_of_take hn
          have hprefix := h.prefix_of_take n
          have hprefix' := h'.prefix_of_take n
          rw [← ih] at hprefix'
          rw [List.take_succ_eq_append_getElem hn, List.take_succ_eq_append_getElem hn', ih,
            ← hprefix.getElem hlong, ← hprefix'.getElem hlong]
        · have hn' : ¬ n < order'.length := hlength ▸ hn
          rw [List.take_of_length_le (by omega), List.take_of_length_le (by omega)] at ih
          rw [ih]
  have hall := htake order.length
  rwa [List.take_length, hlength, List.take_length] at hall

end BreadthFirst

/-! ### The search -/

/-- A search under way: what it has met, in order, and what is in its queue. -/
structure Searching (next : α → List α) (roots order queue : List α) : Prop where
  popped : ∃ popped, popped ++ queue = roots ++ order.flatMap next ∧ order = popped.eraseDups
  reached : ∀ a ∈ order, Reachable next roots a

namespace Searching

theorem start (next : α → List α) (roots : List α) : Searching next roots [] roots :=
  ⟨⟨[], by simp, rfl⟩, nofun⟩

theorem nodup (h : Searching next roots order queue) : order.Nodup := by
  obtain ⟨popped, -, rfl⟩ := h.popped
  exact nodup_eraseDups popped

theorem reached_queue (h : Searching next roots order queue) (ha : a ∈ queue) :
    Reachable next roots a := by
  obtain ⟨popped, hsplit, -⟩ := h.popped
  have hmem : a ∈ roots ++ order.flatMap next := hsplit ▸ List.mem_append_right _ ha
  rcases List.mem_append.1 hmem with hroot | hled
  · exact .root hroot
  · obtain ⟨b, hb, hnext⟩ := List.mem_flatMap.1 hled
    exact (h.reached b hb).step hnext

/-- What has been met before is dropped. -/
theorem skip (h : Searching next roots order (a :: queue)) (ha : a ∈ order) :
    Searching next roots order queue := by
  obtain ⟨popped, hsplit, horder⟩ := h.popped
  refine ⟨⟨popped ++ [a], by simpa using hsplit, ?_⟩, h.reached⟩
  rw [eraseDups_append_of_subset, ← horder]
  intro b hb
  rw [List.mem_singleton.1 hb, ← List.mem_eraseDups, ← horder]
  exact ha

/-- What has not been met is met, and what it leads to is put at the end of the queue. -/
theorem meet (h : Searching next roots order (a :: queue)) (ha : a ∉ order) :
    Searching next roots (order ++ [a]) (queue ++ next a) := by
  obtain ⟨popped, hsplit, horder⟩ := h.popped
  refine ⟨⟨popped ++ [a], ?_, ?_⟩, ?_⟩
  · rw [List.flatMap_append, List.flatMap_singleton, ← List.append_assoc roots, ← hsplit]
    simp
  · have hnew : a ∉ popped := by rwa [← List.mem_eraseDups, ← horder]
    rw [eraseDups_concat_of_not_mem hnew, ← horder]
  · intro b hb
    rcases List.mem_append.1 hb with hb | hb
    · exact h.reached b hb
    · rw [List.mem_singleton.1 hb]
      exact h.reached_queue List.mem_cons_self

/-- It only matters where what has been met leads to. -/
theorem congr (h : Searching next roots order queue) (hsame : ∀ a ∈ order, next' a = next a)
    (hmore : ∀ a b, b ∈ next a → b ∈ next' a) : Searching next' roots order queue := by
  refine ⟨?_, fun a ha => (h.reached a ha).mono hmore⟩
  obtain ⟨popped, hsplit, horder⟩ := h.popped
  exact ⟨popped, hsplit.trans (congrArg (roots ++ ·) (List.flatMap_congr hsame).symm), horder⟩

/-- **When the queue is empty the order is breadth first.** -/
theorem finish (h : Searching next roots order []) : BreadthFirst next roots order := by
  obtain ⟨popped, hsplit, horder⟩ := h.popped
  rw [List.append_nil] at hsplit
  exact ⟨by rw [← hsplit, ← horder], h.reached⟩

/-- Where the roots lead stays within a finite list, a search can be carried on to its end. -/
theorem exists_finish {all : List α} (hroots : ∀ root ∈ roots, root ∈ all)
    (hnext : ∀ a, ∀ b ∈ next a, b ∈ all) (h : Searching next roots order queue) :
    ∃ more, BreadthFirst next roots (order ++ more) := by
  -- each time something is met there is less left to meet, and in between the queue gets shorter
  induction hn : (all.filter fun a => a ∉ order).length using Nat.strongRecOn
    generalizing order queue with
  | _ n ih =>
      induction queue with
      | nil => exact ⟨[], by simpa using h.finish⟩
      | cons a queue ihQueue =>
          by_cases ha : a ∈ order
          · exact ihQueue (h.skip ha)
          · have hall : a ∈ all := by
              have hreach := h.reached_queue (a := a) List.mem_cons_self
              obtain ⟨root, hroot, hpath⟩ := hreach
              cases hpath with
              | refl => exact hroots a hroot
              | tail _ hstep => exact hnext _ a hstep
            have hless : (all.filter fun b => b ∉ order ++ [a]).length < n := by
              rw [← hn]
              refine length_filter_lt (fun b hb => ?_) hall (by simpa using ha) (by simp)
              simp only [List.mem_append, not_or, decide_eq_true_eq] at hb ⊢
              exact hb.1
            obtain ⟨more, hmore⟩ := ih _ hless (h.meet ha) rfl
            exact ⟨a :: more, by simpa using hmore⟩

end Searching

/-! ### Circles -/

omit [DecidableEq α] in
/-- A chain that comes back to where it began is a circle. -/
theorem transGen_of_isChain {R : α → α → Prop} :
    ∀ {middle : List α}, List.IsChain R (a :: (middle ++ [b])) → Relation.TransGen R a b := by
  intro middle
  induction middle generalizing a with
  | nil =>
      intro h
      exact Relation.TransGen.single (List.isChain_cons_cons.1 h).1
  | cons c middle ih =>
      intro h
      obtain ⟨hac, hrest⟩ := List.isChain_cons_cons.1 h
      exact Relation.TransGen.head hac (ih hrest)

omit [DecidableEq α] in
/-- A closed chain begins where it ends. -/
theorem head?_eq_getLast?_of_closed (a : α) (middle : List α) :
    (a :: (middle ++ [a])).head? = (a :: (middle ++ [a])).getLast? := by
  rw [List.head?_cons, ← List.cons_append, List.getLast?_append, List.getLast?_singleton, Option.some_or]

omit [DecidableEq α] in
/-- What leads to an end along every path is on no circle. -/
theorem not_transGen_of_acc {R : α → α → Prop} (h : Acc (fun b a => R a b) a) :
    ¬ Relation.TransGen R a a := by
  have hacc := h.transGen
  clear h
  induction hacc with
  | intro a _ ih => exact fun hcircle => ih a (Relation.transGen_swap.2 hcircle) hcircle

/-- When a path is closed on one of its members, what is left is the part from that member on, followed by
the member. -/
theorem closed_eq {path : List α} (h : a ∈ path) :
    ∃ before middle, path = before ++ a :: middle ∧
      path.dropWhile (· ≠ a) ++ [a] = a :: (middle ++ [a]) := by
  obtain ⟨before, middle, rfl, hbefore⟩ := List.eq_append_cons_of_mem h
  refine ⟨before, middle, rfl, ?_⟩
  have hdrop : (before ++ a :: middle).dropWhile (· ≠ a) = a :: middle := by
    rw [List.dropWhile_append_of_pos]
    · simp
    · intro b hb
      have hne : b ≠ a := fun heq => hbefore (heq ▸ hb)
      simpa using hne
  rw [hdrop, List.cons_append]

end Wiring
