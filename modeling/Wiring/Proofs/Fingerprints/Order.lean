/-
**The order of a list of files.**

Before a set of files is fingerprinted, its paths are put in order by their components, and of the paths
with the same components one is kept.  Such paths may be written differently, and what is read from the
disk and goes into a fingerprint is the path as it is written.  The sort is stable, so the spelling that is
kept is the one that stands first in the list.

Main definitions:

* `Wiring.Path.Before` — a path comes strictly before another one;
* `Wiring.leading?` — the first spelling of a path in a list.

Main results:

* `Wiring.Path.le_trans`, `Wiring.Path.le_total`, `Wiring.Path.components_eq_of_le` — paths are ordered
  linearly, up to their spellings;
* `Wiring.ascending_sortedPaths`, `Wiring.mem_sortedPaths` — what is left of a list are its first spellings,
  in strictly ascending order;
* `Wiring.map_sortedPaths_eq_iff` — **two lists of the same paths come to the same, as far as a question to
  each path can tell, if their first spellings do**.
-/

import Mathlib.Data.List.Perm.Basic
import Wiring.Fingerprint
import Wiring.Proofs.Sorting

set_option autoImplicit false

namespace Wiring

/-! ### Components -/

namespace Component

variable {a b c : Component}

theorem eq_of_key_eq (h : a.key = b.key) : a = b := by
  cases a <;> cases b <;> simp_all [key]

theorem lt_iff : a.lt b = true ↔ a.key.1 < b.key.1 ∨ a.key.1 = b.key.1 ∧ a.key.2 < b.key.2 := by
  simp [lt]

theorem lt_trans (h : a.lt b = true) (h' : b.lt c = true) : a.lt c = true := by
  rw [lt_iff] at *
  rcases h with h | ⟨heq, h⟩
  · exact .inl (by omega)
  · rcases h' with h' | ⟨heq', h'⟩
    · exact .inl (by omega)
    · exact .inr ⟨heq.trans heq', String.lt_trans h h'⟩

theorem not_lt_self (a : Component) : ¬ a.lt a = true := by
  rw [lt_iff]
  rintro (h | ⟨-, h⟩)
  · exact Nat.lt_irrefl _ h
  · exact String.lt_irrefl _ h

/-- Of two components one comes before the other. -/
theorem lt_or_lt_of_ne (h : a ≠ b) : a.lt b = true ∨ b.lt a = true := by
  simp only [lt_iff]
  rcases Nat.lt_trichotomy a.key.1 b.key.1 with hrank | hrank | hrank
  · exact .inl (.inl hrank)
  · rcases Std.lt_trichotomy a.key.2 b.key.2 with hname | hname | hname
    · exact .inl (.inr ⟨hrank, hname⟩)
    · exact absurd (eq_of_key_eq (Prod.ext hrank hname)) h
    · exact .inr (.inr ⟨hrank.symm, hname⟩)
  · exact .inr (.inl hrank)

end Component

/-! ### Paths -/

namespace Path

theorem componentsLe_cons {a b : Component} {as bs : List Component} :
    componentsLe (a :: as) (b :: bs) = true ↔
      a.lt b = true ∨ a = b ∧ componentsLe as bs = true := by
  simp [componentsLe]

theorem componentsLe_trans {as bs cs : List Component} (h : componentsLe as bs = true)
    (h' : componentsLe bs cs = true) : componentsLe as cs = true := by
  induction as generalizing bs cs with
  | nil => rfl
  | cons a as ih =>
      cases bs with
      | nil => cases h
      | cons b bs =>
          cases cs with
          | nil => cases h'
          | cons c cs =>
              rw [componentsLe_cons] at h h' ⊢
              rcases h with h | ⟨rfl, h⟩
              · rcases h' with h' | ⟨rfl, -⟩
                · exact .inl (Component.lt_trans h h')
                · exact .inl h
              · exact h'.imp_right fun ⟨heq, h'⟩ => ⟨heq, ih h h'⟩

theorem componentsLe_total (as bs : List Component) :
    componentsLe as bs = true ∨ componentsLe bs as = true := by
  induction as generalizing bs with
  | nil => exact .inl rfl
  | cons a as ih =>
      cases bs with
      | nil => exact .inr rfl
      | cons b bs =>
          simp only [componentsLe_cons]
          by_cases hab : a = b
          · exact (ih bs).imp (fun h => .inr ⟨hab, h⟩) fun h => .inr ⟨hab.symm, h⟩
          · exact (Component.lt_or_lt_of_ne hab).imp .inl .inl

theorem componentsLe_antisymm {as bs : List Component} (h : componentsLe as bs = true)
    (h' : componentsLe bs as = true) : as = bs := by
  induction as generalizing bs with
  | nil =>
      cases bs with
      | nil => rfl
      | cons b bs => cases h'
  | cons a as ih =>
      cases bs with
      | nil => cases h
      | cons b bs =>
          rw [componentsLe_cons] at h h'
          by_cases hab : a = b
          · subst hab
            have hself := Component.not_lt_self a
            rw [ih (h.resolve_left hself).2 (h'.resolve_left hself).2]
          · have hlt := h.resolve_right fun h => hab h.1
            have hlt' := h'.resolve_right fun h => hab h.1.symm
            exact absurd (Component.lt_trans hlt hlt') (Component.not_lt_self a)

variable {p q r : Path}

theorem le_trans (p q r : Path) (h : p.le q = true) (h' : q.le r = true) : p.le r = true :=
  componentsLe_trans h h'

theorem le_total (p q : Path) : (p.le q || q.le p) = true :=
  Bool.or_eq_true_iff.2 (componentsLe_total _ _)

theorem components_eq_of_le (h : p.le q = true) (h' : q.le p = true) : p.components = q.components :=
  componentsLe_antisymm h h'

theorem le_of_components_eq (h : p.components = q.components) : p.le q = true := by
  have hself := le_total q q
  rw [Bool.or_self] at hself
  rwa [le, h]

@[simp] theorem sameAs_iff : p.sameAs q = true ↔ p.components = q.components := by
  simp [sameAs]

/-- A path comes strictly before another one, however the two are written. -/
def Before (p q : Path) : Prop :=
  p.le q = true ∧ p.components ≠ q.components

theorem Before.trans (h : p.Before q) (h' : q.Before r) : p.Before r := by
  refine ⟨le_trans p q r h.1 h'.1, fun heq => h.2 (components_eq_of_le h.1 ?_)⟩
  exact le_trans q r p h'.1 (le_of_components_eq heq.symm)

theorem Before.not_before (h : p.Before q) : ¬ q.Before p :=
  fun h' => h.2 (components_eq_of_le h.1 h'.1)

theorem Before.congr_left (h : q.Before r) (heq : p.components = q.components) : p.Before r :=
  ⟨le_trans p q r (le_of_components_eq heq) h.1, fun h' => h.2 (heq.symm.trans h')⟩

end Path

/-! ### First spellings -/

/-- The first spelling of a path in a list. -/
def leading? (paths : List Path) (p : Path) : Option Path :=
  paths.find? fun q => q.sameAs p

section Spellings

variable {l l' rest : List Path} {p q : Path}

theorem leading?_cons (p q : Path) (rest : List Path) :
    leading? (p :: rest) q = if p.components = q.components then some p else leading? rest q := by
  by_cases h : p.components = q.components <;> simp [leading?, h]

theorem leading?_congr (h : p.components = q.components) (l : List Path) :
    leading? l p = leading? l q := by
  simp only [leading?, Path.sameAs, h]

theorem mem_of_leading? (h : leading? l p = some q) : q ∈ l :=
  List.mem_of_find?_eq_some h

theorem components_of_leading? (h : leading? l p = some q) : q.components = p.components := by
  have hsame := List.find?_some h
  exact Path.sameAs_iff.1 hsame

/-- The first spelling of a path is its own first spelling. -/
theorem leading?_self (h : leading? l p = some q) : leading? l q = some q :=
  (leading?_congr (components_of_leading? h) l).trans h

theorem exists_leading? (h : p ∈ l) : ∃ q, leading? l p = some q := by
  rw [← Option.isSome_iff_exists, leading?, List.find?_isSome]
  exact ⟨p, h, Path.sameAs_iff.2 rfl⟩

/-! ### Dropping repeats -/

theorem sublist_dropRepeats (l : List Path) : (dropRepeats l).Sublist l := by
  induction l with
  | nil => exact .slnil
  | cons p rest ih =>
      rw [dropRepeats]
      split
      · exact (List.nil_sublist rest).cons_cons p
      next first more hrest =>
        rw [hrest] at ih
        split
        · exact ((List.sublist_cons_self first more).trans ih).cons_cons p
        · exact ih.cons_cons p

/-- What is left of a sorted list ascends strictly. -/
theorem ascending_dropRepeats (h : l.Pairwise fun p q => p.le q = true) :
    (dropRepeats l).Pairwise Path.Before := by
  induction l with
  | nil => exact .nil
  | cons p rest ih =>
      obtain ⟨hp, hsorted⟩ := List.pairwise_cons.1 h
      have hascending := ih hsorted
      rw [dropRepeats]
      split
      · exact List.pairwise_singleton _ p
      next first more hrest =>
        rw [hrest] at hascending
        obtain ⟨hfirst, hmore⟩ := List.pairwise_cons.1 hascending
        split
        next hsame =>
          exact List.pairwise_cons.2
            ⟨fun q hq => (hfirst q hq).congr_left (Path.sameAs_iff.1 hsame), hmore⟩
        next hother =>
          have hmem : first ∈ rest := (sublist_dropRepeats rest).subset (hrest ▸ List.mem_cons_self)
          have hbefore : p.Before first := ⟨hp first hmem, fun heq => hother (Path.sameAs_iff.2 heq)⟩
          refine List.pairwise_cons.2 ⟨fun q hq => ?_, hascending⟩
          rcases List.mem_cons.1 hq with rfl | hq
          · exact hbefore
          · exact hbefore.trans (hfirst q hq)

theorem mem_dropRepeats_cons (h : (p :: rest).Pairwise fun p q => p.le q = true) :
    q ∈ dropRepeats (p :: rest) ↔ q = p ∨ q ∈ dropRepeats rest ∧ p.components ≠ q.components := by
  have hascending := ascending_dropRepeats h
  rw [dropRepeats] at hascending ⊢
  cases hrest : dropRepeats rest with
  | nil => simp
  | cons first more =>
      rw [hrest] at hascending
      dsimp only at hascending ⊢
      split
      next hsame =>
        rw [if_pos hsame] at hascending
        rw [List.mem_cons, List.mem_cons]
        refine or_congr_right ⟨fun hq => ⟨.inr hq, ?_⟩, fun ⟨hq, hne⟩ => hq.resolve_left ?_⟩
        · exact (List.rel_of_pairwise_cons hascending hq).2
        · rintro rfl
          exact hne (Path.sameAs_iff.1 hsame)
      next hother =>
        rw [if_neg hother] at hascending
        rw [List.mem_cons]
        exact or_congr_right (iff_self_and.2 fun hq => (List.rel_of_pairwise_cons hascending hq).2)

/-- What is left of a sorted list are its first spellings. -/
theorem mem_dropRepeats (h : l.Pairwise fun p q => p.le q = true) :
    q ∈ dropRepeats l ↔ leading? l q = some q := by
  induction l with
  | nil => simp [dropRepeats, leading?]
  | cons p rest ih =>
      rw [mem_dropRepeats_cons h, ih (List.pairwise_cons.1 h).2, leading?_cons]
      by_cases hsame : p.components = q.components
      · simp [hsame, eq_comm]
      · have hne : q ≠ p := fun heq => hsame (heq ▸ rfl)
        simp [hsame, hne]

/-! ### Sorted paths -/

theorem pairwise_mergeSort_le (l : List Path) :
    (l.mergeSort Path.le).Pairwise fun p q => p.le q = true :=
  List.pairwise_mergeSort Path.le_trans Path.le_total l

/-- Sorting leaves the first spellings of a list the first ones. -/
theorem leading?_mergeSort (l : List Path) (p : Path) :
    leading? (l.mergeSort Path.le) p = leading? l p := by
  have hties : (l.filter fun q => q.sameAs p).Pairwise fun a b => a.le b = true := by
    rw [List.pairwise_filter]
    refine List.pairwise_of_forall fun a b ha hb => ?_
    exact Path.le_of_components_eq ((Path.sameAs_iff.1 ha).trans (Path.sameAs_iff.1 hb).symm)
  rw [leading?, leading?, ← List.head?_filter, ← List.head?_filter,
    filter_mergeSort Path.le_trans Path.le_total hties]

theorem ascending_sortedPaths (l : List Path) : (sortedPaths l).Pairwise Path.Before :=
  ascending_dropRepeats (pairwise_mergeSort_le l)

/-- **What is fingerprinted of a list are its first spellings.** -/
theorem mem_sortedPaths : q ∈ sortedPaths l ↔ leading? l q = some q := by
  rw [sortedPaths, mem_dropRepeats (pairwise_mergeSort_le l), leading?_mergeSort]

theorem mem_of_mem_sortedPaths (h : q ∈ sortedPaths l) : q ∈ l :=
  mem_of_leading? (mem_sortedPaths.1 h)

/-- Lists that ascend strictly by components and have the same members are the same. -/
theorem eq_of_ascending {α : Type} {l l' : List (List Component × α)}
    (h : l.Pairwise fun a b => Path.componentsLe a.1 b.1 = true ∧ a.1 ≠ b.1)
    (h' : l'.Pairwise fun a b => Path.componentsLe a.1 b.1 = true ∧ a.1 ≠ b.1)
    (hmem : ∀ pair, pair ∈ l ↔ pair ∈ l') : l = l' := by
  have hnodup : ∀ l : List (List Component × α),
      (l.Pairwise fun a b => Path.componentsLe a.1 b.1 = true ∧ a.1 ≠ b.1) → l.Nodup :=
    fun l h => h.imp fun hbefore heq => hbefore.2 (congrArg Prod.fst heq)
  have hperm : l.Perm l' := (List.perm_ext_iff_of_nodup (hnodup l h) (hnodup l' h')).2 hmem
  refine hperm.eq_of_pairwise (fun a b _ _ hab hba => ?_) h h'
  exact absurd (Path.componentsLe_antisymm hab.1 hba.1) hab.2

theorem ascending_map_sortedPaths {α : Type} (f : Path → α) (l : List Path) :
    ((sortedPaths l).map fun p => (p.components, f p)).Pairwise
      fun a b => Path.componentsLe a.1 b.1 = true ∧ a.1 ≠ b.1 :=
  List.pairwise_map.2 (ascending_sortedPaths l)

/-- What the first spellings of a list answer is answered by those of another one. -/
theorem map_sortedPaths_subset {α : Type} {f : Path → α}
    (halike : ∀ p ∈ l, (leading? l p).map f = (leading? l' p).map f) :
    ((sortedPaths l).map fun p => (p.components, f p)) ⊆
      (sortedPaths l').map fun p => (p.components, f p) := by
  intro pair hpair
  obtain ⟨q, hq, rfl⟩ := List.mem_map.1 hpair
  have hanswer := halike q (mem_of_mem_sortedPaths hq)
  rw [mem_sortedPaths.1 hq] at hanswer
  obtain ⟨q', hq', hvalue⟩ := Option.map_eq_some_iff.1 hanswer.symm
  refine List.mem_map.2 ⟨q', mem_sortedPaths.2 (leading?_self hq'), ?_⟩
  rw [components_of_leading? hq', hvalue]

/-- **Whatever is asked of each path, two lists of the same paths come to the same exactly if their first
spellings answer alike.** -/
theorem map_sortedPaths_eq_iff {α : Type} (f : Path → α) (h : ∀ p, p ∈ l ↔ p ∈ l') :
    ((sortedPaths l).map fun p => (p.components, f p)) =
        ((sortedPaths l').map fun p => (p.components, f p)) ↔
      ∀ p ∈ l, (leading? l p).map f = (leading? l' p).map f := by
  constructor
  · intro heq p hp
    obtain ⟨q, hq⟩ := exists_leading? hp
    have hmem : (q.components, f q) ∈ (sortedPaths l').map fun p => (p.components, f p) := by
      rw [← heq]
      exact List.mem_map.2 ⟨q, mem_sortedPaths.2 (leading?_self hq), rfl⟩
    obtain ⟨q', hq', hpair⟩ := List.mem_map.1 hmem
    obtain ⟨hcomponents, hvalue⟩ := Prod.mk.inj hpair
    have hleading : leading? l' p = some q' := by
      rw [← mem_sortedPaths.1 hq']
      exact leading?_congr ((components_of_leading? hq).symm.trans hcomponents.symm) l'
    rw [hq, hleading, Option.map_some, Option.map_some, hvalue]
  · intro halike
    refine eq_of_ascending (ascending_map_sortedPaths f l) (ascending_map_sortedPaths f l') fun pair => ?_
    exact ⟨fun hpair => map_sortedPaths_subset halike hpair, fun hpair =>
      map_sortedPaths_subset (fun p hp => (halike p ((h p).2 hp)).symm) hpair⟩

/-- Two lists of the same paths are fingerprinted in the same spellings exactly if their first spellings
are the same. -/
theorem sortedPaths_eq_iff (h : ∀ p, p ∈ l ↔ p ∈ l') :
    sortedPaths l = sortedPaths l' ↔ ∀ p ∈ l, leading? l p = leading? l' p := by
  have hmap := map_sortedPaths_eq_iff id h
  simp only [Option.map_id, id_eq] at hmap
  rw [← hmap]
  refine ⟨fun heq => by rw [heq], fun heq => ?_⟩
  simpa only [List.map_map, Function.comp_def, List.map_id'] using congrArg (List.map Prod.snd) heq

end Spellings

end Wiring
