/-
**Sorted lists.**

A stable sort does not move elements past each other that its order does not tell apart, so it commutes with
taking a part of a list.  Names are sorted by their characters.

Main definitions:

* `Wiring.tiedWith` — an order does not tell two elements apart.

Main results:

* `Wiring.eq_of_tied` — a sorted list is known by its ties;
* `Wiring.filter_mergeSort` — what is in order already stays in its order;
* `Wiring.filter_mergeSort_comm` — a stable sort of a part is the part of the sorted whole;
* `Wiring.pairwise_lt_mergeSort` — sorted names without repetitions ascend strictly.
-/

set_option autoImplicit false

namespace Wiring

/-! ### Stable sorting -/

section Sorting

variable {α : Type} {le : α → α → Bool}

/-- Sorting does not move elements past each other that are in order already. -/
theorem filter_mergeSort {p : α → Bool} {l : List α}
    (htrans : ∀ a b c, le a b → le b c → le a c) (htotal : ∀ a b, le a b || le b a)
    (h : (l.filter p).Pairwise fun a b => le a b) : (l.mergeSort le).filter p = l.filter p := by
  have hsub : (l.filter p).Sublist (l.mergeSort le) :=
    List.sublist_mergeSort htrans htotal h List.filter_sublist
  have hlength : (l.filter p).length = ((l.mergeSort le).filter p).length :=
    ((List.mergeSort_perm l le).filter p).length_eq.symm
  have hfilter : (l.filter p).Sublist ((l.mergeSort le).filter p) := by
    simpa only [List.filter_filter, Bool.and_self] using hsub.filter p
  exact (hfilter.eq_of_length hlength).symm

/-- The elements that an order does not tell apart from `x`. -/
def tiedWith (le : α → α → Bool) (x y : α) : Bool :=
  le x y && le y x

/-- A sorted list is known by its ties: what is tied with any element, in its order. -/
theorem eq_of_tied {l l' : List α} (htotal : ∀ a b, le a b || le b a)
    (h : l.Pairwise fun a b => le a b) (h' : l'.Pairwise fun a b => le a b)
    (htied : ∀ x, l.filter (tiedWith le x) = l'.filter (tiedWith le x)) : l = l' := by
  have hself : ∀ a, tiedWith le a a = true := by
    intro a
    have ha := htotal a a
    rw [Bool.or_self] at ha
    rw [tiedWith, ha, Bool.and_self]
  induction l generalizing l' with
  | nil =>
      cases l' with
      | nil => rfl
      | cons b rest' =>
          have hb := htied b
          rw [List.filter_nil, List.filter_cons_of_pos (hself b)] at hb
          cases hb
  | cons a rest ih =>
      cases l' with
      | nil =>
          have ha := htied a
          rw [List.filter_nil, List.filter_cons_of_pos (hself a)] at ha
          cases ha
      | cons b rest' =>
          obtain ⟨hfirst, hrest⟩ := List.pairwise_cons.1 h
          obtain ⟨hfirst', hrest'⟩ := List.pairwise_cons.1 h'
          have hleast : ∀ x y : α, ∀ l : List α, (∀ z ∈ l, le x z) → y ∈ x :: l → le x y := by
            intro x y l hx hy
            rcases List.mem_cons.1 hy with rfl | hy
            · have hyy := hself y
              rw [tiedWith, Bool.and_self] at hyy
              exact hyy
            · exact hx y hy
          -- each of the two first elements stands in the other list, so neither comes before the other
          have hmem : b ∈ a :: rest := by
            have hb : b ∈ (a :: rest).filter (tiedWith le b) := by
              rw [htied b, List.filter_cons_of_pos (hself b)]
              exact List.mem_cons_self
            exact (List.mem_filter.1 hb).1
          have hmem' : a ∈ b :: rest' := by
            have ha : a ∈ (b :: rest').filter (tiedWith le a) := by
              rw [← htied a, List.filter_cons_of_pos (hself a)]
              exact List.mem_cons_self
            exact (List.mem_filter.1 ha).1
          have hab : tiedWith le a b = true := by
            rw [tiedWith, hleast a b rest hfirst hmem, hleast b a rest' hfirst' hmem', Bool.and_self]
          have heq := htied a
          rw [List.filter_cons_of_pos (hself a), List.filter_cons_of_pos hab, List.cons.injEq] at heq
          obtain ⟨rfl, -⟩ := heq
          refine congrArg _ (ih hrest hrest' ?_)
          intro x
          have hx := htied x
          rw [List.filter_cons, List.filter_cons] at hx
          split at hx
          · exact (List.cons.inj hx).2
          · exact hx

/-- **A stable sort of a part is the part of the sorted whole.** -/
theorem filter_mergeSort_comm (htrans : ∀ a b c, le a b → le b c → le a c)
    (htotal : ∀ a b, le a b || le b a) (p : α → Bool) (l : List α) :
    (l.mergeSort le).filter p = (l.filter p).mergeSort le := by
  have hties : ∀ (x : α) (q : α → Bool) (l : List α),
      (l.filter fun y => tiedWith le x y && q y).Pairwise fun a b => le a b := by
    intro x q l
    rw [List.pairwise_filter]
    refine List.pairwise_of_forall ?_
    intro a b ha hb
    simp only [tiedWith, Bool.and_eq_true] at ha hb
    exact htrans a x b ha.1.2 hb.1.1
  have hsorted := List.pairwise_mergeSort htrans htotal
  refine eq_of_tied htotal ((hsorted l).filter p) (hsorted _) ?_
  intro x
  have hpart := hties x (fun _ => true) (l.filter p)
  simp only [Bool.and_true] at hpart
  rw [List.filter_filter, filter_mergeSort htrans htotal (hties x p l),
    filter_mergeSort htrans htotal hpart, List.filter_filter]

end Sorting

/-! ### Names -/

theorem not_lt_trans {a b c : String} (h : ¬ b < a) (h' : ¬ c < b) : ¬ c < a := by
  rw [String.not_lt] at *
  exact String.le_trans h h'

/-- Names are in ascending order once they are sorted. -/
theorem pairwise_le_mergeSort (names : List String) :
    (names.mergeSort fun a b => !decide (b < a)).Pairwise (· ≤ ·) := by
  have htrans : ∀ a b c : String, (!decide (b < a)) = true → (!decide (c < b)) = true →
      (!decide (c < a)) = true := by
    intro a b c
    simp only [Bool.not_eq_true', decide_eq_false_iff_not]
    exact not_lt_trans
  have htotal : ∀ a b : String, (!decide (b < a) || !decide (a < b)) = true := by
    intro a b
    simp only [Bool.or_eq_true, Bool.not_eq_true', decide_eq_false_iff_not, String.not_lt]
    exact String.le_total a b
  refine (List.pairwise_mergeSort htrans htotal names).imp fun hle => ?_
  simpa only [Bool.not_eq_true', decide_eq_false_iff_not, String.not_lt] using hle

/-- Paths without repetitions come in strictly ascending order once they are sorted. -/
theorem pairwise_lt_mergeSort {paths : List String} (h : paths.Nodup) :
    (paths.mergeSort fun a b => !decide (b < a)).Pairwise (· < ·) := by
  have hnodup : (paths.mergeSort fun a b => !decide (b < a)).Nodup :=
    (List.mergeSort_perm paths _).nodup_iff.2 h
  exact ((pairwise_le_mergeSort paths).and hnodup).imp fun ⟨hle, hne⟩ => Std.lt_of_le_of_ne hle hne

end Wiring
