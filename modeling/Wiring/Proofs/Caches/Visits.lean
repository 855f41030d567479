/-
**Lists of callers.**

The callers of a cache stand in a list in the order in which they came.  A new one goes to its end, and
whatever happens to one of them changes its entry alone.  What becomes of the other entries, and of a count
over all of them, does not depend on what the callers want of the cache.
-/

import Mathlib.Algebra.GroupWithZero.Nat
import Mathlib.Tactic.ByContra

set_option autoImplicit false

namespace Wiring

variable {α : Type} {xs : List α} {x y z : α} {i j : Nat}

/-! ### Entries -/

theorem getElem?_of_concat (h : (xs ++ [x])[i]? = some y) : xs[i]? = some y ∨ y = x := by
  by_cases hlt : i < xs.length
  · rw [List.getElem?_append_left hlt] at h
    exact .inl h
  · rw [List.getElem?_append_right (by omega)] at h
    exact .inr (List.mem_singleton.1 (List.mem_of_getElem? h))

theorem getElem?_concat (h : xs[i]? = some y) (x : α) : (xs ++ [x])[i]? = some y := by
  rw [List.getElem?_append_left (List.getElem?_eq_some_iff.1 h).1]
  exact h

theorem getElem?_set_at (h : xs[i]? = some x) (y : α) : (xs.set i y)[i]? = some y :=
  List.getElem?_set_self (List.getElem?_eq_some_iff.1 h).1

/-- An entry of a list in which one has been changed is that one, or it was there before. -/
theorem getElem?_of_set (hx : xs[j]? = some x) (h : (xs.set j y)[i]? = some z) :
    (j = i ∧ z = y) ∨ (j ≠ i ∧ xs[i]? = some z) := by
  by_cases hji : j = i
  · subst hji
    rw [getElem?_set_at hx] at h
    exact .inl ⟨rfl, (Option.some.inj h).symm⟩
  · rw [List.getElem?_set_ne hji] at h
    exact .inr ⟨hji, h⟩

section Change

variable {f : α → α}

theorem modify_of_getElem? (h : xs[i]? = some x) (f : α → α) : xs.modify i f = xs.set i (f x) := by
  have : Inhabited α := ⟨x⟩
  rw [List.modify_eq_set, h]
  rfl

/-- Only the entry that is passed through a function may have become another. -/
theorem getElem?_of_modify (h : (xs.modify j f)[i]? = some y) :
    ∃ x, xs[i]? = some x ∧ (y = x ∨ y = f x) := by
  rw [List.getElem?_modify, Option.map_eq_map, Option.map_eq_some_iff] at h
  obtain ⟨x, hx, rfl⟩ := h
  refine ⟨x, hx, ?_⟩
  split
  · exact .inr rfl
  · exact .inl rfl

theorem getElem?_modify_cases (h : xs[i]? = some x) (f : α → α) (j : Nat) :
    (xs.modify j f)[i]? = some x ∨ (xs.modify j f)[i]? = some (f x) := by
  rw [List.getElem?_modify, h]
  by_cases hji : j = i
  · exact .inr (by simp [hji])
  · exact .inl (by simp [hji])

/-- One entry is another, and all have been passed through a function. -/
theorem getElem?_of_map_set (hx : xs[j]? = some x) (h : ((xs.set j y).map f)[i]? = some z) :
    (j = i ∧ z = f y) ∨ j ≠ i ∧ ∃ u, xs[i]? = some u ∧ z = f u := by
  rw [List.getElem?_map, Option.map_eq_some_iff] at h
  obtain ⟨u, hu, rfl⟩ := h
  rcases getElem?_of_set hx hu with ⟨hji, rfl⟩ | ⟨hji, hu⟩
  · exact .inl ⟨hji, rfl⟩
  · exact .inr ⟨hji, u, hu, rfl⟩

theorem getElem?_map_set_at (hx : xs[j]? = some x) (f : α → α) (y : α) :
    ((xs.set j y).map f)[j]? = some (f y) := by
  rw [List.getElem?_map, getElem?_set_at hx]
  rfl

theorem getElem?_map_set_ne (hx : xs[i]? = some x) (hne : j ≠ i) (f : α → α) (y : α) :
    ((xs.set j y).map f)[i]? = some (f x) := by
  rw [List.getElem?_map, List.getElem?_set_ne hne, hx]
  rfl

end Change

/-! ### A property of one entry -/

section Property

variable {Q : α → Prop} {f : α → α}

theorem exists_of_concat (hnew : ¬ Q x) (h : ∃ y, (xs ++ [x])[i]? = some y ∧ Q y) :
    ∃ y, xs[i]? = some y ∧ Q y := by
  obtain ⟨y, hy, hq⟩ := h
  rcases getElem?_of_concat hy with hy | rfl
  · exact ⟨y, hy, hq⟩
  · exact absurd hq hnew

theorem exists_concat (h : ∃ y, xs[i]? = some y ∧ Q y) (x : α) :
    ∃ y, (xs ++ [x])[i]? = some y ∧ Q y :=
  h.imp fun _ ⟨hy, hq⟩ => ⟨getElem?_concat hy x, hq⟩

theorem exists_of_modify (hback : ∀ {x : α}, Q (f x) → Q x)
    (h : ∃ y, (xs.modify j f)[i]? = some y ∧ Q y) : ∃ x, xs[i]? = some x ∧ Q x := by
  obtain ⟨y, hy, hq⟩ := h
  obtain ⟨x, hx, rfl | rfl⟩ := getElem?_of_modify hy
  · exact ⟨y, hx, hq⟩
  · exact ⟨x, hx, hback hq⟩

theorem exists_modify (hon : ∀ {x : α}, Q x → Q (f x)) (h : ∃ x, xs[i]? = some x ∧ Q x) (j : Nat) :
    ∃ y, (xs.modify j f)[i]? = some y ∧ Q y := by
  obtain ⟨x, hx, hq⟩ := h
  rcases getElem?_modify_cases hx f j with hy | hy
  · exact ⟨x, hy, hq⟩
  · exact ⟨f x, hy, hon hq⟩

end Property

/-! ### Counts -/

/-- When one entry of a list changes, a sum over all of them changes by as much. -/
theorem sum_map_set (f : α → Nat) (hx : xs[i]? = some x) (y : α) :
    ((xs.set i y).map f).sum + f x = (xs.map f).sum + f y := by
  induction xs generalizing i with
  | nil => cases hx
  | cons z rest ih =>
      cases i with
      | zero =>
          cases hx
          simp only [List.set_cons_zero, List.map_cons, List.sum_cons]
          omega
      | succ i =>
          have hrest := ih (by simpa using hx)
          simp only [List.set_cons_succ, List.map_cons, List.sum_cons]
          omega

/-- A sum is at most one if no term is greater and no two terms count. -/
theorem sum_map_le_one (f : α → Nat) (hle : ∀ x ∈ xs, f x ≤ 1)
    (hone : ∀ (i j : Nat) (x y : α), xs[i]? = some x → xs[j]? = some y → f x ≠ 0 → f y ≠ 0 → i = j) :
    (xs.map f).sum ≤ 1 := by
  induction xs with
  | nil => exact Nat.zero_le 1
  | cons x rest ih =>
      have hfirst := hle x List.mem_cons_self
      rw [List.map_cons, List.sum_cons]
      by_cases hx : f x = 0
      · have hrest := ih (fun y hy => hle y (List.mem_cons_of_mem x hy)) fun i j y z hy hz hy' hz' =>
          Nat.succ.inj (hone (i + 1) (j + 1) y z (by simpa using hy) (by simpa using hz) hy' hz')
        omega
      · have hrest : (rest.map f).sum = 0 := by
          rw [List.sum_eq_zero_iff_forall_eq_nat]
          intro n hn
          obtain ⟨y, hy, rfl⟩ := List.mem_map.1 hn
          obtain ⟨j, hj⟩ := List.mem_iff_getElem?.1 hy
          by_contra hne
          exact absurd (hone 0 (j + 1) x y rfl (by simpa using hj) hx hne) (Nat.succ_ne_zero j).symm
        omega

end Wiring
