/-
**Counting what is left.**

Recursions that walk a finite graph end because the nodes that they have not met become fewer.  This
module holds the inequality behind them.

Main results:

* `Wiring.length_filter_lt` — a stricter test that refuses one more member keeps fewer members;
* `Wiring.lex_of_le_of_lt` — a pair goes down when its first part does not go up and its second part
  goes down.
-/

set_option autoImplicit false

namespace Wiring

theorem length_filter_le_of_imp {α : Type} {p q : α → Bool} (xs : List α)
    (himp : ∀ x, p x = true → q x = true) : (xs.filter p).length ≤ (xs.filter q).length := by
  induction xs with
  | nil => simp
  | cons x xs ih =>
    by_cases hp : p x = true
    · simp [hp, himp x hp, ih]
    · by_cases hq : q x = true
      · simp only [List.filter_cons, hp, hq, Bool.false_eq_true, if_false, if_true,
          List.length_cons]
        omega
      · simpa [List.filter_cons, hp, hq] using ih

/-- A stricter test that refuses one more member keeps fewer members. -/
theorem length_filter_lt {α : Type} {p q : α → Bool} {xs : List α}
    (himp : ∀ x, p x = true → q x = true) {a : α} (ha : a ∈ xs) (hq : q a = true)
    (hp : p a = false) : (xs.filter p).length < (xs.filter q).length := by
  induction xs with
  | nil => simp at ha
  | cons x xs ih =>
    rcases List.mem_cons.1 ha with rfl | ha
    · have := length_filter_le_of_imp xs himp
      simp only [List.filter_cons, hp, hq, Bool.false_eq_true, if_false, if_true,
        List.length_cons]
      omega
    · have := ih ha
      by_cases hpx : p x = true
      · simp [hpx, himp x hpx, this]
      · by_cases hqx : q x = true
        · simp only [List.filter_cons, hpx, hqx, Bool.false_eq_true, if_false, if_true,
            List.length_cons]
          omega
        · simpa [List.filter_cons, hpx, hqx] using this

theorem lex_of_le_of_lt {a b c d : Nat} (hac : a ≤ c) (hbd : b < d) :
    Prod.Lex (· < ·) (· < ·) (a, b) (c, d) := by
  rcases Nat.lt_or_eq_of_le hac with h | rfl
  · exact Prod.Lex.left _ _ h
  · exact Prod.Lex.right _ hbd

end Wiring
