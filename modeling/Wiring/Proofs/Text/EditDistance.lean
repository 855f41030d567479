/-
**The edit distance is the least number of edits.**

An edit inserts, removes or replaces one character, anywhere in a text.  The distance is computed row by
row, and an entry of a row is the distance of two beginnings.  Read from their ends, the distance of two
beginnings comes from those of shorter ones: either the last character of one of them goes, or both go.
No single edit changes such a distance by more than one, so as many edits are needed; and following the
smallest of the three choices shows that as many are enough.

Main definitions:

* `Wiring.Text.Edit`, `Wiring.Text.Edits` — one edit, and so many of them one after the other;
* `Wiring.Text.fewest` — the distance of two lists of characters, from one character to the next;
* `Wiring.Text.rowFrom` — the rest of a row, as the distances of longer and longer beginnings.

Main results:

* `Wiring.Text.distance_eq` — what is computed row by row;
* `Wiring.Text.fewest_le_of_edit` — one edit changes a distance by one at most;
* `Wiring.Text.edits_fewest` — so many edits are enough;
* `Wiring.Text.isLeast_editDistance` — **the edit distance is the least number of edits**.
-/

import Mathlib.Order.Bounds.Defs
import Wiring.Text.EditDistance

set_option autoImplicit false

namespace Wiring.Text

variable {c d : Char} {s t u : List Char} {m n : Nat}

/-! ### Edits -/

/-- One edit of a text. -/
inductive Edit : List Char → List Char → Prop
  | insert (front back : List Char) (c : Char) : Edit (front ++ back) (front ++ c :: back)
  | remove (front back : List Char) (c : Char) : Edit (front ++ c :: back) (front ++ back)
  | replace (front back : List Char) (c d : Char) : Edit (front ++ c :: back) (front ++ d :: back)

/-- So many edits, one after the other. -/
inductive Edits : Nat → List Char → List Char → Prop
  | nil (s : List Char) : Edits 0 s s
  | cons {n : Nat} {s t u : List Char} (h : Edit s t) (h' : Edits n t u) : Edits (n + 1) s u

theorem Edit.cons (c : Char) (h : Edit s t) : Edit (c :: s) (c :: t) := by
  cases h with
  | insert front back e => exact .insert (c :: front) back e
  | remove front back e => exact .remove (c :: front) back e
  | replace front back e f => exact .replace (c :: front) back e f

theorem Edit.reverse (h : Edit s t) : Edit s.reverse t.reverse := by
  cases h with
  | insert front back c => simpa using Edit.insert back.reverse front.reverse c
  | remove front back c => simpa using Edit.remove back.reverse front.reverse c
  | replace front back c d => simpa using Edit.replace back.reverse front.reverse c d

/-- What is edited may stand behind a character. -/
theorem Edits.behind (c : Char) (h : Edits n s t) : Edits n (c :: s) (c :: t) := by
  induction h with
  | nil s => exact .nil _
  | cons hfirst _ ih => exact .cons (hfirst.cons c) ih

theorem Edits.reverse (h : Edits n s t) : Edits n s.reverse t.reverse := by
  induction h with
  | nil s => exact .nil _
  | cons hfirst _ ih => exact .cons hfirst.reverse ih

theorem edits_reverse_iff : Edits n s.reverse t.reverse ↔ Edits n s t :=
  ⟨fun h => by simpa using h.reverse, Edits.reverse⟩

/-! ### The distance from one character to the next -/

/-- The distance of two lists of characters.  Of two that are not empty, either the first character of one
of them is gone, or the two first ones stand for each other. -/
def fewest : List Char → List Char → Nat
  | [], t => t.length
  | c :: s, [] => (c :: s).length
  | c :: s, d :: t =>
    min (min (fewest s (d :: t) + 1) (fewest (c :: s) t + 1)) (fewest s t + if c = d then 0 else 1)
termination_by s t => s.length + t.length

theorem fewest_nil_left (t : List Char) : fewest [] t = t.length := by
  rw [fewest]

theorem fewest_nil_right (s : List Char) : fewest s [] = s.length := by
  cases s <;> rw [fewest]

theorem fewest_cons (c d : Char) (s t : List Char) :
    fewest (c :: s) (d :: t) =
      min (min (fewest s (d :: t) + 1) (fewest (c :: s) t + 1))
        (fewest s t + if c = d then 0 else 1) := by
  rw [fewest]

theorem fewest_self (s : List Char) : fewest s s = 0 := by
  induction s with
  | nil => rw [fewest_nil_left, List.length_nil]
  | cons c s ih => simp [fewest_cons, ih]

/-- One character more adds one at most. -/
theorem fewest_cons_le (c : Char) (s t : List Char) : fewest (c :: s) t ≤ fewest s t + 1 := by
  cases t with
  | nil => simp [fewest_nil_right]
  | cons d t =>
      rw [fewest_cons]
      omega

theorem fewest_le_cons_right (s t : List Char) (d : Char) : fewest s (d :: t) ≤ fewest s t + 1 := by
  cases s with
  | nil => simp [fewest_nil_left]
  | cons c s =>
      rw [fewest_cons]
      omega

/-- One character less adds one at most. -/
theorem fewest_le_cons (c : Char) (s t : List Char) : fewest s t ≤ fewest (c :: s) t + 1 := by
  induction t with
  | nil =>
      simp only [fewest_nil_right, List.length_cons]
      omega
  | cons d t ih =>
      have hright := fewest_le_cons_right s t d
      rw [fewest_cons]
      omega

/-- Another character adds one at most. -/
theorem fewest_cons_le_cons (c d : Char) (s t : List Char) :
    fewest (c :: s) t ≤ fewest (d :: s) t + 1 := by
  induction t with
  | nil => simp [fewest_nil_right]
  | cons e t ih =>
      have hcost : (if c = e then 0 else 1) ≤ 1 := by
        split <;> omega
      rw [fewest_cons c, fewest_cons d]
      omega

/-- What adds one at most still does so behind a character. -/
theorem fewest_behind (c : Char) (h : ∀ t, fewest s t ≤ fewest u t + 1) (t : List Char) :
    fewest (c :: s) t ≤ fewest (c :: u) t + 1 := by
  induction t with
  | nil =>
      have hnil := h []
      simp only [fewest_nil_right, List.length_cons] at hnil ⊢
      omega
  | cons d t ih =>
      have hwhole := h (d :: t)
      have hrest := h t
      rw [fewest_cons, fewest_cons]
      omega

/-- **One edit changes a distance by one at most.** -/
theorem fewest_le_of_edit (h : Edit s u) (t : List Char) : fewest s t ≤ fewest u t + 1 := by
  have hfront : ∀ (front : List Char) {a b : List Char}, (∀ t, fewest a t ≤ fewest b t + 1) →
      ∀ t, fewest (front ++ a) t ≤ fewest (front ++ b) t + 1 := by
    intro front a b hab
    induction front with
    | nil => exact hab
    | cons c front ih => exact fewest_behind c ih
  cases h with
  | insert front back c => exact hfront front (fewest_le_cons c back) t
  | remove front back c => exact hfront front (fewest_cons_le c back) t
  | replace front back c d => exact hfront front (fewest_cons_le_cons c d back) t

theorem fewest_le_of_edits (h : Edits n s t) : fewest s t ≤ n := by
  induction h with
  | nil s => exact Nat.le_of_eq (fewest_self s)
  | @cons n s u t hfirst _ ih => exact Nat.le_trans (fewest_le_of_edit hfirst t) (Nat.succ_le_succ ih)

/-- **So many edits are enough.** -/
theorem edits_fewest (s t : List Char) : Edits (fewest s t) s t := by
  induction s generalizing t with
  | nil =>
      rw [fewest_nil_left]
      induction t with
      | nil => exact .nil []
      | cons d t ih => exact .cons (.insert [] [] d) (ih.behind d)
  | cons c s ihLess =>
      induction t with
      | nil =>
          rw [fewest_nil_right]
          have hrest := ihLess []
          rw [fewest_nil_right] at hrest
          exact .cons (.remove [] s c) hrest
      | cons d t ihRight =>
          have hremove : Edits (fewest s (d :: t) + 1) (c :: s) (d :: t) :=
            .cons (.remove [] s c) (ihLess (d :: t))
          have hinsert : Edits (fewest (c :: s) t + 1) (c :: s) (d :: t) :=
            .cons (.insert [] (c :: s) d) (ihRight.behind d)
          have hboth : Edits (fewest s t + if c = d then 0 else 1) (c :: s) (d :: t) := by
            split
            case isTrue h =>
              subst h
              exact (ihLess t).behind c
            case isFalse h => exact .cons (.replace [] s c d) ((ihLess t).behind d)
          rw [fewest_cons]
          rcases Nat.le_total (min (fewest s (d :: t) + 1) (fewest (c :: s) t + 1))
            (fewest s t + if c = d then 0 else 1) with hle | hle
          · rw [Nat.min_eq_left hle]
            rcases Nat.le_total (fewest s (d :: t) + 1) (fewest (c :: s) t + 1) with hle | hle
            · rwa [Nat.min_eq_left hle]
            · rwa [Nat.min_eq_right hle]
          · rwa [Nat.min_eq_right hle]

/-! ### Rows -/

/-- The entries of a row behind the one for `done`.  `source` and `done` are read from their ends. -/
def rowFrom (source done : List Char) : List Char → List Nat
  | [] => []
  | d :: rest => fewest source (d :: done) :: rowFrom source (d :: done) rest

theorem nextRow_rowFrom (c : Char) (source done rest : List Char) :
    nextRow c (fewest (c :: source) done) (fewest source done) rest (rowFrom source done rest) =
      rowFrom (c :: source) done rest := by
  induction rest generalizing done with
  | nil => rfl
  | cons d rest ih =>
      rw [rowFrom, nextRow, ← fewest_cons]
      rw [ih, rowFrom]

theorem advanceRow_rowFrom (c : Char) (source target : List Char) :
    advanceRow target (fewest source [] :: rowFrom source [] target) c =
      fewest (c :: source) [] :: rowFrom (c :: source) [] target := by
  have hfirst : fewest source [] + 1 = fewest (c :: source) [] := by
    simp [fewest_nil_right]
  rw [advanceRow, hfirst, nextRow_rowFrom]

/-- The first row: the distances from the empty text. -/
theorem rowFrom_nil (done rest : List Char) :
    rowFrom [] done rest = List.range' (done.length + 1) rest.length := by
  induction rest generalizing done with
  | nil => rfl
  | cons d rest ih => rw [rowFrom, ih, fewest_nil_left, List.length_cons, List.length_cons, List.range'_succ]

theorem range_eq_rowFrom (target : List Char) :
    List.range (target.length + 1) = fewest [] [] :: rowFrom [] [] target := by
  rw [rowFrom_nil, fewest_nil_left, List.range_eq_range', List.range'_succ]
  rfl

theorem foldl_advanceRow (source more target : List Char) :
    more.foldl (advanceRow target) (fewest source [] :: rowFrom source [] target) =
      fewest (more.reverse ++ source) [] :: rowFrom (more.reverse ++ source) [] target := by
  induction more generalizing source with
  | nil => rfl
  | cons c more ih => rw [List.foldl_cons, advanceRow_rowFrom, ih, List.reverse_cons, List.append_assoc,
      List.singleton_append]

theorem getLastD_rowFrom (source done rest : List Char) :
    (fewest source done :: rowFrom source done rest).getLastD 0 = fewest source (rest.reverse ++ done) := by
  induction rest generalizing done with
  | nil => rfl
  | cons d rest ih =>
      rw [rowFrom, List.reverse_cons, List.append_assoc, List.singleton_append, ← ih]
      rfl

/-- **What is computed row by row** is the distance of the two texts, read from their ends. -/
theorem distance_eq (source target : List Char) :
    distance source target = fewest source.reverse target.reverse := by
  rw [distance, range_eq_rowFrom, foldl_advanceRow, getLastD_rowFrom, List.append_nil, List.append_nil]

/-- **The edit distance is the least number of edits** that turn one text into the other. -/
theorem isLeast_editDistance (source target : String) :
    IsLeast {n | Edits n source.toList target.toList} (editDistance source target) := by
  rw [editDistance, distance_eq]
  refine ⟨edits_reverse_iff.1 (edits_fewest _ _), fun n hn => ?_⟩
  exact fewest_le_of_edits hn.reverse

end Wiring.Text
