/-
**Steps that can fail.**

What comes out of several steps comes out of each of them, and of several steps that fail the first one counts.

Main results:

* `Wiring.of_bind_eq_ok`, `Wiring.of_map_eq_ok` — two steps that go well;
* `Wiring.mapM_eq_ok_iff`, `Wiring.mapM_eq_error_iff` — **when a list of steps goes well, and what it fails
  with**.
-/

import Mathlib.Data.List.Forall2

set_option autoImplicit false

namespace Wiring

variable {ε α β : Type} {x : Except ε α} {b : β}

/-- What comes out of two steps comes out of the second. -/
theorem of_bind_eq_ok {f : α → Except ε β} (h : x >>= f = .ok b) :
    ∃ a, x = .ok a ∧ f a = .ok b := by
  cases x with
  | error _ => cases h
  | ok a => exact ⟨a, rfl, h⟩

theorem of_map_eq_ok {f : α → β} (h : x.map f = .ok b) : ∃ a, x = .ok a ∧ f a = b := by
  cases x with
  | error _ => cases h
  | ok a => exact ⟨a, rfl, Except.ok.inj h⟩

/-- A step that cannot fail adds no failure. -/
theorem bind_ok_eq_error_iff {f : α → β} {e : ε} : (x >>= fun a => .ok (f a)) = .error e ↔ x = .error e := by
  cases x with
  | error e' => exact ⟨fun h => congrArg Except.error (Except.error.inj h), fun h => h ▸ rfl⟩
  | ok a => exact ⟨nofun, nofun⟩

/-- A list of steps goes well if each of them does. -/
theorem mapM_eq_ok_iff {f : α → Except ε β} {l : List α} {bs : List β} :
    l.mapM f = .ok bs ↔ List.Forall₂ (fun a b => f a = .ok b) l bs := by
  induction l generalizing bs with
  | nil =>
      rw [List.mapM_nil, List.forall₂_nil_left_iff]
      exact ⟨fun h => (Except.ok.inj h).symm, fun h => h ▸ rfl⟩
  | cons a l ih =>
      rw [List.mapM_cons]
      constructor
      · intro h
        obtain ⟨b, hb, h⟩ := of_bind_eq_ok h
        obtain ⟨more, hmore, h⟩ := of_bind_eq_ok h
        cases h
        exact .cons hb (ih.1 hmore)
      · rintro (_ | ⟨hb, hmore⟩)
        rw [hb]
        change (l.mapM f >>= _) = _
        rw [ih.2 hmore]
        rfl

/-- Of several steps that fail the first one counts. -/
theorem mapM_eq_error_iff {f : α → Except ε β} {l : List α} {e : ε} :
    l.mapM f = .error e ↔ ∃ before a after, l = before ++ a :: after ∧
      (∀ c ∈ before, ∃ b, f c = .ok b) ∧ f a = .error e := by
  induction l with
  | nil =>
      rw [List.mapM_nil]
      exact ⟨nofun, fun ⟨_, _, _, hsplit, _⟩ => absurd hsplit (by simp)⟩
  | cons a l ih =>
      rw [List.mapM_cons]
      cases ha : f a with
      | error e' =>
          constructor
          · intro h
            cases h
            exact ⟨[], a, l, rfl, fun c hc => absurd hc List.not_mem_nil, ha⟩
          · rintro ⟨before, c, after, hsplit, hbefore, hc⟩
            cases before with
            | nil =>
                cases hsplit
                cases ha.symm.trans hc
                rfl
            | cons first before =>
                cases hsplit
                obtain ⟨b, hb⟩ := hbefore a List.mem_cons_self
                cases ha.symm.trans hb
      | ok b =>
          have hrest : (Except.ok b >>= fun b => l.mapM f >>= fun bs => pure (b :: bs)) =
              (.error e : Except ε (List β)) ↔ l.mapM f = .error e := by
            exact bind_ok_eq_error_iff
          rw [hrest, ih]
          constructor
          · rintro ⟨before, c, after, rfl, hbefore, hc⟩
            refine ⟨a :: before, c, after, rfl, ?_, hc⟩
            rw [List.forall_mem_cons]
            exact ⟨⟨b, ha⟩, hbefore⟩
          · rintro ⟨before, c, after, hsplit, hbefore, hc⟩
            cases before with
            | nil =>
                cases hsplit
                cases ha.symm.trans hc
            | cons first before =>
                cases hsplit
                exact ⟨before, c, after, rfl, fun d hd => hbefore d (List.mem_cons_of_mem _ hd), hc⟩

/-- What stands on one side has a counterpart on the other. -/
theorem exists_of_forall₂ {R : α → β → Prop} {l : List α} {bs : List β} (h : List.Forall₂ R l bs)
    (hb : b ∈ bs) : ∃ a ∈ l, R a b := by
  induction h with
  | nil => cases hb
  | cons hfirst _ ih =>
      rcases List.mem_cons.1 hb with rfl | hb
      · exact ⟨_, List.mem_cons_self, hfirst⟩
      · obtain ⟨a, ha, hab⟩ := ih hb
        exact ⟨a, List.mem_cons_of_mem _ ha, hab⟩

end Wiring
