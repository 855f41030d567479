/-
**References to sets are read as they are written.**

A package path may hold dots and the name of a set holds none, so the last dot of a reference ends its package.
A reference whose last dot has text on both sides is the written form of one identity, and reading gives this
identity back.  Any other reference is a name as it stands, in the package that the reader is in.

Main definitions:

* `Wiring.Text.LastAt` — the place at which a character occurs for the last time;
* `Wiring.SetId.Writable` — an identity that can be told from its written form;
* `Wiring.SetId.NamesPackage` — a reference that names its package.

Main results:

* `Wiring.Text.cutLast?_eq_some_iff`, `Wiring.Text.cutLast?_eq_none_iff` — what cutting at the last separator
  finds;
* `Wiring.SetId.parse_text`, `Wiring.SetId.parse_of_namesPackage` — writing and reading undo each other;
* `Wiring.SetId.parse_rereads` — **set references survive writing and reading**.
-/

import Wiring.Provider

set_option autoImplicit false

namespace Wiring

namespace Text

variable {sep c : Char} {cs before after : List Char} {i : Nat}

/-! ### The last separator -/

theorem cutLast?_eq_none_iff : cutLast? sep cs = none ↔ sep ∉ cs := by
  induction cs with
  | nil => simp [cutLast?]
  | cons c rest ih =>
      rw [cutLast?, List.mem_cons, not_or, ← ih]
      cases cutLast? sep rest with
      | some parts => simp
      | none => by_cases hc : sep = c <;> simp [hc, Ne.symm]

/-- Behind the last separator nothing is cut any more. -/
theorem cutLast?_append (h : sep ∉ after) (before : List Char) :
    cutLast? sep (before ++ sep :: after) = some (before, after) := by
  induction before with
  | nil => rw [List.nil_append, cutLast?, cutLast?_eq_none_iff.2 h, if_pos rfl]
  | cons c before ih => rw [List.cons_append, cutLast?, ih]

theorem of_cutLast?_eq_some (h : cutLast? sep cs = some (before, after)) :
    before ++ sep :: after = cs ∧ sep ∉ after := by
  induction cs generalizing before with
  | nil => cases h
  | cons c rest ih =>
      rw [cutLast?] at h
      cases hcut : cutLast? sep rest with
      | some parts =>
          rw [hcut] at h
          cases h
          obtain ⟨hrest, hafter⟩ := ih hcut
          exact ⟨congrArg (c :: ·) hrest, hafter⟩
      | none =>
          -- there is none further on, so the first character is the last separator or there is none
          rw [hcut] at h
          by_cases hc : c = sep
          · rw [if_pos hc] at h
            cases h
            exact ⟨congrArg (· :: after) hc.symm, cutLast?_eq_none_iff.1 hcut⟩
          · rw [if_neg hc] at h
            cases h

/-- The two sides of the last separator: with it between them they are the whole, and there is none behind
it. -/
theorem cutLast?_eq_some_iff :
    cutLast? sep cs = some (before, after) ↔ before ++ sep :: after = cs ∧ sep ∉ after := by
  refine ⟨of_cutLast?_eq_some, ?_⟩
  rintro ⟨rfl, hafter⟩
  exact cutLast?_append hafter before

/-- A character occurs at a place, and nowhere behind it. -/
structure LastAt (c : Char) (cs : List Char) (i : Nat) : Prop where
  here : cs[i]? = some c
  last : ∀ j, i < j → cs[j]? ≠ some c

/-- What is cut off lies on both sides of the place of the last separator. -/
theorem lastAt_append (h : sep ∉ after) (before : List Char) :
    LastAt sep (before ++ sep :: after) before.length := by
  refine ⟨by simp, fun j hj hsep => h ?_⟩
  rw [List.getElem?_append_right (by omega), List.getElem?_cons, if_neg (by omega)] at hsep
  exact List.mem_of_getElem? hsep

theorem LastAt.cutLast? (h : LastAt sep cs i) :
    Text.cutLast? sep cs = some (cs.take i, cs.drop (i + 1)) := by
  obtain ⟨hi, hsep⟩ := List.getElem?_eq_some_iff.1 h.here
  refine cutLast?_eq_some_iff.2 ⟨?_, fun hmem => ?_⟩
  · rw [← hsep, ← List.drop_eq_getElem_cons hi, List.take_append_drop]
  · obtain ⟨j, hj⟩ := List.mem_iff_getElem?.1 hmem
    rw [List.getElem?_drop] at hj
    exact h.last (i + 1 + j) (by omega) hj

end Text

namespace SetId

variable {id : SetId} {reference current : String}

/-! ### Identities and references -/

/-- An identity that can be told from its written form: neither part is empty, and the name holds no dot. -/
structure Writable (id : SetId) : Prop where
  pkg : id.pkg ≠ ""
  name : id.name ≠ ""
  clean : '.' ∉ id.name.toList

/-- A reference names its package when its last dot has text on both sides. -/
def NamesPackage (reference : String) : Prop :=
  ∃ i, Text.LastAt '.' reference.toList i ∧ 0 < i ∧ i + 1 < reference.toList.length

theorem toList_text (id : SetId) : id.text.toList = id.pkg.toList ++ '.' :: id.name.toList := by
  rw [text, String.toList_append, String.toList_append, List.append_assoc]
  rfl

/-- **What has been written is read as it was**, in whatever package. -/
theorem parse_text (h : id.Writable) (current : String) : parse id.text current = id := by
  have hpkg : id.pkg.toList ≠ [] := fun hnil => h.pkg (String.toList_eq_nil_iff.1 hnil)
  have hname : id.name.toList ≠ [] := fun hnil => h.name (String.toList_eq_nil_iff.1 hnil)
  rw [parse, toList_text, Text.cutLast?_append h.clean]
  simp only [hpkg, hname, ne_eq, not_false_eq_true, and_self, if_true, String.ofList_toList]

theorem namesPackage_of_parts {pkg name : List Char} (h : pkg ++ '.' :: name = reference.toList)
    (hclean : '.' ∉ name) (hpkg : pkg ≠ []) (hname : name ≠ []) : NamesPackage reference := by
  have hbefore : 0 < pkg.length := List.length_pos_iff.2 hpkg
  have hbehind : 0 < name.length := List.length_pos_iff.2 hname
  refine ⟨pkg.length, h ▸ Text.lastAt_append hclean pkg, hbefore, ?_⟩
  rw [← h, List.length_append, List.length_cons]
  omega

/-- A reference names its package exactly when it is the written form of an identity. -/
theorem namesPackage_iff : NamesPackage reference ↔ ∃ id : SetId, id.Writable ∧ id.text = reference := by
  constructor
  · rintro ⟨i, hlast, hbefore, hbehind⟩
    obtain ⟨hwhole, hclean⟩ := Text.of_cutLast?_eq_some hlast.cutLast?
    have hpkg : reference.toList.take i ≠ [] := by
      rw [ne_eq, List.take_eq_nil_iff, not_or]
      exact ⟨by omega, List.ne_nil_of_length_pos (by omega)⟩
    have hname : reference.toList.drop (i + 1) ≠ [] := by
      rw [ne_eq, List.drop_eq_nil_iff]
      omega
    refine ⟨⟨String.ofList (reference.toList.take i), String.ofList (reference.toList.drop (i + 1))⟩,
      ⟨?_, ?_, ?_⟩, ?_⟩
    · rwa [ne_eq, String.ofList_eq_empty_iff]
    · rwa [ne_eq, String.ofList_eq_empty_iff]
    · rwa [String.toList_ofList]
    · rw [← String.toList_inj, toList_text, String.toList_ofList, String.toList_ofList, hwhole]
  · rintro ⟨id, h, rfl⟩
    have hpkg : id.pkg.toList ≠ [] := fun hnil => h.pkg (String.toList_eq_nil_iff.1 hnil)
    have hname : id.name.toList ≠ [] := fun hnil => h.name (String.toList_eq_nil_iff.1 hnil)
    exact namesPackage_of_parts (toList_text id).symm h.clean hpkg hname

/-- A reference that names its package is read as an identity that is written like it. -/
theorem parse_of_namesPackage (h : NamesPackage reference) (current : String) :
    (parse reference current).text = reference ∧ (parse reference current).Writable := by
  obtain ⟨id, hid, rfl⟩ := namesPackage_iff.1 h
  rw [parse_text hid]
  exact ⟨rfl, hid⟩

/-- Every other reference is a name in the current package. -/
theorem parse_of_not_namesPackage (h : ¬ NamesPackage reference) (current : String) :
    parse reference current = ⟨current, reference⟩ := by
  rw [parse]
  split
  next pkg name hcut =>
    refine if_neg ?_
    rintro ⟨hpkg, hname⟩
    obtain ⟨hwhole, hclean⟩ := Text.of_cutLast?_eq_some hcut
    exact h (namesPackage_of_parts hwhole hclean hpkg hname)
  next => rfl

/-- **Set references survive writing and reading**: what is written of an identity is read as that identity; a
reference that names its package is read as an identity that is written like it, with a name that holds no dot;
and every other reference is taken whole, as a name in the current package. -/
theorem parse_rereads (current : String) :
    (∀ id : SetId, id.Writable → parse id.text current = id) ∧
      ∀ reference : String,
        (NamesPackage reference →
          (parse reference current).text = reference ∧ (parse reference current).Writable) ∧
        (¬ NamesPackage reference → parse reference current = ⟨current, reference⟩) :=
  ⟨fun _ h => parse_text h current, fun _ =>
    ⟨fun h => parse_of_namesPackage h current, fun h => parse_of_not_namesPackage h current⟩⟩

/-- The package path of a set may hold dots, and a dot in front of a reference begins no package. -/
theorem parse_rereads_dotted :
    parse (text ⟨"example.com/app/db", "DBSet"⟩) "example.com/app" = ⟨"example.com/app/db", "DBSet"⟩ ∧
      (parse "example.com/app/db.DBSet" "example.com/app").text = "example.com/app/db.DBSet" ∧
      parse ".DBSet" "example.com/app" = ⟨"example.com/app", ".DBSet"⟩ := by
  obtain ⟨hwritten, hread⟩ := parse_rereads "example.com/app"
  have hwritable : Writable ⟨"example.com/app/db", "DBSet"⟩ := ⟨by decide, by decide, by decide⟩
  refine ⟨hwritten _ hwritable, ((hread _).1 (namesPackage_iff.2 ⟨_, hwritable, rfl⟩)).1, (hread _).2 ?_⟩
  rintro ⟨i, hlast, hbefore, hbehind⟩
  have hnone : ∀ j < ".DBSet".toList.length, 0 < j → ".DBSet".toList[j]? ≠ some '.' := by decide
  exact hnone i (by omega) hbefore hlast.here

end SetId

end Wiring
