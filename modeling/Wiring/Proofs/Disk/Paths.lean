/-
**Places and their paths.**

Every place on a disk has a path of its own, its names one after the other from the root.  Such a path
leads to its place and nowhere else, going down from it by a name is going down on the disk, and the paths
above it are those of the places above.  Whatever path is followed, it ends at a place with proper names,
provided that the working folder has proper names.

Main definitions:

* `Wiring.IsName` — a text that can be the name of an entry in a folder;
* `Wiring.Disk.Named`, `Wiring.Disk.Tidy` — the working folder, and all there is, has proper names.

Main results:

* `Wiring.Text.fields_join`, `Wiring.Text.join_fields` — joining and cutting undo each other;
* `Wiring.Path.segments_join` — the segments of a path that is taken from another;
* `Wiring.Path.join_ofNames`, `Wiring.Path.foldl_join` — going down from a place;
* `Wiring.Path.mem_ancestors_ofNames` — going up from a place;
* `Wiring.Disk.names_of_locate` — a path leads to a place with proper names;
* `Wiring.Disk.eq_of_locate_ofNames`, `Wiring.Disk.eq_of_locate_join` — where the path of a place leads, and
  a path that is taken from it.
-/

import Mathlib.Data.List.Infix
import Wiring.Disk.Basic

set_option autoImplicit false

namespace Wiring

/-! ### Fields -/

namespace Text

section Cut

variable {α : Type} [DecidableEq α] {sep : α} {cs piece : List α}

theorem cut_append (sep : α) (as bs : List α) :
    cut sep (as ++ sep :: bs) = cut sep as ++ cut sep bs := by
  rw [cut_eq_splitOn, cut_eq_splitOn, cut_eq_splitOn, List.splitOn_append_cons_self]

theorem cut_of_not_mem (h : sep ∉ cs) : cut sep cs = [cs] := by
  rw [cut_eq_splitOn, List.splitOn_eq_singleton h]

theorem not_mem_of_mem_cut (h : piece ∈ cut sep cs) : sep ∉ piece := by
  induction cs generalizing piece with
  | nil =>
      rw [cut, List.mem_singleton] at h
      rw [h]
      exact List.not_mem_nil
  | cons c rest ih =>
      rw [cut] at h
      split at h
      · rcases List.mem_cons.1 h with rfl | h
        · exact List.not_mem_nil
        · exact ih h
      next hc =>
        cases hcut : cut sep rest with
        | nil => exact absurd hcut (cut_ne_nil _ _)
        | cons first more =>
            rw [hcut] at h ih
            rcases List.mem_cons.1 h with rfl | h
            · rw [List.mem_cons, not_or]
              exact ⟨Ne.symm hc, ih List.mem_cons_self⟩
            · exact ih (List.mem_cons_of_mem _ h)

/-- Cutting what has been joined gives the pieces back. -/
theorem cut_intercalate {pieces : List (List α)} (hne : pieces ≠ [])
    (hfree : ∀ piece ∈ pieces, sep ∉ piece) : cut sep ([sep].intercalate pieces) = pieces := by
  rw [cut_eq_splitOn, List.splitOn_intercalate sep hfree hne]

end Cut

/-- One more piece goes behind one more separator. -/
theorem intercalate_concat {α : Type} (sep : List α) {pieces : List (List α)} (hne : pieces ≠ [])
    (piece : List α) :
    sep.intercalate (pieces ++ [piece]) = sep.intercalate pieces ++ (sep ++ piece) := by
  induction pieces with
  | nil => exact absurd rfl hne
  | cons first rest ih =>
      by_cases hrest : rest = []
      · subst hrest
        rw [List.singleton_append, List.intercalate_cons_cons, List.intercalate_singleton,
          List.intercalate_singleton, List.append_assoc]
      · have hmore : rest ++ [piece] ≠ [] := List.append_ne_nil_of_left_ne_nil hrest _
        rw [List.cons_append, List.intercalate_cons_of_ne_nil hmore, ih hrest,
          List.intercalate_cons_of_ne_nil hrest, List.append_assoc _ _ (sep ++ piece)]

/-- The fields of a text that is put together around a separator. -/
theorem fields_append (s t : String) : fields '/' (s ++ "/" ++ t) = fields '/' s ++ fields '/' t := by
  unfold fields
  rw [← List.map_append, ← cut_append]
  simp only [String.toList_append, List.append_assoc]
  rfl

theorem fields_of_not_mem {s : String} (h : '/' ∉ s.toList) : fields '/' s = [s] := by
  rw [fields, cut_of_not_mem h, List.map_singleton, String.ofList_toList]

theorem not_mem_of_mem_fields {s field : String} (h : field ∈ fields '/' s) : '/' ∉ field.toList := by
  obtain ⟨piece, hpiece, rfl⟩ := List.mem_map.1 h
  rw [String.toList_ofList]
  exact not_mem_of_mem_cut hpiece

/-- Joining what has been cut gives the text back. -/
theorem join_fields (s : String) : join "/" (fields '/' s) = s := by
  refine String.toList_injective ?_
  have hpieces : ((cut '/' s.toList).map String.ofList).map String.toList = cut '/' s.toList := by
    rw [List.map_map]
    exact List.map_id'' (fun _ => String.toList_ofList) _
  rw [join, String.toList_intercalate, fields, hpieces]
  exact intercalate_cut _ _

theorem join_singleton (s : String) : join "/" [s] = s := by
  refine String.toList_injective ?_
  simp [join]

theorem join_cons_cons (first second : String) (rest : List String) :
    join "/" (first :: second :: rest) = first ++ "/" ++ join "/" (second :: rest) := by
  refine String.toList_injective ?_
  simp only [join, String.toList_intercalate, List.map_cons, List.intercalate_cons_cons,
    String.toList_append]

/-- An empty text at the end leaves a slash there. -/
theorem join_concat_empty {texts : List String} (hne : texts ≠ []) :
    join "/" (texts ++ [""]) = join "/" texts ++ "/" := by
  induction texts with
  | nil => exact absurd rfl hne
  | cons first rest ih =>
      cases rest with
      | nil =>
          rw [List.singleton_append, join_cons_cons, join_singleton, join_singleton, String.append_empty]
      | cons second more =>
          have hrest := ih (List.cons_ne_nil _ _)
          rw [List.cons_append] at hrest
          rw [List.cons_append, List.cons_append, join_cons_cons, join_cons_cons, hrest]
          simp only [String.append_assoc]

/-- Cutting what has been joined gives the texts back. -/
theorem fields_join {texts : List String} (hne : texts ≠ []) (hfree : ∀ t ∈ texts, '/' ∉ t.toList) :
    fields '/' (join "/" texts) = texts := by
  have hcut : cut '/' (['/'].intercalate (texts.map String.toList)) = texts.map String.toList := by
    refine cut_intercalate (fun h => hne (List.map_eq_nil_iff.1 h)) ?_
    intro piece hpiece
    obtain ⟨t, ht, rfl⟩ := List.mem_map.1 hpiece
    exact hfree t ht
  rw [fields, join, String.toList_intercalate]
  refine (congrArg (List.map String.ofList) hcut).trans ?_
  rw [List.map_map]
  exact List.map_id'' (fun _ => String.ofList_toList) _

end Text

/-- A text that can be the name of an entry in a folder. -/
structure IsName (name : String) : Prop where
  step : Disk.isName name = true
  whole : '/' ∉ name.toList

instance (name : String) : Decidable (IsName name) :=
  decidable_of_iff (Disk.isName name = true ∧ '/' ∉ name.toList)
    ⟨fun h => ⟨h.1, h.2⟩, fun h => ⟨h.step, h.whole⟩⟩

theorem IsName.not_idle {name : String} (h : IsName name) : Path.isIdle name = false := by
  have hstep := h.step
  rw [Disk.isName, Bool.and_eq_true, Bool.not_eq_true'] at hstep
  exact hstep.1

theorem IsName.ne_up {name : String} (h : IsName name) : name ≠ ".." := by
  have hstep := h.step
  rw [Disk.isName, Bool.and_eq_true, decide_eq_true_eq] at hstep
  exact hstep.2

theorem IsName.ne_empty {name : String} (h : IsName name) : name ≠ "" := by
  rintro rfl
  cases h.not_idle

/-! ### The path of a place -/

namespace Path

variable {names more : List String} {name : String}

/-- A path is known by its segments. -/
theorem eq_of_segments {p q : Path} (h : p.segments = q.segments) : p = q := by
  obtain ⟨s⟩ := p
  obtain ⟨t⟩ := q
  unfold segments at h
  rw [← Text.join_fields s, ← Text.join_fields t, h]

theorem segments_ofNames_nil : (ofNames []).segments = ["", ""] := by
  decide

theorem segments_ofNames (h : ∀ name ∈ names, IsName name) (hne : names ≠ []) :
    (ofNames names).segments = "" :: names := by
  have hmore : ("" :: names : List String) ≠ [""] := by
    rw [ne_eq, List.cons.injEq]
    exact fun hnil => hne hnil.2
  rw [ofNames, ofSegments, if_neg hmore, segments]
  refine Text.fields_join (List.cons_ne_nil _ _) ?_
  intro t ht
  rcases List.mem_cons.1 ht with rfl | ht
  · decide
  · exact (h t ht).whole

theorem isAbsolute_ofNames (names : List String) : (ofNames names).isAbsolute = true := by
  cases names with
  | nil => decide
  | cons name rest =>
      have hmore : ("" :: name :: rest : List String) ≠ [""] := by simp
      rw [ofNames, ofSegments, if_neg hmore, isAbsolute, Text.join_cons_cons]
      simp

theorem text_ofNames_ne_empty (names : List String) : (ofNames names).text ≠ "" := by
  intro h
  have habsolute := isAbsolute_ofNames names
  rw [isAbsolute, h] at habsolute
  cases habsolute

theorem components_ofNames (h : ∀ name ∈ names, IsName name) :
    (ofNames names).components = .root :: names.map .normal := by
  have hsteps : ((ofNames names).segments.filter fun s => !isIdle s).map stepOf =
      names.map .normal := by
    have hidle : isIdle "" = true := by decide
    by_cases hne : names = []
    · subst hne
      decide
    · rw [segments_ofNames h hne, List.filter_cons_of_neg (by simp [hidle]), List.filter_eq_self.2]
      · refine List.map_congr_left fun name hname => ?_
        rw [stepOf, if_neg (h name hname).ne_up]
      · exact fun name hname => by rw [(h name hname).not_idle, Bool.not_false]
  rw [components, front, if_pos (isAbsolute_ofNames names), hsteps]
  rfl

/-- The segments of a path that is taken from another: a slash at the end of the first counts once. -/
theorem segments_join {p q : Path} (hq : q.isAbsolute = false) :
    (p.join q).segments =
      (if p.segments.getLast? = some "" then p.segments.dropLast else p.segments) ++ q.segments := by
  obtain ⟨s⟩ := p
  obtain ⟨t⟩ := q
  have hlast : ∀ s : String, s.toList.getLast? = some '/' → ∃ s', s = s' ++ "/" := by
    intro s hs
    obtain ⟨front, hfront⟩ := List.getLast?_eq_some_iff.1 hs
    refine ⟨String.ofList front, String.toList_injective ?_⟩
    rw [hfront, String.toList_append, String.toList_ofList]
    rfl
  have hempty : Text.fields '/' "" = [""] := by decide
  rw [join, if_neg (by simp [hq])]
  unfold segments
  by_cases hs : s = ""
  · subst hs
    simp [hempty]
  by_cases hslash : s.toList.getLast? = some '/'
  · obtain ⟨s', rfl⟩ := hlast s hslash
    have hends : Text.fields '/' (s' ++ "/") = Text.fields '/' s' ++ [""] := by
      have h := Text.fields_append s' ""
      rwa [hempty, String.append_empty] at h
    simp only [hslash, if_true, decide_true, Bool.or_true, hends, List.getLast?_concat,
      List.dropLast_concat]
    exact Text.fields_append s' t
  · have hwhole : (Text.fields '/' s).getLast? ≠ some "" := by
      -- an empty last field would stand behind a slash, or alone in an empty text
      intro hlastField
      obtain ⟨front, hfront⟩ := List.getLast?_eq_some_iff.1 hlastField
      have hjoin := Text.join_fields s
      rw [hfront] at hjoin
      cases front with
      | nil => exact hs (hjoin.symm.trans (by decide))
      | cons first rest =>
          rw [Text.join_concat_empty (List.cons_ne_nil _ _)] at hjoin
          refine hslash ?_
          rw [← hjoin, String.toList_append]
          exact List.getLast?_concat
    simp only [hs, hslash, hwhole, decide_false, Bool.or_false, if_false, Bool.false_eq_true]
    exact Text.fields_append s t

theorem not_isAbsolute_of_isName (h : IsName name) : (⟨name⟩ : Path).isAbsolute = false := by
  rw [isAbsolute, decide_eq_false_iff_not]
  exact fun hslash => h.whole (List.mem_of_head? hslash)

theorem isAbsolute_join {p : Path} (h : p.isAbsolute = true) (q : Path) :
    (p.join q).isAbsolute = true := by
  unfold isAbsolute at h
  obtain ⟨rest, hrest⟩ := List.head?_eq_some_iff.1 (of_decide_eq_true h)
  unfold join
  split
  · assumption
  · split <;> simp [isAbsolute, hrest]

/-- The segments of a path that is taken from a place. -/
theorem segments_ofNames_join {q : Path} (h : ∀ name ∈ names, IsName name) (hq : q.isAbsolute = false) :
    ((ofNames names).join q).segments = "" :: (names ++ q.segments) := by
  rw [segments_join hq]
  by_cases hne : names = []
  · subst hne
    rw [segments_ofNames_nil]
    rfl
  · rw [segments_ofNames h hne, if_neg]
    · rfl
    · rw [List.getLast?_cons, List.getLast?_eq_some_getLast hne, Option.getD_some, Option.some.injEq]
      exact (h _ (List.getLast_mem hne)).ne_empty

/-- Going down from a place by a name. -/
theorem join_ofNames (h : ∀ name ∈ names, IsName name) (hname : IsName name) :
    (ofNames names).join ⟨name⟩ = ofNames (names ++ [name]) := by
  have hall : ∀ other ∈ names ++ [name], IsName other := by
    intro other hother
    rcases List.mem_append.1 hother with hother | hother
    · exact h other hother
    · exact List.mem_singleton.1 hother ▸ hname
  have hone : (⟨name⟩ : Path).segments = [name] := Text.fields_of_not_mem hname.whole
  refine eq_of_segments ?_
  rw [segments_ofNames_join h (not_isAbsolute_of_isName hname), segments_ofNames hall (by simp), hone]

/-- Going down from a place by several names. -/
theorem foldl_join (h : ∀ name ∈ names, IsName name) (hmore : ∀ name ∈ more, IsName name) :
    more.foldl (fun (dir : Path) part => dir.join ⟨part⟩) (ofNames names) = ofNames (names ++ more) := by
  induction more generalizing names with
  | nil => rw [List.foldl_nil, List.append_nil]
  | cons name rest ih =>
      have hname := hmore name List.mem_cons_self
      rw [List.foldl_cons, join_ofNames h hname, ih, List.append_assoc, List.singleton_append]
      · intro other hother
        rcases List.mem_append.1 hother with hother | hother
        · exact h other hother
        · exact List.mem_singleton.1 hother ▸ hname
      · exact fun other hother => hmore other (List.mem_cons_of_mem _ hother)

theorem trimIdle_of_names (h : ∀ name ∈ names, IsName name) : trimIdle names = names := by
  rw [trimIdle]
  cases hreverse : names.reverse with
  | nil => rw [List.reverse_eq_nil_iff.1 hreverse]; rfl
  | cons last rest =>
      have hlast : last ∈ names := List.mem_reverse.1 (hreverse ▸ List.mem_cons_self)
      rw [List.dropWhile_cons_of_neg (by simp [(h last hlast).not_idle]), ← hreverse,
        List.reverse_reverse]

/-- Going up from a place. -/
theorem parent?_ofNames (h : ∀ name ∈ names, IsName name) :
    (ofNames names).parent? = if names = [] then none else some (ofNames names.dropLast) := by
  by_cases hne : names = []
  · subst hne
    decide
  · rw [parent?, segments_ofNames h hne, if_neg hne]
    dsimp only
    rw [trimIdle_of_names h]
    have hfront : ∀ name ∈ names.dropLast, IsName name := fun name hname =>
      h name (List.dropLast_subset names hname)
    split
    · exact absurd rfl hne
    · rw [trimIdle_of_names hfront, ofNames]

theorem mem_ancestorsUpTo {count : Nat} {p : Path} (h : ∀ name ∈ names, IsName name)
    (hp : p ∈ ancestorsUpTo count (ofNames names)) : ∃ above, above <+: names ∧ p = ofNames above := by
  induction count generalizing names with
  | zero => cases hp
  | succ count ih =>
      rw [ancestorsUpTo, parent?_ofNames h] at hp
      rcases List.mem_cons.1 hp with rfl | hp
      · exact ⟨names, List.prefix_rfl, rfl⟩
      · split at hp
        next q hq =>
          split at hq
          · cases hq
          · cases hq
            obtain ⟨above, habove, rfl⟩ := ih (fun name hname =>
              h name (List.dropLast_subset names hname)) hp
            exact ⟨above, habove.trans (List.dropLast_prefix names), rfl⟩
        next => cases hp

/-- The paths above that of a place are those of the places above. -/
theorem mem_ancestors_ofNames {p : Path} (h : ∀ name ∈ names, IsName name)
    (hp : p ∈ (ofNames names).ancestors) : ∃ above, above <+: names ∧ p = ofNames above :=
  mem_ancestorsUpTo h hp

end Path

/-! ### Following a path -/

namespace Disk

/-- The working folder has proper names. -/
def Named (disk : Disk) : Prop :=
  ∀ name ∈ disk.here, IsName name

/-- All that there is on the disk has proper names. -/
structure Tidy (disk : Disk) : Prop where
  here : disk.Named
  entries : ∀ e ∈ disk.nodes.entries, ∀ name ∈ e.1, IsName name

variable {disk : Disk} {loc place : Location} {segments names : List String} {p : Path}

/-- Whatever is followed from a place with proper names leads to one. -/
theorem names_of_follow (hloc : ∀ name ∈ loc, IsName name) (hsegments : ∀ s ∈ segments, '/' ∉ s.toList)
    (h : disk.follow loc segments = .ok place) : ∀ name ∈ place, IsName name := by
  induction segments generalizing loc with
  | nil =>
      cases h
      exact hloc
  | cons segment rest ih =>
      have hrest : ∀ s ∈ rest, '/' ∉ s.toList := fun s hs => hsegments s (List.mem_cons_of_mem _ hs)
      rw [follow] at h
      split at h
      · cases h
      split at h
      · exact ih hloc hrest h
      next hidle =>
        split at h
        · exact ih (fun name hname => hloc name (List.dropLast_subset loc hname)) hrest h
        next hup =>
          split at h
          · cases h
          · refine ih ?_ hrest h
            intro name hname
            rcases List.mem_append.1 hname with hname | hname
            · exact hloc name hname
            · rw [List.mem_singleton.1 hname]
              refine ⟨?_, hsegments segment List.mem_cons_self⟩
              rw [isName, Bool.and_eq_true, decide_eq_true_eq]
              exact ⟨by simpa using hidle, hup⟩

/-- A path leads to a place with proper names. -/
theorem names_of_locate (hdisk : disk.Named) (h : disk.locate p = .ok place) :
    ∀ name ∈ place, IsName name := by
  unfold locate at h
  split at h
  · cases h
  · refine names_of_follow ?_ (fun s hs => Text.not_mem_of_mem_fields hs) h
    unfold start
    split
    · exact fun name hname => absurd hname List.not_mem_nil
    · exact hdisk

/-- Segments without a step up lead down, one folder for each that is not idle. -/
theorem eq_of_follow (hup : ".." ∉ segments) (h : disk.follow loc segments = .ok place) :
    place = loc ++ segments.filter fun s => !Path.isIdle s := by
  induction segments generalizing loc with
  | nil =>
      cases h
      exact (List.append_nil place).symm
  | cons segment rest ih =>
      rw [List.mem_cons, not_or] at hup
      rw [follow] at h
      split at h
      · cases h
      split at h
      next hidle =>
        rw [List.filter_cons_of_neg (by simp [hidle])]
        exact ih hup.2 h
      next hidle =>
        rw [if_neg (Ne.symm hup.1)] at h
        rw [List.filter_cons_of_pos (by simpa using hidle)]
        split at h
        · cases h
        · rw [ih hup.2 h, List.append_assoc, List.singleton_append]

theorem filter_of_names (hnames : ∀ name ∈ names, IsName name) :
    (names.filter fun s => !Path.isIdle s) = names :=
  List.filter_eq_self.2 fun name hname => by rw [(hnames name hname).not_idle, Bool.not_false]

/-- A path without a step up that is taken from a place leads down from it. -/
theorem eq_of_locate_join {q : Path} (hnames : ∀ name ∈ names, IsName name)
    (hrelative : q.isAbsolute = false) (hup : ".." ∉ q.segments)
    (h : disk.locate ((Path.ofNames names).join q) = .ok place) :
    place = names ++ q.segments.filter fun s => !Path.isIdle s := by
  have hidle : Path.isIdle "" = true := by decide
  have hnone : ".." ∉ "" :: (names ++ q.segments) := by
    simp only [List.mem_cons, List.mem_append, not_or]
    exact ⟨by decide, fun hname => (hnames _ hname).ne_up rfl, hup⟩
  rw [locate] at h
  split at h
  · cases h
  · rw [start, if_pos (Path.isAbsolute_join (Path.isAbsolute_ofNames names) q),
      Path.segments_ofNames_join hnames hrelative] at h
    rw [eq_of_follow hnone h, List.filter_cons_of_neg (by simp [hidle]), List.filter_append,
      filter_of_names hnames, List.nil_append]

/-- The path of a place leads to no other. -/
theorem eq_of_locate_ofNames (hnames : ∀ name ∈ names, IsName name)
    (h : disk.locate (.ofNames names) = .ok place) : place = names := by
  have hidle : Path.isIdle "" = true := by decide
  rw [locate, if_neg (Path.text_ofNames_ne_empty names), start,
    if_pos (Path.isAbsolute_ofNames names)] at h
  by_cases hne : names = []
  · subst hne
    rw [Path.segments_ofNames_nil] at h
    rw [eq_of_follow (by decide) h]
    rfl
  · rw [Path.segments_ofNames hnames hne] at h
    have hnone : ".." ∉ "" :: names := by
      rw [List.mem_cons, not_or]
      exact ⟨by decide, fun hname => (hnames _ hname).ne_up rfl⟩
    rw [eq_of_follow hnone h, List.filter_cons_of_neg (by simp [hidle]), filter_of_names hnames,
      List.nil_append]

end Disk

end Wiring
