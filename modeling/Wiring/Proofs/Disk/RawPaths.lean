/-
**Paths as bytes.**

What holds of paths that are texts holds of paths as the system has them, since only the slash and the dots
count.  Segments that a path is continued by become its further components, wherever the slashes stand, and a
text has the same components as its bytes.

A name that is no text is shown with replacement characters.  So what is shown is a proper name again, but
two names may look the same; only names that are texts are known by what is shown of them.

Main definitions:

* `Wiring.RawName.Proper` — a name that an entry of a folder may have;
* `Wiring.RawPath.GoesDown` — a directory that names lead down to from another.

Main results:

* `Wiring.RawName.isText_iff`, `Wiring.RawName.Proper.isName` — what is shown of a name;
* `Wiring.RawPath.components_foldl_join` — the components of the directory that segments lead to;
* `Wiring.RawPath.foldl_join` — going down from a place;
* `Wiring.Path.raw_join`, `Wiring.Path.components_raw` — a path as a text and as bytes.
-/

import Wiring.Disk.RawPath
import Wiring.Proofs.Disk.Paths
import Wiring.Proofs.Text.Decoding

set_option autoImplicit false

namespace Wiring

/-! ### Names -/

theorem Text.slash_not_mem_encode {s : String} (h : '/' ∉ s.toList) : RawPath.slash ∉ Text.encode s :=
  fun hslash => h (Text.mem_of_mem_encode (by decide) hslash)

/-- A name that the entry of a folder may have, as far as paths tell. -/
structure RawName.Proper (name : RawName) : Prop where
  not_idle : RawPath.isIdle name = false
  ne_up : name ≠ [RawPath.dot, RawPath.dot]
  whole : RawPath.slash ∉ name

namespace RawName

variable {name : RawName} {text : String}

theorem shown_encode (text : String) : shown (Text.encode text) = text :=
  Text.decodeLossy_encode text

theorem isText_iff : name.IsText ↔ Text.encode name.shown = name := by
  constructor
  · rintro ⟨text, rfl⟩
    rw [shown_encode]
  · exact fun h => ⟨name.shown, h.symm⟩

/-- A name that is shown as a text without a replacement character is that text. -/
theorem eq_of_shown (hshown : name.shown = text) (htext : Char.ofNat 0xFFFD ∉ text.toList) :
    name = Text.encode text := by
  subst hshown
  exact (Text.encode_decodeLossy htext).symm

theorem Proper.isName (h : name.Proper) : IsName name.shown := by
  have hne : ∀ text, Char.ofNat 0xFFFD ∉ text.toList → name ≠ Text.encode text → name.shown ≠ text :=
    fun text htext hname hshown => hname (eq_of_shown hshown htext)
  have hidle := h.not_idle
  rw [RawPath.isIdle, Bool.or_eq_false_iff, decide_eq_false_iff_not, decide_eq_false_iff_not] at hidle
  constructor
  case step =>
    rw [Disk.isName, Path.isIdle, Bool.and_eq_true, Bool.not_eq_true', Bool.or_eq_false_iff,
      decide_eq_false_iff_not, decide_eq_false_iff_not, decide_eq_true_eq]
    exact ⟨⟨hne "" (by decide) hidle.1, hne "." (by decide) hidle.2⟩, hne ".." (by decide) h.ne_up⟩
  case whole =>
    intro hslash
    rw [shown, Text.decodeLossy, String.toList_ofList] at hslash
    obtain ⟨piece, hpiece, hc⟩ := List.mem_map.1 hslash
    cases piece with
    | none => exact absurd hc (by decide)
    | some c =>
        rw [Option.getD_some] at hc
        subst hc
        exact h.whole (Text.mem_of_mem_pieces hpiece (by decide))

theorem proper_encode (h : IsName text) : Proper (Text.encode text) := by
  have hne : ∀ other, text ≠ other → Text.encode text ≠ Text.encode other := fun other =>
    mt Text.encode_inj.1
  have hidle := h.not_idle
  rw [Path.isIdle, Bool.or_eq_false_iff, decide_eq_false_iff_not, decide_eq_false_iff_not] at hidle
  constructor
  case not_idle =>
    rw [RawPath.isIdle, Bool.or_eq_false_iff, decide_eq_false_iff_not, decide_eq_false_iff_not]
    exact ⟨hne "" hidle.1, hne "." hidle.2⟩
  case ne_up => exact hne ".." h.ne_up
  case whole => exact Text.slash_not_mem_encode h.whole

end RawName

/-! ### Components -/

namespace RawPath

variable {p q : RawPath} {name : RawName} {names parts : List RawName} {steps : List (Component RawName)}

/-- A path that goes on from another by names, and so means a directory at or below the other's. -/
def GoesDown (p : RawPath) (names : List RawName) (q : RawPath) : Prop :=
  q.components = p.components ++ names.map .normal

instance (p : RawPath) (names : List RawName) (q : RawPath) : Decidable (p.GoesDown names q) :=
  inferInstanceAs (Decidable (q.components = p.components ++ names.map .normal))

theorem normal_not_mem_front (p : RawPath) (name : RawName) : .normal name ∉ p.front := by
  unfold front
  split
  · simp
  · split <;> simp

/-- The names among the components of a path can be names of entries. -/
theorem proper_of_mem_components (h : .normal name ∈ p.components) : name.Proper := by
  obtain ⟨segment, hsegment, hstep⟩ :=
    List.mem_map.1 ((List.mem_append.1 h).resolve_left (normal_not_mem_front p name))
  obtain ⟨hsegment, hidle⟩ := List.mem_filter.1 hsegment
  unfold stepOf at hstep
  split at hstep
  · cases hstep
  next hup =>
    cases hstep
    exact ⟨by simpa using hidle, hup, Text.not_mem_of_mem_cut hsegment⟩

/-- Segments become no dots, which come from the front alone. -/
theorem current_not_mem_map_stepOf (segments : List RawName) : .current ∉ segments.map stepOf := by
  intro hmem
  obtain ⟨segment, -, hsegment⟩ := List.mem_map.1 hmem
  unfold stepOf at hsegment
  split at hsegment <;> cases hsegment

theorem filter_ne_current (h : .current ∉ steps) : steps.filter (· ≠ .current) = steps :=
  List.filter_eq_self.2 fun _ hstep => decide_eq_true fun hdot => h (hdot ▸ hstep)

/-- What is taken from a path with text stands behind a slash, which may be there already. -/
theorem exists_above (hp : p.bytes ≠ []) (hq : q.isAbsolute = false) : ∃ above,
    (p.bytes = above ∨ p.bytes = above ++ [slash]) ∧ (p.join q).bytes = above ++ slash :: q.bytes := by
  unfold join
  rw [if_neg (by simp [hq])]
  split
  next hends =>
    rw [Bool.or_eq_true, decide_eq_true_eq, decide_eq_true_eq, or_iff_right hp] at hends
    obtain ⟨above, habove⟩ := List.getLast?_eq_some_iff.1 hends
    refine ⟨above, .inr habove, ?_⟩
    rw [habove, List.append_assoc, List.singleton_append]
  · exact ⟨p.bytes, .inl rfl, rfl⟩

/-- A path with text keeps its front, whatever is taken from it. -/
theorem front_join (hp : p.bytes ≠ []) (hq : q.isAbsolute = false) : (p.join q).front = p.front := by
  obtain ⟨above, habove, hjoin⟩ := exists_above hp hq
  have hfirst : ∀ more, (Text.cut slash above ++ more).head? = (Text.cut slash above).head? := fun more =>
    List.head?_append_of_ne_nil _ (Text.cut_ne_nil _ _)
  have hhead : (p.join q).segments.head? = p.segments.head? := by
    rw [segments, segments, hjoin, Text.cut_append, hfirst]
    rcases habove with h | h <;> rw [h]
    rw [Text.cut_append, hfirst]
  have habsolute : (p.join q).isAbsolute = p.isAbsolute := by
    unfold isAbsolute
    rw [hjoin]
    rcases habove with h | h <;> rw [h]
    · rw [h] at hp
      rw [List.head?_append_of_ne_nil _ hp]
    · cases above <;> rfl
  rw [front, front, habsolute, hhead]

/-- The steps of a path that is taken from another follow on those of the other. -/
theorem steps_join (hp : p.bytes ≠ []) (hq : q.isAbsolute = false) :
    ((p.join q).segments.filter fun s => !isIdle s) =
      (p.segments.filter fun s => !isIdle s) ++ q.segments.filter fun s => !isIdle s := by
  obtain ⟨above, habove, hjoin⟩ := exists_above hp hq
  have hempty : (Text.cut slash []).filter (fun s => !isIdle s) = [] := by decide
  rw [segments, segments, hjoin, Text.cut_append, List.filter_append]
  rcases habove with h | h <;> rw [h]
  · rfl
  · rw [Text.cut_append, List.filter_append, hempty, List.append_nil]
    rfl

/-- The components of a path with one more segment.  A dot becomes a component only where it comes first of
all, and an empty segment never does. -/
theorem components_join (p : RawPath) {part : RawName} (hpart : slash ∉ part) : ∃ steps,
    (p.join ⟨part⟩).components = p.components ++ steps ∧
      steps.filter (· ≠ .current) = ([part].filter fun s => !isIdle s).map stepOf ∧
        (.current ∈ steps → part = [dot]) := by
  have hone : (⟨part⟩ : RawPath).segments = [part] := Text.cut_of_not_mem hpart
  have hrelative : (⟨part⟩ : RawPath).isAbsolute = false := by
    rw [isAbsolute, decide_eq_false_iff_not]
    exact fun hslash => hpart (List.mem_of_head? hslash)
  by_cases hp : p.bytes = []
  · have hempty : p.components = [] := by
      obtain ⟨bytes⟩ := p
      subst hp
      rfl
    have hjoin : p.join ⟨part⟩ = ⟨part⟩ := by
      rw [join, if_neg (by simp [hrelative]), hp]
      rfl
    refine ⟨(⟨part⟩ : RawPath).components, ?_, ?_, ?_⟩
    · rw [hjoin, hempty, List.nil_append]
    · have hfront : (⟨part⟩ : RawPath).front.filter (· ≠ .current) = [] := by
        rw [front, if_neg (by simp [hrelative])]
        split <;> rfl
      rw [components, List.filter_append, filter_ne_current (current_not_mem_map_stepOf _), hfront, hone,
        List.nil_append]
    · intro hmem
      have hfront := (List.mem_append.1 hmem).resolve_right (current_not_mem_map_stepOf _)
      rw [front, if_neg (by simp [hrelative]), hone] at hfront
      split at hfront
      next hhead => exact Option.some.inj hhead
      · cases hfront
  · have hdot := current_not_mem_map_stepOf ([part].filter fun s => !isIdle s)
    refine ⟨_, ?_, filter_ne_current hdot, fun h => absurd h hdot⟩
    rw [components, components, front_join hp hrelative, steps_join hp hrelative, hone, List.map_append,
      List.append_assoc]

/-- **The components of the directory that segments lead to** are those of the directory they start from,
followed by the steps of the segments that are not idle, up to dots that come from dots. -/
theorem components_foldl_join (p : RawPath) (hparts : ∀ part ∈ parts, slash ∉ part) : ∃ steps,
    (parts.foldl (fun (dir : RawPath) part => dir.join ⟨part⟩) p).components = p.components ++ steps ∧
      steps.filter (· ≠ .current) = (parts.filter fun s => !isIdle s).map stepOf ∧
        (.current ∈ steps → [dot] ∈ parts) := by
  induction parts generalizing p with
  | nil => exact ⟨[], (List.append_nil _).symm, rfl, fun h => absurd h List.not_mem_nil⟩
  | cons part rest ih =>
      obtain ⟨first, hfirst, hpart, hdot⟩ := p.components_join (hparts part List.mem_cons_self)
      obtain ⟨more, hmore, hrest, hdots⟩ := ih (p.join ⟨part⟩) fun s hs =>
        hparts s (List.mem_cons_of_mem _ hs)
      refine ⟨first ++ more, ?_, ?_, ?_⟩
      · rw [List.foldl_cons, hmore, hfirst, List.append_assoc]
      · rw [List.filter_append, hpart, hrest, ← List.map_append, ← List.filter_append,
          List.singleton_append]
      · intro hmem
        rcases List.mem_append.1 hmem with hmem | hmem
        · exact hdot hmem ▸ List.mem_cons_self
        · exact List.mem_cons_of_mem _ (hdots hmem)

theorem map_stepOf_of_proper (hnames : ∀ name ∈ names, name.Proper) :
    (names.filter fun s => !isIdle s).map stepOf = names.map .normal := by
  have hkept : (names.filter fun s => !isIdle s) = names :=
    List.filter_eq_self.2 fun name hname => by rw [(hnames name hname).not_idle, Bool.not_false]
  rw [hkept]
  exact List.map_congr_left fun name hname => if_neg (hnames name hname).ne_up

/-- Names lead down to the directory that the path goes on to by them. -/
theorem goesDown_foldl_join (p : RawPath) (hnames : ∀ name ∈ names, name.Proper) :
    p.GoesDown names (names.foldl (fun (dir : RawPath) part => dir.join ⟨part⟩) p) := by
  obtain ⟨steps, hsteps, hkept, hdots⟩ := p.components_foldl_join fun part hpart =>
    (hnames part hpart).whole
  have hdot : .current ∉ steps := by
    intro hmem
    cases (hnames [dot] (hdots hmem)).not_idle
  rw [GoesDown, hsteps, ← filter_ne_current hdot, hkept, map_stepOf_of_proper hnames]

/-! ### The path of a place -/

theorem components_ofNames (h : ∀ name ∈ names, name.Proper) :
    (ofNames names).components = .root :: names.map .normal := by
  have hsegments : ((ofNames names).segments.filter fun s => !isIdle s) =
      names.filter fun s => !isIdle s := by
    rw [segments, ofNames, Text.cut, if_pos rfl, List.filter_cons_of_neg (by decide)]
    cases names with
    | nil => decide
    | cons name rest =>
        rw [Text.cut_intercalate (List.cons_ne_nil _ _) fun piece hpiece => (h piece hpiece).whole]
  have habsolute : (ofNames names).isAbsolute = true := decide_eq_true rfl
  rw [components, front, if_pos habsolute, hsegments, map_stepOf_of_proper h, List.singleton_append]

theorem ofNames_concat (hne : names ≠ []) (name : RawName) :
    ofNames (names ++ [name]) = ⟨(ofNames names).bytes ++ slash :: name⟩ := by
  rw [ofNames, ofNames, Text.intercalate_concat [slash] hne, List.singleton_append, List.cons_append]

/-- The path of a place other than the root does not end in a slash. -/
theorem getLast?_ofNames (h : ∀ name ∈ names, name.Proper) (hne : names ≠ []) :
    (ofNames names).bytes.getLast? ≠ some slash := by
  obtain ⟨above, name, rfl⟩ := (List.eq_nil_or_concat' names).resolve_left hne
  have hname := h name (List.mem_append_right _ List.mem_cons_self)
  have hempty : name ≠ [] := by
    rintro rfl
    cases hname.not_idle
  have hbytes : ∃ more, (ofNames (above ++ [name])).bytes = more ++ name := by
    by_cases habove : above = []
    · subst habove
      exact ⟨[slash], congrArg (slash :: ·) (List.intercalate_singleton)⟩
    · refine ⟨(ofNames above).bytes ++ [slash], ?_⟩
      rw [ofNames_concat habove, List.append_assoc, List.singleton_append]
  obtain ⟨more, hmore⟩ := hbytes
  rw [hmore, List.getLast?_append_of_ne_nil _ hempty]
  exact fun hlast => hname.whole (List.mem_of_getLast? hlast)

/-- Going down from a place by a name. -/
theorem join_ofNames (h : ∀ name ∈ names, name.Proper) (hname : name.Proper) :
    (ofNames names).join ⟨name⟩ = ofNames (names ++ [name]) := by
  have hrelative : ¬ (⟨name⟩ : RawPath).isAbsolute = true := fun habsolute =>
    hname.whole (List.mem_of_head? (of_decide_eq_true habsolute))
  rw [join, if_neg hrelative]
  by_cases hne : names = []
  · subst hne
    rw [if_pos (by decide)]
    exact congrArg (fun bytes => RawPath.mk (slash :: bytes)) List.intercalate_singleton.symm
  · have hfilled : (ofNames names).bytes ≠ [] := List.cons_ne_nil _ _
    rw [if_neg, ofNames_concat hne]
    rw [Bool.or_eq_true, decide_eq_true_eq, decide_eq_true_eq, not_or]
    exact ⟨hfilled, getLast?_ofNames h hne⟩

/-- Going down from a place by several names. -/
theorem foldl_join (h : ∀ name ∈ names, name.Proper) (hparts : ∀ name ∈ parts, name.Proper) :
    parts.foldl (fun (dir : RawPath) part => dir.join ⟨part⟩) (ofNames names) = ofNames (names ++ parts) := by
  induction parts generalizing names with
  | nil => rw [List.foldl_nil, List.append_nil]
  | cons name rest ih =>
      have hname := hparts name List.mem_cons_self
      rw [List.foldl_cons, join_ofNames h hname, ih, List.append_assoc, List.singleton_append]
      · intro other hother
        rcases List.mem_append.1 hother with hother | hother
        · exact h other hother
        · exact List.mem_singleton.1 hother ▸ hname
      · exact fun other hother => hparts other (List.mem_cons_of_mem _ hother)

end RawPath

/-! ### Paths that are texts -/

namespace Text

theorem encode_join (texts : List String) :
    encode (join "/" texts) = [RawPath.slash].intercalate (texts.map encode) := by
  induction texts with
  | nil => rfl
  | cons first rest ih =>
      cases rest with
      | nil => rw [join_singleton, List.map_singleton, List.intercalate_singleton]
      | cons second more =>
          have hslash : encode "/" = [RawPath.slash] := rfl
          rw [join_cons_cons, encode_append, encode_append, ih, hslash, List.append_assoc]
          rfl

theorem head?_encode (s : String) :
    (encode s).head? = some RawPath.slash ↔ s.toList.head? = some '/' := by
  unfold encode
  cases s.toList with
  | nil => simp
  | cons c cs =>
      rw [List.flatMap_cons, List.head?_append_of_ne_nil _ String.utf8EncodeChar_ne_nil, List.head?_cons,
        Option.some.injEq]
      constructor
      · exact fun h => eq_of_mem_utf8EncodeChar (by decide) (List.mem_of_head? h)
      · rintro rfl
        rfl

theorem getLast?_encode (s : String) :
    (encode s).getLast? = some RawPath.slash ↔ s.toList.getLast? = some '/' := by
  unfold encode
  rcases List.eq_nil_or_concat' s.toList with hs | ⟨cs, c, hs⟩ <;> rw [hs]
  · simp
  · rw [List.flatMap_append, List.flatMap_singleton, List.getLast?_concat, Option.some.injEq,
      List.getLast?_append_of_ne_nil _ String.utf8EncodeChar_ne_nil]
    constructor
    · exact fun h => eq_of_mem_utf8EncodeChar (by decide) (List.mem_of_getLast? h)
    · rintro rfl
      rfl

end Text

/-- The component with another name, if it has one. -/
def Component.map {ν μ : Type} (f : ν → μ) : Component ν → Component μ
  | root => root
  | current => current
  | parent => parent
  | normal name => normal (f name)

namespace Path

/-- The segments of a path are texts. -/
theorem segments_raw (p : Path) : p.raw.segments = p.segments.map Text.encode := by
  have hbytes : p.raw.bytes = [RawPath.slash].intercalate (p.segments.map Text.encode) := by
    rw [← Text.encode_join, segments, Text.join_fields]
    rfl
  rw [RawPath.segments, hbytes, Text.cut_intercalate]
  · exact fun h => Text.cut_ne_nil '/' p.text.toList (List.map_eq_nil_iff.1 (List.map_eq_nil_iff.1 h))
  · intro piece hpiece
    obtain ⟨segment, hsegment, rfl⟩ := List.mem_map.1 hpiece
    exact Text.slash_not_mem_encode (Text.not_mem_of_mem_fields hsegment)

theorem isAbsolute_raw (p : Path) : p.raw.isAbsolute = p.isAbsolute :=
  decide_eq_decide.2 (Text.head?_encode p.text)

theorem raw_join (p q : Path) : (p.join q).raw = p.raw.join q.raw := by
  unfold join RawPath.join
  rw [isAbsolute_raw]
  have hends : (p.raw.bytes = [] || p.raw.bytes.getLast? = some RawPath.slash : Bool) =
      (p.text = "" || p.text.toList.getLast? = some '/' : Bool) := by
    have hempty : Text.encode p.text = [] ↔ p.text = "" := Text.encode_inj (t := "")
    simp only [raw, RawPath.ofText, hempty, Text.getLast?_encode]
  rw [hends]
  split
  · rfl
  split <;> simp only [raw, RawPath.ofText, Text.encode_append, List.append_assoc]
  rfl

theorem raw_ofNames (names : List String) : (ofNames names).raw = .ofNames (names.map Text.encode) := by
  rw [raw, RawPath.ofText, RawPath.ofNames, ofNames, ofSegments]
  cases names with
  | nil => rfl
  | cons name rest =>
      rw [if_neg (by simp), Text.encode_join, List.map_cons, List.map_cons]
      rfl

/-- Segments stand for the same steps as texts and as bytes. -/
theorem steps_encode (segments : List String) :
    (((segments.map Text.encode).filter fun s => !RawPath.isIdle s).map RawPath.stepOf) =
      ((segments.filter fun s => !isIdle s).map stepOf).map (Component.map Text.encode) := by
  have hidle : (fun s => !RawPath.isIdle s) ∘ Text.encode = fun s => !isIdle s := by
    have hsame : ∀ s t, Text.encode s = Text.encode t ↔ s = t := fun s t => Text.encode_inj
    funext segment
    exact congrArg (!·) (congrArg₂ (· || ·) (decide_eq_decide.2 (hsame segment ""))
      (decide_eq_decide.2 (hsame segment ".")))
  have hstep : RawPath.stepOf ∘ Text.encode = Component.map Text.encode ∘ stepOf := by
    funext segment
    have hup : Text.encode segment = [RawPath.dot, RawPath.dot] ↔ segment = ".." :=
      Text.encode_inj (t := "..")
    rw [Function.comp_apply, Function.comp_apply, stepOf, RawPath.stepOf]
    simp only [hup]
    split <;> rfl
  rw [List.filter_map, hidle, List.map_map, hstep, List.map_map]

/-- A path means the same as a text and as bytes. -/
theorem components_raw (p : Path) : p.raw.components = p.components.map (Component.map Text.encode) := by
  have hfront : p.raw.front = p.front.map (Component.map Text.encode) := by
    have hhead : p.raw.segments.head? = some [RawPath.dot] ↔ p.segments.head? = some "." := by
      rw [segments_raw, List.head?_map, Option.map_eq_some_iff]
      constructor
      · rintro ⟨segment, hsegment, hdot⟩
        obtain rfl : segment = "." := Text.encode_inj.1 hdot
        exact hsegment
      · exact fun h => ⟨".", h, rfl⟩
    rw [front, RawPath.front, isAbsolute_raw]
    split
    · rfl
    · split <;> rename_i h
      · rw [if_pos (hhead.1 h)]
        rfl
      · rw [if_neg (mt hhead.2 h)]
        rfl
  rw [components, RawPath.components, hfront, segments_raw, steps_encode, List.map_append]

/-- Going down by different names leads to different components. -/
theorem eq_of_components_join {dir : Path} {name other : String} (hname : IsName name)
    (hother : IsName other) (h : (dir.join ⟨name⟩).components = (dir.join ⟨other⟩).components) :
    name = other := by
  have hdown : ∀ name, IsName name → (dir.join ⟨name⟩).raw.components =
      dir.raw.components ++ [.normal (Text.encode name)] := by
    intro name hname
    rw [raw_join]
    have hproper : ∀ part ∈ [Text.encode name], RawName.Proper part := fun part hpart =>
      List.mem_singleton.1 hpart ▸ RawName.proper_encode hname
    exact RawPath.goesDown_foldl_join dir.raw hproper
  have hsame := congrArg (List.map (Component.map Text.encode)) h
  rw [← components_raw, ← components_raw, hdown name hname, hdown other hother,
    List.append_cancel_left_eq, List.singleton_inj, Component.normal.injEq] at hsame
  exact Text.encode_injective hsame

end Path

end Wiring
