/-
**What the content fingerprint is taken of.**

The content fingerprint of a set of files is the digest of a stream of bytes: for each file its path, a
zero, its digest or the mark of a file that could not be read, and a zero again.  Nothing in the stream says
how long its pieces are, and a digest may hold zeros.  All the same the stream tells what it was made of: a
path ends at the first zero, a digest has 32 bytes, and the mark cannot be taken for a digest as long as no
digest starts with the mark and a zero.

So two sets of files have the same stream exactly if they have the same paths and, under each path, the same
digest or none.

Main definitions:

* `Wiring.Path.ZeroFree` — a path in which no zero is written;
* `Wiring.FileRecord.Plain` — the digest of a file cannot be taken for the mark;
* `Wiring.FileLedger.ofContents` — the ledger of some files with their contents.

Main results:

* `Wiring.Text.zero_not_mem_encode` — texts as bytes;
* `Wiring.FileLedger.perm_ofList`, `Wiring.FileLedger.ascending_ofList` — the files of a ledger are those
  that were recorded, in the order of their paths;
* `Wiring.FileLedger.views_eq_of_stream_eq` — a stream can be taken apart in one way only;
* `Wiring.FileLedger.stream_separates` — **the stream separates different sets of files**.
-/

import Mathlib.Data.List.Induction
import Mathlib.Data.List.Nodup
import Wiring.Proofs.Fingerprints.Order
import Wiring.Proofs.Text.Decoding

set_option autoImplicit false

namespace Wiring

/-! ### Texts as bytes -/

namespace Text

theorem zero_not_mem_encode {s : String} (h : Char.ofNat 0 ∉ s.toList) : 0 ∉ encode s :=
  fun hzero => h (mem_of_mem_encode (by decide) hzero)

end Text

/-- What stands in front of the first zero, and what stands behind it, is known from the whole. -/
theorem append_zero_inj {as bs xs ys : List UInt8} (ha : 0 ∉ as) (hb : 0 ∉ bs)
    (h : as ++ 0 :: xs = bs ++ 0 :: ys) : as = bs ∧ xs = ys := by
  induction as generalizing bs with
  | nil =>
      cases bs with
      | nil => exact ⟨rfl, (List.cons.inj h).2⟩
      | cons b bs => exact absurd ((List.cons.inj h).1 ▸ List.mem_cons_self) hb
  | cons a as ih =>
      cases bs with
      | nil => exact absurd ((List.cons.inj h).1 ▸ List.mem_cons_self) ha
      | cons b bs =>
          rw [List.cons_append, List.cons_append] at h
          obtain ⟨rfl, hrest⟩ := List.cons.inj h
          rw [List.mem_cons, not_or] at ha hb
          obtain ⟨rfl, rfl⟩ := ih ha.2 hb.2 hrest
          exact ⟨rfl, rfl⟩

/-- No zero is written in the path. -/
def Path.ZeroFree (p : Path) : Prop :=
  Char.ofNat 0 ∉ p.text.toList

instance (p : Path) : Decidable p.ZeroFree :=
  inferInstanceAs (Decidable (Char.ofNat 0 ∉ p.text.toList))

namespace FileLedger

/-- The mark of a file that could not be read and the zero behind it stand at the front of a digest. -/
def Marked (digest : List UInt8) : Prop :=
  missingMark ++ [0] <+: digest

instance (digest : List UInt8) : Decidable (Marked digest) :=
  inferInstanceAs (Decidable (missingMark ++ [0] <+: digest))

end FileLedger

/-- The digest of the file, if it could be read, has 32 bytes and cannot be taken for the mark. -/
structure FileRecord.Plain (r : FileRecord) : Prop where
  length : ∀ digest, r.digest = some digest → digest.length = 32
  unmarked : ∀ digest, r.digest = some digest → ¬ FileLedger.Marked digest

/-- The record of a file with the given content, or of one that could not be read. -/
def FileRecord.ofContent (stat : Option Stat) : Option (List UInt8) → FileRecord
  | some bytes => .present stat bytes
  | none => .missing

theorem FileRecord.digest_ofContent (stat : Option Stat) (content : Option (List UInt8)) :
    (FileRecord.ofContent stat content).digest = content.map Digest.sha256 := by
  cases content <;> rfl

theorem FileRecord.plain_ofContent {content : Option (List UInt8)}
    (h : ∀ bytes ∈ content, ¬ FileLedger.Marked (Digest.sha256 bytes)) (stat : Option Stat) :
    (FileRecord.ofContent stat content).Plain := by
  cases content with
  | none => exact ⟨nofun, nofun⟩
  | some bytes =>
      refine ⟨?_, ?_⟩
      · rintro digest ⟨⟩
        exact Digest.length_sha256 bytes
      · rintro digest ⟨⟩
        exact h bytes rfl

namespace FileLedger

/-! ### Ledgers -/

/-- The ledger of some records, recorded in the given order. -/
def ofList (entries : List (Path × FileRecord)) : FileLedger :=
  entries.foldl (fun ledger e => ledger.record e.1 e.2) {}

/-- The ledger of some files with their contents, where there is one. -/
def ofContents (stat : Path → Option Stat) (files : List (Path × Option (List UInt8))) : FileLedger :=
  ofList (files.map fun e => (e.1, .ofContent (stat e.1) e.2))

/-- The paths ascend strictly. -/
def Ascending {β : Type} (files : List (Path × β)) : Prop :=
  files.Pairwise fun a b => a.1.Before b.1

variable {files files' entries entries' : List (Path × FileRecord)} {e : Path × FileRecord} {p q : Path}
  {r s : FileRecord}

theorem ofList_concat (entries : List (Path × FileRecord)) (e : Path × FileRecord) :
    (ofList (entries ++ [e])).files = enter e.1 e.2 (ofList entries).files := by
  rw [ofList, List.foldl_append]
  rfl

theorem fst_of_mem_enter (h : e ∈ enter p r files) : e.1 = p ∨ ∃ e' ∈ files, e'.1 = e.1 := by
  induction files with
  | nil => exact .inl (congrArg Prod.fst (List.mem_singleton.1 h))
  | cons first rest ih =>
      rw [enter] at h
      split at h
      · rcases List.mem_cons.1 h with rfl | h
        · exact .inr ⟨first, List.mem_cons_self, rfl⟩
        · exact .inr ⟨e, List.mem_cons_of_mem _ h, rfl⟩
      split at h
      · rcases List.mem_cons.1 h with rfl | h
        · exact .inl rfl
        · exact .inr ⟨e, h, rfl⟩
      · rcases List.mem_cons.1 h with rfl | h
        · exact .inr ⟨e, List.mem_cons_self, rfl⟩
        · exact (ih h).imp_right fun ⟨e', he', heq⟩ => ⟨e', List.mem_cons_of_mem _ he', heq⟩

/-- A ledger stays in order. -/
theorem ascending_enter (h : Ascending files) (p : Path) (r : FileRecord) :
    Ascending (enter p r files) := by
  induction files with
  | nil => exact List.pairwise_singleton _ _
  | cons first rest ih =>
      obtain ⟨hfirst, hrest⟩ := List.pairwise_cons.1 h
      rw [enter]
      split
      · exact List.pairwise_cons.2 ⟨hfirst, hrest⟩
      next hother =>
        rw [Path.sameAs_iff] at hother
        split
        next hle =>
          have hbefore : p.Before first.1 := ⟨hle, Ne.symm hother⟩
          refine List.pairwise_cons.2 ⟨fun e he => ?_, h⟩
          rcases List.mem_cons.1 he with rfl | he
          · exact hbefore
          · exact hbefore.trans (hfirst e he)
        next hgt =>
          have hbefore : first.1.Before p :=
            ⟨(Bool.or_eq_true_iff.1 (Path.le_total first.1 p)).resolve_right hgt, hother⟩
          refine List.pairwise_cons.2 ⟨fun e he => ?_, ih hrest⟩
          rcases fst_of_mem_enter he with heq | ⟨e', he', heq⟩
          · rwa [heq]
          · exact heq ▸ hfirst e' he'

theorem ascending_ofList (entries : List (Path × FileRecord)) : Ascending (ofList entries).files := by
  induction entries using List.reverseRecOn with
  | nil => exact .nil
  | append_singleton entries e ih =>
      rw [ofList_concat]
      exact ascending_enter ih e.1 e.2

/-- A path that has not been recorded comes in beside what has been. -/
theorem perm_enter (h : ∀ e ∈ files, e.1.components ≠ p.components) (r : FileRecord) :
    (enter p r files).Perm ((p, r) :: files) := by
  induction files with
  | nil => exact .refl _
  | cons first rest ih =>
      have hother : ¬ first.1.sameAs p = true := by
        rw [Path.sameAs_iff]
        exact h first List.mem_cons_self
      rw [enter, if_neg hother]
      split
      · exact .refl _
      · exact ((ih fun e he => h e (List.mem_cons_of_mem _ he)).cons first).trans (.swap _ _ _)

/-- The files of a ledger are those that were recorded, if no two of them have the same path. -/
theorem perm_ofList (h : (entries.map fun e => e.1.components).Nodup) :
    (ofList entries).files.Perm entries := by
  induction entries using List.reverseRecOn with
  | nil => exact .refl _
  | append_singleton entries e ih =>
      rw [List.map_append, List.nodup_append] at h
      obtain ⟨hnodup, -, hnew⟩ := h
      have hperm := ih hnodup
      rw [ofList_concat]
      refine (perm_enter (fun e' he' => ?_) e.2).trans ((hperm.cons e).trans ?_)
      · exact hnew _ (List.mem_map.2 ⟨e', hperm.subset he', rfl⟩) _ (List.mem_singleton.2 rfl)
      · exact (List.perm_append_singleton e entries).symm

/-- Two lists of the same files in order are the same. -/
theorem Ascending.eq_of_perm {β : Type} {l l' : List (Path × β)} (h : Ascending l) (h' : Ascending l')
    (hperm : l.Perm l') : l = l' :=
  hperm.eq_of_pairwise (fun _ _ _ _ hbefore hafter => absurd hafter hbefore.not_before) h h'

/-- What is recorded in ascending order stays in that order. -/
theorem files_ofList (h : Ascending entries) : (ofList entries).files = entries := by
  refine (ascending_ofList entries).eq_of_perm h (perm_ofList ?_)
  exact (List.pairwise_map.2 (h.imp And.right) : (entries.map fun e => e.1.components).Nodup)

/-! ### Taking a stream apart -/

theorem mark_append_ne {digest xs ys : List UInt8} (hlength : digest.length = 32)
    (hmark : ¬ Marked digest) : missingMark ++ 0 :: xs ≠ digest ++ 0 :: ys := by
  intro h
  refine hmark (List.prefix_of_prefix_length_le ?_ (List.prefix_append digest (0 :: ys)) ?_)
  · rw [← h, List.append_cons missingMark]
    exact List.prefix_append _ _
  · rw [hlength]
    decide

/-- The piece of one file at the front of a stream is known from the stream. -/
theorem streamOf_append_inj {xs ys : List UInt8} (hp : p.ZeroFree) (hq : q.ZeroFree) (hr : r.Plain)
    (hs : s.Plain) (h : streamOf p r ++ xs = streamOf q s ++ ys) :
    p = q ∧ r.digest = s.digest ∧ xs = ys := by
  simp only [streamOf, List.append_assoc, List.cons_append, List.nil_append] at h
  obtain ⟨htext, hrest⟩ :=
    append_zero_inj (Text.zero_not_mem_encode hp) (Text.zero_not_mem_encode hq) h
  have hpath : p = q := by
    obtain ⟨s⟩ := p
    obtain ⟨t⟩ := q
    rw [Path.mk.injEq]
    exact Text.encode_injective htext
  refine ⟨hpath, ?_⟩
  cases hdr : r.digest with
  | none =>
      cases hds : s.digest with
      | none =>
          rw [hdr, hds] at hrest
          exact ⟨rfl, (List.cons.inj (List.append_cancel_left hrest)).2⟩
      | some digest =>
          rw [hdr, hds] at hrest
          exact absurd hrest (mark_append_ne (hs.length _ hds) (hs.unmarked _ hds))
  | some digest =>
      cases hds : s.digest with
      | none =>
          rw [hdr, hds] at hrest
          exact absurd hrest.symm (mark_append_ne (hr.length _ hdr) (hr.unmarked _ hdr))
      | some digest' =>
          rw [hdr, hds] at hrest
          obtain ⟨hdigest, hrest⟩ :=
            List.append_inj hrest ((hr.length _ hdr).trans (hs.length _ hds).symm)
          exact ⟨congrArg some hdigest, (List.cons.inj hrest).2⟩

/-- What the stream says of a file. -/
def view (e : Path × FileRecord) : Path × Option (List UInt8) :=
  (e.1, e.2.digest)

/-- The stream is made of nothing else. -/
theorem stream_eq (ledger : FileLedger) :
    ledger.stream = (ledger.files.map view).flatMap fun v =>
      Text.encode v.1.text ++ 0 :: v.2.getD missingMark ++ [0] := by
  rw [List.flatMap_map]
  rfl

theorem streamOf_ne_nil (p : Path) (r : FileRecord) : streamOf p r ≠ [] := by
  simp [streamOf]

/-- **A stream can be taken apart in one way only.** -/
theorem views_eq_of_stream_eq (hfiles : ∀ e ∈ files, e.1.ZeroFree ∧ e.2.Plain)
    (hfiles' : ∀ e ∈ files', e.1.ZeroFree ∧ e.2.Plain)
    (h : (files.flatMap fun e => streamOf e.1 e.2) = files'.flatMap fun e => streamOf e.1 e.2) :
    files.map view = files'.map view := by
  induction files generalizing files' with
  | nil =>
      cases files' with
      | nil => rfl
      | cons e' rest' =>
          rw [List.flatMap_cons] at h
          exact absurd (List.append_eq_nil_iff.1 h.symm).1 (streamOf_ne_nil _ _)
  | cons e rest ih =>
      cases files' with
      | nil =>
          rw [List.flatMap_cons] at h
          exact absurd (List.append_eq_nil_iff.1 h).1 (streamOf_ne_nil _ _)
      | cons e' rest' =>
          obtain ⟨hfree, hplain⟩ := hfiles e List.mem_cons_self
          obtain ⟨hfree', hplain'⟩ := hfiles' e' List.mem_cons_self
          rw [List.flatMap_cons, List.flatMap_cons] at h
          obtain ⟨hpath, hdigest, hrest⟩ := streamOf_append_inj hfree hfree' hplain hplain' h
          rw [List.map_cons, List.map_cons, view, view, hpath, hdigest,
            ih (fun e he => hfiles e (List.mem_cons_of_mem _ he))
              (fun e he => hfiles' e (List.mem_cons_of_mem _ he)) hrest]

/-! ### Separating sets of files -/

/-- Some files with their contents, where there is one, from whose stream everything can be told: each has
a path of its own, no path holds a zero, and no digest starts with the mark of a missing file. -/
structure Legible (m : List (Path × Option (List UInt8))) : Prop where
  distinct : (m.map fun e => e.1.components).Nodup
  zeroFree : ∀ e ∈ m, e.1.ZeroFree
  unmarked : ∀ e ∈ m, ∀ bytes ∈ e.2, ¬ Marked (Digest.sha256 bytes)

section Separation

variable {m m' : List (Path × Option (List UInt8))} {stat stat' : Path → Option Stat}

/-- The ledger of some files, each with a path of its own, has a record of each. -/
theorem perm_ofContents (h : (m.map fun e => e.1.components).Nodup) (stat : Path → Option Stat) :
    (ofContents stat m).files.Perm (m.map fun e => (e.1, .ofContent (stat e.1) e.2)) := by
  refine perm_ofList ?_
  rwa [List.map_map]

/-- What the stream can tell of the files of a ledger. -/
theorem perm_views (h : (m.map fun e => e.1.components).Nodup) (stat : Path → Option Stat) :
    ((ofContents stat m).files.map view).Perm (m.map fun e => (e.1, e.2.map Digest.sha256)) := by
  have hviews : ((m.map fun e => (e.1, FileRecord.ofContent (stat e.1) e.2)).map view) =
      m.map fun e => (e.1, e.2.map Digest.sha256) := by
    rw [List.map_map]
    refine List.map_congr_left fun e _ => ?_
    rw [Function.comp_apply, view, FileRecord.digest_ofContent]
  rw [← hviews]
  exact (perm_ofContents h stat).map view

theorem Legible.readable (h : Legible m) (stat : Path → Option Stat) :
    ∀ e ∈ (ofContents stat m).files, e.1.ZeroFree ∧ e.2.Plain := by
  intro e he
  obtain ⟨e', he', rfl⟩ := List.mem_map.1 ((perm_ofContents h.distinct stat).subset he)
  exact ⟨h.zeroFree e' he', FileRecord.plain_ofContent (h.unmarked e' he') _⟩

/-- Two streams are the same exactly if the files have the same paths and the same digests under them. -/
theorem Legible.stream_eq_iff (h : Legible m) (h' : Legible m') (stat stat' : Path → Option Stat) :
    (ofContents stat m).stream = (ofContents stat' m').stream ↔
      (m.map fun e => (e.1, e.2.map Digest.sha256)).Perm
        (m'.map fun e => (e.1, e.2.map Digest.sha256)) := by
  have hperm := perm_views h.distinct stat
  have hperm' := perm_views h'.distinct stat'
  constructor
  · intro hstream
    have hviews := views_eq_of_stream_eq (h.readable stat) (h'.readable stat') hstream
    exact hperm.symm.trans (hviews ▸ hperm')
  · intro hsame
    have hviews : (ofContents stat m).files.map view = (ofContents stat' m').files.map view :=
      Ascending.eq_of_perm (List.pairwise_map.2 (ascending_ofList _))
        (List.pairwise_map.2 (ascending_ofList _)) ((hperm.trans hsame).trans hperm'.symm)
    rw [stream_eq, stream_eq, hviews]

/-- No two different contents in two sets of files have the same digest. -/
def CollisionFree (m m' : List (Path × Option (List UInt8))) : Prop :=
  ∀ e ∈ m, ∀ e' ∈ m', ∀ bytes ∈ e.2, ∀ bytes' ∈ e'.2,
    Digest.sha256 bytes = Digest.sha256 bytes' → bytes = bytes'

theorem CollisionFree.symm (h : CollisionFree m m') : CollisionFree m' m :=
  fun e he e' he' bytes hbytes bytes' hbytes' hdigest =>
    (h e' he' e he bytes' hbytes' bytes hbytes hdigest.symm).symm

theorem CollisionFree.subset (h : CollisionFree m m')
    (hperm : (m.map fun e => (e.1, e.2.map Digest.sha256)).Perm
      (m'.map fun e => (e.1, e.2.map Digest.sha256))) : m ⊆ m' := by
  intro e he
  obtain ⟨e', he', heq⟩ := List.mem_map.1 (hperm.subset (List.mem_map.2 ⟨e, he, rfl⟩))
  obtain ⟨hpath, hdigest⟩ := Prod.mk.inj heq
  have hcontent : e'.2 = e.2 := by
    cases hbytes : e.2 with
    | none =>
        rw [hbytes, Option.map_none] at hdigest
        exact Option.map_eq_none_iff.1 hdigest
    | some bytes =>
        rw [hbytes, Option.map_some] at hdigest
        obtain ⟨bytes', hbytes', hsame⟩ := Option.map_eq_some_iff.1 hdigest
        rw [hbytes', h e he e' he' bytes hbytes bytes' hbytes' hsame.symm]
  exact Prod.ext hpath hcontent ▸ he'

/-- **The stream separates different sets of files.**  Two sets of files have the same stream exactly if
they have the same paths, the same of them missing, and the same digest under each of the others; and if no
two of their contents have the same digest by chance, exactly if they are the same. -/
theorem stream_separates (h : Legible m) (h' : Legible m') (stat stat' : Path → Option Stat) :
    ((ofContents stat m).stream = (ofContents stat' m').stream ↔
      (m.map fun e => (e.1, e.2.map Digest.sha256)).Perm
        (m'.map fun e => (e.1, e.2.map Digest.sha256))) ∧
    (CollisionFree m m' →
      ((ofContents stat m).stream = (ofContents stat' m').stream ↔ m.Perm m')) := by
  have hstream := h.stream_eq_iff h' stat stat'
  refine ⟨hstream, fun hfree => hstream.trans ⟨fun hperm => ?_, fun hperm => hperm.map _⟩⟩
  refine (List.perm_ext_iff_of_nodup (List.Nodup.of_map _ h.distinct)
    (List.Nodup.of_map _ h'.distinct)).2 fun e => ?_
  exact ⟨fun he => hfree.subset hperm he, fun he => hfree.symm.subset hperm.symm he⟩

/-- A file with one letter in it, and one that is missing. -/
def drawer : List (Path × Option (List UInt8)) :=
  [(⟨"b"⟩, some [120]), (⟨"a"⟩, none)]

/-- The letter has been moved to the other file. -/
def movedDrawer : List (Path × Option (List UInt8)) :=
  [(⟨"a"⟩, some [120]), (⟨"b"⟩, none)]

/-- A content that moves from one file to another changes the stream, although the paths, the number of
those missing and the digest stay the same. -/
theorem stream_separates_moved :
    Legible drawer ∧ Legible movedDrawer ∧ CollisionFree drawer movedDrawer ∧
      (ofContents (fun _ => none) drawer).stream ≠
        (ofContents (fun _ => some ⟨1, 0⟩) movedDrawer).stream := by
  have h : Legible drawer := ⟨by decide, by decide, by decide +kernel⟩
  have h' : Legible movedDrawer := ⟨by decide, by decide, by decide +kernel⟩
  have hfree : CollisionFree drawer movedDrawer := by
    unfold CollisionFree
    decide +kernel
  refine ⟨h, h', hfree, fun hstream => ?_⟩
  have hperm := ((stream_separates h h' _ _).2 hfree).1 hstream
  exact absurd hperm (by decide)

end Separation

end FileLedger

end Wiring
