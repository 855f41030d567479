/-
**Keyed tables.**

A table holds one value for each of finitely many keys and remembers the order in which the keys
first came.  Writing to a key that is present keeps its place.

Main definitions:

* `Wiring.Table` — the table;
* `Wiring.Table.get?`, `Wiring.Table.put`, `Wiring.Table.erase` — reading, writing and removing;
* `Wiring.Table.Distinct` — no key has two entries.

Main results:

* `Wiring.Table.get?_put`, `Wiring.Table.get?_erase`, `Wiring.Table.get?_filter`,
  `Wiring.Table.get?_filter_keys` — what is read back after a write, a removal or a test;
* `Wiring.Table.get?_foldl_put`, `Wiring.Table.get?_foldl_put_eq_some_iff` — what is read back after several
  writes;
* `Wiring.Table.Distinct.get?_eq_some_iff` — in a table without repeated keys, what is read and what
  stands among the entries is the same.
-/

set_option autoImplicit false

namespace Wiring

/-- A finite map that remembers the order of its keys. -/
structure Table (κ α : Type) where
  entries : List (κ × α) := []
deriving Inhabited, DecidableEq

namespace Table

variable {κ α : Type} [DecidableEq κ]

/-- The value of a key. -/
def get? (t : Table κ α) (key : κ) : Option α :=
  (t.entries.find? fun e => e.1 = key).map Prod.snd

/-- Whether a key has a value. -/
def contains (t : Table κ α) (key : κ) : Bool :=
  t.entries.any fun e => e.1 = key

/-- The entries after a write to `key`. -/
def putEntries (key : κ) (value : α) : List (κ × α) → List (κ × α)
  | [] => [(key, value)]
  | e :: rest => if e.1 = key then (key, value) :: rest else e :: putEntries key value rest

/-- Gives `key` a value, in the place of its old one if there was one. -/
def put (t : Table κ α) (key : κ) (value : α) : Table κ α :=
  ⟨putEntries key value t.entries⟩

/-- Gives `key` a value unless it has one. -/
def putNew (t : Table κ α) (key : κ) (value : α) : Table κ α :=
  if t.contains key then t else t.put key value

/-- Takes the value of `key` away. -/
def erase (t : Table κ α) (key : κ) : Table κ α :=
  ⟨t.entries.filter fun e => e.1 ≠ key⟩

/-- Keeps the entries that pass a test. -/
def filter (t : Table κ α) (keep : κ → α → Bool) : Table κ α :=
  ⟨t.entries.filter fun e => keep e.1 e.2⟩

/-- The keys in the order in which they came. -/
def keys (t : Table κ α) : List κ :=
  t.entries.map Prod.fst

/-- The number of entries. -/
def size (t : Table κ α) : Nat :=
  t.entries.length

@[simp] theorem get?_empty (key : κ) : (⟨[]⟩ : Table κ α).get? key = none := rfl

/-- A written key reads back what was written, and every other key what it held before. -/
theorem get?_put (t : Table κ α) (key other : κ) (value : α) :
    (t.put key value).get? other = if other = key then some value else t.get? other := by
  obtain ⟨entries⟩ := t
  simp only [get?, put]
  induction entries with
  | nil => by_cases h : other = key <;> simp [putEntries, h, eq_comm]
  | cons e rest ih =>
    by_cases he : e.1 = key
    · by_cases h : other = key
      · simp [putEntries, he, h]
      · have h' : key ≠ other := fun hk => h hk.symm
        simp [putEntries, he, h, h']
    · by_cases ho : e.1 = other
      · have h : other ≠ key := fun hk => he (ho.trans hk)
        simp [putEntries, ho, h]
      · simpa [putEntries, he, ho] using ih

/-- A key that passes a test on the keys reads what it held before, and any other key reads nothing. -/
theorem get?_filter_keys (t : Table κ α) (keep : κ → Bool) (key : κ) :
    (t.filter fun k _ => keep k).get? key = if keep key then t.get? key else none := by
  obtain ⟨entries⟩ := t
  simp only [get?, filter]
  induction entries with
  | nil => exact (ite_self none).symm
  | cons e rest ih =>
    by_cases he : e.1 = key
    · by_cases hkeep : keep key = true
      · rw [List.filter_cons_of_pos (by rwa [he]), if_pos hkeep,
          List.find?_cons_of_pos (by simpa using he), List.find?_cons_of_pos (by simpa using he)]
      · rw [List.filter_cons_of_neg (by rwa [he]), ih, if_neg hkeep, if_neg hkeep]
    · rw [List.find?_cons_of_neg (by simpa using he), List.filter_cons]
      split
      · rw [List.find?_cons_of_neg (by simpa using he), ih]
      · exact ih

/-- A removed key reads nothing, and every other key what it held before. -/
theorem get?_erase (t : Table κ α) (key other : κ) :
    (t.erase key).get? other = if other = key then none else t.get? other := by
  have herase : t.erase key = t.filter fun k _ => k ≠ key := rfl
  rw [herase, get?_filter_keys]
  by_cases h : other = key
  · rw [if_neg (by simp [h]), if_pos h]
  · rw [if_pos (by simp [h]), if_neg h]

/-- Writes to other keys do not count. -/
theorem get?_foldl_put_of_not_mem {entries : List (κ × α)} {key : κ}
    (h : key ∉ entries.map Prod.fst) (t : Table κ α) :
    (entries.foldl (fun t e => t.put e.1 e.2) t).get? key = t.get? key := by
  induction entries generalizing t with
  | nil => rfl
  | cons d entries ih =>
    rw [List.map_cons, List.mem_cons, not_or] at h
    rw [List.foldl_cons, ih h.2, get?_put, if_neg h.1]

/-- Entries with distinct keys are all read back. -/
theorem get?_foldl_put {entries : List (κ × α)} {t : Table κ α} {e : κ × α}
    (h : (entries.map Prod.fst).Nodup) (he : e ∈ entries) :
    (entries.foldl (fun t e => t.put e.1 e.2) t).get? e.1 = some e.2 := by
  induction entries generalizing t with
  | nil => cases he
  | cons d entries ih =>
    obtain ⟨hnew, hrest⟩ := List.nodup_cons.1 h
    rcases List.mem_cons.1 he with rfl | he
    · rw [List.foldl_cons, get?_foldl_put_of_not_mem hnew, get?_put, if_pos rfl]
    · exact ih hrest he

omit [DecidableEq κ] in
/-- Of the entries of a key one is the last. -/
theorem exists_last_entry {entries : List (κ × α)} {key : κ} (h : key ∈ entries.map Prod.fst) :
    ∃ before value after, entries = before ++ (key, value) :: after ∧ key ∉ after.map Prod.fst := by
  induction entries with
  | nil => cases h
  | cons e entries ih =>
    by_cases hlater : key ∈ entries.map Prod.fst
    · obtain ⟨before, value, after, rfl, hlast⟩ := ih hlater
      exact ⟨e :: before, value, after, rfl, hlast⟩
    · obtain rfl : key = e.1 := (List.mem_cons.1 h).resolve_right hlater
      exact ⟨[], e.2, entries, rfl, hlater⟩

/-- The last value that is written to a key is read back. -/
theorem get?_foldl_put_append (before : List (κ × α)) {after : List (κ × α)} {key : κ} (value : α)
    (h : key ∉ after.map Prod.fst) (t : Table κ α) :
    ((before ++ (key, value) :: after).foldl (fun t e => t.put e.1 e.2) t).get? key = some value := by
  rw [List.foldl_append, List.foldl_cons, get?_foldl_put_of_not_mem h, get?_put, if_pos rfl]

/-- After several writes a key reads back the last value that was written to it, or what it held before if
there was none. -/
theorem get?_foldl_put_eq_some_iff {entries : List (κ × α)} {t : Table κ α} {key : κ} {value : α} :
    (entries.foldl (fun t e => t.put e.1 e.2) t).get? key = some value ↔
      (∃ before after, entries = before ++ (key, value) :: after ∧ key ∉ after.map Prod.fst) ∨
        (key ∉ entries.map Prod.fst ∧ t.get? key = some value) := by
  by_cases hwritten : key ∈ entries.map Prod.fst
  · obtain ⟨before, last, after, rfl, hlast⟩ := exists_last_entry hwritten
    rw [or_iff_left fun h => h.1 hwritten, get?_foldl_put_append before last hlast, Option.some.injEq]
    constructor
    · rintro rfl
      exact ⟨before, after, rfl, hlast⟩
    · rintro ⟨before', after', hsplit, hlast'⟩
      have hread := get?_foldl_put_append before' value hlast' t
      rw [← hsplit, get?_foldl_put_append before last hlast] at hread
      exact Option.some.inj hread
  · rw [get?_foldl_put_of_not_mem hwritten, and_iff_right hwritten, or_iff_right]
    rintro ⟨before, after, rfl, -⟩
    exact hwritten (by simp)

/-- A key is there if it has a value. -/
theorem contains_eq_isSome_get? (t : Table κ α) (key : κ) : t.contains key = (t.get? key).isSome := by
  obtain ⟨entries⟩ := t
  rw [Bool.eq_iff_iff]
  simp [contains, get?]

/-- What is read stands among the entries. -/
theorem mem_of_get? {t : Table κ α} {key : κ} {value : α} (h : t.get? key = some value) :
    (key, value) ∈ t.entries := by
  obtain ⟨e, hfind, rfl⟩ := Option.map_eq_some_iff.1 h
  have hkey : e.1 = key := by simpa using List.find?_some hfind
  rw [← hkey]
  exact List.mem_of_find?_eq_some hfind

/-- A write brings in nothing but what is written. -/
theorem mem_put {t : Table κ α} {key : κ} {value : α} {e : κ × α} (h : e ∈ (t.put key value).entries) :
    e = (key, value) ∨ e ∈ t.entries := by
  obtain ⟨entries⟩ := t
  simp only [put] at h ⊢
  induction entries with
  | nil => exact .inl (List.mem_singleton.1 h)
  | cons d rest ih =>
    by_cases hd : d.1 = key
    · rw [putEntries, if_pos hd] at h
      exact (List.mem_cons.1 h).imp_right (List.mem_cons_of_mem _)
    · rw [putEntries, if_neg hd] at h
      rcases List.mem_cons.1 h with rfl | h
      · exact .inr List.mem_cons_self
      · exact (ih h).imp_right (List.mem_cons_of_mem _)

/-- What passes the test is still read. -/
theorem get?_filter {t : Table κ α} {keep : κ → α → Bool} {key : κ} {value : α}
    (h : t.get? key = some value) (hkeep : keep key value = true) :
    (t.filter keep).get? key = some value := by
  obtain ⟨entries⟩ := t
  simp only [get?, filter] at h ⊢
  induction entries with
  | nil => cases h
  | cons e rest ih =>
    by_cases he : e.1 = key
    · rw [List.find?_cons_of_pos (by simpa using he)] at h
      have hvalue : e.2 = value := by simpa using h
      rw [List.filter_cons_of_pos (by rw [he, hvalue, hkeep]),
        List.find?_cons_of_pos (by simpa using he)]
      exact h
    · rw [List.find?_cons_of_neg (by simpa using he)] at h
      rw [List.filter_cons]
      split
      · rw [List.find?_cons_of_neg (by simpa using he)]
        exact ih h
      · exact ih h

/-! ### Tables without repeated keys -/

/-- No key has two entries. -/
def Distinct (t : Table κ α) : Prop :=
  t.keys.Nodup

omit [DecidableEq κ] in
theorem distinct_empty : (⟨[]⟩ : Table κ α).Distinct :=
  List.nodup_nil

/-- A write brings in no key but the written one. -/
theorem keys_put (t : Table κ α) (key : κ) (value : α) :
    (t.put key value).keys = if key ∈ t.keys then t.keys else t.keys ++ [key] := by
  obtain ⟨entries⟩ := t
  simp only [put, keys]
  induction entries with
  | nil => rfl
  | cons e rest ih =>
    by_cases he : e.1 = key
    · simp [putEntries, he]
    · have hne : key ≠ e.1 := fun hk => he hk.symm
      rw [putEntries, if_neg he, List.map_cons, ih]
      by_cases hrest : key ∈ rest.map Prod.fst
      · simp [hrest]
      · simp [hrest, hne]

theorem Distinct.put {t : Table κ α} (h : t.Distinct) (key : κ) (value : α) :
    (t.put key value).Distinct := by
  unfold Distinct
  rw [keys_put]
  split
  · exact h
  · rename_i hnew
    refine List.nodup_append.2 ⟨h, List.pairwise_singleton _ key, ?_⟩
    rintro a ha b hb rfl
    exact hnew (List.mem_singleton.1 hb ▸ ha)

theorem Distinct.putNew {t : Table κ α} (h : t.Distinct) (key : κ) (value : α) :
    (t.putNew key value).Distinct := by
  unfold Table.putNew
  split
  · exact h
  · exact h.put key value

omit [DecidableEq κ] in
theorem Distinct.filter {t : Table κ α} (h : t.Distinct) (keep : κ → α → Bool) :
    (t.filter keep).Distinct :=
  h.sublist (List.filter_sublist.map Prod.fst)

theorem Distinct.erase {t : Table κ α} (h : t.Distinct) (key : κ) : (t.erase key).Distinct :=
  h.sublist (List.filter_sublist.map Prod.fst)

/-- Every entry is read. -/
theorem Distinct.get?_eq_some_iff {t : Table κ α} (h : t.Distinct) {key : κ} {value : α} :
    t.get? key = some value ↔ (key, value) ∈ t.entries := by
  refine ⟨mem_of_get?, ?_⟩
  obtain ⟨entries⟩ := t
  simp only [Distinct, keys, get?] at h ⊢
  induction entries with
  | nil => rintro ⟨⟩
  | cons e rest ih =>
    intro hmem
    obtain ⟨hfresh, hrest⟩ := List.nodup_cons.1 h
    rcases List.mem_cons.1 hmem with rfl | hmem
    · simp
    · have hne : e.1 ≠ key := by
        rintro rfl
        exact hfresh (List.mem_map.2 ⟨_, hmem, rfl⟩)
      simpa [hne] using ih hrest hmem

/-- What is read after a test was read before it, and has passed. -/
theorem Distinct.of_get?_filter {t : Table κ α} (h : t.Distinct) {keep : κ → α → Bool} {key : κ}
    {value : α} (hget : (t.filter keep).get? key = some value) :
    t.get? key = some value ∧ keep key value = true := by
  obtain ⟨hmem, hkeep⟩ := List.mem_filter.1 ((h.filter keep).get?_eq_some_iff.1 hget)
  exact ⟨h.get?_eq_some_iff.2 hmem, hkeep⟩

end Table

end Wiring
