/-
**Tables have each key once.**

A document is read line by line into a tree of tables.  A line may give a value to a key that has none, and it
may go on in a table that is there already, but it never puts a second value beside a first one.  This holds of
the tables that headers open, of those that dotted keys go through and of those between braces, however deep
they are.

Main definitions:

* `Wiring.Toml.Value.Keyed` — every table in a value has each of its keys once;
* `Wiring.Toml.Node.Keyed`, `Wiring.Toml.Body.Keyed` — the same for what is under construction.

Main results:

* `Wiring.Toml.Body.Keyed.descend` — a change deep in a table leaves the keys apart;
* `Wiring.Toml.Written.keyed_value` — what is written between braces has each key once;
* `Wiring.Toml.keyed_parse` — **the tables of a document have each key once**.
-/

import Wiring.Proofs.Results
import Wiring.Table
import Wiring.Toml.Document

set_option autoImplicit false

namespace Wiring.Toml

/-! ### Keys that stay apart -/

/-- A value that holds no other values. -/
def Value.isScalar : Value → Bool
  | .array _ => false
  | .table _ => false
  | _ => true

/-- Every table in a value has each of its keys once. -/
inductive Value.Keyed : Value → Prop
  | scalar {v : Value} (h : v.isScalar) : Keyed v
  | array {items : List Value} (h : ∀ v ∈ items, Keyed v) : Keyed (.array items)
  | table {entries : Entries} (hkeys : (entries.map Prod.fst).Nodup) (h : ∀ e ∈ entries, Keyed e.2) :
      Keyed (.table entries)

/-- Every table in a tree has each of its keys once. -/
inductive Node.Keyed : Node → Prop
  | leaf {v : Value} (h : v.Keyed) : Keyed (.leaf v)
  | table {passed dotted : Bool} {entries : List (String × Node)} (hkeys : (entries.map Prod.fst).Nodup)
      (h : ∀ e ∈ entries, Keyed e.2) : Keyed (.table passed dotted entries)
  | items {tables : List Node} (h : ∀ n ∈ tables, Keyed n) : Keyed (.items tables)

/-- A table under construction has each of its keys once, and so has every table in it. -/
structure Body.Keyed (b : Body) : Prop where
  keys : (b.entries.map Prod.fst).Nodup
  inner : ∀ e ∈ b.entries, e.2.Keyed

theorem Body.keyed_empty (passed dotted : Bool) : (⟨passed, dotted, []⟩ : Body).Keyed :=
  ⟨List.nodup_nil, fun _ h => absurd h List.not_mem_nil⟩

theorem Body.Keyed.node {b : Body} (h : b.Keyed) : b.node.Keyed :=
  .table h.keys h.inner

/-- A table may be marked in another way. -/
theorem Node.Keyed.body {passed dotted : Bool} {entries : List (String × Node)}
    (h : (Node.table passed dotted entries).Keyed) (passed' dotted' : Bool) :
    (⟨passed', dotted', entries⟩ : Body).Keyed := by
  cases h with
  | table hkeys hinner => exact ⟨hkeys, hinner⟩

/-! ### Finished trees -/

theorem entriesValue_eq (entries : List (String × Node)) :
    entriesValue entries = entries.map fun e => (e.1, e.2.toValue) := by
  induction entries with
  | nil => rfl
  | cons e rest ih => rw [entriesValue, ih, List.map_cons]

theorem tablesValue_eq (tables : List Node) : tablesValue tables = tables.map Node.toValue := by
  induction tables with
  | nil => rfl
  | cons n rest ih => rw [tablesValue, ih, List.map_cons]

/-- The value of a finished tree has the keys of the tree. -/
theorem Node.Keyed.toValue {n : Node} (h : n.Keyed) : n.toValue.Keyed := by
  induction h with
  | leaf h => exact h
  | table hkeys _ ih =>
      rw [Node.toValue, entriesValue_eq]
      refine .table ?_ ?_
      · rw [List.map_map]
        exact hkeys
      · intro e he
        obtain ⟨entry, hentry, rfl⟩ := List.mem_map.1 he
        exact ih entry hentry
  | items _ ih =>
      rw [Node.toValue, tablesValue_eq]
      refine .array fun v hv => ?_
      obtain ⟨n, hn, rfl⟩ := List.mem_map.1 hv
      exact ih n hn

/-! ### Changes -/

section Changes

variable {b b' : Body} {key : List String} {name : String} {node : Node} {value : Value}

theorem setKey_eq_putEntries (name : String) (node : Node) (entries : List (String × Node)) :
    setKey name node entries = Table.putEntries name node entries := by
  induction entries with
  | nil => rfl
  | cons e rest ih => rw [setKey, Table.putEntries, ih]

/-- A key takes the place of an equal one. -/
theorem Body.Keyed.set (h : b.Keyed) (hnode : node.Keyed) : (b.set name node).Keyed := by
  have hdistinct : (⟨b.entries⟩ : Table String Node).Distinct := h.keys
  constructor
  · rw [Body.set, setKey_eq_putEntries]
    exact hdistinct.put name node
  · intro e he
    rw [Body.set, setKey_eq_putEntries] at he
    rcases Table.mem_put (t := ⟨b.entries⟩) he with rfl | hold
    · exact hnode
    · exact h.inner e hold

theorem Body.Keyed.of_lookup (h : b.Keyed) (hlookup : b.entries.lookup name = some node) : node.Keyed := by
  obtain ⟨before, after, hentries, -⟩ := List.lookup_eq_some_iff.1 hlookup
  refine h.inner (name, node) ?_
  rw [hentries]
  exact List.mem_append_right _ List.mem_cons_self

/-- **A change deep in a table leaves the keys apart**, if it does so in the table that it is made in. -/
theorem Body.Keyed.descend {dotted : Bool} {change : Body → Option Body}
    (hchange : ∀ {b b' : Body}, b.Keyed → change b = some b' → b'.Keyed) {path : List String} (h : b.Keyed)
    (hdescend : Toml.descend dotted change path b = some b') : b'.Keyed := by
  induction path generalizing b b' with
  | nil => exact hchange h hdescend
  | cons name rest ih =>
      rw [Toml.descend] at hdescend
      split at hdescend
      next hlookup =>
        obtain ⟨inner, hinner, hset⟩ := Option.bind_eq_some_iff.1 hdescend
        cases hset
        exact h.set (ih (Body.keyed_empty true dotted) hinner).node
      next => cases hdescend
      next passed wasDotted entries hlookup =>
        split at hdescend
        · cases hdescend
        · obtain ⟨inner, hinner, hset⟩ := Option.bind_eq_some_iff.1 hdescend
          cases hset
          exact h.set (ih ((h.of_lookup hlookup).body passed wasDotted) hinner).node
      next tables hlookup =>
        have htables : ∀ n ∈ tables, n.Keyed := by
          cases h.of_lookup hlookup with
          | items htables => exact htables
        split at hdescend
        next passed wasDotted entries hlast =>
          obtain ⟨inner, hinner, hset⟩ := Option.bind_eq_some_iff.1 hdescend
          cases hset
          have hcurrent := htables _ (List.mem_of_getLast? hlast)
          refine h.set (.items fun n hn => ?_)
          rcases List.mem_append.1 hn with hold | hnew
          · exact htables n (List.dropLast_subset tables hold)
          · rw [List.mem_singleton.1 hnew]
            exact (ih (hcurrent.body passed wasDotted) hinner).node
        next => cases hdescend

theorem Body.Keyed.assign (h : b.Keyed) (hvalue : value.Keyed) (hassign : Toml.assign key value b = some b') :
    b'.Keyed := by
  unfold Toml.assign at hassign
  split at hassign
  · cases hassign
  · refine h.descend (fun {inner inner'} hinner hset => ?_) hassign
    split at hset
    · cases hset
    · split at hset
      · cases hset
      · cases hset
        exact hinner.set (.leaf hvalue)

theorem Body.Keyed.openTable (h : b.Keyed) (hopen : Toml.openTable key b = some b') : b'.Keyed := by
  unfold Toml.openTable at hopen
  split at hopen
  · cases hopen
  · refine h.descend (fun {inner inner'} hinner hset => ?_) hopen
    split at hset
    · cases hset
      exact hinner.set (Body.keyed_empty false false).node
    next entries hlookup =>
      cases hset
      exact hinner.set ((hinner.of_lookup hlookup).body false false).node
    · cases hset

theorem Body.Keyed.openItem (h : b.Keyed) (hopen : Toml.openItem key b = some b') : b'.Keyed := by
  have hempty : (Body.node {}).Keyed := (Body.keyed_empty false false).node
  unfold Toml.openItem at hopen
  split at hopen
  · cases hopen
  · refine h.descend (fun {inner inner'} hinner hset => ?_) hopen
    split at hset
    · cases hset
      refine hinner.set (.items ?_)
      rw [List.forall_mem_singleton]
      exact hempty
    next tables hlookup =>
      cases hset
      cases hinner.of_lookup hlookup with
      | items htables =>
          refine hinner.set (.items ?_)
          rw [List.forall_mem_append, List.forall_mem_singleton]
          exact ⟨htables, hempty⟩
    · cases hset

end Changes

/-! ### Written values -/

theorem eq_some_of_orMalformed {α : Type} {part : Option α} {a : α} (h : orMalformed part = .ok a) :
    part = some a := by
  cases part with
  | none => cases h
  | some b => exact congrArg some (Except.ok.inj h)

/-- What stands outside quotes and brackets holds no other values. -/
theorem isScalar_of_scalar? {cs : List Char} {v : Value} (h : scalar? cs = some v) : v.isScalar := by
  unfold scalar? at h
  repeat' split at h
  all_goals cases h
  all_goals rfl

mutual

/-- **What is written between braces has each key once.** -/
theorem Written.keyed_value {v : Value} : (w : Written) → w.value = .ok v → v.Keyed
  | .string text, h => by
      obtain ⟨s, -, rfl⟩ := Option.map_eq_some_iff.1 (eq_some_of_orMalformed h)
      exact .scalar rfl
  | .run _, h => .scalar (isScalar_of_scalar? (eq_some_of_orMalformed h))
  | .missing, h => by cases h
  | .array items, h => by
      obtain ⟨values, hvalues, rfl⟩ := of_map_eq_ok h
      exact .array (keyed_valuesOf items hvalues)
  | .table pairs, h => by
      obtain ⟨body, hbody, rfl⟩ := of_map_eq_ok h
      exact (keyed_fill pairs (Body.keyed_empty false false) hbody).node.toValue

theorem keyed_valuesOf {values : List Value} :
    (items : List Written) → valuesOf items = .ok values → ∀ v ∈ values, v.Keyed
  | [], h => by
      cases h
      exact fun _ hv => absurd hv List.not_mem_nil
  | item :: rest, h => by
      obtain ⟨value, hvalue, h⟩ := of_bind_eq_ok h
      obtain ⟨more, hmore, h⟩ := of_bind_eq_ok h
      cases h
      rw [List.forall_mem_cons]
      exact ⟨item.keyed_value hvalue, keyed_valuesOf rest hmore⟩

theorem keyed_fill {body filled : Body} : (pairs : List (Key × Written)) → body.Keyed →
    fill body pairs = .ok filled → filled.Keyed
  | [], hbody, h => by
      cases h
      exact hbody
  | (_, item) :: rest, hbody, h => by
      obtain ⟨key, -, h⟩ := of_bind_eq_ok h
      obtain ⟨value, hvalue, h⟩ := of_bind_eq_ok h
      obtain ⟨next, hnext, h⟩ := of_bind_eq_ok h
      have hkeyed := hbody.assign (item.keyed_value hvalue) (eq_some_of_orMalformed hnext)
      exact keyed_fill rest hkeyed h

end

/-! ### Documents -/

/-- A table that is complete stays as it is. -/
theorem Draft.eq_of_close {d d' : Draft} (h : d.close = .ok d') : d = d' := by
  unfold Draft.close at h
  split at h
  · cases h
  · exact Except.ok.inj h

theorem Draft.keyed_openItem {d : Draft} (h : d.root.Keyed) (key : List String) :
    (d.openItem key).root.Keyed := by
  have hempty : ({} : Body).Keyed := Body.keyed_empty false false
  unfold Draft.openItem
  split
  next root hroot => exact h.openItem hroot
  next =>
    change ((Toml.openItem key {}).getD {}).Keyed
    cases hroot : Toml.openItem key {} with
    | none => exact hempty
    | some root => exact hempty.openItem hroot

theorem Draft.keyed_add {d d' : Draft} (h : d.root.Keyed) {line : Line} (hadd : d.add line = .ok d') :
    d'.root.Keyed := by
  cases line with
  | assign key item =>
      obtain ⟨names, -, hadd⟩ := of_bind_eq_ok hadd
      obtain ⟨value, hvalue, hadd⟩ := of_bind_eq_ok hadd
      obtain ⟨root, hroot, hadd⟩ := of_bind_eq_ok hadd
      cases hadd
      have hkeyed := item.keyed_value hvalue
      exact h.descend (fun hinner => hinner.assign hkeyed) (eq_some_of_orMalformed hroot)
  | table key =>
      obtain ⟨closed, hclosed, hadd⟩ := of_bind_eq_ok hadd
      obtain ⟨names, -, hadd⟩ := of_bind_eq_ok hadd
      obtain ⟨root, hroot, hadd⟩ := of_bind_eq_ok hadd
      cases hadd
      obtain rfl := Draft.eq_of_close hclosed
      exact h.openTable (eq_some_of_orMalformed hroot)
  | item key =>
      obtain ⟨closed, hclosed, hadd⟩ := of_bind_eq_ok hadd
      obtain ⟨names, -, hadd⟩ := of_bind_eq_ok hadd
      cases hadd
      obtain rfl := Draft.eq_of_close hclosed
      exact Draft.keyed_openItem h names

theorem Draft.keyed_addAll {d d' : Draft} (h : d.root.Keyed) {lines : List Line}
    (hadd : d.addAll lines = .ok d') : d'.root.Keyed := by
  induction lines generalizing d with
  | nil =>
      obtain rfl := Draft.eq_of_close hadd
      exact h
  | cons line rest ih =>
      obtain ⟨next, hnext, hadd⟩ := of_bind_eq_ok hadd
      exact ih (Draft.keyed_add h hnext) hadd

/-- **The tables of a document have each key once.** -/
theorem keyed_parse {text : String} {v : Value} (h : parse text = .ok v) : v.Keyed := by
  obtain ⟨lines, -, h⟩ := of_bind_eq_ok h
  obtain ⟨d, hd, h⟩ := of_bind_eq_ok h
  cases h
  exact (Draft.keyed_addAll (Body.keyed_empty false false) hd).node.toValue

end Wiring.Toml
