/-
**Precedence.**

A request leads to a set along references, and some of these paths are shorter than others.  The walk goes
breadth first, so that its queue is sorted: no visit stands behind a deeper one, and among visits of one depth
no one stands behind a later entry of the request.  Hence the first visit to a set comes along a shortest
path, and from the first entry with a path as short as that.

What the walk ranks is therefore sorted before it is sorted, and the ranks say what they should.

Main definitions:

* `Wiring.SetGraph.Leads` — an entry of a request leads to a set by so many references;
* `Wiring.SetGraph.Placed` — the shortest way to a set, and the first entry from which it is as short;
* `Wiring.Entry`, `Wiring.number` — candidates before and after they are numbered;
* `Wiring.SetGraph.Walking` — the invariant of the walk;
* `Wiring.SetGraph.Ranks` — the precedence of what a request can draw from.

Main results:

* `Wiring.SetGraph.Walking.skip`, `Wiring.SetGraph.Walking.meet` — the steps of the walk preserve the
  invariant;
* `Wiring.SetGraph.walk_cases` — what a walk comes to;
* `Wiring.SetGraph.flatten_ranks` — **candidates are ranked by true precedence**, and what is missing is
  named in breadth-first order.
-/

import Mathlib.Data.Prod.Lex
import Wiring.Proofs.Sets.Flattening
import Wiring.Proofs.Sets.Kept

set_option autoImplicit false

namespace Wiring

/-! ### Places -/

/-- The place of something at a depth below an entry: depth counts first, and then the entry. -/
def place (depth rootIndex : Nat) : Nat ×ₗ Nat :=
  toLex (depth, rootIndex)

theorem place_le_place {d d' k k' : Nat} : place d k ≤ place d' k' ↔ d < d' ∨ d = d' ∧ k ≤ k' :=
  Prod.Lex.toLex_le_toLex

/-- One reference further on, places compare as before. -/
theorem place_succ_le_succ {d d' k k' : Nat} (h : place d k ≤ place d' k') :
    place (d + 1) k ≤ place (d' + 1) k' := by
  rw [place_le_place] at h ⊢
  omega

theorem place_le_succ (d k : Nat) : place d k ≤ place (d + 1) k := by
  rw [place_le_place]
  omega

/-- The place of a visit. -/
def SetGraph.Visit.place (v : SetGraph.Visit) : Nat ×ₗ Nat :=
  Wiring.place v.depth v.rootIndex

/-! ### Entries -/

/-- A candidate without its place in the order of the walk. -/
structure Entry where
  provider : Provider
  depth : Nat
  rootIndex : Nat
deriving DecidableEq

/-- The place of an entry. -/
def Entry.place (e : Entry) : Nat ×ₗ Nat :=
  Wiring.place e.depth e.rootIndex

/-- What a candidate is apart from its order. -/
def Candidate.entry (c : Candidate) : Entry :=
  ⟨c.provider, c.rank.depth, c.rank.rootIndex⟩

/-- Numbers entries in their order. -/
def number (entries : List Entry) : List Candidate :=
  entries.mapIdx fun i e => ⟨e.provider, ⟨e.depth, e.rootIndex, i⟩⟩

section Number

variable {entries more : List Entry}

@[simp] theorem length_number (entries : List Entry) : (number entries).length = entries.length := by
  simp [number]

theorem map_entry_number (entries : List Entry) : (number entries).map Candidate.entry = entries := by
  rw [number, SetGraph.map_mapIdx (k := id) (by intros; rfl), List.map_id]

theorem map_order_number (entries : List Entry) :
    (number entries).map (fun c => c.rank.order) = List.range entries.length := by
  refine List.ext_getElem (by simp) fun i _ _ => ?_
  simp [number]

/-- More entries at one place are numbered on. -/
theorem number_append (entries : List Entry) (depth rootIndex : Nat) (providers : List Provider) :
    number (entries ++ providers.map fun p => ⟨p, depth, rootIndex⟩) =
      number entries ++ SetGraph.rankFrom depth rootIndex (number entries).length providers := by
  rw [number, List.mapIdx_append, ← number, SetGraph.rankFrom, length_number]
  congr 1
  refine List.ext_getElem (by simp) fun i _ _ => ?_
  simp [Nat.add_comm]

theorem Rank.le_iff {a b : Rank} : a.le b = true ↔
    place a.depth a.rootIndex < place b.depth b.rootIndex ∨
      a.depth = b.depth ∧ a.rootIndex = b.rootIndex ∧ a.order ≤ b.order := by
  rw [lt_iff_not_ge, place_le_place]
  simp only [Rank.le, Bool.or_eq_true, Bool.and_eq_true, decide_eq_true_eq]
  omega

/-- Numbering sorted entries gives sorted candidates. -/
theorem pairwise_number (h : entries.Pairwise fun a b => a.place ≤ b.place) :
    (number entries).Pairwise fun a b => a.rank.le b.rank = true := by
  rw [List.pairwise_iff_getElem] at h ⊢
  intro i j hi hj hij
  simp only [length_number] at hi hj
  have hle := h i j hi hj hij
  rw [Entry.place, Entry.place, place_le_place] at hle
  rw [Rank.le_iff, lt_iff_not_ge, place_le_place]
  simp only [number, List.getElem_mapIdx]
  omega

/-- Numbered entries have distinct ranks. -/
theorem nodup_rank_number (entries : List Entry) : ((number entries).map Candidate.rank).Nodup := by
  have horders : (((number entries).map Candidate.rank).map Rank.order).Nodup := by
    rw [List.map_map]
    exact (map_order_number entries).symm ▸ List.nodup_range
  exact horders.of_map

end Number

namespace SetGraph

variable {g g' : SetGraph} {items : List SetItem} {asker : String} {met queue rest : List Visit}
  {u v w : Visit} {id next : SetId} {k n : Nat} {s : ProviderSet}

/-! ### Paths of references -/

/-- An entry of a request leads to a set by so many references, of which the first is the entry itself. -/
inductive Leads (g : SetGraph) (items : List SetItem) (k : Nat) : Nat → SetId → Prop
  | entry {id : SetId} (h : items[k]? = some (.reference id)) : Leads g items k 1 id
  | onward {n : Nat} {id next : SetId} (h : Leads g items k n id) (hnext : g.Refers id next) :
      Leads g items k (n + 1) next

/-- The place of a set: its depth is the length of a shortest path to it, and its entry is the first from
which a path is as short. -/
structure Placed (g : SetGraph) (items : List SetItem) (id : SetId) (depth rootIndex : Nat) : Prop where
  leads : g.Leads items rootIndex depth id
  shortest : ∀ k n, g.Leads items k n id → depth ≤ n
  first : ∀ k, g.Leads items k depth id → rootIndex ≤ k

theorem Leads.pos (h : g.Leads items k n id) : 1 ≤ n := by
  cases h <;> omega

/-- The visits that a visit calls for. -/
def onward (g : SetGraph) (v : Visit) : List Visit :=
  (g.references v.id).map fun id => ⟨id, v.depth + 1, v.rootIndex, v.id.text⟩

theorem onward_eq (h : g.get? v.id = some s) : g.onward v = v.onward s := by
  rw [onward, references_of_get? h, Visit.onward]

theorem map_id_called (g : SetGraph) (v : Visit) : (g.onward v).map Visit.id = g.references v.id := by
  rw [onward, List.map_map]
  exact List.map_id' _

theorem mem_onward : u ∈ g.onward v ↔
    g.Refers v.id u.id ∧ u.depth = v.depth + 1 ∧ u.rootIndex = v.rootIndex ∧ u.referencedFrom = v.id.text := by
  rw [onward, List.mem_map]
  constructor
  · rintro ⟨id, hid, rfl⟩
    exact ⟨hid, rfl, rfl, rfl⟩
  · rintro ⟨hid, hdepth, hroot, hfrom⟩
    exact ⟨u.id, hid, by cases u; simp_all⟩

theorem place_of_mem_onward (h : u ∈ g.onward v) : u.place = Wiring.place (v.depth + 1) v.rootIndex := by
  obtain ⟨-, hdepth, hroot, -⟩ := mem_onward.1 h
  rw [Visit.place, hdepth, hroot]

theorem mem_rootVisits : u ∈ rootVisits items asker ↔
    items[u.rootIndex]? = some (.reference u.id) ∧ u.depth = 1 ∧ u.referencedFrom = asker := by
  rw [rootVisits, List.mem_filterMap]
  constructor
  · rintro ⟨⟨item, i⟩, hmem, hu⟩
    have hitem := List.mem_zipIdx_iff_getElem?.1 hmem
    cases item with
    | provider p => cases hu
    | reference id =>
        cases hu
        exact ⟨hitem, rfl, rfl⟩
  · rintro ⟨hitem, hdepth, hfrom⟩
    refine ⟨(.reference u.id, u.rootIndex), List.mem_zipIdx_iff_getElem?.2 hitem, ?_⟩
    cases u
    simp_all [SetItem.reference?]

/-- Who refers to a set directly: the asker, if the set is an entry of the request, or a set within reach. -/
inductive ReferredFrom (g : SetGraph) (items : List SetItem) (asker : String) (id : SetId) : String → Prop
  | entry (h : .reference id ∈ items) : ReferredFrom g items asker id asker
  | set {user : SetId} (hreach : Reachable g.references (items.filterMap SetItem.reference?) user)
      (h : g.Refers user id) : ReferredFrom g items asker id user.text

/-! ### What is listed -/

/-- The entries of the providers that a request lists itself. -/
def ownEntries (items : List SetItem) : List Entry :=
  items.zipIdx.filterMap fun (item, k) => item.provider?.map fun p => ⟨p, 0, k⟩

/-- The entries of the providers of a visited set. -/
def entriesOf (g : SetGraph) (v : Visit) : List Entry :=
  (g.providersOf v.id).map fun p => ⟨p, v.depth, v.rootIndex⟩

theorem number_ownEntries (items : List SetItem) : number (ownEntries items) = rootCandidates items := by
  have hsplit : ownEntries items = (items.zipIdx.filterMap fun (item, k) =>
      item.provider?.map fun p => (p, k)).map fun e => ⟨e.1, 0, e.2⟩ := by
    rw [ownEntries, List.map_filterMap]
    refine List.filterMap_congr fun e _ => ?_
    obtain ⟨item, k⟩ := e
    cases item <;> rfl
  rw [hsplit, rootCandidates]
  refine List.ext_getElem (by simp) fun i _ _ => ?_
  simp [number]

/-- Positions increase along a list. -/
theorem pairwise_zipIdx {α : Type} (l : List α) : l.zipIdx.Pairwise fun a b => a.2 ≤ b.2 := by
  have hpositions : (l.zipIdx.map Prod.snd).Pairwise (· ≤ ·) := by
    rw [List.zipIdx_map_snd]
    exact List.pairwise_le_range'
  exact List.pairwise_map.1 hpositions

theorem pairwise_ownEntries (items : List SetItem) :
    (ownEntries items).Pairwise fun a b => a.place ≤ b.place := by
  refine (pairwise_zipIdx items).filterMap _ ?_
  rintro ⟨item, k⟩ ⟨item', k'⟩ hle a ha b hb
  cases item with
  | reference id => cases ha
  | provider p =>
      cases item' with
      | reference id => cases hb
      | provider q =>
          cases ha
          cases hb
          exact place_le_place.2 (Or.inr ⟨rfl, hle⟩)

theorem depth_of_mem_ownEntries {e : Entry} (h : e ∈ ownEntries items) : e.depth = 0 := by
  obtain ⟨⟨item, k⟩, -, he⟩ := List.mem_filterMap.1 h
  cases item <;> cases he
  rfl

theorem pairwise_rootVisits (items : List SetItem) (asker : String) :
    (rootVisits items asker).Pairwise fun u v => u.place ≤ v.place := by
  refine (pairwise_zipIdx items).filterMap _ ?_
  rintro ⟨item, k⟩ ⟨item', k'⟩ hle u hu v hv
  cases item with
  | provider p => cases hu
  | reference id =>
      cases item' with
      | provider p => cases hv
      | reference id' =>
          cases hu
          cases hv
          exact place_le_place.2 (Or.inr ⟨rfl, hle⟩)

/-! ### The invariant -/

/-- A walk under way.  `met` holds the visits at which a set was met, in order.  The visits come along paths
of references and are sorted, up to the end of the queue, which is never more than one reference ahead.
Whatever has been called for is in the queue or has been met by a visit that comes no later, and each set has
been met in its place. -/
structure Walking (g : SetGraph) (items : List SetItem) (asker : String) (met queue : List Visit) : Prop where
  search : Searching g.references (items.filterMap SetItem.reference?) (met.map Visit.id)
    (queue.map Visit.id)
  kept : ∀ v ∈ met, ∃ s, g.get? v.id = some s
  led : ∀ v ∈ met ++ queue, g.Leads items v.rootIndex v.depth v.id
  named : ∀ v ∈ queue, g.ReferredFrom items asker v.id v.referencedFrom
  sorted : (met ++ queue).Pairwise fun u v => u.place ≤ v.place
  near : ∀ v ∈ queue.head?, ∀ u ∈ queue, u.place ≤ Wiring.place (v.depth + 1) v.rootIndex
  covered : ∀ u ∈ rootVisits items asker ++ met.flatMap g.onward,
    u ∈ queue ∨ ∃ m ∈ met, m.id = u.id ∧ m.place ≤ u.place
  least : ∀ m ∈ met, ∀ k n, g.Leads items k n m.id → m.place ≤ Wiring.place n k

namespace Walking

theorem start (g : SetGraph) (items : List SetItem) (asker : String) :
    g.Walking items asker [] (rootVisits items asker) where
  search := g.searching_rootVisits items asker
  kept := nofun
  led := by
    intro v hv
    obtain ⟨hitem, hdepth, -⟩ := mem_rootVisits.1 hv
    exact hdepth ▸ .entry hitem
  named := by
    intro v hv
    obtain ⟨hitem, -, hfrom⟩ := mem_rootVisits.1 hv
    exact hfrom ▸ .entry (List.mem_of_getElem? hitem)
  sorted := pairwise_rootVisits items asker
  near := by
    intro v hv u hu
    have hdepth := (mem_rootVisits.1 (List.mem_of_mem_head? hv)).2.1
    have hdepth' := (mem_rootVisits.1 hu).2.1
    refine place_le_place.2 (Or.inl ?_)
    omega
  covered := fun u hu => Or.inl (by simpa using hu)
  least := nofun

/-- What has been met comes no later than the next visit, and what stands behind it no earlier. -/
theorem around (h : g.Walking items asker met (v :: rest)) :
    (∀ m ∈ met, m.place ≤ v.place) ∧ ∀ u ∈ rest, v.place ≤ u.place := by
  obtain ⟨-, hqueue, hcross⟩ := List.pairwise_append.1 h.sorted
  exact ⟨fun m hm => hcross m hm v List.mem_cons_self, (List.pairwise_cons.1 hqueue).1⟩

/-- A visit to a set that has been met is dropped. -/
theorem skip (h : g.Walking items asker met (v :: rest)) (hmet : v.id ∈ met.map Visit.id) :
    g.Walking items asker met rest where
  search := h.search.skip hmet
  kept := h.kept
  led := fun u hu => h.led u (by
    rw [List.mem_append] at hu ⊢
    exact hu.imp_right (List.mem_cons_of_mem v))
  named := fun u hu => h.named u (List.mem_cons_of_mem v hu)
  sorted := h.sorted.sublist ((List.sublist_cons_self v rest).append_left met)
  near := by
    intro w hw u hu
    have hle := h.around.2 w (List.mem_of_mem_head? hw)
    exact (h.near v rfl u (List.mem_cons_of_mem v hu)).trans (place_succ_le_succ hle)
  covered := by
    intro u hu
    rcases h.covered u hu with hqueue | hmet'
    · rcases List.mem_cons.1 hqueue with rfl | hrest
      · obtain ⟨m, hm, hid⟩ := List.mem_map.1 hmet
        exact Or.inr ⟨m, hm, hid, h.around.1 m hm⟩
      · exact Or.inl hrest
    · exact Or.inr hmet'
  least := h.least

/-- Whatever a path leads to has been met no later than the path would, or the queue holds a visit that comes
no later. -/
theorem reaches (h : g.Walking items asker met queue) (hled : g.Leads items k n id) :
    (∃ m ∈ met, m.id = id ∧ m.place ≤ Wiring.place n k) ∨ ∃ u ∈ queue, u.place ≤ Wiring.place n k := by
  induction hled with
  | @entry id hitem =>
      have hroot : (⟨id, 1, k, asker⟩ : Visit) ∈ rootVisits items asker := mem_rootVisits.2 ⟨hitem, rfl, rfl⟩
      rcases h.covered _ (List.mem_append_left _ hroot) with hqueue | hmet
      · exact Or.inr ⟨_, hqueue, le_rfl⟩
      · exact Or.inl hmet
  | @onward n id next _ hnext ih =>
      rcases ih with ⟨m, hm, rfl, hle⟩ | ⟨u, hu, hle⟩
      · -- the set before was met, and so it has called for this one
        have hcalled : (⟨next, m.depth + 1, m.rootIndex, m.id.text⟩ : Visit) ∈ g.onward m :=
          mem_onward.2 ⟨hnext, rfl, rfl, rfl⟩
        have hplace := place_succ_le_succ hle
        rcases h.covered _ (List.mem_append_right _ (List.mem_flatMap.2 ⟨m, hm, hcalled⟩)) with
          hqueue | ⟨m', hm', hid, hle'⟩
        · exact Or.inr ⟨_, hqueue, hplace⟩
        · exact Or.inl ⟨m', hm', hid, hle'.trans hplace⟩
      · exact Or.inr ⟨u, hu, hle.trans (place_le_succ n k)⟩

/-- The first visit to a set comes no later than any path to it. -/
theorem least_next (h : g.Walking items asker met (v :: rest)) (hnew : v.id ∉ met.map Visit.id)
    (hled : g.Leads items k n v.id) : v.place ≤ Wiring.place n k := by
  rcases h.reaches hled with ⟨m, hm, hid, -⟩ | ⟨u, hu, hle⟩
  · exact absurd (List.mem_map.2 ⟨m, hm, hid⟩) hnew
  · rcases List.mem_cons.1 hu with rfl | hu
    · exact hle
    · exact (h.around.2 u hu).trans hle

/-- A set that has not been met is met, and the visits that it calls for are put at the end. -/
theorem meet (h : g.Walking items asker met (v :: rest)) (hnew : v.id ∉ met.map Visit.id)
    (hs : g.get? v.id = some s) : g.Walking items asker (met ++ [v]) (rest ++ g.onward v) where
  search := by
    have hmeet := h.search.meet hnew
    rwa [List.map_append, List.map_singleton, List.map_append, map_id_called]
  kept := by
    intro u hu
    rcases List.mem_append.1 hu with hu | hu
    · exact h.kept u hu
    · exact ⟨s, List.mem_singleton.1 hu ▸ hs⟩
  led := by
    intro u hu
    rw [List.append_assoc, List.singleton_append, ← List.cons_append, ← List.append_assoc,
      List.mem_append] at hu
    rcases hu with hu | hu
    · exact h.led u hu
    · obtain ⟨hrefers, hdepth, hroot, -⟩ := mem_onward.1 hu
      rw [hdepth, hroot]
      exact .onward (h.led v (by simp)) hrefers
  named := by
    intro u hu
    rcases List.mem_append.1 hu with hu | hu
    · exact h.named u (List.mem_cons_of_mem v hu)
    · obtain ⟨hrefers, -, -, hfrom⟩ := mem_onward.1 hu
      exact hfrom ▸ .set (h.search.reached_queue (by simp)) hrefers
  sorted := by
    rw [List.append_assoc, List.singleton_append, ← List.cons_append, ← List.append_assoc,
      List.pairwise_append]
    refine ⟨h.sorted, ?_, ?_⟩
    · refine List.Pairwise.imp_of_mem ?_ (List.pairwise_of_forall (R := fun _ _ => True) (by simp))
      intro a b ha hb _
      rw [place_of_mem_onward ha, place_of_mem_onward hb]
    · intro a ha b hb
      rw [place_of_mem_onward hb]
      rcases List.mem_append.1 ha with ha | ha
      · exact (h.around.1 a ha).trans (place_le_succ _ _)
      · exact h.near v rfl a ha
  near := by
    intro w hw u hu
    have hle : v.place ≤ w.place := by
      rcases List.mem_append.1 (List.mem_of_mem_head? hw) with hw | hw
      · exact h.around.2 w hw
      · rw [place_of_mem_onward hw]
        exact place_le_succ _ _
    have hnear : u.place ≤ Wiring.place (v.depth + 1) v.rootIndex := by
      rcases List.mem_append.1 hu with hu | hu
      · exact h.near v rfl u (List.mem_cons_of_mem v hu)
      · rw [place_of_mem_onward hu]
    exact hnear.trans (place_succ_le_succ hle)
  covered := by
    intro u hu
    rw [List.flatMap_append, List.flatMap_singleton, ← List.append_assoc] at hu
    rcases List.mem_append.1 hu with hu | hu
    · rcases h.covered u hu with hqueue | ⟨m, hm, hid, hle⟩
      · rcases List.mem_cons.1 hqueue with rfl | hrest
        · exact Or.inr ⟨u, by simp, rfl, le_rfl⟩
        · exact Or.inl (List.mem_append_left _ hrest)
      · exact Or.inr ⟨m, List.mem_append_left _ hm, hid, hle⟩
    · exact Or.inl (List.mem_append_right _ hu)
  least := by
    intro m hm k n hled
    rcases List.mem_append.1 hm with hm | hm
    · exact h.least m hm k n hled
    · obtain rfl := List.mem_singleton.1 hm
      exact h.least_next hnew hled

/-- Each set has been met in its place. -/
theorem placed (h : g.Walking items asker met queue) (hv : v ∈ met) :
    g.Placed items v.id v.depth v.rootIndex where
  leads := h.led v (List.mem_append_left _ hv)
  shortest := by
    intro k n hled
    have hle := place_le_place.1 (h.least v hv k n hled)
    omega
  first := by
    intro k hled
    have hle := place_le_place.1 (h.least v hv k _ hled)
    omega

end Walking

/-! ### The walk -/

/-- What is listed when some sets have been met. -/
def entriesBy (g : SetGraph) (items : List SetItem) (met : List Visit) : List Entry :=
  ownEntries items ++ met.flatMap g.entriesOf

/-- Meeting a set numbers its providers on. -/
theorem number_entriesBy_concat (hs : g.get? v.id = some s) :
    number (g.entriesBy items (met ++ [v])) =
      number (g.entriesBy items met) ++
        rankFrom v.depth v.rootIndex (number (g.entriesBy items met)).length s.providers := by
  rw [entriesBy, List.flatMap_append, List.flatMap_singleton, ← List.append_assoc, ← entriesBy,
    entriesOf, providersOf_of_get? hs, number_append]

/-- **What a walk comes to.**  It meets everything within reach and ranks it, or it breaks off before a set
that was never added. -/
theorem walk_cases (h : g.Walking items asker met queue) :
    (∃ all, g.Walking items asker all [] ∧
      g.walk (met.map Visit.id).reverse (number (g.entriesBy items met)) queue =
        .ok (number (g.entriesBy items all))) ∨
      ∃ all v rest, g.Walking items asker all (v :: rest) ∧ v.id ∉ all.map Visit.id ∧ g.get? v.id = none ∧
        g.walk (met.map Visit.id).reverse (number (g.entriesBy items met)) queue =
          .error (.unknownSet v.id.text v.referencedFrom) := by
  generalize hdone : (met.map Visit.id).reverse = done
  generalize hranked : number (g.entriesBy items met) = ranked
  induction done, ranked, queue using walk.induct g generalizing met with
  | case1 done ranked =>
      refine Or.inl ⟨met, h, ?_⟩
      rw [walk, hranked]
  | case2 done ranked v rest hmet ih =>
      rw [walk_met hmet]
      exact ih (h.skip (by simpa [← hdone] using hmet)) hdone hranked
  | case3 done ranked v rest hnew habsent =>
      exact Or.inr ⟨met, v, rest, h, by simpa [← hdone] using hnew, habsent, walk_absent hnew habsent⟩
  | case4 done ranked v rest hnew s hs ih =>
      rw [walk_kept hnew hs, ← onward_eq hs]
      have hnext := h.meet (by simpa [← hdone] using hnew) hs
      rw [← onward_eq hs] at ih
      refine ih hnext ?_ ?_
      · rw [← hdone, List.map_append, List.reverse_append]
        rfl
      · rw [number_entriesBy_concat hs, hranked]

/-- The walk of a request. -/
theorem walk_request (g : SetGraph) (items : List SetItem) (asker : String) :
    (∃ all, g.Walking items asker all [] ∧
      g.walk [] (rootCandidates items) (rootVisits items asker) = .ok (number (g.entriesBy items all))) ∨
      ∃ all v rest, g.Walking items asker all (v :: rest) ∧ v.id ∉ all.map Visit.id ∧ g.get? v.id = none ∧
        g.walk [] (rootCandidates items) (rootVisits items asker) =
          .error (.unknownSet v.id.text v.referencedFrom) := by
  have hcases := walk_cases (Walking.start g items asker)
  rwa [entriesBy, List.flatMap_nil, List.append_nil, number_ownEntries] at hcases

/-- The entries of sets that have been met are sorted. -/
theorem Walking.pairwise_entries (h : g.Walking items asker met queue) :
    (g.entriesBy items met).Pairwise fun a b => a.place ≤ b.place := by
  rw [entriesBy, List.pairwise_append]
  refine ⟨pairwise_ownEntries items, List.pairwise_flatMap.2 ⟨?_, ?_⟩, ?_⟩
  · intro v _
    refine List.pairwise_map.2 (List.pairwise_of_forall fun _ _ => le_rfl)
  · refine (List.pairwise_append.1 h.sorted).1.imp ?_
    intro u v hle a ha b hb
    obtain ⟨p, -, rfl⟩ := List.mem_map.1 ha
    obtain ⟨q, -, rfl⟩ := List.mem_map.1 hb
    exact hle
  · -- what is listed directly has depth zero, and a set has at least one
    intro a ha b hb
    obtain ⟨v, hv, hb⟩ := List.mem_flatMap.1 hb
    obtain ⟨q, -, rfl⟩ := List.mem_map.1 hb
    have hpos := (h.led v (List.mem_append_left _ hv)).pos
    have hzero := depth_of_mem_ownEntries ha
    refine place_le_place.2 (Or.inl ?_)
    dsimp only
    omega

/-! ### Flattening -/

/-- The precedence of what a request can draw from.  The candidates are the providers that the request lists
and those of each set within reach, once; the depth and the entry of each are those of its place; and the
candidates stand in the order of their ranks, which are distinct and numbered through. -/
structure Ranks (g : SetGraph) (items : List SetItem) (visits : List Visit) (ranked : List Candidate) :
    Prop where
  once : (visits.map Visit.id).Nodup
  reached : ∀ id, id ∈ visits.map Visit.id ↔
    Reachable g.references (items.filterMap SetItem.reference?) id
  placed : ∀ v ∈ visits, g.Placed items v.id v.depth v.rootIndex
  listed : ranked.map Candidate.entry = ownEntries items ++ visits.flatMap g.entriesOf
  numbered : ranked.map (fun c => c.rank.order) = List.range ranked.length
  sorted : ranked.Pairwise fun a b => a.rank.le b.rank = true
  distinct : (ranked.map Candidate.rank).Nodup

/-- A finished walk has ranked what the request can draw from. -/
theorem Walking.ranks (h : g.Walking items asker met []) :
    g.Ranks items met (number (g.entriesBy items met)) where
  once := h.search.nodup
  reached := fun _ => h.search.finish.mem_iff
  placed := fun _ hv => h.placed hv
  listed := map_entry_number _
  numbered := by rw [map_order_number, length_number]
  sorted := pairwise_number h.pairwise_entries
  distinct := nodup_rank_number _

/-- What a walk comes to depends on the sets that are held. -/
theorem walk_congr (hsame : ∀ id, g'.get? id = g.get? id) (done : List SetId) (ranked : List Candidate)
    (queue : List Visit) : g'.walk done ranked queue = g.walk done ranked queue := by
  induction done, ranked, queue using walk.induct g with
  | case1 done ranked => rw [walk, walk]
  | case2 done ranked v rest hmet ih => rw [walk_met hmet, walk_met hmet, ih]
  | case3 done ranked v rest hnew habsent =>
      rw [walk_absent hnew habsent, walk_absent hnew (hsame v.id ▸ habsent)]
  | case4 done ranked v rest hnew s hs ih =>
      rw [walk_kept hnew hs, walk_kept hnew (hsame v.id ▸ hs), ih]

/-- What flattening comes to depends on the sets that are held, as long as they form no circle. -/
theorem flatten_congr (hsame : ∀ id, g'.get? id = g.get? id)
    (hacyclic : ∀ id, ¬ Relation.TransGen g.Refers id id) :
    g'.flatten items asker = g.flatten items asker := by
  have hrefers : g'.Refers = g.Refers := by
    funext id next
    rw [Refers, Refers, references_congr hsame]
  rw [flatten_eq (checkAcyclic_eq_ok_iff.2 hacyclic),
    flatten_eq (checkAcyclic_eq_ok_iff.2 (hrefers ▸ hacyclic)), walk_congr hsame]

/-- A walk that breaks off does so before the first set in breadth-first order that was never added. -/
theorem Walking.first_absent (h : g.Walking items asker met (v :: rest)) (hnew : v.id ∉ met.map Visit.id)
    (habsent : g.get? v.id = none) :
    ∃ order, BreadthFirst g.references (items.filterMap SetItem.reference?) order ∧
      order.find? (fun id => (g.get? id).isNone) = some v.id := by
  have hnodes : ∀ id, ∀ next ∈ g.references id,
      next ∈ items.filterMap SetItem.reference? ++ g.nodes := fun _ _ hnext =>
    List.mem_append_right _ (Refers.target_mem_nodes hnext)
  obtain ⟨more, hmore⟩ := Searching.exists_finish
    (fun root hroot => List.mem_append_left g.nodes hroot) hnodes (h.search.meet hnew)
  refine ⟨_, hmore, ?_⟩
  -- everything that has been met was added
  have hheld : ∀ id ∈ met.map Visit.id, ¬ (g.get? id).isNone = true := by
    intro id hid
    obtain ⟨m, hm, rfl⟩ := List.mem_map.1 hid
    obtain ⟨s, hs⟩ := h.kept m hm
    simp [hs]
  rw [List.find?_append, List.find?_append, List.find?_eq_none.2 hheld]
  simp [habsent]

/-- **Candidates are ranked by true precedence.**  In a graph without circles, if every set within reach was
added, a request is flattened to its own providers and those of each set within reach, ranked by the length of
the shortest path and the first entry from which there is one; what the walk has ranked is in order already.
If a set within reach was never added, the request is refused for the first such set in breadth-first order,
under the name of a direct referrer.  The sets may have been added in any order. -/
theorem flatten_ranks (hacyclic : ∀ id, ¬ Relation.TransGen g.Refers id id) :
    ((∀ id, Reachable g.references (items.filterMap SetItem.reference?) id → ∃ s, g.get? id = some s) →
      ∃ visits ranked, g.Ranks items visits ranked ∧ g.flatten items asker = .ok ranked ∧
        g.walk [] (rootCandidates items) (rootVisits items asker) = .ok ranked) ∧
      ((∃ id, Reachable g.references (items.filterMap SetItem.reference?) id ∧ g.get? id = none) →
        ∃ order id referrer, BreadthFirst g.references (items.filterMap SetItem.reference?) order ∧
          order.find? (fun id => (g.get? id).isNone) = some id ∧
          g.ReferredFrom items asker id referrer ∧
          g.flatten items asker = .error (.unknownSet id.text referrer)) ∧
      ∀ sets, (∀ id, kept? sets id = g.get? id) →
        (ofSets sets).flatten items asker = g.flatten items asker := by
  have hflatten : g.flatten items asker =
      (g.walk [] (rootCandidates items) (rootVisits items asker)).map fun ranked =>
        ranked.mergeSort fun a b => a.rank.le b.rank :=
    flatten_eq (checkAcyclic_eq_ok_iff.2 hacyclic)
  refine ⟨fun hheld => ?_, ?_, fun sets hkept => ?_⟩
  · rcases walk_request g items asker with ⟨visits, hwalking, hwalk⟩ | ⟨_, v, _, hwalking, -, habsent, -⟩
    · have hranks := hwalking.ranks
      refine ⟨visits, _, hranks, ?_, hwalk⟩
      rw [hflatten, hwalk, Except.map, List.mergeSort_of_pairwise hranks.sorted]
    · obtain ⟨s, hs⟩ := hheld v.id (hwalking.search.reached_queue (by simp))
      cases habsent.symm.trans hs
  · rintro ⟨id, hreach, habsent⟩
    rcases walk_request g items asker with ⟨visits, hwalking, -⟩ | ⟨_, v, _, hwalking, hnew, hv, hwalk⟩
    · obtain ⟨m, hm, rfl⟩ := List.mem_map.1 ((hwalking.ranks.reached id).2 hreach)
      obtain ⟨s, hs⟩ := hwalking.kept m hm
      cases habsent.symm.trans hs
    · obtain ⟨order, horder, hfirst⟩ := hwalking.first_absent hnew hv
      refine ⟨order, v.id, v.referencedFrom, horder, hfirst, hwalking.named v List.mem_cons_self, ?_⟩
      rw [hflatten, hwalk]
      rfl
  · exact flatten_congr (fun id => (get?_ofSets sets id).trans (hkept id)) hacyclic

section Larder

/-- Sets of which one is shared: it lies two references below the first entry and one below the second.
Another one refers to a set that was never added. -/
def larder : SetGraph :=
  .ofSets
    [{ id := ⟨"m", "Shared"⟩, items := [.provider { pkg := "m", name := "Boil", output := "Water" }] },
     { id := ⟨"m", "First"⟩
       items := [.reference ⟨"m", "Middle"⟩, .provider { pkg := "m", name := "Bake", output := "Bread" }] },
     { id := ⟨"m", "Middle"⟩, items := [.reference ⟨"m", "Shared"⟩] },
     { id := ⟨"m", "Second"⟩, items := [.reference ⟨"m", "Shared"⟩] },
     { id := ⟨"m", "Torn"⟩, items := [.reference ⟨"m", "Middle"⟩, .reference ⟨"m", "Gone"⟩] }]

/-- A request with both entries and a provider between them. -/
def larderMenu : List SetItem :=
  [.reference ⟨"m", "First"⟩, .provider { pkg := "m", name := "Cook", output := "Meal" },
    .reference ⟨"m", "Second"⟩]

/-- The shared set is ranked below the second entry, and a missing one is named with the set that refers to
it. -/
theorem flatten_ranks_larder :
    (∀ id, ¬ Relation.TransGen larder.Refers id id) ∧
      (∃ visits ranked, larder.Ranks larderMenu visits ranked ∧
        larder.flatten larderMenu "m.Dine" = .ok ranked ∧
        ranked.map (fun c => (c.provider.name, c.rank)) =
          [("Cook", ⟨0, 1, 0⟩), ("Bake", ⟨1, 0, 1⟩), ("Boil", ⟨2, 2, 2⟩)]) ∧
      ∃ order id referrer, BreadthFirst larder.references [⟨"m", "Torn"⟩] order ∧
        order.find? (fun id => (larder.get? id).isNone) = some id ∧ id.text = "m.Gone" ∧
        referrer = "m.Torn" ∧
        larder.flatten [.reference ⟨"m", "Torn"⟩] "m.Dine" = .error (.unknownSet id.text referrer) := by
  have hacyclic : ∀ id, ¬ Relation.TransGen larder.Refers id id :=
    checkAcyclic_eq_ok_iff.1 (by cbv)
  have hheld : ∀ id, Reachable larder.references (larderMenu.filterMap SetItem.reference?) id →
      ∃ s, larder.get? id = some s := by
    intro id hreach
    have hall : ∀ id ∈ ([⟨"m", "First"⟩, ⟨"m", "Second"⟩, ⟨"m", "Middle"⟩, ⟨"m", "Shared"⟩] : List SetId),
        (larder.get? id).isSome = true := by decide
    exact Option.isSome_iff_exists.1 (hall id (hreach.mem_of_closed (by decide) (by decide)))
  have hlacking : ∃ id, Reachable larder.references [⟨"m", "Torn"⟩] id ∧ larder.get? id = none :=
    ⟨⟨"m", "Gone"⟩, (Reachable.root (List.mem_singleton.2 rfl)).step (by decide), by decide⟩
  refine ⟨hacyclic, ?_, ?_⟩
  · obtain ⟨visits, ranked, hranks, hflatten, -⟩ :=
      (@flatten_ranks larder larderMenu "m.Dine" hacyclic).1 hheld
    refine ⟨visits, ranked, hranks, hflatten, ?_⟩
    have hnames : (larder.flatten larderMenu "m.Dine").toOption.map
        (List.map fun c => (c.provider.name, c.rank)) =
        some [("Cook", ⟨0, 1, 0⟩), ("Bake", ⟨1, 0, 1⟩), ("Boil", ⟨2, 2, 2⟩)] := by cbv
    rw [hflatten] at hnames
    exact Option.some_inj.1 hnames
  · obtain ⟨order, id, referrer, horder, hfirst, -, hflatten⟩ :=
      (@flatten_ranks larder [.reference ⟨"m", "Torn"⟩] "m.Dine" hacyclic).2.1 hlacking
    have herror : larder.flatten [.reference ⟨"m", "Torn"⟩] "m.Dine" =
        .error (.unknownSet "m.Gone" "m.Torn") := by cbv
    have hnamed := hflatten.symm.trans herror
    simp only [Except.error.injEq, Failure.unknownSet.injEq] at hnamed
    exact ⟨order, id, referrer, horder, hfirst, hnamed.1, hnamed.2, hflatten⟩

end Larder

end SetGraph

end Wiring
