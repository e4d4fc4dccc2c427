import CopperRoute.Proofs.BoardStores
import CopperRoute.Proofs.DoubleOrder

/-!
# Finding items by their anchors

A search around a point meets anchors, and an item has one or two of them.  It lists each item
once, with the distance of one of its anchors, and puts the nearest item first.

`Finds` says what a search has to list, and a search does so whatever exact tree it asks
(`AnchorIndex.finds_within`): the tree finds the anchors in the circle in an order of its own, and
the hits of an item are merged.

The index of a store is always that of its items, so a store finds what is on the board now,
whatever has been added, replaced and removed since the file was loaded
(`BoardStore.wellKept_editAll`).
-/

namespace CopperRoute

/-- An anchor of an item is at most `radius` away from `p`; squares are compared, in doubles. -/
def Item.Within (i : Item) (p : Point) (radius : Float) (a : Anchor) : Prop :=
  a.owner = i.id ∧ a.point ∈ i.anchors ∧ a.distanceSquared p ≤ radius * radius

/-- **What a search around a point lists**: exactly the items with an anchor in the circle, each
once and in the order of their distances, each of which is that of such an anchor. -/
structure Finds (items : List Item) (p : Point) (radius : Float) (found : List Match) : Prop where
  listed : ∀ id, id ∈ found.map Match.id ↔ ∃ i ∈ items, i.id = id ∧ ∃ a, i.Within p radius a
  once : (found.map Match.id).Nodup
  ordered : found.Pairwise fun m n =>
    totalOrderKey m.distance ≤ totalOrderKey n.distance ∧ ¬ n.distance < m.distance
  measured : ∀ m ∈ found, ∃ i ∈ items, i.id = m.id ∧
    ∃ a, i.Within p radius a ∧ m.distance = (a.distanceSquared p).sqrt

/-- The anchors that are listed are those of the items. -/
theorem Anchor.mem_ofItems {items : List Item} {a : Anchor} :
    a ∈ ofItems items ↔ ∃ i ∈ items, a.owner = i.id ∧ a.point ∈ i.anchors := by
  cases a
  simp only [ofItems, List.mem_flatMap, List.mem_map, mk.injEq]
  grind

namespace AnchorIndex

/-- A hit of an item that is listed lists no item: it replaces the hit before, or is dropped. -/
theorem map_id_merge (found : List Match) (m : Match) :
    (merge found m).map Match.id =
      if m.id ∈ found.map Match.id then found.map Match.id else found.map Match.id ++ [m.id] := by
  unfold merge
  cases hfound : Keyed.find? Match.id m.id found with
  | some before =>
      have hid : before.id = m.id := by simpa using List.find?_some hfound
      have hlisted : m.id ∈ found.map Match.id :=
        hid ▸ List.mem_map_of_mem (List.mem_of_find?_eq_some hfound)
      simp only [if_pos hlisted]
      split
      · rw [Keyed.map_key_put, if_pos hlisted]
      · rfl
  | none =>
      have hnew : m.id ∉ found.map Match.id := by
        simpa [Keyed.find?] using hfound
      simp only [if_neg hnew, List.map_append]
      rfl

/-- What is listed after one more hit is that hit, or was listed before. -/
theorem mem_of_mem_merge {found : List Match} {m n : Match} (h : n ∈ merge found m) :
    n = m ∨ n ∈ found := by
  unfold merge at h
  split at h
  · split at h
    · exact Keyed.mem_put h
    · exact .inr h
  · simpa [or_comm] using h

/-- **Merged hits** list the items of all hits, each once. -/
theorem foldl_merge (hits : List Match) :
    ((hits.foldl merge []).map Match.id).Nodup ∧
      (∀ id, id ∈ (hits.foldl merge []).map Match.id ↔ id ∈ hits.map Match.id) ∧
      ∀ m ∈ hits.foldl merge [], m ∈ hits := by
  induction hits using List.reverseRecOn with
  | nil => simp
  | append_singleton hits m ih =>
      obtain ⟨honce, hlisted, hmem⟩ := ih
      rw [List.foldl_append, List.foldl_cons, List.foldl_nil]
      have hids := map_id_merge (hits.foldl merge []) m
      refine ⟨?_, fun id => ?_, fun n hn => ?_⟩
      · rw [hids]
        split
        · exact honce
        · next hnew => exact List.nodup_append.mpr ⟨honce, by simp, by grind⟩
      · rw [hids]
        split
        · next hold => grind
        · grind
      · rcases mem_of_mem_merge hn with rfl | hold
        · exact List.mem_append_right _ List.mem_cons_self
        · exact List.mem_append_left _ (hmem n hold)

/-- Sorted by their distances, nearer hits come first: by the order of keys, which is that of
numbers. -/
theorem pairwise_distance (found : List Match) :
    (found.mergeSort fun m n => totalOrderKey m.distance ≤ totalOrderKey n.distance).Pairwise
      fun m n => totalOrderKey m.distance ≤ totalOrderKey n.distance ∧
        ¬ n.distance < m.distance := by
  have hsorted : (found.mergeSort fun m n =>
      totalOrderKey m.distance ≤ totalOrderKey n.distance).Pairwise fun m n =>
        decide (totalOrderKey m.distance ≤ totalOrderKey n.distance) := by
    refine List.pairwise_mergeSort (fun a b c hab hbc => ?_) (fun a b => ?_) _
    · simp only [decide_eq_true_eq] at hab hbc ⊢
      exact Int.le_trans hab hbc
    · simp only [Bool.or_eq_true, decide_eq_true_eq]
      exact Int.le_total _ _
  refine hsorted.imp fun h => ?_
  have hkeys := of_decide_eq_true h
  exact ⟨hkeys, Double.not_lt_of_totalOrderKey_le hkeys⟩

/-- **Merged and sorted hits** are what a search has to list, when the hits are the anchors in the
circle. -/
theorem finds_of_hits {items : List Item} {p : Point} {radius : Float} {hits : List Match}
    (hhits : ∀ m, m ∈ hits ↔ ∃ a ∈ Anchor.ofItems items, a.distanceSquared p ≤ radius * radius ∧
      m = ⟨a.owner, (a.distanceSquared p).sqrt⟩) :
    Finds items p radius ((hits.foldl merge []).mergeSort fun m n =>
      totalOrderKey m.distance ≤ totalOrderKey n.distance) := by
  obtain ⟨honce, hlisted, hmem⟩ := foldl_merge hits
  have hperm := List.mergeSort_perm (hits.foldl merge []) fun m n : Match =>
    decide (totalOrderKey m.distance ≤ totalOrderKey n.distance)
  refine ⟨fun id => ?_, (hperm.map Match.id).nodup_iff.mpr honce, pairwise_distance _,
    fun m hm => ?_⟩
  · rw [(hperm.map Match.id).mem_iff, hlisted, List.mem_map]
    simp only [hhits, Anchor.mem_ofItems, Item.Within]
    grind
  · obtain ⟨a, ha, hnear, rfl⟩ := (hhits m).mp (hmem m (hperm.mem_iff.mp hm))
    obtain ⟨i, hi, howner, hpoint⟩ := Anchor.mem_ofItems.mp ha
    exact ⟨i, hi, howner.symm, a, ⟨howner, hpoint, hnear⟩, rfl⟩

end AnchorIndex

namespace TreeSearch

/-- A scan finds the entries whose points are within the bound, with their distances. -/
theorem mem_scan {points : List Point} {p : Point} {bound : Float} {hit : TreeHit} :
    hit ∈ scan points p bound ↔ ∃ q, points[hit.entry]? = some q ∧
      Anchor.distanceSquared ⟨0, q⟩ p ≤ bound ∧
      hit.squared = Anchor.distanceSquared ⟨0, q⟩ p := by
  cases hit
  simp only [scan, List.mem_filterMap, Prod.exists, List.mem_zipIdx_iff_getElem?]
  grind

/-- Sorting what a scan finds loses nothing. -/
theorem exact_nearestFirst : nearestFirst.Exact := fun _ _ _ => List.mergeSort_perm _ _

/-- What an exact tree finds in an index of items: their anchors in the circle. -/
theorem Exact.mem_hits {search : TreeSearch} (hexact : search.Exact) (items : List Item)
    (p : Point) (bound : Float) (m : Match) :
    (m ∈ (search (AnchorIndex.ofItems items).points p bound).filterMap
        (AnchorIndex.ofItems items).match?) ↔
      ∃ a ∈ Anchor.ofItems items, a.distanceSquared p ≤ bound ∧
        m = ⟨a.owner, (a.distanceSquared p).sqrt⟩ := by
  rw [((hexact _ p bound).filterMap _).mem_iff, List.mem_filterMap]
  simp only [mem_scan, AnchorIndex.ofItems, AnchorIndex.match?, List.getElem?_map,
    Option.map_eq_some_iff]
  constructor
  · rintro ⟨hit, ⟨_, ⟨a, ha, rfl⟩, hnear, hsquared⟩, _, ⟨a', ha', rfl⟩, rfl⟩
    cases ha.symm.trans ha'
    exact ⟨a, List.mem_of_getElem? ha, hnear, by rw [hsquared]; rfl⟩
  · rintro ⟨a, ha, hnear, rfl⟩
    obtain ⟨entry, hentry⟩ := List.mem_iff_getElem?.mp ha
    exact ⟨⟨entry, a.distanceSquared p⟩, ⟨a.point, ⟨a, hentry, rfl⟩, hnear, rfl⟩, a.owner,
      ⟨a, hentry, rfl⟩, rfl⟩

end TreeSearch

/-- **The index of the items finds them**, around every point and for every radius without a
negative sign, whatever exact tree it asks. -/
theorem AnchorIndex.finds_within {search : TreeSearch} (hexact : search.Exact) (items : List Item)
    (p : Point) {radius : Float} (hradius : radius.toBits.toNat < signBit) :
    Finds items p radius ((ofItems items).within search p radius) := by
  unfold within
  split
  · next hnothing =>
      -- no anchors at all: nothing has to be listed
      have hnone : Anchor.ofItems items = [] := by
        simpa [ofItems, Nat.not_le_of_lt hradius] using hnothing
      have hempty : ∀ m : Match, m ∈ [] ↔ ∃ a ∈ Anchor.ofItems items,
          a.distanceSquared p ≤ radius * radius ∧ m = ⟨a.owner, (a.distanceSquared p).sqrt⟩ := by
        simp [hnone]
      simpa using finds_of_hits hempty
  · exact finds_of_hits (hexact.mem_hits items p (radius * radius))

namespace BoardStore

/-- **A store at any time** after it was loaded as `first`. -/
structure WellKept (first s : BoardStore) : Prop where
  /-- Every item is under its own identifier, and every footprint. -/
  keys : (∀ e ∈ s.items, e.1 = e.2.id) ∧ ∀ e ∈ s.footprints, e.1 = e.2.id
  index : s.index = AnchorIndex.ofItems s.board.items
  unique : (s.items.map Prod.fst).Nodup
  below : ∀ e ∈ s.items, e.1 < s.nextId
  /-- What was loaded is left in its order, and behind it stands what was added since. -/
  order : first.board.Follows s.board
  /-- A new item comes last, and no item is under its identifier yet. -/
  add : ∀ d s' id, s.add d = .ok (s', id) → id = s.nextId ∧ s.board.item? id = none ∧
    s'.items = s.items ++ [(id, d.withId id)]
  /-- An item is replaced where it is, and the others close up when one is removed. -/
  edit : ∀ e s', s.edit e = .ok s' → s'.board.items = e.rewrite s.nextId s.board.items
  /-- A search of the index or of the board finds what is there now, whatever tree it asks. -/
  finds : ∀ search : TreeSearch, search.Exact → ∀ p radius, radius.toBits.toNat < signBit →
    Finds s.board.items p radius (s.near search p radius) ∧
      Finds s.board.items p radius (s.board.near search p radius)

/-- The store of a numbered board is well kept. -/
theorem wellKept_store {b₀ b : Board} (hb : b.Numbered) (hfollows : b₀.Follows b) :
    b₀.store.WellKept b.store where
  keys := by simp [Board.store]
  index := by rw [Board.board_store]; rfl
  unique := by
    have hids : b.store.items.map Prod.fst = b.items.map Item.id := by
      simp [Board.store, Function.comp_def]
    exact hids ▸ hb.unique
  below := by
    have hbelow := hb.below
    simpa [Board.store] using hbelow
  order := by rwa [Board.board_store, Board.board_store]
  add d s' id h := by
    rw [Board.store_add] at h
    obtain ⟨⟨b', id'⟩, hadd, h⟩ := Checked.map_eq_ok.mp h
    obtain rfl := Board.id_of_add hadd
    obtain ⟨_, _, rfl⟩ := hb.add hadd
    cases h
    refine ⟨rfl, ?_, by simp [Board.store]; rfl⟩
    rw [Board.board_store, ← Option.not_isSome_iff_eq_none, Board.item?_isSome_iff]
    exact fun hold => UInt64.lt_irrefl _ (hb.below _ hold)
  edit e s' h := by
    rw [Board.store_edit] at h
    obtain ⟨b', hedit, rfl⟩ := Checked.map_eq_ok.mp h
    rw [Board.board_store, Board.board_store]
    exact (hb.edit hedit).2.1
  finds search hexact p radius hradius := by
    rw [Board.board_store]
    have hfinds := AnchorIndex.finds_within hexact b.items p hradius
    exact ⟨hfinds, hfinds⟩

/-- **Whatever file is loaded and however it is changed**, the board is well kept: its store is that
of the board that the changes lead to, and its items stand in the order in which their
identifiers first came in the file, each as it was given last. -/
theorem wellKept_editAll {f : BoardFile} {s₀ s : BoardStore} {es : List BoardEdit}
    (hload : ofFile f = .ok s₀) (hrun : s₀.editAll es = .ok s) :
    Board.ofFile f = .ok s₀.board ∧ s₀.board.editAll es = .ok s.board ∧ s₀.WellKept s ∧
      s₀.items.map Prod.fst = (f.items.map Item.id).eraseDups ∧
      ∀ id, s₀.board.item? id = f.items.reverse.find? fun i => i.id = id := by
  rw [ofFile_eq] at hload
  obtain ⟨b₀, hfile, rfl⟩ := Checked.map_eq_ok.mp hload
  rw [Board.store_editAll] at hrun
  obtain ⟨b, hedits, rfl⟩ := Checked.map_eq_ok.mp hrun
  obtain ⟨hb, hfollows, _⟩ := (Board.numbered_ofFile hfile).editAll hedits
  have hitems := Board.items_ofFile hfile
  have hids : b₀.store.items.map Prod.fst = b₀.items.map Item.id := by
    simp [Board.store, Function.comp_def]
  rw [Board.board_store, Board.board_store]
  refine ⟨hfile, hedits, wellKept_store hb hfollows, ?_, fun id => ?_⟩
  · rw [hids, hitems, Keyed.map_key_ofList]
  · rw [Board.item?, hitems, Keyed.find?_ofList]

/-- A track of one millimetre. -/
def shortTrack : Draft := .track ⟨.zero, ⟨1000000, 0⟩⟩ 250000 .top 1

/-- A file with three items, whose identifiers do not ascend and of which the first is there
twice. -/
def unorderedFile : BoardFile :=
  { BoardFile.standard with
    items := [shortTrack.withId 9, shortTrack.withId 4, { shortTrack.withId 9 with net := 2 },
      shortTrack.withId 6] }

/-- One item is replaced, one goes and one comes, and a search finds those that are there. -/
theorem wellKept_editAll_unordered :
    ∃ s₀ s : BoardStore, ofFile unorderedFile = .ok s₀ ∧
      s₀.editAll [.replace { shortTrack.withId 4 with locked := true }, .remove 9,
        .add shortTrack] = .ok s ∧
      s₀.items.map Prod.fst = [9, 4, 6] ∧ s.items.map Prod.fst = [4, 6, 10] ∧
      (Board.Follows s₀.board s.board) ∧
      Finds s.board.items .zero 500000.0 (s.near TreeSearch.nearestFirst .zero 500000.0) := by
  obtain ⟨s₀, s, hfile, hedits, hitems⟩ : ∃ s₀ s : BoardStore, ofFile unorderedFile = .ok s₀ ∧
      s₀.editAll [.replace { shortTrack.withId 4 with locked := true }, .remove 9,
        .add shortTrack] = .ok s ∧
      s.items.map Prod.fst = [4, 6, 10] := ⟨_, _, rfl, rfl, rfl⟩
  obtain ⟨_, _, hkept, hids, _⟩ := wellKept_editAll hfile hedits
  refine ⟨s₀, s, hfile, hedits, hids, hitems, hkept.order, ?_⟩
  exact (hkept.finds _ TreeSearch.exact_nearestFirst .zero 500000.0 (by decide)).1

end BoardStore

end CopperRoute
