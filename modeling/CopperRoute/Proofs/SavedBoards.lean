import CopperRoute.Proofs.BoardStores
import CopperRoute.Proofs.Repetitions
import CopperRoute.Proofs.Standstill

/-!
# Boards that are saved and loaded again

What a file does not say about a board is made anew when it is loaded: the index from the items,
and the next identifier from theirs, as the least above all of them.  The index comes out the
same.  The next identifier does not when the newest item is gone: the board had given it away
and gives it no second time, and the loaded board does.

A board that any changes lead to, from an empty one or from a file, both with a stackup of 1 to
32 layers, is **savable** (`Board.Savable`): its file can be loaded, and everything but the next
identifier comes back (`Board.Savable.ofFile_toFile`).  The next identifier comes back exactly
when the newest item is there (`Board.NewestKept`), and always when nothing was removed
(`BoardStore.ofFile_toFile_iff`).
-/

namespace CopperRoute

theorem LayerId.lt_of_le_of_ne {l m : LayerId} (hle : l ≤ m) (hne : l ≠ m) : l < m := by
  refine UInt8.lt_of_le_of_ne hle fun hsame => hne ?_
  cases l
  cases m
  exact congrArg LayerId.mk hsame

/-- Without repetitions, ascending layers ascend strictly. -/
theorem pairwise_eraseDups {layers : List LayerId} (h : layers.Pairwise (· ≤ ·)) :
    layers.eraseDups.Pairwise (· < ·) := by
  have hascend := h.sublist (sublist_eraseDups layers)
  exact (hascend.and (nodup_eraseDups layers)).imp fun hboth =>
    LayerId.lt_of_le_of_ne hboth.1 hboth.2

theorem eraseDups_of_pairwise {layers : List LayerId} (h : layers.Pairwise (· < ·)) :
    layers.eraseDups = layers := by
  induction layers with
  | nil => rfl
  | cons l rest ih =>
      rw [List.pairwise_cons] at h
      have hother : ∀ m ∈ rest, (!m == l) = true := fun m hm => by
        have hlt : l < m := h.1 m hm
        have hne : m ≠ l := fun hsame => UInt8.lt_irrefl _ (hsame ▸ hlt)
        simpa using hne
      rw [List.eraseDups_cons, List.filter_eq_self.mpr hother, ih h.2]

namespace Board

theorem pairwise_sortLayers (layers : List LayerId) :
    (sortLayers layers).Pairwise (· < ·) := by
  refine pairwise_eraseDups ?_
  have hsorted : (layers.mergeSort fun a b => a ≤ b).Pairwise fun a b => decide (a ≤ b) := by
    refine List.pairwise_mergeSort (fun a b c hab hbc => ?_) (fun a b => ?_) layers
    · simp only [decide_eq_true_eq] at hab hbc ⊢
      exact UInt8.le_trans hab hbc
    · simp only [Bool.or_eq_true, decide_eq_true_eq]
      exact UInt8.le_total _ _
  exact hsorted.imp fun h => by simpa using h

/-- Ascending layers are in order. -/
theorem sortLayers_of_pairwise {layers : List LayerId} (h : layers.Pairwise (· < ·)) :
    sortLayers layers = layers := by
  have hle : layers.Pairwise fun a b => decide (a ≤ b) = true :=
    h.imp fun hlt => decide_eq_true (UInt8.le_of_lt hlt)
  rw [sortLayers, List.mergeSort_of_pairwise hle, eraseDups_of_pairwise h]

end Board

/-- The layers of a stackup ascend. -/
theorem Stackup.pairwise_copperLayers (s : Stackup) : s.copperLayers.Pairwise (· < ·) := by
  have hcount := s.copperCount.toNat_lt
  refine List.pairwise_map.mpr (List.pairwise_lt_range.imp_of_mem fun {j k} _ hk hjk => ?_)
  have hsmall := List.mem_range.mp hk
  have hordinal {k : Nat} (hk : k < 256) : (UInt8.ofNat k).toNat = k :=
    UInt8.toNat_ofNat_of_lt' hk
  show UInt8.ofNat j < UInt8.ofNat k
  rw [UInt8.lt_iff_toNat_lt, hordinal (by omega), hordinal (by omega)]
  exact hjk

/-- The least identifier from `next` on that is above all of the items. -/
def nextAbove (next : ItemId) (items : List Item) : ItemId :=
  items.foldl (fun next i => max next (i.id + 1)) next

theorem nextAbove_eq (next : ItemId) (items : List Item) :
    nextAbove next items = next ∨ ∃ i ∈ items, i.id + 1 = nextAbove next items := by
  induction items generalizing next with
  | nil => exact .inl rfl
  | cons i rest ih =>
      rcases ih (max next (i.id + 1)) with hsame | ⟨j, hj, hlast⟩
      · rw [nextAbove, List.foldl_cons, ← nextAbove, hsame, UInt64.max_def]
        split
        · exact .inr ⟨i, List.mem_cons_self, rfl⟩
        · exact .inl rfl
      · exact .inr ⟨j, List.mem_cons_of_mem i hj, hlast⟩

theorem nextAbove_le {next above : ItemId} {items : List Item} (hnext : next ≤ above)
    (habove : ∀ i ∈ items, i.id + 1 ≤ above) : nextAbove next items ≤ above := by
  rcases nextAbove_eq next items with hsame | ⟨i, hi, hlast⟩
  · exact hsame.symm ▸ hnext
  · exact hlast ▸ habove i hi

theorem le_nextAbove (next : ItemId) (items : List Item) :
    next ≤ nextAbove next items ∧ ∀ i ∈ items, i.id + 1 ≤ nextAbove next items := by
  induction items generalizing next with
  | nil => exact ⟨UInt64.le_refl _, by simp⟩
  | cons i rest ih =>
      obtain ⟨hnext, hrest⟩ := ih (max next (i.id + 1))
      have hmax := toNat_max next (i.id + 1)
      simp only [UInt64.le_iff_toNat_le] at hnext hrest ⊢
      refine ⟨by simp only [nextAbove, List.foldl_cons] at hnext ⊢; omega, fun j hj => ?_⟩
      rcases List.mem_cons.mp hj with rfl | hj
      · simp only [nextAbove, List.foldl_cons] at hnext ⊢
        omega
      · exact hrest j hj

namespace Board

variable {b b' : Board}

/-- **The newest item is kept**: no identifier was given yet, or the last one is still there. -/
def NewestKept (b : Board) : Prop := b.nextId = 1 ∨ ∃ i ∈ b.items, i.id + 1 = b.nextId

/-- The identifier after that of an item is not above the next one. -/
theorem Numbered.succ_le (hb : b.Numbered) {i : Item} (hi : i ∈ b.items) :
    i.id.toNat + 1 < UInt64.size ∧ i.id + 1 ≤ b.nextId := by
  have hbelow := UInt64.lt_iff_toNat_lt.mp (hb.below _ (List.mem_map_of_mem hi))
  have hroom : i.id.toNat + 1 < UInt64.size := by
    have := b.nextId.toNat_lt_size
    omega
  refine ⟨hroom, UInt64.le_iff_toNat_le.mpr ?_⟩
  rw [toNat_succ hroom]
  exact hbelow

/-- The next identifier is the least possible one exactly when the newest item is kept. -/
theorem Numbered.nextAbove_eq_iff (hb : b.Numbered) (hstarted : 1 ≤ b.nextId) :
    nextAbove 1 b.items = b.nextId ↔ b.NewestKept := by
  constructor
  · intro hsame
    rcases nextAbove_eq 1 b.items with hone | ⟨i, hi, hlast⟩
    · exact .inl (hsame.symm.trans hone)
    · exact .inr ⟨i, hi, hlast.trans hsame⟩
  · intro hkept
    refine UInt64.le_antisymm (nextAbove_le hstarted fun i hi => (hb.succ_le hi).2) ?_
    rcases hkept with hone | ⟨i, hi, hlast⟩
    · exact hone ▸ (le_nextAbove 1 b.items).1
    · exact hlast ▸ (le_nextAbove 1 b.items).2 i hi

/-- **Items with new identifiers** are all taken over, in their order. -/
theorem foldlM_load {is : List Item} (hids : ((b.items ++ is).map Item.id).Nodup)
    (hroom : ∀ i ∈ is, i.id.toNat + 1 < UInt64.size) :
    is.foldlM load b =
      .ok { b with items := b.items ++ is, nextId := nextAbove b.nextId is } := by
  induction is generalizing b with
  | nil => simp [nextAbove, pure, Except.pure]
  | cons i is ih =>
      have hnew : i.id ∉ b.items.map Item.id := by
        rw [List.map_append, List.nodup_append] at hids
        exact fun hold => hids.2.2 _ hold _ List.mem_cons_self rfl
      have hafter := idAfter_eq_ok.mpr ⟨hroom i List.mem_cons_self, rfl⟩
      have hload : b.load i =
          .ok { b with items := b.items ++ [i], nextId := max b.nextId (i.id + 1) } := by
        simp only [load, hafter, bind, Except.bind, pure, Except.pure, Keyed.put_of_notMem hnew]
      rw [List.append_cons] at hids
      rw [List.foldlM_cons, hload]
      refine (ih hids fun j hj => hroom j (List.mem_cons_of_mem i hj)).trans ?_
      simp [nextAbove]

/-- **A savable board**: what loading a file sets right is right already. -/
structure Savable (b : Board) : Prop where
  numbered : b.Numbered
  started : 1 ≤ b.nextId
  footprints : (b.footprints.map Footprint.id).Nodup
  layered : b.Layered b.stackup
  ascending : b.enabledLayers.Pairwise (· < ·)

/-- **Saving and loading** gives everything back, with the least next identifier. -/
theorem Savable.ofFile_toFile (hb : b.Savable) :
    ofFile b.toFile = .ok { b with nextId := nextAbove 1 b.items } := by
  have hlayers : sortLayers (b.enabledLayers.filter b.stackup.contains) = b.enabledLayers := by
    rw [List.filter_eq_self.mpr hb.layered.enabled, sortLayers_of_pairwise hb.ascending]
  have hfootprints : Keyed.ofList Footprint.id b.footprints = b.footprints :=
    (Keyed.foldl_put_of_nodup hb.footprints).trans (List.nil_append _)
  have hbare : bare b.toFile = { b with items := [], nextId := 1 } := by
    simp only [bare, toFile, hlayers, hfootprints]
  rw [ofFile_eq_load, hbare]
  exact foldlM_load hb.numbered.unique fun i hi => (hb.numbered.succ_le hi).1

/-- Every change of a savable board leaves a savable board. -/
theorem Savable.edit {e : BoardEdit} (hb : b.Savable) (h : b.edit e = .ok b') : b'.Savable := by
  obtain ⟨hnumbered, _, _, hgrows⟩ := hb.numbered.edit h
  have hstarted : 1 ≤ b'.nextId := UInt64.le_trans hb.started hgrows
  cases e with
  | add d =>
      obtain ⟨⟨b₁, id⟩, hadd, h⟩ := Checked.bind_eq_ok.mp h
      cases h
      obtain ⟨_, _, rfl⟩ := hb.numbered.add hadd
      exact ⟨hnumbered, hstarted, hb.footprints, ⟨rfl, hb.layered.enabled⟩, hb.ascending⟩
  | replace i =>
      cases h
      rw [hb.numbered.getD_replace? i] at hnumbered hstarted ⊢
      exact ⟨hnumbered, hstarted, hb.footprints, ⟨rfl, hb.layered.enabled⟩, hb.ascending⟩
  | addFootprint f =>
      cases h
      exact ⟨hnumbered, hstarted, Keyed.nodup_put hb.footprints, ⟨rfl, hb.layered.enabled⟩,
        hb.ascending⟩
  | enableLayers layers =>
      cases h
      refine ⟨hnumbered, hstarted, hb.footprints, ⟨rfl, fun l hl => ?_⟩, pairwise_sortLayers _⟩
      have hkept := List.mem_mergeSort.mp (List.mem_eraseDups.mp hl)
      exact (List.mem_filter.mp hkept).2
  | remove | redesign | reindex =>
      cases h
      exact ⟨hnumbered, hstarted, hb.footprints, ⟨rfl, hb.layered.enabled⟩, hb.ascending⟩

/-- A change that removes nothing keeps the newest item. -/
theorem Numbered.newestKept_edit {e : BoardEdit} (hb : b.Numbered) (hkept : b.NewestKept)
    (hremoves : ∀ id, e ≠ .remove id) (h : b.edit e = .ok b') : b'.NewestKept := by
  obtain ⟨_, hitems, hnext, _⟩ := hb.edit h
  unfold NewestKept at hkept ⊢
  rw [hitems, hnext]
  cases e with
  | add d => exact .inr ⟨d.withId b.nextId, List.mem_append_right _ List.mem_cons_self, rfl⟩
  | replace i =>
      refine hkept.imp_right ?_
      rintro ⟨j, hj, hlast⟩
      refine ⟨_, List.mem_map_of_mem hj, ?_⟩
      have hid : (if j.id = i.id then i else j).id = j.id := by
        split
        · next hsame => exact hsame.symm
        · rfl
      rw [hid]
      exact hlast
  | remove id => exact absurd rfl (hremoves id)
  | addFootprint | enableLayers | redesign | reindex => exact hkept

theorem savable_empty (k : UInt8) (design : Design) :
    (empty (.ofCount k) design).Savable where
  numbered := ⟨List.nodup_nil, by simp [empty]⟩
  started := UInt64.le_refl _
  footprints := List.nodup_nil
  layered := ⟨rfl, fun _ hl => Stackup.contains_of_mem hl⟩
  ascending := Stackup.pairwise_copperLayers _

/-- **A board from a file** is savable, and its next identifier is the least possible one. -/
theorem savable_ofFile {f : BoardFile} {k : UInt8} (hstackup : f.stackup = .ofCount k)
    (h : ofFile f = .ok b) : b.Savable ∧ b.NewestKept := by
  refine ofFile_invariant (P := fun b => b.Savable ∧ b.NewestKept) ?_ ?_ ?_ ?_ h
  · rw [hstackup]
    exact ⟨savable_empty k f.design, .inl rfl⟩
  · intro b layers hb
    exact ⟨hb.1.edit (e := .enableLayers layers) rfl, hb.2⟩
  · intro b f hb
    exact ⟨hb.1.edit (e := .addFootprint f) rfl, hb.2⟩
  · rintro b i b' ⟨hb, hkept⟩ hload
    have hnumbered := hb.numbered.load hload
    obtain ⟨after, hafter, hload⟩ := Checked.bind_eq_ok.mp hload
    obtain ⟨hroom, rfl⟩ := idAfter_eq_ok.mp hafter
    cases hload
    refine ⟨⟨hnumbered, ?_, hb.footprints, ⟨rfl, hb.layered.enabled⟩, hb.ascending⟩, ?_⟩
    · have hstarted := UInt64.le_iff_toNat_le.mp hb.started
      show 1 ≤ max b.nextId (i.id + 1)
      rw [UInt64.le_iff_toNat_le, toNat_max]
      omega
    · show max b.nextId (i.id + 1) = 1 ∨
        ∃ j ∈ Keyed.put Item.id i b.items, j.id + 1 = max b.nextId (i.id + 1)
      rw [UInt64.max_def]
      split
      · exact .inr ⟨i, Keyed.mem_put_self Item.id i b.items, rfl⟩
      · next hlater =>
          refine hkept.imp_right ?_
          rintro ⟨j, hj, hlast⟩
          refine ⟨j, Keyed.mem_put_of_ne hj fun hsame => hlater ?_, hlast⟩
          have hsame : j.id = i.id := hsame
          rw [← hlast, hsame]
          exact UInt64.le_refl _

end Board

namespace BoardStore

/-- **Where a board begins**: empty, or in a file, with a stackup of 1 to 32 layers. -/
inductive Begun : BoardStore → Prop
  | fresh (k : UInt8) (design : Design) : Begun (empty (.ofCount k) design)
  | loaded {f : BoardFile} {k : UInt8} {s : BoardStore} (hstackup : f.stackup = .ofCount k)
      (h : ofFile f = .ok s) : Begun s

/-- A store that begins keeps a savable board, the newest item included. -/
theorem Begun.savable {s : BoardStore} (h : s.Begun) :
    ∃ b : Board, s = b.store ∧ b.Savable ∧ b.NewestKept := by
  cases h with
  | fresh k design =>
      exact ⟨.empty (.ofCount k) design, rfl, Board.savable_empty k design, .inl rfl⟩
  | loaded hstackup h =>
      rw [ofFile_eq] at h
      cases hfile : Board.ofFile _ with
      | error fault => rw [hfile] at h; cases h
      | ok b =>
          rw [hfile] at h
          cases h
          exact ⟨b, rfl, Board.savable_ofFile hstackup hfile⟩

/-- A new item gets the next identifier. -/
theorem map_snd_add (s : BoardStore) (d : Draft) :
    (s.add d).map Prod.snd = (idAfter s.nextId).map fun _ => s.nextId := by
  cases hnext : idAfter s.nextId <;>
    simp only [add, hnext, bind, Except.bind, pure, Except.pure, Except.map]

/-- **Saving and loading** a board that began empty or in a file, and was then changed in any way:
everything comes back but the next identifier, which is never larger.  It is the same exactly
when the newest item is kept, and only then do both boards number the next item alike.  Where
nothing was removed, everything comes back. -/
theorem ofFile_toFile_iff {s₀ s : BoardStore} {es : List BoardEdit} (hbegun : s₀.Begun)
    (hrun : s₀.editAll es = .ok s) :
    ∃ s', ofFile s.toFile = .ok s' ∧ s' = { s with nextId := s'.nextId } ∧
      (∀ search p radius, s'.near search p radius = s.near search p radius ∧
        s'.board.near search p radius = s.board.near search p radius) ∧
      (∀ p layer tolerance, s'.itemAt p layer tolerance = s.itemAt p layer tolerance) ∧
      s'.nextId ≤ s.nextId ∧
      (s' = s ↔ s.board.NewestKept) ∧
      ((∀ d, (s'.add d).map Prod.snd = (s.add d).map Prod.snd) ↔ s.board.NewestKept) ∧
      ((∀ id, BoardEdit.remove id ∉ es) → s' = s) := by
  obtain ⟨b₀, rfl, hsavable₀, hkept₀⟩ := hbegun.savable
  rw [Board.store_editAll] at hrun
  obtain ⟨b, hedits, rfl⟩ := Checked.map_eq_ok.mp hrun
  have hsavable : b.Savable :=
    Board.editAll_invariant (fun e _ _ _ hb h => hb.edit h) hsavable₀ hedits
  have hloaded : ofFile b.store.toFile = .ok { b.store with nextId := nextAbove 1 b.items } := by
    rw [Board.toFile_store, ofFile_eq, hsavable.ofFile_toFile]
    rfl
  have hnext : nextAbove 1 b.items = b.nextId ↔ b.store.board.NewestKept :=
    b.board_store.symm ▸ hsavable.numbered.nextAbove_eq_iff hsavable.started
  have hsame :
      { b.store with nextId := nextAbove 1 b.items } = b.store ↔ b.store.board.NewestKept :=
    ⟨fun h => hnext.mp (congrArg nextId h), fun h => by rw [hnext.mpr h]; rfl⟩
  have hbelow : nextAbove 1 b.items ≤ b.nextId :=
    nextAbove_le hsavable.started fun i hi => (hsavable.numbered.succ_le hi).2
  refine ⟨_, hloaded, rfl, fun _ _ _ => ⟨rfl, rfl⟩, fun _ _ _ => rfl, hbelow, hsame, ?_, ?_⟩
  · refine ⟨fun halike => ?_, fun h d => by rw [hsame.mpr h]⟩
    -- the loaded board has room for one more item unless nothing was lost
    by_contra hlost
    have hless : (nextAbove 1 b.items).toNat < b.nextId.toNat :=
      (UInt64.le_iff_toNat_le.mp hbelow).lt_of_ne fun h =>
        hlost (hnext.mp (UInt64.toNat_inj.mp h))
    have hroom := idAfter_eq_ok.mpr
      ⟨(Nat.succ_le_of_lt hless).trans_lt b.nextId.toNat_lt_size, rfl⟩
    have halike := halike (Draft.track ⟨.zero, .zero⟩ 0 .top 0)
    rw [map_snd_add, map_snd_add, hroom] at halike
    obtain ⟨_, _, hid⟩ := Checked.map_eq_ok.mp halike.symm
    exact hless.ne' (congrArg UInt64.toNat hid)
  · intro hremoves
    refine hsame.mpr ?_
    have hboth := Board.editAll_invariant (P := fun b => b.Numbered ∧ b.NewestKept)
      (fun e he b b' hb h => ⟨(hb.1.edit h).1,
        hb.1.newestKept_edit hb.2 (fun id hid => hremoves id (hid ▸ he)) h⟩)
      ⟨hsavable₀.numbered, hkept₀⟩ hedits
    exact b.board_store.symm ▸ hboth.2

/-- A pad that is part of no footprint. -/
def sparePad : Draft := ⟨.solid .zero 500000, 1, .single .top⟩

/-- A file with two pads, the first of which is there twice. -/
def twoPadsFile : BoardFile :=
  { BoardFile.standard with
    items := [sparePad.withId 7, sparePad.withId 3, { sparePad.withId 7 with net := 2 }] }

/-- Three pads come and go, and the newest one stays: it all comes back. -/
theorem ofFile_toFile_iff_gap :
    ∃ s₀ s : BoardStore, ofFile twoPadsFile = .ok s₀ ∧
      s₀.editAll [.add sparePad, .remove 7, .add sparePad, .remove 8] = .ok s ∧
      s.nextId = 10 ∧ s.board.NewestKept ∧ ofFile s.toFile = .ok s := by
  obtain ⟨s₀, s, hfile, hedits, hnext, hitems⟩ : ∃ s₀ s : BoardStore,
      ofFile twoPadsFile = .ok s₀ ∧
        s₀.editAll [.add sparePad, .remove 7, .add sparePad, .remove 8] = .ok s ∧
        s.nextId = 10 ∧ s.board.items = [sparePad.withId 3, sparePad.withId 9] :=
    ⟨_, _, rfl, rfl, rfl, rfl⟩
  have hkept : s.board.NewestKept := by
    refine .inr ⟨sparePad.withId 9, ?_, hnext.symm⟩
    rw [hitems]
    exact List.mem_cons_of_mem _ List.mem_cons_self
  obtain ⟨s', hload, _, _, _, _, hsame, _⟩ :=
    ofFile_toFile_iff (.loaded (f := twoPadsFile) (k := 2) rfl hfile) hedits
  rw [hsame.mpr hkept] at hload
  exact ⟨s₀, s, hfile, hedits, hnext, hkept, hload⟩

/-- Not so when the newest item is gone: of two pads the second is removed, the next one would
be the third, and on the loaded board it is the second again. -/
theorem not_ofFile_toFile_next :
    ¬ ∀ (s₀ s s' : BoardStore) (es : List BoardEdit), s₀.Begun → s₀.editAll es = .ok s →
      ofFile s.toFile = .ok s' → s'.nextId = s.nextId := by
  intro hall
  have hnext := hall _ _ _ [.add sparePad, .add sparePad, .remove 2] (.fresh 2 .standard) rfl rfl
  exact absurd hnext (by decide)

end BoardStore

end CopperRoute
