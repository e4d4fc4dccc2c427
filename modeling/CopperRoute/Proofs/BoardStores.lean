import CopperRoute.Board.Store
import CopperRoute.Proofs.Numbering
import Mathlib.Data.List.Basic

/-!
# What a store keeps

A store has more to get wrong than a board: its maps could have an item under a key that is not
its own, and its index could be that of items long gone.  Neither happens.  For every board there
is one store that keeps it well (`Board.store`); loading a file leads to it
(`BoardStore.ofFile_eq`), and every change leads from there to the store of the changed board
(`Board.store_editAll`).  So everything about stores is said about boards.

What one change does to the items of a numbered board is `BoardEdit.rewrite`: a new item comes
last, an item is replaced where it is, and the others close up when one is removed
(`Board.Numbered.edit`).  Over many changes the items that were there keep their order, and what
came later stands behind them in the order of identifiers (`Board.Follows`).
-/

namespace CopperRoute

namespace Board

/-- **The store of a board**: every item and footprint is under its own identifier, and the index
is that of the items. -/
def store (b : Board) : BoardStore where
  items := b.items.map fun i => (i.id, i)
  footprints := b.footprints.map fun f => (f.id, f)
  stackup := b.stackup
  enabledLayers := b.enabledLayers
  design := b.design
  index := AnchorIndex.ofItems b.items
  nextId := b.nextId

/-- The store of a board keeps that board. -/
@[simp] theorem board_store (b : Board) : b.store.board = b := by
  simp [store, BoardStore.board, Function.comp_def]

/-- The store of a board is saved as the same file. -/
@[simp] theorem toFile_store (b : Board) : b.store.toFile = b.toFile := by
  simp [store, BoardStore.toFile, toFile, Function.comp_def]

/-- Building the index of other items is all that is left to do when the items change. -/
theorem reindex_eq_store {s : BoardStore} {b : Board}
    (h : { s with index := b.store.index } = b.store) : s.reindex = b.store := by
  have hboard : s.board = b := (congrArg BoardStore.board h).trans b.board_store
  rw [BoardStore.reindex, hboard]
  exact h

/-- An item of the board is found under its identifier. -/
theorem find?_items_store (b : Board) (id : ItemId) :
    Keyed.find? Prod.fst id b.store.items = (b.item? id).map fun i => (i.id, i) :=
  Keyed.find?_map (f := fun i : Item => (i.id, i)) (fun _ => rfl) id b.items

/-- A store puts an item where the board puts it. -/
theorem put_items_store (b : Board) (i : Item) :
    Keyed.put Prod.fst (i.id, i) b.store.items =
      (Keyed.put Item.id i b.items).map fun i => (i.id, i) :=
  Keyed.put_map (f := fun i : Item => (i.id, i)) (fun _ => rfl) i b.items

/-- An item that is found has the identifier that was asked for. -/
theorem id_of_item? {b : Board} {id : ItemId} {i : Item} (h : b.item? id = some i) : i.id = id := by
  simpa using List.find?_some h

/-- A new item gets the next identifier. -/
theorem id_of_add {b b' : Board} {d : Draft} {id : ItemId} (h : b.add d = .ok (b', id)) :
    id = b.nextId := by
  obtain ⟨next, _, h⟩ := Checked.bind_eq_ok.mp h
  cases h
  rfl

/-- **A store adds** what its board adds. -/
theorem store_add (b : Board) (d : Draft) :
    b.store.add d = (b.add d).map fun r => (r.1.store, r.2) := by
  have hput := b.put_items_store (d.withId b.nextId)
  cases hnext : idAfter b.nextId with
  | error fault => simp [BoardStore.add, add, store, hnext, bind, Except.bind, Except.map]
  | ok next =>
      simp only [BoardStore.add, add, show b.store.nextId = b.nextId from rfl, hnext, bind,
        Except.bind, pure, Except.pure, Except.map, Except.ok.injEq, Prod.mk.injEq, and_true]
      refine reindex_eq_store ?_
      simp only [show (b.nextId, d.withId b.nextId) =
        ((d.withId b.nextId).id, d.withId b.nextId) from rfl, hput]
      rfl

/-- **A store replaces** what its board replaces, and says whether it did. -/
theorem store_replace (b : Board) (i : Item) :
    b.store.replace i = (((b.replace? i).getD b).store, (b.replace? i).isSome) := by
  unfold BoardStore.replace replace?
  rw [find?_items_store]
  cases hfound : b.item? i.id with
  | none => simp
  | some j =>
      simp only [Option.map_some, Option.isSome_some, if_true, Option.getD_some, Prod.mk.injEq,
        and_true]
      refine reindex_eq_store ?_
      simp only [id_of_item? hfound, put_items_store]
      rfl

/-- **A store removes** what its board removes, and gives it back. -/
theorem store_remove (b : Board) (id : ItemId) :
    b.store.remove id = ((b.remove id).store, b.item? id) := by
  unfold BoardStore.remove
  rw [find?_items_store]
  cases hfound : b.item? id with
  | none =>
      -- nothing is filtered out
      have hnone : ∀ i ∈ b.items, (i.id != id) = true := by
        simpa [item?, Keyed.find?] using hfound
      simp only [Option.map_none, remove, List.filter_eq_self.mpr hnone]
  | some i =>
      simp only [Option.map_some, Prod.mk.injEq, and_true]
      refine reindex_eq_store ?_
      simp [store, remove, List.filter_map, Function.comp_def]

/-- A store adds footprints as its board does. -/
theorem store_addFootprint (b : Board) (f : Footprint) :
    b.store.addFootprint f = (b.addFootprint f).store := by
  have hkey (g : Footprint) : Prod.fst (g.id, g) = g.id := rfl
  have hput := Keyed.put_map (f := fun g : Footprint => (g.id, g)) hkey f b.footprints
  exact congrArg (fun fs => { b.store with footprints := fs }) hput

/-- **A change of the store is the change of its board.** -/
theorem store_edit (b : Board) (e : BoardEdit) : b.store.edit e = (b.edit e).map store := by
  cases e with
  | add d =>
      simp only [BoardStore.edit, edit, store_add]
      cases b.add d <;> rfl
  | replace i => simp only [BoardStore.edit, edit, store_replace, Except.map]
  | remove id => simp only [BoardStore.edit, edit, store_remove, Except.map]
  | addFootprint f => simp only [BoardStore.edit, edit, store_addFootprint, Except.map]
  | enableLayers layers => rfl
  | redesign design => rfl
  | reindex => exact congrArg Except.ok (reindex_eq_store rfl)

/-- Every store that changes lead to is the store of the board that they lead to. -/
theorem store_editAll (b : Board) (es : List BoardEdit) :
    b.store.editAll es = (b.editAll es).map store := by
  induction es generalizing b with
  | nil => rfl
  | cons e es ih =>
      simp only [BoardStore.editAll, editAll, List.foldlM_cons, store_edit] at ih ⊢
      cases b.edit e with
      | error fault => rfl
      | ok b' => exact ih b'

end Board

namespace BoardStore

/-- While a file is read, the index waits. -/
theorem foldlM_load (is : List Item) (b : Board) (index : AnchorIndex) :
    is.foldlM load { b.store with index := index } =
      (is.foldlM Board.load b).map fun b' => { b'.store with index := index } := by
  induction is generalizing b with
  | nil => rfl
  | cons i is ih =>
      simp only [List.foldlM_cons, load, Board.load]
      cases idAfter i.id with
      | error fault => rfl
      | ok next =>
          simp only [bind, Except.bind, pure, Except.pure] at ih ⊢
          rw [← ih]
          congr 1
          simp only [b.put_items_store]
          rfl

/-- A store adds any number of footprints as its board does. -/
theorem foldl_addFootprint (fs : List Footprint) (b : Board) :
    fs.foldl addFootprint b.store = (fs.foldl Board.addFootprint b).store := by
  induction fs generalizing b with
  | nil => rfl
  | cons f fs ih => rw [List.foldl_cons, List.foldl_cons, b.store_addFootprint, ih]

/-- What is loaded into the store of a board is loaded into the board. -/
theorem reindex_load (fs : List Footprint) (is : List Item) (b : Board) :
    (do return (← is.foldlM load (fs.foldl addFootprint b.store)).reindex) =
      (is.foldlM Board.load (fs.foldl Board.addFootprint b)).map Board.store := by
  have hload := foldlM_load is (fs.foldl Board.addFootprint b)
    (fs.foldl Board.addFootprint b).store.index
  rw [foldl_addFootprint]
  refine (congrArg (fun r : Checked BoardStore => do return (← r).reindex) hload).trans ?_
  cases is.foldlM Board.load (fs.foldl Board.addFootprint b) with
  | error fault => rfl
  | ok b' => exact congrArg Except.ok (Board.reindex_eq_store rfl)

/-- **A file is loaded** into the store of the board that it describes. -/
theorem ofFile_eq (f : BoardFile) : ofFile f = (Board.ofFile f).map Board.store := by
  unfold ofFile Board.ofFile
  cases f.enabledLayers with
  | none => exact reindex_load f.footprints f.items (Board.empty f.stackup f.design)
  | some layers =>
      exact reindex_load f.footprints f.items
        ((Board.empty f.stackup f.design).enableLayers layers)

end BoardStore

namespace BoardEdit

/-- What a change makes of the items when `next` is the next identifier. -/
def rewrite (next : ItemId) (items : List Item) : BoardEdit → List Item
  | add d => items ++ [d.withId next]
  | replace i => items.map fun j => if j.id = i.id then i else j
  | remove id => items.filter fun i => i.id != id
  | _ => items

/-- The next identifier after a change. -/
def advance (next : ItemId) : BoardEdit → ItemId
  | add _ => next + 1
  | _ => next

end BoardEdit

namespace Board

variable {b b' : Board}

/-- The identifiers of the items, in their order. -/
def ids (b : Board) : List ItemId := b.items.map Item.id

/-- Replacing an item that is not there replaces nothing. -/
theorem Numbered.getD_replace? (hb : b.Numbered) (i : Item) :
    (b.replace? i).getD b =
      { b with items := b.items.map fun j => if j.id = i.id then i else j } := by
  unfold replace?
  split
  · next hknown =>
      rw [Option.getD_some, Keyed.put_of_mem hb.unique (item?_isSome_iff.mp hknown)]
  · next hunknown =>
      have hother : ∀ j ∈ b.items, j.id ≠ i.id := fun j hj hsame =>
        hunknown (item?_isSome_iff.mpr (hsame ▸ List.mem_map_of_mem hj))
      have hsame : b.items = b.items.map fun j => if j.id = i.id then i else j :=
        (List.map_id b.items).symm.trans (List.map_congr_left fun j hj => by simp [hother j hj])
      rw [Option.getD_none, ← hsame]

/-- Replacing an item changes no identifier. -/
theorem ids_map_replace (items : List Item) (i : Item) :
    (items.map fun j => if j.id = i.id then i else j).map Item.id = items.map Item.id := by
  rw [List.map_map]
  refine List.map_congr_left fun j _ => ?_
  by_cases hsame : j.id = i.id <;> simp [hsame]

/-- **One change** of a numbered board: what becomes of its items and of its next identifier. -/
theorem Numbered.edit {e : BoardEdit} (hb : b.Numbered) (h : b.edit e = .ok b') :
    b'.Numbered ∧ b'.items = e.rewrite b.nextId b.items ∧ b'.nextId = e.advance b.nextId ∧
      b.nextId ≤ b'.nextId := by
  cases e with
  | add d =>
      obtain ⟨⟨b₁, id⟩, hadd, h⟩ := Checked.bind_eq_ok.mp h
      cases h
      obtain ⟨hb', hroom, rfl⟩ := hb.add hadd
      refine ⟨hb', rfl, rfl, UInt64.le_iff_toNat_le.mpr ?_⟩
      exact (toNat_succ hroom).symm ▸ Nat.le_succ _
  | replace i =>
      cases h
      rw [hb.getD_replace? i]
      exact ⟨hb.of_sublist (ids_map_replace b.items i ▸ List.Sublist.refl _) rfl, rfl, rfl,
        UInt64.le_refl _⟩
  | remove id =>
      cases h
      exact ⟨hb.of_sublist (List.filter_sublist.map _) rfl, rfl, rfl, UInt64.le_refl _⟩
  | addFootprint | enableLayers | redesign | reindex =>
      cases h
      exact ⟨hb.of_sublist (List.Sublist.refl _) rfl, rfl, rfl, UInt64.le_refl _⟩

/-- **Induction over changes.** -/
theorem editAll_invariant {P : Board → Prop} {es : List BoardEdit}
    (hstep : ∀ e ∈ es, ∀ b b', P b → b.edit e = .ok b' → P b') (hb : P b)
    (h : b.editAll es = .ok b') : P b' := by
  induction es generalizing b with
  | nil =>
      cases h
      exact hb
  | cons e es ih =>
      obtain ⟨b₁, hedit, h⟩ := Checked.bind_eq_ok.mp h
      exact ih (fun e he => hstep e (List.mem_cons_of_mem _ he))
        (hstep e List.mem_cons_self b b₁ hb hedit) h

/-- **One board follows another**: of the items that were there some are left, in their
order, and behind them stand newer ones in the order of their identifiers. -/
def Follows (b b' : Board) : Prop :=
  ∃ kept newer, b'.ids = kept ++ newer ∧ kept.Sublist b.ids ∧
    newer.Pairwise (· < ·) ∧ ∀ id ∈ newer, b.nextId ≤ id

theorem Follows.refl (b : Board) : b.Follows b :=
  ⟨b.ids, [], (List.append_nil _).symm, List.Sublist.refl _, List.Pairwise.nil, by simp⟩

/-- A change of a board that follows another leaves one that does. -/
theorem Follows.edit {b₀ : Board} {e : BoardEdit} (h : b₀.Follows b) (hnext : b₀.nextId ≤ b.nextId)
    (hb : b.Numbered) (hedit : b.edit e = .ok b') : b₀.Follows b' := by
  obtain ⟨kept, newer, hids, hkept, hnewer, hsince⟩ := h
  have hitems := (hb.edit hedit).2.1
  unfold ids at hids
  unfold Follows ids
  rw [hitems]
  cases e with
  | add d =>
      have hbelow : ∀ id ∈ newer, id < b.nextId := fun id hid =>
        hb.below id (hids ▸ List.mem_append_right kept hid)
      refine ⟨kept, newer ++ [b.nextId], ?_, hkept, ?_, ?_⟩
      · rw [BoardEdit.rewrite, List.map_append, hids, List.append_assoc]
        rfl
      · exact List.pairwise_append.mpr ⟨hnewer, List.pairwise_singleton _ _, by simpa using hbelow⟩
      · simpa [or_imp, forall_and] using ⟨hsince, hnext⟩
  | replace i =>
      exact ⟨kept, newer, (ids_map_replace b.items i).trans hids, hkept, hnewer, hsince⟩
  | remove id =>
      refine ⟨kept.filter (· != id), newer.filter (· != id), ?_, List.filter_sublist.trans hkept,
        hnewer.sublist List.filter_sublist, fun j hj => hsince j (List.mem_filter.mp hj).1⟩
      rw [← List.filter_append, ← hids, List.filter_map]
      rfl
  | addFootprint | enableLayers | redesign | reindex =>
      exact ⟨kept, newer, hids, hkept, hnewer, hsince⟩

/-- Changes leave a numbered board that follows the one before. -/
theorem Numbered.editAll {es : List BoardEdit} (hb : b.Numbered) (h : b.editAll es = .ok b') :
    b'.Numbered ∧ b.Follows b' ∧ b.nextId ≤ b'.nextId := by
  refine editAll_invariant (P := fun b' => b'.Numbered ∧ b.Follows b' ∧ b.nextId ≤ b'.nextId)
    ?_ ⟨hb, Follows.refl b, UInt64.le_refl _⟩ h
  rintro e _ b₁ b₂ ⟨hb₁, hfollows, hnext⟩ hedit
  obtain ⟨hb₂, _, _, hgrows⟩ := hb₁.edit hedit
  exact ⟨hb₂, hfollows.edit hnext hb₁ hedit, UInt64.le_trans hnext hgrows⟩

/-- The board of a file before its items are taken over. -/
def bare (f : BoardFile) : Board where
  items := []
  footprints := Keyed.ofList Footprint.id f.footprints
  stackup := f.stackup
  enabledLayers := match f.enabledLayers with
    | some layers => sortLayers (layers.filter f.stackup.contains)
    | none => f.stackup.copperLayers
  design := f.design
  nextId := 1

/-- Added footprints change nothing else on a board. -/
theorem foldl_addFootprint (fs : List Footprint) (b : Board) :
    fs.foldl addFootprint b = { b with
      footprints := fs.foldl (fun acc f => Keyed.put Footprint.id f acc) b.footprints } := by
  induction fs generalizing b with
  | nil => rfl
  | cons f fs ih => rw [List.foldl_cons, ih]; rfl

/-- A board is loaded item by item. -/
theorem ofFile_eq_load (f : BoardFile) : ofFile f = f.items.foldlM load (bare f) := by
  unfold ofFile bare
  simp only [foldl_addFootprint]
  cases f.enabledLayers <;> rfl

/-- The items that are loaded stand under their keys, the last one of each. -/
theorem items_of_load {is : List Item} (h : is.foldlM load b = .ok b') :
    b'.items = is.foldl (fun acc i => Keyed.put Item.id i acc) b.items := by
  induction is generalizing b with
  | nil =>
      cases h
      rfl
  | cons i is ih =>
      obtain ⟨b₁, hload, h⟩ := Checked.bind_eq_ok.mp h
      obtain ⟨after, _, hload⟩ := Checked.bind_eq_ok.mp hload
      cases hload
      exact ih h

/-- The items of a file are put one after the other on an empty board. -/
theorem items_ofFile {f : BoardFile} (h : ofFile f = .ok b) :
    b.items = Keyed.ofList Item.id f.items :=
  items_of_load (ofFile_eq_load f ▸ h)

end Board

end CopperRoute
