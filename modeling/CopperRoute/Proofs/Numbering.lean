import CopperRoute.Proofs.BoardChanges
import CopperRoute.Proofs.Intents

/-!
# Identifiers

Every item gets its identifier from the board: a new one gets the next identifier, and the
one after it is next.  So a board that is read from a file, and every board that is made of
it, is **numbered**: no identifier is there twice, and the next one is above all of them
(`Board.Numbered`).

Drafts are therefore appended with consecutive identifiers (`Board.Numbered.addAll`), and
every other item stays where it was.  All boards of a tool are numbered throughout a run when the
first one is (`Tool.run_numbered`).
-/

namespace CopperRoute

/-- There is a next identifier unless the last one is reached. -/
theorem idAfter_eq_ok {id next : UInt64} :
    idAfter id = .ok next ↔ id.toNat + 1 < UInt64.size ∧ next = id + 1 := by
  unfold idAfter
  split
  · next hroom => simp [hroom, eq_comm]
  · next hfull => simp [hfull]

/-- The next identifier is larger by one. -/
theorem toNat_succ {id : UInt64} (hroom : id.toNat + 1 < UInt64.size) :
    (id + 1).toNat = id.toNat + 1 := by
  rw [UInt64.toNat_add]
  exact Nat.mod_eq_of_lt hroom

/-- The larger one of two identifiers is the larger number. -/
theorem toNat_max (a b : UInt64) : (max a b).toNat = max a.toNat b.toNat := by
  show (if a ≤ b then b else a).toNat = max a.toNat b.toNat
  simp only [UInt64.le_iff_toNat_le]
  split <;> omega

/-- Counting on by one more begins with the next identifier. -/
theorem add_ofNat_succ (id : UInt64) (n : Nat) :
    id + UInt64.ofNat (n + 1) = id + 1 + UInt64.ofNat n := by
  rw [UInt64.ofNat_add, UInt64.add_comm (UInt64.ofNat n), ← UInt64.add_assoc]
  rfl

/-- The drafts as items with consecutive identifiers. -/
def numberFrom (id : ItemId) (ds : List Draft) : List Item :=
  ds.mapIdx fun n d => d.withId (id + UInt64.ofNat n)

@[simp] theorem numberFrom_nil (id : ItemId) : numberFrom id [] = [] := rfl

/-- The first draft gets the identifier, and the others those behind it. -/
@[simp] theorem numberFrom_cons (id : ItemId) (d : Draft) (ds : List Draft) :
    numberFrom id (d :: ds) = d.withId id :: numberFrom (id + 1) ds := by
  simp only [numberFrom, List.mapIdx_cons, add_ofNat_succ]
  have hzero : id + UInt64.ofNat 0 = id := by simp
  rw [hzero]

namespace Board

/-- **A numbered board**: no identifier twice, and all below the next one. -/
structure Numbered (b : Board) : Prop where
  unique : (b.items.map Item.id).Nodup
  below : ∀ id ∈ b.items.map Item.id, id < b.nextId

/-- Items can go, and their identifiers are not given again. -/
theorem Numbered.of_sublist {b b' : Board} (hb : b.Numbered)
    (hids : (b'.items.map Item.id).Sublist (b.items.map Item.id)) (hnext : b'.nextId = b.nextId) :
    b'.Numbered :=
  ⟨hb.unique.sublist hids, fun id hid => hnext ▸ hb.below id (hids.subset hid)⟩

/-- Other design settings leave the board numbered. -/
theorem Numbered.redesigned {b : Board} (hb : b.Numbered) (design : Design) :
    ({ b with design := design } : Board).Numbered :=
  hb.of_sublist (List.Sublist.refl _) rfl

/-- Removing items leaves the board numbered. -/
theorem Numbered.removeAll {b : Board} (hb : b.Numbered) (ids : List ItemId) :
    (b.removeAll ids).1.Numbered := by
  refine List.foldlRecOn (motive := fun s : Board × Nat => s.1.Numbered) ids _ hb ?_
  rintro ⟨b', n⟩ hb' id _
  simp only
  split
  · exact hb'.of_sublist (List.filter_sublist.map _) rfl
  · exact hb'

/-- Replacing items leaves the board numbered. -/
theorem Numbered.replaceAll {b : Board} (hb : b.Numbered) (items : List Item) :
    (b.replaceAll items).1.Numbered := by
  refine List.foldlRecOn (motive := fun s : Board × Nat => s.1.Numbered) items _ hb ?_
  rintro ⟨b', n⟩ hb' i _
  simp only
  split
  · next b'' hreplaced =>
      unfold replace? at hreplaced
      split at hreplaced
      · next hknown =>
          cases hreplaced
          have hids := Keyed.map_key_put Item.id i b'.items
          rw [if_pos (item?_isSome_iff.mp hknown)] at hids
          exact hb'.of_sublist (hids ▸ List.Sublist.refl _) rfl
      · cases hreplaced
  · exact hb'

/-- On a numbered board the draft comes last. -/
theorem Numbered.add {b b' : Board} {d : Draft} {id : ItemId} (hb : b.Numbered)
    (h : b.add d = .ok (b', id)) : b'.Numbered ∧ b.nextId.toNat + 1 < UInt64.size ∧
      b' = { b with items := b.items ++ [d.withId b.nextId], nextId := b.nextId + 1 } := by
  obtain ⟨next, hnext, h⟩ := Checked.bind_eq_ok.mp h
  obtain ⟨hroom, rfl⟩ := idAfter_eq_ok.mp hnext
  have hfresh : (d.withId b.nextId).id ∉ b.items.map Item.id := fun hthere =>
    UInt64.lt_irrefl _ (hb.below _ hthere)
  cases h
  refine ⟨⟨Keyed.nodup_put hb.unique, fun id hid => ?_⟩, hroom, ?_⟩
  · rw [UInt64.lt_iff_toNat_lt, toNat_succ hroom]
    rw [Keyed.map_key_put, if_neg hfresh, List.mem_append] at hid
    rcases hid with hold | hnew
    · have hbelow := UInt64.lt_iff_toNat_lt.mp (hb.below id hold)
      omega
    · rw [List.mem_singleton.mp hnew]
      exact Nat.lt_succ_self _
  · rw [Keyed.put_of_notMem hfresh]

/-- **Drafts are appended** with consecutive identifiers, none of which is too large. -/
theorem Numbered.addAll {b b' : Board} {ds : List Draft} {ids : List ItemId} (hb : b.Numbered)
    (h : b.addAll ds = .ok (b', ids)) : b'.Numbered ∧
      b.nextId.toNat + ds.length < UInt64.size ∧
      b' = { b with
        items := b.items ++ numberFrom b.nextId ds
        nextId := b.nextId + UInt64.ofNat ds.length } := by
  induction ds generalizing b ids with
  | nil =>
      cases h
      refine ⟨hb, UInt64.toNat_lt_size _, ?_⟩
      simp
  | cons d ds ih =>
      obtain ⟨⟨b₁, id⟩, hadd, h⟩ := Checked.bind_eq_ok.mp h
      obtain ⟨⟨b₂, rest⟩, hrest, h⟩ := Checked.bind_eq_ok.mp h
      cases h
      obtain ⟨hb₁, hroom, rfl⟩ := hb.add hadd
      obtain ⟨hb', hrooms, rfl⟩ := ih hb₁ hrest
      refine ⟨hb', ?_, ?_⟩
      · rw [toNat_succ hroom] at hrooms
        rw [List.length_cons]
        omega
      · simp only [numberFrom_cons, List.length_cons, add_ofNat_succ, List.append_assoc,
          List.singleton_append]

/-- A commit leaves a numbered board. -/
theorem Numbered.commit {b b' : Board} {c : Changeset} {report : CommitReport} (hb : b.Numbered)
    (h : b.commit c = .ok (.applied b' report)) : b'.Numbered :=
  (((hb.removeAll c.removed).replaceAll c.modified).addAll (commit_eq_applied h).2).1

/-- Taking over an item of a file keeps a board numbered. -/
theorem Numbered.load {b b' : Board} {i : Item} (hb : b.Numbered) (h : b.load i = .ok b') :
    b'.Numbered := by
  obtain ⟨after, hafter, h⟩ := Checked.bind_eq_ok.mp h
  obtain ⟨hroom, rfl⟩ := idAfter_eq_ok.mp hafter
  cases h
  refine ⟨Keyed.nodup_put hb.unique, fun id hid => ?_⟩
  obtain ⟨j, hj, rfl⟩ := List.mem_map.mp hid
  show j.id < max b.nextId (i.id + 1)
  rw [UInt64.lt_iff_toNat_lt, toNat_max, toNat_succ hroom]
  rcases Keyed.mem_put hj with rfl | hold
  · omega
  · have hbelow := UInt64.lt_iff_toNat_lt.mp (hb.below j.id (List.mem_map_of_mem hold))
    omega

/-- **Induction over files.**  What an empty board has, and what enabling layers and taking
over footprints and items keep, every board from a file has. -/
theorem ofFile_invariant {P : Board → Prop} {f : BoardFile} {b : Board}
    (hempty : P (empty f.stackup f.design))
    (hlayers : ∀ b layers, P b → P (b.enableLayers layers))
    (hfootprint : ∀ b fp, P b → P (b.addFootprint fp))
    (hload : ∀ b i b', P b → b.load i = .ok b' → P b') (h : ofFile f = .ok b) : P b := by
  have hitems {is : List Item} {b₀ : Board} (hb₀ : P b₀) (h : is.foldlM load b₀ = .ok b) : P b := by
    induction is generalizing b₀ with
    | nil =>
        cases h
        exact hb₀
    | cons i is ih =>
        obtain ⟨b₁, hi, h⟩ := Checked.bind_eq_ok.mp h
        exact ih (hload b₀ i b₁ hb₀ hi) h
  refine hitems (List.foldlRecOn f.footprints _ ?_ fun b₀ hb₀ fp _ => hfootprint b₀ fp hb₀) h
  split
  · exact hlayers _ _ hempty
  · exact hempty

/-- **A board from a file** is numbered. -/
theorem numbered_ofFile {f : BoardFile} {b : Board} (h : ofFile f = .ok b) : b.Numbered := by
  refine ofFile_invariant ?_ (fun _ _ hb => ⟨hb.unique, hb.below⟩)
    (fun _ _ hb => ⟨hb.unique, hb.below⟩) (fun _ _ _ hb hload => hb.load hload) h
  refine ⟨List.nodup_nil, fun id hid => ?_⟩
  cases hid

end Board

namespace Tool

/-- A command keeps all boards numbered. -/
theorem Reboards.numbered {t t' : Tool} {c : Command} (h : t.Reboards c t')
    (hall : ∀ b ∈ t.boards, b.Numbered) : ∀ b ∈ t'.boards, b.Numbered := by
  have hb := hall t.board t.board_mem_boards
  apply h.all_boards hall
  · intro design hboard _
    rw [hboard]
    exact hb.redesigned design
  · intro changes report _ hcommit
    exact hb.commit hcommit

/-- At rest, and with numbered boards only. -/
structure WellNumbered (t : Tool) : Prop where
  orderly : t.Orderly
  boards : ∀ b ∈ t.boards, b.Numbered

/-- The board on the table is numbered. -/
theorem WellNumbered.board {t : Tool} (ht : t.WellNumbered) : t.board.Numbered :=
  ht.boards _ t.board_mem_boards

/-- What begins an occasion leaves the boards numbered. -/
theorem WellNumbered.prompted {t : Tool} (ht : t.WellNumbered) (o : Occasion) :
    (t.prompted o).WellNumbered :=
  ⟨ht.orderly.prompted o, ht.boards⟩

/-- A new tool has a numbered board only. -/
theorem wellNumbered_new {board : Board} (hboard : board.Numbered) (world : World)
    (options : Options) (rules : RuleSet) (search : TreeSearch) (confirms : Bool) :
    (new board world options rules search confirms).WellNumbered := by
  refine ⟨orderly_new board world options rules search confirms, fun b hb => ?_⟩
  rw [eq_of_mem_boards_new hb]
  exact hboard

/-- Every turn keeps all boards numbered. -/
theorem turn_wellNumbered {t t' : Tool} {k : Turn} (ht : t.WellNumbered)
    (h : t.turn k = .ok t') : t'.WellNumbered := by
  obtain ⟨refusal, hexecute⟩ := turn_eq_ok.mp h
  have hchanges := execute_changes (ht.orderly.ready k) hexecute
  exact ⟨(turn_advances ht.orderly h).orderly, hchanges.boards.numbered ht.boards⟩

/-- **All boards stay numbered**: the one on the table, and those in the history. -/
theorem run_numbered {t t' : Tool} {ks : List Turn} (ht : t.Orderly)
    (hall : ∀ b ∈ t.boards, b.Numbered) (hrun : t.run ks = .ok t') :
    ∀ b ∈ t'.boards, b.Numbered :=
  (run_invariant (fun _ _ _ => turn_wellNumbered) ⟨ht, hall⟩ hrun).boards

end Tool

end CopperRoute
