import CopperRoute.Change.Split
import CopperRoute.Proofs.Runs
import Mathlib.Data.List.Induction

/-!
# What a commit leaves on the board

A commit leaves the **frame** of a board alone: its stackup and the via types that it
allows (`Board.SameFrame`).  The items that are on it afterwards were there before, or
come from the changeset (`Board.Takes`): modified items as they are, drafts after they
were checked and with a new identifier.  No two items get the same identifier.

Besides the items a commit changes nothing (`Board.commit_sameSheet`).

Conversely a modified item is on the board after a commit that adds and removes nothing,
when the changeset does not modify it twice (`Board.commit_mem_of_modified`).
-/

namespace CopperRoute

/-- A changeset is empty when it adds, changes and removes nothing. -/
theorem Changeset.isEmpty_iff {c : Changeset} :
    c.isEmpty = true ↔ c.added = [] ∧ c.modified = [] ∧ c.removed = [] := by
  simp only [isEmpty, Bool.and_eq_true, List.isEmpty_iff, and_assoc]

namespace Board

/-- The same layers, and the same via types allowed. -/
structure SameFrame (b b' : Board) : Prop where
  stackup : b'.stackup = b.stackup
  blindBuried : b'.design.blindBuriedAllowed = b.design.blindBuriedAllowed
  microvias : b'.design.microviasAllowed = b.design.microviasAllowed

theorem SameFrame.refl (b : Board) : b.SameFrame b := ⟨rfl, rfl, rfl⟩

/-- A frame that stays twice stays. -/
theorem SameFrame.trans {b₁ b₂ b₃ : Board} (h₁₂ : b₁.SameFrame b₂) (h₂₃ : b₂.SameFrame b₃) :
    b₁.SameFrame b₃ :=
  ⟨h₂₃.stackup.trans h₁₂.stackup, h₂₃.blindBuried.trans h₁₂.blindBuried,
    h₂₃.microvias.trans h₁₂.microvias⟩

/-- Whether a draft can be added depends on the stackup only. -/
theorem SameFrame.draftRejection? {b b' : Board} (h : b.SameFrame b') (d : Draft) :
    b'.draftRejection? d = b.draftRejection? d := by
  simp only [Board.draftRejection?, layerFault?, h.stackup]

/-- **Taking items over.**  The frame stays, every item was there before or is `new`, and
identifiers stay unique. -/
structure Takes (b b' : Board) (new : Item → Prop) : Prop where
  frame : b.SameFrame b'
  items : ∀ i ∈ b'.items, i ∈ b.items ∨ new i
  unique : (b.items.map Item.id).Nodup → (b'.items.map Item.id).Nodup

theorem Takes.refl (b : Board) (new : Item → Prop) : b.Takes b new :=
  ⟨SameFrame.refl b, fun _ hi => .inl hi, id⟩

/-- What takes nothing but new items twice takes nothing else. -/
theorem Takes.trans {b₁ b₂ b₃ : Board} {new : Item → Prop} (h₁₂ : b₁.Takes b₂ new)
    (h₂₃ : b₂.Takes b₃ new) : b₁.Takes b₃ new := by
  refine ⟨h₁₂.frame.trans h₂₃.frame, fun i hi => ?_, fun h => h₂₃.unique (h₁₂.unique h)⟩
  rcases h₂₃.items i hi with hold | hnew
  · exact h₁₂.items i hold
  · exact .inr hnew

/-- More items may count as new. -/
theorem Takes.mono {b b' : Board} {new more : Item → Prop} (h : b.Takes b' new)
    (hmore : ∀ i, new i → more i) : b.Takes b' more :=
  ⟨h.frame, fun i hi => (h.items i hi).imp_right (hmore i), h.unique⟩

/-- Putting an item on the board takes that item over. -/
theorem takes_put (b : Board) (i : Item) (next : ItemId) :
    b.Takes { b with items := Keyed.put Item.id i b.items, nextId := next } (· = i) := by
  refine ⟨⟨rfl, rfl, rfl⟩, fun j hj => ?_, Keyed.nodup_put⟩
  exact (Keyed.mem_put hj).symm

/-- Removing items takes no new ones. -/
theorem takes_removeAll (b : Board) (ids : List ItemId) (new : Item → Prop) :
    b.Takes (b.removeAll ids).1 new := by
  refine List.foldlRecOn (motive := fun s : Board × Nat => b.Takes s.1 new) ids _
    (Takes.refl b new) ?_
  rintro ⟨b', n⟩ h id _
  simp only
  split
  · refine h.trans ⟨⟨rfl, rfl, rfl⟩, fun i hi => .inl (List.mem_filter.mp hi).1, fun hunique => ?_⟩
    exact hunique.sublist (List.filter_sublist.map _)
  · exact h

/-- Replacing items takes those that are put in their place. -/
theorem takes_replaceAll (b : Board) (items : List Item) :
    b.Takes (b.replaceAll items).1 (· ∈ items) := by
  refine List.foldlRecOn (motive := fun s : Board × Nat => b.Takes s.1 (· ∈ items)) items _
    (Takes.refl b _) ?_
  rintro ⟨b', n⟩ h i hi
  simp only
  split
  · next b'' hreplaced =>
      unfold replace? at hreplaced
      split at hreplaced
      · cases hreplaced
        refine h.trans ((b'.takes_put i b'.nextId).mono fun j hj => ?_)
        rw [hj]
        exact hi
      · cases hreplaced
  · exact h

/-- Adding drafts takes them, each under some identifier. -/
theorem takes_addAll {b b' : Board} {ds : List Draft} {ids : List ItemId}
    (h : b.addAll ds = .ok (b', ids)) : b.Takes b' fun i => ∃ d ∈ ds, ∃ id, i = d.withId id := by
  induction ds generalizing b ids with
  | nil =>
      cases h
      exact Takes.refl _ _
  | cons d ds ih =>
      obtain ⟨⟨b₁, id⟩, hadd, h⟩ := Checked.bind_eq_ok.mp h
      obtain ⟨⟨b₂, rest⟩, hrest, h⟩ := Checked.bind_eq_ok.mp h
      cases h
      obtain ⟨next, _, hadd⟩ := Checked.bind_eq_ok.mp hadd
      cases hadd
      refine ((takes_put _ _ next).mono fun i hi => ?_).trans ((ih hrest).mono ?_)
      · exact ⟨d, List.mem_cons_self, _, hi⟩
      · rintro i ⟨e, he, id, rfl⟩
        exact ⟨e, List.mem_cons_of_mem d he, id, rfl⟩

/-- What a changeset can bring: its modified items, and its drafts if they pass the
check. -/
def Brings (b : Board) (c : Changeset) (i : Item) : Prop :=
  i ∈ c.modified ∨ ∃ d ∈ c.added, b.draftRejection? d = none ∧ ∃ id, i = d.withId id

/-- The parts of a commit that is carried out. -/
theorem commit_eq_applied {b b' : Board} {c : Changeset} {report : CommitReport}
    (h : b.commit c = .ok (.applied b' report)) :
    b.rejection? c = none ∧ ((b.removeAll c.removed).1.replaceAll c.modified).1.addAll c.added =
      .ok (b', report.added) := by
  unfold commit at h
  split at h
  · cases h
  · next haccepted =>
      split at h
      · cases h
      · obtain ⟨⟨b'', ids⟩, hadd, h⟩ := Checked.bind_eq_ok.mp h
        cases h
        exact ⟨haccepted, hadd⟩

/-- **A commit takes over what its changeset brings**, and nothing else. -/
theorem commit_takes {b b' : Board} {c : Changeset} {report : CommitReport}
    (h : b.commit c = .ok (.applied b' report)) : b.Takes b' (b.Brings c) := by
  obtain ⟨haccepted, hadd⟩ := commit_eq_applied h
  have hchecked : c.added.findSome? b.draftRejection? = none := by
    rw [rejection?, Option.or_eq_none_iff] at haccepted
    exact haccepted.1
  have hreplaced : (b.removeAll c.removed).1.Takes
      ((b.removeAll c.removed).1.replaceAll c.modified).1 (b.Brings c) :=
    (takes_replaceAll _ c.modified).mono fun i hi => .inl hi
  refine ((b.takes_removeAll c.removed _).trans hreplaced).trans ((takes_addAll hadd).mono ?_)
  rintro i ⟨d, hd, id, rfl⟩
  exact .inr ⟨d, hd, List.findSome?_eq_none_iff.mp hchecked d hd, id, rfl⟩

/-- Only the items differ, and the identifier that comes next. -/
def SameSheet (b b' : Board) : Prop := b' = { b with items := b'.items, nextId := b'.nextId }

theorem SameSheet.refl (b : Board) : b.SameSheet b := rfl

/-- A sheet that stays twice stays. -/
theorem SameSheet.trans {b₁ b₂ b₃ : Board} (h₁₂ : b₁.SameSheet b₂) (h₂₃ : b₂.SameSheet b₃) :
    b₁.SameSheet b₃ := by
  rw [SameSheet, h₂₃, h₁₂]

/-- Removing items leaves the sheet. -/
theorem sameSheet_removeAll (b : Board) (ids : List ItemId) : b.SameSheet (b.removeAll ids).1 := by
  refine List.foldlRecOn (motive := fun s : Board × Nat => b.SameSheet s.1) ids _ (.refl b) ?_
  rintro ⟨b₁, n⟩ hsame id _
  simp only
  split
  · exact hsame.trans rfl
  · exact hsame

/-- Replacing items leaves the sheet. -/
theorem sameSheet_replaceAll (b : Board) (items : List Item) :
    b.SameSheet (b.replaceAll items).1 := by
  refine List.foldlRecOn (motive := fun s : Board × Nat => b.SameSheet s.1) items _ (.refl b) ?_
  rintro ⟨b₁, n⟩ hsame i _
  simp only
  split
  · next b₂ hreplaced =>
      unfold replace? at hreplaced
      split at hreplaced
      · cases hreplaced
        exact hsame.trans rfl
      · cases hreplaced
  · exact hsame

/-- Adding drafts leaves the sheet. -/
theorem sameSheet_addAll {b b' : Board} {ds : List Draft} {ids : List ItemId}
    (h : b.addAll ds = .ok (b', ids)) : b.SameSheet b' := by
  induction ds generalizing b ids with
  | nil =>
      cases h
      exact .refl _
  | cons d ds ih =>
      obtain ⟨⟨b₁, id⟩, hadd, h⟩ := Checked.bind_eq_ok.mp h
      obtain ⟨⟨b₂, rest⟩, hrest, h⟩ := Checked.bind_eq_ok.mp h
      cases h
      obtain ⟨next, _, hadd⟩ := Checked.bind_eq_ok.mp hadd
      cases hadd
      refine SameSheet.trans ?_ (ih hrest)
      rfl

/-- **A commit changes the items alone.** -/
theorem commit_sameSheet {b b' : Board} {c : Changeset} {report : CommitReport}
    (h : b.commit c = .ok (.applied b' report)) : b.SameSheet b' := by
  have hremoved := b.sameSheet_removeAll c.removed
  have hreplaced := hremoved.trans ((b.removeAll c.removed).1.sameSheet_replaceAll c.modified)
  exact hreplaced.trans (sameSheet_addAll (commit_eq_applied h).2)

/-- A commit leaves the layers that are enabled alone. -/
theorem commit_enabledLayers {b b' : Board} {c : Changeset} {report : CommitReport}
    (h : b.commit c = .ok (.applied b' report)) : b'.enabledLayers = b.enabledLayers := by
  rw [commit_sameSheet h]

/-- So does it with the design settings. -/
theorem commit_design {b b' : Board} {c : Changeset} {report : CommitReport}
    (h : b.commit c = .ok (.applied b' report)) : b'.design = b.design := by
  rw [commit_sameSheet h]

/-- An item is found by its identifier exactly when there is one with it. -/
theorem item?_isSome_iff {b : Board} {id : ItemId} :
    (b.item? id).isSome ↔ id ∈ b.items.map Item.id := by
  simp [item?, Keyed.find?, List.find?_isSome]

/-- Replacing items that the board has puts them one after the other, and no identifier
comes or goes. -/
theorem items_replaceAll {b : Board} {items : List Item}
    (hknown : ∀ i ∈ items, (b.item? i.id).isSome) :
    (b.replaceAll items).1.items = items.foldl (fun acc i => Keyed.put Item.id i acc) b.items ∧
      (b.replaceAll items).1.items.map Item.id = b.items.map Item.id := by
  -- on the last item: it meets the board that the others have made
  induction items using List.reverseRecOn with
  | nil => exact ⟨rfl, rfl⟩
  | append_singleton items i ih =>
      obtain ⟨hput, hids⟩ := ih fun j hj => hknown j (List.mem_append_left _ hj)
      have hi : ((b.replaceAll items).1.item? i.id).isSome := by
        rw [item?_isSome_iff, hids, ← item?_isSome_iff]
        exact hknown i (List.mem_append_right _ (List.mem_singleton_self i))
      have hreplaced : (b.replaceAll items).1.replace? i = some { (b.replaceAll items).1 with
          items := Keyed.put Item.id i (b.replaceAll items).1.items } := by
        rw [replace?, if_pos hi]
      have hlast : (b.replaceAll (items ++ [i])).1.items =
          Keyed.put Item.id i (b.replaceAll items).1.items := by
        rw [replaceAll, List.foldl_append, ← replaceAll]
        generalize b.replaceAll items = sofar at hreplaced
        simp only [List.foldl_cons, List.foldl_nil, hreplaced]
      constructor
      · rw [hlast, hput, List.foldl_append]
        rfl
      · rw [hlast, Keyed.map_key_put, if_pos (item?_isSome_iff.mp hi), hids]

/-- The board has every item that an accepted changeset modifies. -/
theorem item?_isSome_of_accepted {b : Board} {c : Changeset} (haccepted : b.rejection? c = none) :
    ∀ i ∈ c.modified, (b.item? i.id).isSome := by
  intro i hi
  simp only [rejection?, Option.or_eq_none_iff] at haccepted
  have htouched := List.findSome?_eq_none_iff.mp haccepted.2.1 i hi
  rw [modifyRejection?, Option.or_eq_none_iff] at htouched
  have htouch := htouched.1
  unfold touchRejection? at htouch
  split at htouch
  · cases htouch
  · next existing hexisting => rw [hexisting]; rfl

/-- **A modified item is on the board** after a commit that only modifies, when the
changeset has no other item with its identifier. -/
theorem commit_mem_of_modified {b b' : Board} {c : Changeset} {report : CommitReport} {i : Item}
    (h : b.commit c = .ok (.applied b' report)) (hadded : c.added = []) (hremoved : c.removed = [])
    (hi : i ∈ c.modified) (honly : ∀ j ∈ c.modified, j.id = i.id → j = i) : i ∈ b'.items := by
  obtain ⟨haccepted, hadd⟩ := commit_eq_applied h
  have hknown := item?_isSome_of_accepted haccepted
  rw [hadded, hremoved] at hadd
  have hlast : (b.replaceAll c.modified).1 = b' := (Prod.mk.inj (Except.ok.inj hadd)).1
  rw [← hlast, (items_replaceAll hknown).1]
  exact Keyed.mem_foldl_put (.inl hi) honly

/-- Every draft gets an identifier. -/
theorem length_addAll {b b' : Board} {ds : List Draft} {ids : List ItemId}
    (h : b.addAll ds = .ok (b', ids)) : ids.length = ds.length := by
  induction ds generalizing b ids with
  | nil =>
      cases h
      rfl
  | cons d ds ih =>
      obtain ⟨⟨b₁, id⟩, _, h⟩ := Checked.bind_eq_ok.mp h
      obtain ⟨⟨b₂, rest⟩, hrest, h⟩ := Checked.bind_eq_ok.mp h
      cases h
      rw [List.length_cons, List.length_cons, ih hrest]

/-- Nothing is wrong with a changeset without changes. -/
theorem rejection?_of_isEmpty (b : Board) {c : Changeset} (hempty : c.isEmpty = true) :
    b.rejection? c = none := by
  obtain ⟨hadded, hmodified, hremoved⟩ := Changeset.isEmpty_iff.mp hempty
  rw [rejection?, hadded, hmodified, hremoved]
  rfl

/-- Only a changeset without changes leaves the board untouched. -/
theorem isEmpty_of_untouched {b : Board} {c : Changeset} (h : b.commit c = .ok .untouched) :
    c.isEmpty = true := by
  unfold commit at h
  split at h
  · cases h
  · split at h
    · next hempty => exact hempty
    · obtain ⟨_, _, h⟩ := Checked.bind_eq_ok.mp h
      cases h

/-- A changeset that is carried out has changes. -/
theorem not_isEmpty_of_applied {b b' : Board} {c : Changeset} {report : CommitReport}
    (h : b.commit c = .ok (.applied b' report)) : c.isEmpty = false := by
  unfold commit at h
  split at h
  · cases h
  · split at h
    · cases h
    · next hsome => simpa using hsome

/-- An accepted changeset that is not empty is carried out. -/
theorem commit_applies {b : Board} {c : Changeset} {outcome : CommitOutcome}
    (haccepted : b.rejection? c = none) (hsome : c.isEmpty = false)
    (h : b.commit c = .ok outcome) : ∃ b' report, outcome = .applied b' report := by
  simp only [commit, haccepted, hsome, Bool.false_eq_true, if_false] at h
  obtain ⟨⟨b', ids⟩, _, h⟩ := Checked.bind_eq_ok.mp h
  cases h
  exact ⟨_, _, rfl⟩

/-- A changeset is rejected for the first thing that is wrong with it. -/
theorem commit_eq_rejected_iff {b : Board} {c : Changeset} {reason : CommitRejection} :
    b.commit c = .ok (.rejected reason) ↔ b.rejection? c = some reason := by
  cases hrejection : b.rejection? c with
  | some first =>
      have hrejected : b.commit c = .ok (.rejected first) := by
        simp only [commit, hrejection]
        rfl
      rw [hrejected, Except.ok.injEq, CommitOutcome.rejected.injEq, Option.some_inj]
  | none =>
      refine iff_of_false (fun h => ?_) nofun
      cases hempty : c.isEmpty with
      | true =>
          simp only [commit, hrejection, hempty, if_true] at h
          cases h
      | false =>
          obtain ⟨b', report, happlied⟩ := commit_applies hrejection hempty h
          cases happlied

end Board

end CopperRoute
