import CopperRoute.Proofs.BoardDifferences
import CopperRoute.Proofs.ProperCopper

/-!
# All or nothing

A changeset is checked first and applied afterwards, and what is applied does not look at the
checks again: an item that is not there is neither removed nor replaced, without a word.  So the
checks have to see everything that could go wrong, in lists that may name an item several times.

* A changeset is refused exactly when it is **faulty** (`Changeset.FaultyOn`), and the board is
  the same as before then (`Board.commit_rejected_iff`).
* Otherwise it is **carried out as a whole** (`CommitOutcome.CarriesOut`): the items stay in
  order, those that are removed are gone, each of the others is the **last** one that the
  changeset has for it, and the drafts follow with the next identifiers.

Only the identifiers can run out (`Board.commit_whole`).
-/

namespace CopperRoute

/-- **An item is closed** to changes: it is not there, or locked without leave to change it. -/
def Board.Closed (b : Board) (allowLocked : Bool) (id : ItemId) : Prop :=
  b.item? id = none ∨ ∃ i, b.item? id = some i ∧ i.locked = true ∧ allowLocked = false

/-- **A faulty changeset.** -/
inductive Changeset.FaultyOn (c : Changeset) (b : Board) : Prop
  /-- A draft has no proper place, a layer that the board does not have or no length. -/
  | misplaced {d : Draft} (hd : d ∈ c.added) (hplace : ¬ d.ProperIn b.stackup)
  /-- A draft is a track without width, or a via that its drill does not fit. -/
  | missized {d : Draft} (hd : d ∈ c.added) (hsize : d.shape.Missized)
  | modifiesClosed {i : Item} (hi : i ∈ c.modified) (hclosed : b.Closed c.allowLocked i.id)
  /-- An item is to be modified, and is to be gone. -/
  | modifiesRemoved {i : Item} (hi : i ∈ c.modified) (hremoved : i.id ∈ c.removed)
  | removesClosed {id : ItemId} (hid : id ∈ c.removed) (hclosed : b.Closed c.allowLocked id)

namespace Board

variable {b : Board} {c : Changeset}

theorem touchRejection?_eq_none_iff {allowLocked : Bool} {id : ItemId} :
    b.touchRejection? allowLocked id = none ↔ ¬ b.Closed allowLocked id := by
  rw [touchRejection?, Closed]
  cases b.item? id with
  | none => simp
  | some i => simp

theorem modifyRejection?_eq_none_iff {i : Item} :
    b.modifyRejection? c i = none ↔ ¬ b.Closed c.allowLocked i.id ∧ i.id ∉ c.removed := by
  rw [modifyRejection?, Option.or_eq_none_iff, touchRejection?_eq_none_iff]
  simp

/-- **Nothing else is checked**, and all of it is. -/
theorem rejection?_eq_none_iff : b.rejection? c = none ↔ ¬ c.FaultyOn b := by
  simp only [rejection?, Option.or_eq_none_iff, List.findSome?_eq_none_iff,
    draftRejection?_eq_none_iff, modifyRejection?_eq_none_iff, touchRejection?_eq_none_iff]
  constructor
  · rintro ⟨hadded, hmodified, hremoved⟩ (⟨hd, hplace⟩ | ⟨hd, hsize⟩ | ⟨hi, hclosed⟩ |
      ⟨hi, hgone⟩ | ⟨hid, hclosed⟩)
    · exact hplace (hadded _ hd).1
    · exact (hadded _ hd).2 hsize
    · exact (hmodified _ hi).1 hclosed
    · exact (hmodified _ hi).2 hgone
    · exact hremoved _ hid hclosed
  · intro hsound
    refine ⟨fun d hd => ⟨?_, fun hsize => hsound (.missized hd hsize)⟩,
      fun i hi => ⟨fun hclosed => hsound (.modifiesClosed hi hclosed),
        fun hgone => hsound (.modifiesRemoved hi hgone)⟩,
      fun id hid hclosed => hsound (.removesClosed hid hclosed)⟩
    by_contra hplace
    exact hsound (.misplaced hd hplace)

/-- What is not closed is on the board. -/
theorem item?_isSome_of_open {allowLocked : Bool} {id : ItemId}
    (hopen : ¬ b.Closed allowLocked id) : (b.item? id).isSome :=
  Option.isSome_iff_ne_none.mpr fun hnone => hopen (.inl hnone)

end Board

/-- The board without the items that have one of these identifiers. -/
def Board.without (b : Board) (ids : List ItemId) : Board :=
  { b with items := b.items.filter fun i => i.id ∉ ids }

/-- The board with each item as it comes last in a list, if the list has it. -/
def Board.revised (b : Board) (items : List Item) : Board :=
  { b with items := b.items.map fun i => (Keyed.find? Item.id i.id items.reverse).getD i }

/-- The board with drafts at its end. -/
def Board.extended (b : Board) (ds : List Draft) : Board :=
  { b with
    items := b.items ++ numberFrom b.nextId ds
    nextId := b.nextId + UInt64.ofNat ds.length }

namespace Board

variable {b : Board} {ids : List ItemId} {items : List Item} {ds : List Draft}

theorem item?_without_isSome_iff {id : ItemId} :
    ((b.without ids).item? id).isSome ↔ (b.item? id).isSome ∧ id ∉ ids := by
  simp only [item?_isSome_iff, List.mem_map]
  constructor
  · rintro ⟨i, hi, rfl⟩
    obtain ⟨hthere, hkept⟩ := List.mem_filter.mp hi
    exact ⟨⟨i, hthere, rfl⟩, of_decide_eq_true hkept⟩
  · rintro ⟨⟨i, hthere, rfl⟩, hkept⟩
    exact ⟨i, List.mem_filter.mpr ⟨hthere, decide_eq_true hkept⟩, rfl⟩

/-- Taking one more item away. -/
theorem remove_without (b : Board) (ids : List ItemId) (id : ItemId) :
    (b.without ids).remove id = b.without (ids ++ [id]) := by
  rw [remove, without, without, List.filter_filter]
  congr 2
  funext i
  rw [Bool.eq_iff_iff]
  simp [and_comm]

/-- An item that is gone already is not taken away again. -/
theorem without_append_of_mem {id : ItemId} (hgone : id ∈ ids) :
    b.without (ids ++ [id]) = b.without ids := by
  rw [without, without]
  congr 2
  funext i
  have hsame : i.id ∈ ids ++ [id] ↔ i.id ∈ ids := by
    rw [List.mem_append, List.mem_singleton, or_iff_left_iff_imp]
    exact fun hid => hid ▸ hgone
  simp only [hsame]

/-- The last identifier counts when its item is still there. -/
theorem removeAll_append_singleton (b : Board) (ids : List ItemId) (id : ItemId) :
    b.removeAll (ids ++ [id]) =
      if ((b.removeAll ids).1.item? id).isSome then
        ((b.removeAll ids).1.remove id, (b.removeAll ids).2 + 1)
      else b.removeAll ids := by
  rw [removeAll, List.foldl_append, ← removeAll]
  rfl

/-- **Removals** take every item away that they name, and count it once. -/
theorem removeAll_of_known (hknown : ∀ id ∈ ids, (b.item? id).isSome) :
    b.removeAll ids = (b.without ids, ids.eraseDups.length) := by
  -- on the last identifier: its item may be gone already
  induction ids using List.reverseRecOn with
  | nil => simp [removeAll, without]
  | append_singleton ids id ih =>
      have hid := hknown id (List.mem_append_right _ (List.mem_singleton_self id))
      rw [removeAll_append_singleton, ih fun k hk => hknown k (List.mem_append_left _ hk),
        List.eraseDups_append]
      by_cases hgone : id ∈ ids
      · have hnone : ¬ ((b.without ids).item? id).isSome := fun h =>
          (item?_without_isSome_iff.mp h).2 hgone
        have hnew : [id].removeAll ids = [] := by simp [List.removeAll, hgone]
        rw [if_neg hnone, without_append_of_mem hgone, hnew]
        simp
      · have hnew : [id].removeAll ids = [id] := by simp [List.removeAll, hgone]
        rw [if_pos (item?_without_isSome_iff.mpr ⟨hid, hgone⟩), remove_without, hnew,
          List.length_append]
        rfl

/-- **Modifications** put every item in its place, and count each. -/
theorem Numbered.replaceAll_of_known (hb : b.Numbered)
    (hknown : ∀ i ∈ items, (b.item? i.id).isSome) :
    b.replaceAll items = (b.revised items, items.length) := by
  refine Prod.ext ?_ (count_replaceAll hknown)
  have hput := (items_replaceAll hknown).1
  rw [Keyed.foldl_put_of_mem hb.unique fun i hi => item?_isSome_iff.mp (hknown i hi)] at hput
  rw [b.sameSheet_replaceAll items, hput, nextId_replaceAll]
  rfl

/-- The drafts after the first follow it. -/
theorem extended_cons (b : Board) (d : Draft) (ds : List Draft) :
    b.extended (d :: ds) = (b.extended [d]).extended ds := by
  simp only [extended, numberFrom_cons, numberFrom_nil, List.length_cons, List.length_nil,
    add_ofNat_succ, List.append_assoc, List.singleton_append]
  simp

theorem Numbered.add_eq (hb : b.Numbered) (d : Draft) (hroom : b.nextId.toNat + 1 < UInt64.size) :
    b.add d = .ok (b.extended [d], b.nextId) := by
  have hadd : b.add d = .ok ({ b with
      items := Keyed.put Item.id (d.withId b.nextId) b.items
      nextId := b.nextId + 1 }, b.nextId) := by
    rw [Board.add, idAfter_eq_ok.mpr ⟨hroom, rfl⟩]
    rfl
  rw [hadd, (hb.add hadd).2.2]
  simp [extended]

/-- **Drafts** come last, unless there are too few identifiers left. -/
theorem Numbered.addAll_eq (hb : b.Numbered) (ds : List Draft) :
    b.addAll ds =
      if b.nextId.toNat + ds.length < UInt64.size then
        .ok (b.extended ds, (numberFrom b.nextId ds).map Item.id)
      else .error .overflow := by
  induction ds generalizing b with
  | nil =>
      have hroom : b.nextId.toNat + ([] : List Draft).length < UInt64.size :=
        UInt64.toNat_lt_size _
      rw [if_pos hroom]
      simp [Board.addAll, extended]
  | cons d ds ih =>
      by_cases hnext : b.nextId.toNat + 1 < UInt64.size
      · have hadd := hb.add_eq d hnext
        have hone : (b.extended [d]).nextId.toNat = b.nextId.toNat + 1 := toNat_succ hnext
        have hcons : b.nextId.toNat + (d :: ds).length =
            (b.extended [d]).nextId.toNat + ds.length := by
          rw [hone, List.length_cons]
          omega
        rw [Board.addAll, hadd, b.extended_cons d ds, numberFrom_cons, hcons]
        show (Board.addAll (b.extended [d]) ds >>= _) = _
        rw [ih (hb.add hadd).1]
        split <;> rfl
      · have hfull : ¬ b.nextId.toNat + (d :: ds).length < UInt64.size := by
          rw [List.length_cons]
          omega
        have hadd : b.add d = .error .overflow := by
          rw [Board.add, idAfter, if_neg hnext]
          rfl
        rw [Board.addAll, hadd, if_neg hfull]
        rfl

/-- The new identifiers are as far above the next one as the drafts stand behind the first. -/
theorem toNat_id_of_mem_numberFrom {id : ItemId} {i : Item}
    (hroom : id.toNat + ds.length < UInt64.size) (hi : i ∈ numberFrom id ds) :
    id.toNat ≤ i.id.toNat := by
  obtain ⟨n, hn, rfl⟩ := List.mem_mapIdx.mp hi
  show id.toNat ≤ (id + UInt64.ofNat n).toNat
  have hfits : n % 2 ^ 64 = n := Nat.mod_eq_of_lt (by simp only [UInt64.size] at hroom; omega)
  rw [UInt64.toNat_add, UInt64.toNat_ofNat', hfits, Nat.mod_eq_of_lt]
  · exact Nat.le_add_right _ _
  · simp only [UInt64.size] at hroom
    omega

/-- **The new identifiers are fresh.** -/
theorem Numbered.fresh (hb : b.Numbered) (hroom : b.nextId.toNat + ds.length < UInt64.size)
    {i : Item} (hi : i ∈ numberFrom b.nextId ds) : b.item? i.id = none := by
  rw [← Option.not_isSome_iff_eq_none, item?_isSome_iff]
  intro hold
  have hbelow := UInt64.lt_iff_toNat_lt.mp (hb.below _ hold)
  have habove := toNat_id_of_mem_numberFrom hroom hi
  omega

end Board

namespace CommitOutcome

/-- The board behind a commit. -/
def boardFrom (b : Board) : CommitOutcome → Board
  | rejected _ => b
  | untouched => b
  | applied b' _ => b'

/-- The report of a commit that was not rejected. -/
def report? : CommitOutcome → Option CommitReport
  | rejected _ => none
  | untouched => some .nothing
  | applied _ report => some report

/-- **A changeset is carried out as a whole.**  What it removes is gone, every other item is as
the changeset has it last, and its drafts come last, with identifiers that were not on the
board.  The report says so. -/
structure CarriesOut (outcome : CommitOutcome) (c : Changeset) (b : Board) : Prop where
  board : outcome.boardFrom b = ((b.without c.removed).revised c.modified).extended c.added
  report : outcome.report? = some
    { added := (numberFrom b.nextId c.added).map Item.id
      modified := c.modified.length
      removed := c.removed.eraseDups.length }
  fresh : ∀ i ∈ numberFrom b.nextId c.added, b.item? i.id = none
  numbered : (outcome.boardFrom b).Numbered

end CommitOutcome

namespace Board

variable {b : Board} {c : Changeset}

/-- **A changeset is rejected** exactly when it is faulty. -/
theorem commit_rejected_iff :
    (∃ reason, b.commit c = .ok (.rejected reason)) ↔ c.FaultyOn b := by
  simp only [commit_eq_rejected_iff]
  rw [← Option.ne_none_iff_exists', Ne, rejection?_eq_none_iff, not_not]

/-- The parts of a commit that is not rejected. -/
theorem commit_of_accepted (haccepted : b.rejection? c = none) (hsome : c.isEmpty = false) :
    b.commit c = do
      let (b', added) ← ((b.removeAll c.removed).1.replaceAll c.modified).1.addAll c.added
      return .applied b' ⟨added, ((b.removeAll c.removed).1.replaceAll c.modified).2,
        (b.removeAll c.removed).2⟩ := by
  simp only [commit, haccepted, hsome, Bool.false_eq_true, if_false]

/-- Nothing is carried out without changes. -/
theorem Numbered.carriesOut_untouched (hb : b.Numbered) (hempty : c.isEmpty = true) :
    CommitOutcome.untouched.CarriesOut c b := by
  obtain ⟨hadded, hmodified, hremoved⟩ := Changeset.isEmpty_iff.mp hempty
  refine ⟨?_, ?_, ?_, hb⟩
  · simp [CommitOutcome.boardFrom, hadded, hmodified, hremoved, without, revised, extended,
      Keyed.find?]
  · simp [CommitOutcome.report?, CommitReport.nothing, hadded, hmodified, hremoved]
  · simp [hadded]

/-- Removals and modifications are carried out when the changeset is not faulty. -/
theorem Numbered.revises (hb : b.Numbered) (hsound : ¬ c.FaultyOn b) :
    b.removeAll c.removed = (b.without c.removed, c.removed.eraseDups.length) ∧
      (b.without c.removed).replaceAll c.modified =
        ((b.without c.removed).revised c.modified, c.modified.length) ∧
      ((b.without c.removed).revised c.modified).Numbered := by
  have hremoves : ∀ id ∈ c.removed, (b.item? id).isSome := fun id hid =>
    item?_isSome_of_open fun hclosed => hsound (.removesClosed hid hclosed)
  -- what is modified is still there when the others are gone
  have hmodifies : ∀ i ∈ c.modified, ((b.without c.removed).item? i.id).isSome := fun i hi =>
    item?_without_isSome_iff.mpr
      ⟨item?_isSome_of_open fun hclosed => hsound (.modifiesClosed hi hclosed),
        fun hgone => hsound (.modifiesRemoved hi hgone)⟩
  have hremoved := removeAll_of_known hremoves
  have hkept := hb.removeAll c.removed
  rw [hremoved] at hkept
  have hreplaced := hkept.replaceAll_of_known hmodifies
  have hrevised := hkept.replaceAll c.modified
  rw [hreplaced] at hrevised
  exact ⟨hremoved, hreplaced, hrevised⟩

/-- **A changeset that is not faulty is carried out**, unless there are too few identifiers
left. -/
theorem Numbered.commit_carriesOut (hb : b.Numbered) (hsound : ¬ c.FaultyOn b) :
    (b.nextId.toNat + c.added.length < UInt64.size →
        ∃ outcome, b.commit c = .ok outcome ∧ outcome.CarriesOut c b) ∧
      (¬ b.nextId.toNat + c.added.length < UInt64.size → b.commit c = .error .overflow) := by
  have haccepted := rejection?_eq_none_iff.mpr hsound
  cases hempty : c.isEmpty with
  | true =>
      have huntouched : b.commit c = .ok .untouched := by
        simp only [Board.commit, haccepted, hempty, if_true]
        rfl
      refine ⟨fun _ => ⟨.untouched, huntouched, hb.carriesOut_untouched hempty⟩, fun hfull => ?_⟩
      rw [(Changeset.isEmpty_iff.mp hempty).1] at hfull
      exact absurd (UInt64.toNat_lt_size _) hfull
  | false =>
      obtain ⟨hremoved, hreplaced, hrevised⟩ := hb.revises hsound
      have hadd := hrevised.addAll_eq c.added
      have hcommit := commit_of_accepted haccepted hempty
      rw [hremoved, hreplaced] at hcommit
      constructor
      · intro hroom
        replace hadd := hadd.trans (if_pos hroom)
        rw [hadd] at hcommit
        exact ⟨_, hcommit, rfl, rfl, fun i hi => hb.fresh hroom hi, (hrevised.addAll hadd).1⟩
      · intro hfull
        rw [hadd.trans (if_neg hfull)] at hcommit
        exact hcommit

/-- **All or nothing.**  A changeset is rejected exactly when it is faulty, and the board stays
as it is then.  Otherwise it is carried out as a whole, unless there are too few identifiers
left for its drafts. -/
theorem commit_whole (b : Board) (c : Changeset) :
    ((∃ reason, b.commit c = .ok (.rejected reason) ∧
        (CommitOutcome.rejected reason).boardFrom b = b) ↔ c.FaultyOn b) ∧
      (b.Numbered → ¬ c.FaultyOn b →
        (b.nextId.toNat + c.added.length < UInt64.size →
          ∃ outcome, b.commit c = .ok outcome ∧ outcome.CarriesOut c b) ∧
        (¬ b.nextId.toNat + c.added.length < UInt64.size → b.commit c = .error .overflow)) := by
  constructor
  · rw [← commit_rejected_iff]
    exact exists_congr fun reason => and_iff_left rfl
  · exact fun hb hsound => hb.commit_carriesOut hsound

/-- A track of a millimetre on the top layer. -/
def shortTrack (width : UInt32) : Draft := .track ⟨⟨0, 0⟩, ⟨1000000, 0⟩⟩ width .top 1

/-- Two tracks on a board. -/
def twoShortTracks : Board := standard.extended [shortTrack 200000, shortTrack 250000]

/-- The first track is removed twice, the second one made wider twice, and another one added. -/
def rework : Changeset where
  added := [shortTrack 400000]
  modified := [(shortTrack 300000).withId 2, (shortTrack 350000).withId 2]
  removed := [1, 1]
  allowLocked := false

/-- What is modified counts as often as it is named, what is removed once, and the last width
stays. -/
theorem commit_whole_rework :
    twoShortTracks.Numbered ∧ ¬ rework.FaultyOn twoShortTracks ∧
      twoShortTracks.nextId.toNat + rework.added.length < UInt64.size ∧
      ∃ outcome, twoShortTracks.commit rework = .ok outcome ∧ outcome.report? = some ⟨[3], 2, 1⟩ ∧
        (outcome.boardFrom twoShortTracks).items =
          [(shortTrack 350000).withId 2, (shortTrack 400000).withId 3] := by
  have hadded : standard.addAll [shortTrack 200000, shortTrack 250000] =
      .ok (twoShortTracks, [1, 2]) := by rfl
  have hnumbered : twoShortTracks.Numbered :=
    ((numbered_ofFile (f := BoardFile.standard) rfl).addAll hadded).1
  have hsound : ¬ rework.FaultyOn twoShortTracks := rejection?_eq_none_iff.mp (by decide)
  have hroom : twoShortTracks.nextId.toNat + rework.added.length < UInt64.size := by decide
  obtain ⟨outcome, hcommit, hwhole⟩ :=
    ((commit_whole twoShortTracks rework).2 hnumbered hsound).1 hroom
  exact ⟨hnumbered, hsound, hroom, outcome, hcommit, hwhole.report.trans (by decide),
    (congrArg Board.items hwhole.board).trans (by decide)⟩

end Board

end CopperRoute
