import CopperRoute.Proofs.Numbering
import Mathlib.Data.List.Nodup
import Mathlib.Data.List.Perm.Subperm

/-!
# What differs between two boards

Compared with an earlier board, a board has new items, and items that it **replaced**: the
identifier was there before, but not this item (`Board.newcomers`, `Board.replaced`).  The
items that are gone are new the other way around.

The report of a commit is made from its changeset, and counts what differs between the two
boards only if the changeset names each of its items once, and none as it already is
(`Changeset.Distinct`).  For changesets that remove nothing this is also necessary
(`Board.Numbered.counts_iff`).
-/

namespace CopperRoute

namespace Board

/-- The items of `b'` whose identifiers `b` does not know. -/
def newcomers (b b' : Board) : List Item := b'.items.filter fun i => (b.item? i.id).isNone

/-- The items of `b'` whose identifiers `b` knows, but with other items. -/
def replaced (b b' : Board) : List Item :=
  b'.items.filter fun i => (b.item? i.id).isSome && !b.items.contains i

theorem mem_newcomers {b b' : Board} {i : Item} :
    i ∈ b.newcomers b' ↔ i ∈ b'.items ∧ i.id ∉ b.items.map Item.id := by
  rw [newcomers, List.mem_filter, ← item?_isSome_iff, Option.isNone_iff_eq_none,
    Option.not_isSome_iff_eq_none]

theorem mem_replaced {b b' : Board} {i : Item} :
    i ∈ b.replaced b' ↔ i ∈ b'.items ∧ i.id ∈ b.items.map Item.id ∧ i ∉ b.items := by
  rw [replaced, List.mem_filter, ← item?_isSome_iff]
  simp

/-- With the same items none is new. -/
theorem newcomers_of_items {b b' : Board} (h : b'.items = b.items) : b.newcomers b' = [] := by
  rw [List.eq_nil_iff_forall_not_mem]
  intro i hi
  obtain ⟨hthere, hnew⟩ := mem_newcomers.mp hi
  rw [h] at hthere
  exact hnew (List.mem_map_of_mem hthere)

/-- What a commit reports are the lengths of its steps. -/
theorem commit_report {b b' : Board} {c : Changeset} {report : CommitReport}
    (h : b.commit c = .ok (.applied b' report)) :
    report.removed = (b.removeAll c.removed).2 ∧
      report.modified = ((b.removeAll c.removed).1.replaceAll c.modified).2 := by
  unfold commit at h
  split at h
  · cases h
  · split at h
    · cases h
    · obtain ⟨⟨b'', ids⟩, _, h⟩ := Checked.bind_eq_ok.mp h
      cases h
      exact ⟨rfl, rfl⟩

/-- Items that the board has are all replaced. -/
theorem count_replaceAll {b : Board} {items : List Item}
    (hknown : ∀ i ∈ items, (b.item? i.id).isSome) : (b.replaceAll items).2 = items.length := by
  induction items using List.reverseRecOn with
  | nil => rfl
  | append_singleton items i ih =>
      have hothers : ∀ j ∈ items, (b.item? j.id).isSome := fun j hj =>
        hknown j (List.mem_append_left _ hj)
      have hi : ((b.replaceAll items).1.item? i.id).isSome := by
        rw [item?_isSome_iff, (items_replaceAll hothers).2, ← item?_isSome_iff]
        exact hknown i (List.mem_append_right _ (List.mem_singleton_self i))
      have hcount := ih hothers
      rw [replaceAll, List.foldl_append, ← replaceAll]
      generalize b.replaceAll items = sofar at hi hcount
      simp only [List.foldl_cons, List.foldl_nil, replace?, hi, if_true, List.length_append,
        List.length_singleton, hcount]

theorem nextId_replaceAll (b : Board) (items : List Item) :
    (b.replaceAll items).1.nextId = b.nextId := by
  refine List.foldlRecOn (motive := fun s : Board × Nat => s.1.nextId = b.nextId) items _ rfl ?_
  rintro ⟨b₁, n⟩ hsame i _
  simp only
  split
  · next b₂ hreplaced =>
      unfold replace? at hreplaced
      split at hreplaced
      · cases hreplaced
        exact hsame
      · cases hreplaced
  · exact hsame

theorem length_numberFrom (id : ItemId) (ds : List Draft) :
    (numberFrom id ds).length = ds.length := by
  rw [numberFrom, List.length_mapIdx]

/-- **The items behind a commit** that removes nothing: those from before with the modified
ones put in their places, and the new ones. -/
structure Extends (b b' : Board) (c : Changeset) : Prop where
  items : b'.items =
    (c.modified.foldl (fun acc i => Keyed.put Item.id i acc) b.items) ++
      numberFrom b.nextId c.added
  ids : (c.modified.foldl (fun acc i => Keyed.put Item.id i acc) b.items).map Item.id =
    b.items.map Item.id
  unique : (b'.items.map Item.id).Nodup
  known : ∀ i ∈ c.modified, i.id ∈ b.items.map Item.id

variable {b b' : Board} {c : Changeset} {report : CommitReport}

theorem Numbered.commit_extends (hb : b.Numbered) (hremoved : c.removed = [])
    (h : b.commit c = .ok (.applied b' report)) : b.Extends b' c := by
  obtain ⟨haccepted, hadd⟩ := commit_eq_applied h
  have hknown := item?_isSome_of_accepted haccepted
  obtain ⟨hput, hids⟩ := items_replaceAll hknown
  rw [hremoved] at hadd
  obtain ⟨_, _, hlast⟩ := (hb.replaceAll c.modified).addAll hadd
  have hitems := congrArg Board.items hlast
  rw [nextId_replaceAll] at hitems
  refine ⟨?_, hput ▸ hids, (hb.commit h).unique, fun i hi => item?_isSome_iff.mp (hknown i hi)⟩
  rw [← hput]
  exact hitems

namespace Extends

variable {i : Item}

/-- The new items have new identifiers. -/
theorem fresh (h : b.Extends b' c) (hi : i ∈ numberFrom b.nextId c.added) :
    i.id ∉ b.items.map Item.id := by
  intro hold
  have hunique := h.unique
  rw [h.items, List.map_append, h.ids] at hunique
  exact (List.nodup_append.mp hunique).2.2 _ hold _ (List.mem_map_of_mem hi) rfl

theorem newcomers_eq (h : b.Extends b' c) : b.newcomers b' = numberFrom b.nextId c.added := by
  rw [newcomers, h.items, List.filter_append, List.filter_eq_nil_iff.mpr, List.nil_append,
    List.filter_eq_self]
  · intro i hi
    rw [Option.isNone_iff_eq_none, ← Option.not_isSome_iff_eq_none, item?_isSome_iff]
    exact h.fresh hi
  · intro i hi
    rw [Option.isNone_iff_eq_none, ← Option.not_isSome_iff_eq_none, item?_isSome_iff, not_not,
      ← h.ids]
    exact List.mem_map_of_mem hi

/-- No item is gone. -/
theorem vanished_eq (h : b.Extends b' c) : b'.newcomers b = [] := by
  rw [List.eq_nil_iff_forall_not_mem]
  intro i hi
  obtain ⟨hthere, hgone⟩ := mem_newcomers.mp hi
  refine hgone ?_
  rw [h.items, List.map_append, h.ids]
  exact List.mem_append_left _ (List.mem_map_of_mem hthere)

/-- Only modified items replace others. -/
theorem replaced_subset (h : b.Extends b' c) : b.replaced b' ⊆ c.modified := by
  intro i hi
  obtain ⟨hthere, hknown, hother⟩ := mem_replaced.mp hi
  rw [h.items] at hthere
  rcases List.mem_append.mp hthere with hkept | hnew
  · exact (Keyed.mem_of_mem_foldl_put hkept).resolve_right hother
  · exact absurd hknown (h.fresh hnew)

theorem nodup_replaced (h : b.Extends b' c) : (b.replaced b').Nodup :=
  (List.Nodup.of_map _ h.unique).filter _

end Extends

end Board

/-- **The report counts what differs** between the two boards. -/
structure CommitReport.Counts (report : CommitReport) (b b' : Board) : Prop where
  added : report.added.length = (b.newcomers b').length
  modified : report.modified = (b.replaced b').length
  removed : report.removed = (b'.newcomers b).length

/-- **A distinct changeset** modifies each item once, and none to what it already is. -/
structure Changeset.Distinct (c : Changeset) (b : Board) : Prop where
  once : (c.modified.map Item.id).Nodup
  other : ∀ i ∈ c.modified, i ∉ b.items

/-- A changeset that modifies nothing is distinct. -/
theorem Changeset.distinct_of_nil {c : Changeset} (b : Board) (h : c.modified = []) :
    c.Distinct b := by
  constructor
  · rw [h]
    exact List.nodup_nil
  · rw [h]
    exact nofun

namespace Board

variable {b b' : Board} {c : Changeset} {report : CommitReport}

/-- All modified items of a distinct changeset replace others. -/
theorem Extends.modified_subset (h : b.Extends b' c) (hc : c.Distinct b) :
    c.modified ⊆ b.replaced b' := by
  intro i hi
  refine mem_replaced.mpr ⟨?_, h.known i hi, hc.other i hi⟩
  rw [h.items]
  refine List.mem_append_left _ (Keyed.mem_foldl_put (.inl hi) fun j hj hid => ?_)
  exact List.inj_on_of_nodup_map hc.once hj hi hid

/-- **As many items are replaced as modified** exactly when the changeset is distinct. -/
theorem Extends.length_replaced_iff (h : b.Extends b' c) :
    c.modified.length = (b.replaced b').length ↔ c.Distinct b := by
  have hfew := List.subperm_of_subset h.nodup_replaced h.replaced_subset
  constructor
  · intro hlength
    have hperm := hfew.perm_of_length_le (Nat.le_of_eq hlength)
    refine ⟨?_, fun i hi => (mem_replaced.mp (hperm.mem_iff.mpr hi)).2.2⟩
    have hunique : ((b.replaced b').map Item.id).Nodup :=
      h.unique.sublist (List.filter_sublist.map _)
    exact (hperm.map Item.id).nodup_iff.mp hunique
  · intro hc
    have hnodup : c.modified.Nodup := List.Nodup.of_map _ hc.once
    have hmany := List.subperm_of_subset hnodup (h.modified_subset hc)
    exact Nat.le_antisymm hmany.length_le hfew.length_le

/-- **A report is right** exactly when its changeset is distinct. -/
theorem Numbered.counts_iff (hb : b.Numbered) (hremoved : c.removed = [])
    (h : b.commit c = .ok (.applied b' report)) : report.Counts b b' ↔ c.Distinct b := by
  have hextends := hb.commit_extends hremoved h
  obtain ⟨hgone, hmodified⟩ := commit_report h
  have haccepted := (commit_eq_applied h).1
  have hadded := length_addAll (commit_eq_applied h).2
  rw [hremoved] at hgone hmodified
  replace hmodified := hmodified.trans (count_replaceAll (item?_isSome_of_accepted haccepted))
  rw [← hextends.length_replaced_iff, ← hmodified]
  refine ⟨fun hcounts => hcounts.modified, fun hcount => ⟨?_, hcount, ?_⟩⟩
  · rw [hadded, hextends.newcomers_eq, length_numberFrom]
  · rw [hgone, hextends.vanished_eq]
    rfl

/-- **A distinct changeset makes a difference**, unless it is empty. -/
theorem Extends.differs (h : b.Extends b' c) (hremoved : c.removed = []) (hc : c.Distinct b)
    (hsome : c.isEmpty = false) : 0 < (b.newcomers b').length + (b.replaced b').length := by
  rw [h.newcomers_eq, length_numberFrom, ← h.length_replaced_iff.mpr hc]
  by_contra hnone
  have hadded : c.added = [] := List.length_eq_zero_iff.mp (by omega)
  have hmodified : c.modified = [] := List.length_eq_zero_iff.mp (by omega)
  rw [Changeset.isEmpty, hadded, hmodified, hremoved] at hsome
  cases hsome

/-- **A changeset that brings something new** changes the items, even when it modifies one
twice. -/
theorem Extends.items_ne (h : b.Extends b' c) (hremoved : c.removed = [])
    (hother : ∀ i ∈ c.modified, i ∉ b.items) (hsome : c.isEmpty = false) :
    b'.items ≠ b.items := by
  intro hsame
  have hnone := newcomers_of_items hsame
  rw [h.newcomers_eq, ← List.length_eq_zero_iff, length_numberFrom,
    List.length_eq_zero_iff] at hnone
  rcases c.modified.eq_nil_or_concat with hnil | ⟨sofar, last, hlast⟩
  · rw [Changeset.isEmpty, hnone, hnil, hremoved] at hsome
    cases hsome
  · -- the item that is modified last is there afterwards
    rw [List.concat_eq_append] at hlast
    have hthere : last ∈ b'.items := by
      rw [h.items, hlast, List.foldl_append]
      exact List.mem_append_left _ (Keyed.mem_put_self Item.id last _)
    rw [hsame] at hthere
    refine hother last ?_ hthere
    rw [hlast]
    exact List.mem_append_right _ (List.mem_singleton_self last)

end Board

end CopperRoute
