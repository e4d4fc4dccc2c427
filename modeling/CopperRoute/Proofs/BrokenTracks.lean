import CopperRoute.Proofs.WholeCommits

/-!
# What becomes of a broken track

A broken track leaves two halves on the board.  The first one is the item that the track was, with
another end; the second one comes as a draft, and a draft knows its net and its layers, but neither
a lock nor a footprint.

So the halves make up the track, in its width, on its net and layers, and all other copper is left
alone (`Board.BreaksInto`).  But the second half is never locked and never part of a footprint,
and the break loses nothing exactly when the track was neither (`Board.break_losesNothing_iff`).
A locked track that is broken, once that is confirmed, is locked no further than to the break.
-/

namespace CopperRoute

/-- **One item takes after another**: it has the same net, layers, lock and footprint. -/
structure Item.TakesAfter (i j : Item) : Prop where
  net : i.net = j.net
  layers : i.layers = j.layers
  locked : i.locked = j.locked
  parent : i.parent = j.parent

/-- **The halves of a track**: one from its start to a point inside, and one from there to its end,
both as wide as the track. -/
structure Item.Halves (whole first second : Item) (middle : Point) : Prop where
  parts : ∃ axis width, whole.shape = .segment axis width ∧
    first.shape = .segment ⟨axis.start, middle⟩ width ∧
    second.shape = .segment ⟨middle, axis.stop⟩ width ∧
    middle ≠ axis.start ∧ middle ≠ axis.stop

/-- **A board is left with two halves of one item**, the first in its place and the second behind
all others, and is otherwise the same. -/
structure Board.BreaksInto (b b' : Board) (whole first second : Item) : Prop where
  replaced : ∃ before after, b.items = before ++ whole :: after ∧
    b'.items = before ++ first :: after ++ [second]
  kept : first.id = whole.id
  fresh : b.item? second.id = none
  rest : b' = { b with items := b'.items, nextId := b.nextId + 1 }

/-- **A break loses nothing**: the halves make up the track, and both take after it. -/
def Board.LosesNothing (b b' : Board) (id : ItemId) : Prop :=
  ∃ whole first second middle, whole.id = id ∧ b.BreaksInto b' whole first second ∧
    whole.Halves first second middle ∧ first.TakesAfter whole ∧ second.TakesAfter whole

namespace Board

variable {b b' : Board}

/-- What stands before and behind an item has other identifiers. -/
theorem Numbered.id_ne (hb : b.Numbered) {before after : List Item} {i k : Item}
    (hitems : b.items = before ++ i :: after) (hk : k ∈ before ++ after) : k.id ≠ i.id := by
  have hunique := hb.unique
  rw [hitems, List.map_append, List.map_cons, List.nodup_middle, List.nodup_cons,
    ← List.map_append] at hunique
  intro hsame
  exact hunique.1 (hsame ▸ List.mem_map_of_mem hk)

/-- One item takes the place of another, and the others stay. -/
theorem Numbered.revised_singleton (hb : b.Numbered) {before after : List Item} {i j : Item}
    (hitems : b.items = before ++ i :: after) (hid : j.id = i.id) :
    (b.revised [j]).items = before ++ j :: after := by
  have hkept : ∀ k ∈ before ++ after, (Keyed.find? Item.id k.id [j].reverse).getD k = k := by
    intro k hk
    have hother : j.id ≠ k.id := hid ▸ (hb.id_ne hitems hk).symm
    simp [Keyed.find?, hother]
  have hbefore := List.map_congr_left fun k hk => hkept k (List.mem_append_left after hk)
  have hafter := List.map_congr_left fun k hk => hkept k (List.mem_append_right before hk)
  rw [List.map_id'] at hbefore hafter
  simp only [revised, hitems, List.map_append, List.map_cons, hbefore, hafter]
  simp [Keyed.find?, hid]

namespace BreaksInto

variable {whole first second whole' first' second' : Item}

theorem mem (h : b.BreaksInto b' whole first second) : whole ∈ b.items := by
  obtain ⟨before, after, hitems, _⟩ := h.replaced
  rw [hitems]
  exact List.mem_append_right before List.mem_cons_self

theorem whole_unique (h : b.BreaksInto b' whole first second) (hb : b.Numbered)
    (h' : b.BreaksInto b' whole' first' second') (hid : whole.id = whole'.id) :
    whole = whole' :=
  List.inj_on_of_nodup_map hb.unique h.mem h'.mem hid

theorem second_unique (h : b.BreaksInto b' whole first second)
    (h' : b.BreaksInto b' whole' first' second') : second = second' := by
  obtain ⟨before, after, _, hitems⟩ := h.replaced
  obtain ⟨before', after', _, hitems'⟩ := h'.replaced
  obtain ⟨_, hlast⟩ := List.append_inj' (hitems.symm.trans hitems') rfl
  exact List.singleton_inj.mp hlast

/-- The track is known by its identifier, and its second half by its place. -/
theorem takesAfter_of_losesNothing (h : b.BreaksInto b' whole first second) (hb : b.Numbered)
    {id : ItemId} (hid : whole.id = id) (hkept : b.LosesNothing b' id) :
    second.TakesAfter whole := by
  obtain ⟨whole', first', second', _, hid', h', _, _, htakes⟩ := hkept
  have hsame : whole' = whole := h'.whole_unique hb h (hid'.trans hid.symm)
  have hlast : second' = second := h'.second_unique h
  rwa [hsame, hlast] at htakes

end BreaksInto

/-- What is applied is carried out as a whole. -/
theorem Numbered.carriesOut_applied (hb : b.Numbered) {c : Changeset} {report : CommitReport}
    (hcommit : b.commit c = .ok (.applied b' report)) :
    (CommitOutcome.applied b' report).CarriesOut c b := by
  have hsound : ¬ c.FaultyOn b := by
    intro hfaulty
    obtain ⟨reason, hrejected⟩ := commit_rejected_iff.mpr hfaulty
    cases hcommit.symm.trans hrejected
  obtain ⟨hroom, hfull⟩ := hb.commit_carriesOut hsound
  by_cases h : b.nextId.toNat + c.added.length < UInt64.size
  · obtain ⟨outcome, houtcome, hcarried⟩ := hroom h
    cases hcommit.symm.trans houtcome
    exact hcarried
  · cases hcommit.symm.trans (hfull h)

/-- A commit that revises one item and adds one leaves both. -/
theorem Numbered.breaksInto_of_commit (hb : b.Numbered) {whole first : Item} {d : Draft}
    {allowLocked : Bool} {report : CommitReport} (hwhole : whole ∈ b.items)
    (hid : first.id = whole.id)
    (hcommit : b.commit { added := [d], modified := [first], removed := [], allowLocked } =
      .ok (.applied b' report)) : b.BreaksInto b' whole first (d.withId b.nextId) := by
  obtain ⟨before, after, hitems⟩ := List.append_of_mem hwhole
  have hcarried := hb.carriesOut_applied hcommit
  have hboard : b' = (b.revised [first]).extended [d] := by
    have hwithout : b.without [] = b := by simp [without]
    exact hwithout ▸ hcarried.board
  have hitems' : b'.items = before ++ first :: after ++ [d.withId b.nextId] := by
    rw [hboard, extended, hb.revised_singleton hitems hid]
    simp [revised]
  refine ⟨⟨before, after, hitems, hitems'⟩, hid, ?_, ?_⟩
  · exact hcarried.fresh _ (by simp)
  · rw [hboard]
    rfl

/-- **What a committed break leaves** of a track. -/
theorem Numbered.breaksInto (hb : b.Numbered) {id : ItemId} {p : Point} {allowLocked : Bool}
    {c : Changeset} {report : CommitReport}
    (hsplit : b.splitSegment id p allowLocked = .ok (some c))
    (hcommit : b.commit c = .ok (.applied b' report)) :
    ∃ whole first second middle, whole.id = id ∧ b.BreaksInto b' whole first second ∧
      whole.Halves first second middle ∧ first.TakesAfter whole ∧
      second = ⟨b.nextId, second.shape, whole.net, whole.layers, false, none⟩ := by
  obtain ⟨whole, axis, width, middle, hwhole, hshape, _, hstart, hstop, rfl⟩ :=
    splitSegment_eq_some hsplit
  have hid : whole.id = id := by simpa using List.find?_some hwhole
  have hbreaks : b.BreaksInto b' whole { whole with shape := .segment ⟨axis.start, middle⟩ width }
      _ := hb.breaksInto_of_commit (List.mem_of_find?_eq_some hwhole) rfl hcommit
  exact ⟨whole, _, _, middle, hid, hbreaks, ⟨axis, width, hshape, rfl, rfl, hstart, hstop⟩,
    ⟨rfl, rfl, rfl, rfl⟩, rfl⟩

/-- **What a break loses.**  The halves make up the track, the first one takes after it, and the
second one has its net and its layers.  But that one is free and belongs to no footprint, so nothing
is lost exactly when the track itself was free and belonged to none. -/
theorem break_losesNothing_iff (hb : b.Numbered) {id : ItemId} {p : Point} {allowLocked : Bool}
    {c : Changeset} {report : CommitReport}
    (hsplit : b.splitSegment id p allowLocked = .ok (some c))
    (hcommit : b.commit c = .ok (.applied b' report)) :
    ∃ whole first second middle, whole.id = id ∧ b.BreaksInto b' whole first second ∧
      b'.items.length = b.items.length + 1 ∧ whole.Halves first second middle ∧
      first.TakesAfter whole ∧ second.net = whole.net ∧ second.layers = whole.layers ∧
      second.locked = false ∧ second.parent = none ∧
      (b.LosesNothing b' id ↔ whole.locked = false ∧ whole.parent = none) := by
  obtain ⟨whole, first, second, middle, hid, hbreaks, hhalves, hfirst, hsecond⟩ :=
    hb.breaksInto hsplit hcommit
  obtain ⟨before, after, hitems, hitems'⟩ := hbreaks.replaced
  have hcount : b'.items.length = b.items.length + 1 := by
    simp only [hitems, hitems', List.length_append, List.length_cons, List.length_nil]
  refine ⟨whole, first, second, middle, hid, hbreaks, hcount, hhalves, hfirst, ?_, ?_, ?_, ?_,
    fun hkept => ?_, fun ⟨hlocked, hparent⟩ => ?_⟩
  · rw [hsecond]
  · rw [hsecond]
  · rw [hsecond]
  · rw [hsecond]
  · have htakes := hbreaks.takesAfter_of_losesNothing hb hid hkept
    rw [← htakes.locked, ← htakes.parent, hsecond]
    exact ⟨rfl, rfl⟩
  · refine ⟨whole, first, second, middle, hid, hbreaks, hhalves, hfirst, ?_, ?_, ?_, ?_⟩
    · rw [hsecond]
    · rw [hsecond]
    · rw [hsecond, hlocked]
    · rw [hsecond, hparent]

/-- The changes that break a short track in two, at 0.4 mm. -/
def breaking (track : Item) (allowLocked : Bool) : Changeset where
  added := [.track ⟨⟨400000, 0⟩, ⟨1000000, 0⟩⟩ 200000 .top 1]
  modified := [{ track with shape := .segment ⟨⟨0, 0⟩, ⟨400000, 0⟩⟩ 200000 }]
  removed := []
  allowLocked := allowLocked

theorem twoShortTracks_numbered : twoShortTracks.Numbered := by
  have hadded : standard.addAll [shortTrack 200000, shortTrack 250000] =
      .ok (twoShortTracks, [1, 2]) := by rfl
  exact ((numbered_ofFile (f := BoardFile.standard) rfl).addAll hadded).1

/-- A free track that is broken loses nothing, wherever beside it the break is asked for. -/
theorem break_losesNothing_iff_free :
    twoShortTracks.Numbered ∧
      twoShortTracks.splitSegment 1 ⟨400000, 30000⟩ false =
        .ok (some (breaking ((shortTrack 200000).withId 1) false)) ∧
      ∃ b' report, twoShortTracks.commit (breaking ((shortTrack 200000).withId 1) false) =
        .ok (.applied b' report) ∧ twoShortTracks.LosesNothing b' 1 := by
  have hsplit : twoShortTracks.splitSegment 1 ⟨400000, 30000⟩ false =
      .ok (some (breaking ((shortTrack 200000).withId 1) false)) := by decide +kernel
  obtain ⟨b', report, hcommit⟩ : ∃ b' report,
      twoShortTracks.commit (breaking ((shortTrack 200000).withId 1) false) =
        .ok (.applied b' report) := ⟨_, _, rfl⟩
  have hfree : ∀ i ∈ twoShortTracks.items, i.locked = false ∧ i.parent = none := by decide
  obtain ⟨whole, first, second, middle, _, hbreaks, _, _, _, _, _, _, _, hkept⟩ :=
    break_losesNothing_iff twoShortTracks_numbered hsplit hcommit
  exact ⟨twoShortTracks_numbered, hsplit, b', report, hcommit,
    hkept.mpr (hfree whole hbreaks.mem)⟩

/-- A locked track of the default width. -/
def lockedTrack : Item := { (shortTrack 200000).withId 1 with locked := true }

/-- The same two tracks, the first of them locked. -/
def firstLocked : Board := twoShortTracks.revised [lockedTrack]

/-- **A locked track that is broken, as confirmed, is half free.** -/
theorem not_break_losesNothing :
    firstLocked.Numbered ∧
      firstLocked.splitSegment 1 ⟨400000, 30000⟩ true = .ok (some (breaking lockedTrack true)) ∧
      ∃ b' report, firstLocked.commit (breaking lockedTrack true) = .ok (.applied b' report) ∧
        ¬ firstLocked.LosesNothing b' 1 := by
  have hnumbered : firstLocked.Numbered := twoShortTracks_numbered.replaceAll [lockedTrack]
  have hsplit : firstLocked.splitSegment 1 ⟨400000, 30000⟩ true =
      .ok (some (breaking lockedTrack true)) := by decide +kernel
  obtain ⟨b', report, hcommit⟩ : ∃ b' report,
      firstLocked.commit (breaking lockedTrack true) = .ok (.applied b' report) := ⟨_, _, rfl⟩
  have hlocked : ∀ i ∈ firstLocked.items, i.id = 1 → i.locked = true := by decide
  refine ⟨hnumbered, hsplit, b', report, hcommit, fun hkept => ?_⟩
  obtain ⟨whole, first, second, _, hid, hbreaks, _, _, hsecond⟩ :=
    hnumbered.breaksInto hsplit hcommit
  have htakes := hbreaks.takesAfter_of_losesNothing hnumbered hid hkept
  rw [hsecond] at htakes
  cases htakes.locked.trans (hlocked whole hbreaks.mem hid)

end Board

end CopperRoute
