import CopperRoute.Proofs.FreshHeads
import CopperRoute.Proofs.Numbering

/-!
# Drags that are true to the board

A drag remembers the items that it has grabbed, and displays an answer of the engine.  It is
**true to the board** when both fit it (`Drag.TrueTo`): the grabbed items are still there,
and what is displayed besides them is not there yet.

The board stays as it is while a drag goes on.  So a drag stays true to it when the engine
works on this board, and then so does every drag of a service (`Tool.serving_dragsTrue`).
-/

namespace CopperRoute

/-- **True to a board**: what was grabbed is on the board, what is displayed besides it is
not, and no identifier is displayed twice unless it was grabbed twice. -/
structure Drag.TrueTo (d : Drag) (b : Board) : Prop where
  grabbed : ∀ i ∈ d.grabbed, i ∈ b.items
  displayed : ∀ i ∈ d.displayed.modified, i ∉ d.grabbed → i ∉ b.items
  once : (d.grabbed.map Item.id).Nodup → (d.displayed.modified.map Item.id).Nodup

/-- Only one track follows for each one on the board. -/
theorem Board.Numbered.nodup_followers {b : Board} (hb : b.Numbered) (grabbed moved : List Item) :
    ((b.followers grabbed moved).map Item.id).Nodup := by
  have hunique : ((b.items.filter fun i => !(grabbed.map Item.id).contains i.id).map
      Item.id).Nodup := hb.unique.sublist (List.filter_sublist.map _)
  rw [List.Nodup, List.pairwise_map] at hunique ⊢
  apply List.pairwise_filterMap.mpr
  refine hunique.imp fun hother i hi j hj => ?_
  rw [Board.id_eq_of_stretched hi, Board.id_eq_of_stretched hj]
  exact hother

namespace Drag.TrueTo

variable {d d' : Drag} {b b' : Board}

/-- Only the items of the board matter. -/
theorem of_items (h : d.TrueTo b) (hitems : b'.items = b.items) : d.TrueTo b' :=
  ⟨hitems ▸ h.grabbed, hitems ▸ h.displayed, h.once⟩

/-- A drag is true to the board from which it has grabbed. -/
theorem of_grabbed (hgrabbed : ∀ i ∈ d.grabbed, i ∈ b.items)
    (hfresh : d.displayed.modified = d.grabbed) : d.TrueTo b :=
  ⟨hgrabbed, fun _ hi hother => absurd (hfresh ▸ hi) hother, fun hunique => hfresh ▸ hunique⟩

/-- **Moving** a drag on the board that the engine works on. -/
theorem moveTo {w : World} {p : Point} (hd : d.TrueTo b) (hb : b.Numbered)
    (hknown : ∀ b', w = some b' → b' = b) (h : d.moveTo w p = .ok (.ok d')) : d'.TrueTo b := by
  obtain ⟨hgrabbed, hbefore | ⟨b', delta, moved, hworld, hmoved, hdisplayed⟩⟩ := moveTo_answer h
  · refine ⟨hgrabbed ▸ hd.grabbed, ?_, ?_⟩
    · rw [hbefore, hgrabbed]
      exact hd.displayed
    · rw [hbefore, hgrabbed]
      exact hd.once
  · obtain rfl := hknown b' hworld
    refine ⟨hgrabbed ▸ hd.grabbed, fun i hi hother hthere => ?_, fun hunique => ?_⟩
    · -- an item of the board would be the one that it comes from
      rw [hgrabbed] at hother
      rw [hdisplayed] at hi
      rcases List.mem_append.mp hi with hi | hi
      · obtain ⟨j, hj, hji⟩ := mem_of_mapM hmoved hi
        have hsame := List.inj_on_of_nodup_map hb.unique hthere (hd.grabbed j hj)
          (id_eq_of_constrained hji)
        exact hother (hsame ▸ hj)
      · obtain ⟨j, hj, _, hji⟩ := Board.mem_followers.mp hi
        have hsame := List.inj_on_of_nodup_map hb.unique hthere hj (Board.id_eq_of_stretched hji)
        exact Board.ne_of_stretched hji hsame
    · rw [hgrabbed] at hunique
      have hids := map_eq_of_mapM (fun _ _ => id_eq_of_constrained) hmoved
      rw [hdisplayed, List.map_append, hids, List.nodup_append]
      refine ⟨hunique, hb.nodup_followers _ _, fun id hid id' hid' hsame => ?_⟩
      obtain ⟨i, hi, rfl⟩ := List.mem_map.mp hid'
      obtain ⟨j, _, hfree, hji⟩ := Board.mem_followers.mp hi
      rw [hsame, Board.id_eq_of_stretched hji] at hid
      exact hfree hid

/-- What it changes is not on the board yet. -/
theorem changes (h : d.TrueTo b) {allowLocked : Bool} {i : Item}
    (hi : i ∈ (d.changeset allowLocked).modified) : i ∉ b.items := by
  obtain ⟨hdisplayed, hother⟩ := List.mem_filter.mp hi
  exact h.displayed i hdisplayed (by simpa using hother)

/-- It changes no item twice, unless it has grabbed one twice. -/
theorem nodup_changes (h : d.TrueTo b) (allowLocked : Bool)
    (hgrabbed : (d.grabbed.map Item.id).Nodup) :
    ((d.changeset allowLocked).modified.map Item.id).Nodup :=
  (h.once hgrabbed).sublist (List.filter_sublist.map _)

end Drag.TrueTo

namespace Tool

variable {t t' : Tool} {c : Command} {refusal : Option CommandRefusal}

/-- The running drag is true to the board. -/
def DragsTrue (t : Tool) : Prop := ∀ op, t.session.drag? = some op → op.drag.TrueTo t.board

/-- What an idle tool drags. -/
theorem Orderly.dragsTrue_of_idle (horderly : t.Orderly) (hidle : t.session.isIdle = true) :
    t.DragsTrue := by
  intro op hop
  cases (Session.drag?_of_none (horderly.operation_of_idle hidle)).symm.trans hop

/-- A fix ends the drag, or leaves the board as it is. -/
theorem fixDrag_drag? (h : t.fixDrag = .ok t') :
    t'.session.drag? = none ∨ t'.board = t.board := by
  cases fixDrag_eq_ok h with
  | idle _ hsame => exact .inr (congrArg board hsame)
  | void _ _ hended | committed _ _ _ hended =>
      rw [hended]
      exact .inl (Session.drag?_of_none (Session.operation_finished _ _))
  | refused _ _ hcommit hresumed =>
      rw [hresumed, (commit_refused hcommit).1]
      exact .inr rfl

/-- **The board stays as it is** while a drag goes on, but for its design settings. -/
theorem board_of_dragging {op op' : DragOp} (horderly : t.Orderly)
    (hop : t.session.drag? = some op) (hop' : t'.session.drag? = some op')
    (h : t.execute c = .ok (t', refusal)) :
    t'.board = { t.board with design := t'.board.design } := by
  have hbusy (hidle : t.session.isIdle = true) : False := by
    cases (Session.drag?_of_none (horderly.operation_of_idle hidle)).symm.trans hop
  cases (execute_changes horderly h).boards.way with
  | kept hboard | loaded hboard | unloaded hboard => rw [hboard]
  | committed hcommits =>
      cases hcommits with
      | staged hroute | finished hroute => cases (Session.drag?_of_route hroute).symm.trans hop
      | dragged =>
          rcases fixDrag_drag? (Checked.of_tagged h) with hnone | hboard
          · cases hnone.symm.trans hop'
          · rw [hboard]
      | broken _ hidle => exact absurd hidle hbusy
  | undone _ _ _ hidle | redone _ _ _ hidle => exact absurd hidle hbusy

theorem items_of_dragging {op op' : DragOp} (horderly : t.Orderly)
    (hop : t.session.drag? = some op) (hop' : t'.session.drag? = some op')
    (h : t.execute c = .ok (t', refusal)) : t'.board.items = t.board.items := by
  rw [board_of_dragging horderly hop hop' h]

/-- A command keeps drags true to the board when the engine knows no other one. -/
theorem execute_dragsTrue (horderly : t.Orderly) (hb : t.board.Numbered)
    (hknown : ∀ b, t.world = some b → b = t.board) (ht : t.DragsTrue)
    (h : t.execute c = .ok (t', refusal)) : t'.DragsTrue := by
  intro op' hop'
  cases (execute_changes horderly h).drags op' hop' with
  | began hgrabbed hfresh => exact .of_grabbed hgrabbed hfresh
  | kept hop hsame =>
      rw [hsame]
      exact (ht _ hop).of_items (items_of_dragging horderly hop hop' h)
  | moved hop hmove =>
      exact ((ht _ hop).moveTo hb hknown hmove).of_items (items_of_dragging horderly hop hop' h)

/-- **All drags are true to the board** when the engine knows no other one at first. -/
theorem serving_dragsTrue {board : Board} (hboard : board.Numbered) {world : World}
    (hknown : ∀ b, world = some b → b = board) (options : Options) (rules : RuleSet)
    (search : TreeSearch) (confirms : Bool) (os : List Occasion) :
    (new board world options rules search confirms).Serving
    (Avoids fun t _ => ¬ t.DragsTrue) os := by
  refine serving_avoids_of_kept (J := WellNumbered) (I := fun t => t.Informed ∧ t.DragsTrue)
    (fun _ ht => ht.orderly)
    (fun t o ht hinformed =>
      ⟨ht.prompted o, ⟨hinformed.1.known, hinformed.1.attached⟩, hinformed.2⟩)
    (fun t k t' => turn_wellNumbered) (fun t c u refusal hc ht hinformed hhandle => ?_)
    (fun t ht hidle hworld => ?_) (fun t c _ _ ht => not_not_intro ht.2)
    (fun t c _ ht hidle => not_not_intro (ht.orderly.dragsTrue_of_idle hidle))
    (wellNumbered_new hboard world options rules search confirms)
    ⟨⟨hknown, fun op hop => by cases hop⟩, fun op hop => by cases hop⟩ os
  · have hlogged := ht.orderly.logged c
    refine ⟨Informed.executed hlogged ⟨hinformed.1.known, hinformed.1.attached⟩ hc hhandle, ?_⟩
    exact execute_dragsTrue hlogged ht.board hinformed.1.known hinformed.2 hhandle
  · exact ⟨ht.orderly.informed_of_idle hidle hworld, ht.orderly.dragsTrue_of_idle hidle⟩

end Tool

end CopperRoute
