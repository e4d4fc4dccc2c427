import CopperRoute.Drag.Motion
import CopperRoute.Proofs.Runs
import Mathlib.Data.List.Induction

/-!
# Drags without drift

A drag computes a move from what it has grabbed and from the target.  But not every move is
computed: the drag keeps the target of its last answer, and when the pointer comes there again, it
goes on displaying that answer.  A move without a solution does not touch what is kept.

So a drag is what it was at its beginning, or it displays the answer to one target and is otherwise
what it was (`Drag.Continues`).  What it would not compute again is what it would compute, and so
every move ends as it would have ended at the beginning (`Drag.Continues.moveWith_eq`).  Moves do
not add up: what is displayed behind many of them is the answer to the last one that had a
solution (`Drag.start_driftless`).

All this holds for any engine that answers the same question in the same way.
-/

namespace CopperRoute.Drag

variable {engine : DragSolver} {d₀ d d' : Drag} {p : Point} {ps : List Point}

/-- The drag behind moves to these targets, one after another.  A move without a solution leaves
it as it is. -/
def visit (d : Drag) (engine : DragSolver) : List Point → Checked Drag
  | [] => .ok d
  | p :: ps => do
    match ← d.moveWith engine p with
    | .ok d' => d'.visit engine ps
    | .error _ => d.visit engine ps

theorem visit_cons_of_ok (h : d.moveWith engine p = .ok (.ok d')) :
    d.visit engine (p :: ps) = d'.visit engine ps := by
  rw [visit, h]
  rfl

theorem visit_cons_of_error {e : RouterError} (h : d.moveWith engine p = .ok (.error e)) :
    d.visit engine (p :: ps) = d.visit engine ps := by
  rw [visit, h]
  rfl

/-- Moves behind moves. -/
theorem visit_append (d : Drag) (ps qs : List Point) :
    d.visit engine (ps ++ qs) = (do (← d.visit engine ps).visit engine qs) := by
  induction ps generalizing d with
  | nil => rfl
  | cons p ps ih =>
      cases hmove : d.moveWith engine p with
      | error fault => simp only [List.cons_append, visit, hmove, bind, Except.bind]
      | ok outcome =>
          cases outcome with
          | ok d' => rw [List.cons_append, visit_cons_of_ok hmove, visit_cons_of_ok hmove, ih]
          | error e =>
              rw [List.cons_append, visit_cons_of_error hmove, visit_cons_of_error hmove, ih]

/-- The drag when it displays the answer to this target. -/
def showing (d : Drag) (target : Point) (geometry : DragGeometry) : Drag :=
  { d with displayed := geometry, lastTarget := some target }

/-- **What becomes of a drag** that is moved: it is as it began, or displays the answer to one
target and is as it began otherwise. -/
inductive Continues (engine : DragSolver) (d₀ : Drag) : Drag → Prop
  | begun : Continues engine d₀ d₀
  | answered {target : Point} {geometry : DragGeometry}
      (h : d₀.solve engine target = .ok (.ok geometry)) :
      Continues engine d₀ (d₀.showing target geometry)

/-- A drag without a last target computes every move. -/
theorem moveWith_of_none (hfresh : d₀.lastTarget = none) (p : Point) :
    d₀.moveWith engine p = (do
      match ← d₀.solve engine p with
      | .ok geometry => return .ok (d₀.showing p geometry)
      | .error _ => return .error .noGeometricSolution) := by
  rw [moveWith, hfresh, if_neg nofun]
  rfl

theorem moveWith_of_solved {geometry : DragGeometry} (hfresh : d₀.lastTarget = none)
    (h : d₀.solve engine p = .ok (.ok geometry)) :
    d₀.moveWith engine p = .ok (.ok (d₀.showing p geometry)) := by
  rw [moveWith_of_none hfresh, h]
  rfl

theorem moveWith_of_unsolved {failure : EngineFailure} (hfresh : d₀.lastTarget = none)
    (h : d₀.solve engine p = .ok (.error failure)) :
    d₀.moveWith engine p = .ok (.error .noGeometricSolution) := by
  rw [moveWith_of_none hfresh, h]
  rfl

theorem moveWith_of_fault {fault : Fault} (hfresh : d₀.lastTarget = none)
    (h : d₀.solve engine p = .error fault) : d₀.moveWith engine p = .error fault := by
  rw [moveWith_of_none hfresh, h]
  rfl

namespace Continues

/-- **Every move ends as it would have ended at the beginning.** -/
theorem moveWith_eq (h : Continues engine d₀ d) (hfresh : d₀.lastTarget = none) (p : Point) :
    d.moveWith engine p = d₀.moveWith engine p := by
  cases h with
  | begun => rfl
  | @answered target geometry hanswer =>
      by_cases htarget : target = p
      · -- nothing is computed, and what is kept is what would be
        subst htarget
        rw [moveWith_of_solved hfresh hanswer, moveWith, showing, if_pos rfl]
        rfl
      · have hother : some target ≠ some p := fun hsame => htarget (Option.some.inj hsame)
        rw [moveWith_of_none hfresh, moveWith, showing, if_neg hother]
        rfl

/-- Where a move that has a solution leads to. -/
theorem moveWith_of_solved {geometry : DragGeometry} (h : Continues engine d₀ d)
    (hfresh : d₀.lastTarget = none) (hsolved : d₀.solve engine p = .ok (.ok geometry)) :
    d.moveWith engine p = .ok (.ok (d₀.showing p geometry)) :=
  (h.moveWith_eq hfresh p).trans (Drag.moveWith_of_solved hfresh hsolved)

theorem moveWith_of_unsolved {failure : EngineFailure} (h : Continues engine d₀ d)
    (hfresh : d₀.lastTarget = none) (hunsolved : d₀.solve engine p = .ok (.error failure)) :
    d.moveWith engine p = .ok (.error .noGeometricSolution) :=
  (h.moveWith_eq hfresh p).trans (Drag.moveWith_of_unsolved hfresh hunsolved)

/-- A move that succeeds displays the answer to its target. -/
theorem solved_of_moveWith (h : Continues engine d₀ d) (hfresh : d₀.lastTarget = none)
    (hmove : d.moveWith engine p = .ok (.ok d')) :
    ∃ geometry, d₀.solve engine p = .ok (.ok geometry) ∧ d' = d₀.showing p geometry := by
  rw [h.moveWith_eq hfresh, moveWith_of_none hfresh] at hmove
  obtain ⟨answer, hsolve, hmove⟩ := Checked.bind_eq_ok.mp hmove
  cases answer with
  | error failure => cases hmove
  | ok geometry =>
      cases hmove
      exact ⟨geometry, hsolve, rfl⟩

/-- A move fails only where there is no solution. -/
theorem unsolved_of_moveWith {e : RouterError} (h : Continues engine d₀ d)
    (hfresh : d₀.lastTarget = none) (hmove : d.moveWith engine p = .ok (.error e)) :
    ∃ failure, d₀.solve engine p = .ok (.error failure) := by
  rw [h.moveWith_eq hfresh, moveWith_of_none hfresh] at hmove
  obtain ⟨answer, hsolve, hmove⟩ := Checked.bind_eq_ok.mp hmove
  cases answer with
  | error failure => exact ⟨failure, hsolve⟩
  | ok geometry => cases hmove

/-- **Moves lead nowhere else.** -/
theorem visit (h : Continues engine d₀ d) (hfresh : d₀.lastTarget = none)
    (hvisit : d.visit engine ps = .ok d') : Continues engine d₀ d' := by
  induction ps generalizing d with
  | nil =>
      cases hvisit
      exact h
  | cons p ps ih =>
      cases hsolve : d₀.solve engine p with
      | error fault =>
          rw [Drag.visit, h.moveWith_eq hfresh, moveWith_of_fault hfresh hsolve] at hvisit
          cases hvisit
      | ok answer =>
          cases answer with
          | ok geometry =>
              rw [visit_cons_of_ok (h.moveWith_of_solved hfresh hsolve)] at hvisit
              exact ih (.answered hsolve) hvisit
          | error failure =>
              rw [visit_cons_of_error (h.moveWith_of_unsolved hfresh hsolve)] at hvisit
              exact ih h hvisit

/-- Only a fault stops the moves. -/
theorem visit_isOk_iff (h : Continues engine d₀ d) (hfresh : d₀.lastTarget = none) :
    (∃ d', d.visit engine ps = .ok d') ↔ ∀ p ∈ ps, ∃ answer, d₀.solve engine p = .ok answer := by
  induction ps generalizing d with
  | nil => exact ⟨fun _ => by simp, fun _ => ⟨d, rfl⟩⟩
  | cons p ps ih =>
      rw [List.forall_mem_cons]
      cases hsolve : d₀.solve engine p with
      | error fault =>
          rw [Drag.visit, h.moveWith_eq hfresh, moveWith_of_fault hfresh hsolve]
          constructor
          · rintro ⟨d', hvisit⟩
            cases hvisit
          · rintro ⟨⟨answer, hok⟩, _⟩
            cases hok
      | ok answer =>
          rw [and_iff_right ⟨answer, rfl⟩]
          cases answer with
          | ok geometry =>
              rw [visit_cons_of_ok (h.moveWith_of_solved hfresh hsolve)]
              exact ih (.answered hsolve)
          | error failure =>
              rw [visit_cons_of_error (h.moveWith_of_unsolved hfresh hsolve)]
              exact ih h

end Continues

/-- What the engine answers to a target, if it has a solution. -/
def answer? (d : Drag) (engine : DragSolver) (target : Point) : Option DragGeometry :=
  match d.solve engine target with
  | .ok (.ok geometry) => some geometry
  | _ => none

/-- **Behind some moves** the answer to the last target with a solution is displayed, or else what
was displayed at the beginning. -/
theorem displayed_of_visit (hfresh : d₀.lastTarget = none) (h : d₀.visit engine ps = .ok d) :
    d.displayed = (ps.filterMap (d₀.answer? engine)).getLastD d₀.displayed := by
  induction ps using List.reverseRecOn generalizing d with
  | nil =>
      cases h
      rfl
  | append_singleton ps p ih =>
      rw [visit_append] at h
      obtain ⟨before, hbefore, h⟩ := Checked.bind_eq_ok.mp h
      have hcontinues := Continues.begun.visit hfresh hbefore
      rw [List.filterMap_append]
      obtain ⟨answer, hsolve⟩ :=
        (hcontinues.visit_isOk_iff hfresh).mp ⟨d, h⟩ p List.mem_cons_self
      cases answer with
      | ok geometry =>
          rw [visit_cons_of_ok (hcontinues.moveWith_of_solved hfresh hsolve)] at h
          cases h
          have hanswer : d₀.answer? engine p = some geometry := by rw [answer?, hsolve]
          rw [List.filterMap_cons_some hanswer, List.filterMap_nil, List.getLastD_concat]
          rfl
      | error failure =>
          rw [visit_cons_of_error (hcontinues.moveWith_of_unsolved hfresh hsolve)] at h
          cases h
          have hanswer : d₀.answer? engine p = none := by rw [answer?, hsolve]
          rw [List.filterMap_cons_none hanswer, List.filterMap_nil, List.append_nil]
          exact ih hbefore

/-- **A drag without drift**, behind moves to these targets.  It displays the answer to the last
one with a solution, and a move from here ends as the engine answers its target at the beginning.
One without a solution changes neither what is displayed nor what would be committed. -/
structure Driftless (engine : DragSolver) (d₀ : Drag) (ps : List Point) (d : Drag) : Prop where
  displayed : d.displayed = (ps.filterMap (d₀.answer? engine)).getLastD ⟨d₀.grabbed, []⟩
  succeeds : ∀ p geometry, d₀.solve engine p = .ok (.ok geometry) ↔
    ∃ d', d.moveWith engine p = .ok (.ok d') ∧ d'.displayed = geometry
  fails : ∀ p, (∃ failure, d₀.solve engine p = .ok (.error failure)) ↔
    d.moveWith engine p = .ok (.error .noGeometricSolution)
  unchanged : ∀ p e, d.moveWith engine p = .ok (.error e) →
    ∃ d', d₀.visit engine (ps ++ [p]) = .ok d' ∧ d'.displayed = d.displayed ∧
      ∀ allowLocked, d'.changeset allowLocked = d.changeset allowLocked

/-- **Drags do not drift.**  Moves go on unless one of them faults, and behind them the drag is
without drift. -/
theorem start_driftless (engine : DragSolver) (grabbed : List Item) (anchor : Point)
    (mode : DragMode) (routerMode : RouterMode) (ps : List Point) :
    ((∃ d, (start grabbed anchor mode routerMode).visit engine ps = .ok d) ↔
        ∀ p ∈ ps, ∃ answer, (start grabbed anchor mode routerMode).solve engine p = .ok answer) ∧
      ∀ d, (start grabbed anchor mode routerMode).visit engine ps = .ok d →
        Driftless engine (start grabbed anchor mode routerMode) ps d := by
  have hfresh : (start grabbed anchor mode routerMode).lastTarget = none := rfl
  refine ⟨Continues.begun.visit_isOk_iff hfresh, fun d hvisit => ?_⟩
  have hcontinues := Continues.begun.visit hfresh hvisit
  refine ⟨displayed_of_visit hfresh hvisit, fun p geometry => ?_, fun p => ?_, fun p e hmove => ?_⟩
  · constructor
    · intro hsolved
      exact ⟨_, hcontinues.moveWith_of_solved hfresh hsolved, rfl⟩
    · rintro ⟨d', hmove, rfl⟩
      obtain ⟨geometry, hsolved, rfl⟩ := hcontinues.solved_of_moveWith hfresh hmove
      exact hsolved
  · constructor
    · rintro ⟨failure, hunsolved⟩
      exact hcontinues.moveWith_of_unsolved hfresh hunsolved
    · exact hcontinues.unsolved_of_moveWith hfresh
  · refine ⟨d, ?_, rfl, fun _ => rfl⟩
    rw [visit_append, hvisit]
    exact visit_cons_of_error hmove

/-- A track, another that hangs on it, and one of another net above them. -/
def tracksInTheWay : Board :=
  { Board.standard with
    items := [⟨1, .segment ⟨⟨0, 0⟩, ⟨1000000, 0⟩⟩ 200000, 1, LayerRange.single ⟨0⟩, false, none⟩,
      ⟨2, .segment ⟨⟨1000000, 0⟩, ⟨1000000, -1000000⟩⟩ 200000, 1, LayerRange.single ⟨0⟩, false,
        none⟩,
      ⟨3, .segment ⟨⟨0, 2000000⟩, ⟨1000000, 2000000⟩⟩ 200000, 2, LayerRange.single ⟨0⟩, false,
        none⟩]
    nextId := 4 }

/-- The first of them in the hand. -/
def grabbedTrack : Drag :=
  start (tracksInTheWay.items.take 1) ⟨500000, 0⟩ .freeAngle .walkaround

/-- Two of these targets lie too close to the track in the way. -/
def pushesUp : List Point :=
  [⟨800000, 500000⟩, ⟨500000, 2000000⟩, ⟨800000, 500000⟩, ⟨500000, 1900000⟩]

/-- Behind moves that cannot all be made, the track is where the last good one has brought it. -/
theorem start_driftless_blocked :
    ∃ d, grabbedTrack.visit (World.drag (some tracksInTheWay)) pushesUp = .ok d ∧
      Driftless (World.drag (some tracksInTheWay)) grabbedTrack pushesUp d ∧
      d.displayed.modified.map Item.anchors =
        [[⟨300000, 500000⟩, ⟨1300000, 500000⟩], [⟨1300000, 500000⟩, ⟨1000000, -1000000⟩]] := by
  have hshown : (grabbedTrack.visit (World.drag (some tracksInTheWay)) pushesUp).toOption.map
        (fun d => d.displayed.modified.map Item.anchors) =
      some [[⟨300000, 500000⟩, ⟨1300000, 500000⟩], [⟨1300000, 500000⟩, ⟨1000000, -1000000⟩]] := by
    decide +kernel
  obtain ⟨d, hvisit, hdisplayed⟩ := exists_of_toOption_map hshown
  exact ⟨d, hvisit, (start_driftless _ _ _ _ _ _).2 d hvisit, hdisplayed⟩

end CopperRoute.Drag
