import CopperRoute.Proofs.Attending

/-!
# Motions of the pointer

A motion aims the running route at what lies under the pointer, and asks the engine for the
head.  When the engine has none, the old head stays.  Aiming replaces what was aimed before
(`Session.pointedAt_pointedAt`), and neither what lies under the pointer nor what the engine
is asked depends on the head.  So an earlier motion leaves no trace but a head, which the
next answer of the engine replaces: of any number of motions only the last one counts
(`Tool.follow_last`).

Tools are compared but for the log and the head (`Tool.headless`), and also but for what a
motion sets (`Tool.unpointed`).
-/

namespace CopperRoute

/-- The route without its head. -/
def RouteOp.headless (op : RouteOp) : RouteOp := { op with head := none }

namespace Session

variable (s : Session) (p q : Point) (id id' : Option ItemId) (ortho ortho' : Bool)

/-- The session with the pointer at a point, and the running route aimed there. -/
def pointedAt : Session := { s with cursor := p }.mapRoute fun op => op.aim p id ortho

/-- The session without the head of the running route. -/
def headless : Session := s.mapRoute RouteOp.headless

/-- The session with this head on the running route. -/
def drawn (g : RouteGeometry) : Session := s.mapRoute fun op => { op with head := some g }

/-- What was aimed at before does not matter. -/
theorem pointedAt_pointedAt :
    (s.pointedAt p id ortho).pointedAt q id' ortho' = s.pointedAt q id' ortho' := by
  obtain ⟨_, _, operation, _⟩ := s
  cases operation <;> rfl

theorem pointedAt_headless :
    s.headless.pointedAt p id ortho = (s.pointedAt p id ortho).headless := by
  obtain ⟨_, _, operation, _⟩ := s
  cases operation <;> rfl

theorem headless_drawn (g : RouteGeometry) : (s.drawn g).headless = s.headless := by
  obtain ⟨_, _, operation, _⟩ := s
  cases operation <;> rfl

/-- A head that is drawn replaces the one before. -/
theorem drawn_headless (g : RouteGeometry) : s.headless.drawn g = s.drawn g := by
  obtain ⟨_, _, operation, _⟩ := s
  cases operation <;> rfl

/-- The question for the head does not depend on the head. -/
theorem request?_headless : s.headless.request? = s.request? := by
  obtain ⟨_, _, operation, _⟩ := s
  cases operation <;> rfl

/-- Aiming does not change what runs. -/
theorem headless_pointedAt_runs : (s.pointedAt p id ortho).headless.drag? = s.drag? ∧
    (s.pointedAt p id ortho).headless.isRouting = s.isRouting ∧
      (s.pointedAt p id ortho).headless.activeLayer = s.activeLayer ∧
        (s.pointedAt p id ortho).headless.route?.map RouteOp.layer =
          s.route?.map RouteOp.layer := by
  obtain ⟨_, _, operation, _⟩ := s
  cases operation <;> exact ⟨rfl, rfl, rfl, rfl⟩

/-- Without a route only the pointer moves. -/
theorem pointedAt_of_none (hnone : s.route? = none) :
    s.pointedAt p id ortho = { s with cursor := p } := by
  obtain ⟨_, _, operation, _⟩ := s
  cases operation with
  | routing op => cases hnone
  | none | dragging => rfl

end Session

namespace Tool

variable {t t' u : Tool} {p : Point} {ctrl : Bool}

/-- All there is to a tool but its log and the head of its route. -/
def headless (t : Tool) : Tool :=
  { t with session := t.session.headless, log := CommandLog.empty }

/-- All there is to a tool but its log, the head of its route, and where that is aimed. -/
def unpointed (t : Tool) : Tool :=
  { t with session := (t.session.pointedAt ⟨0, 0⟩ none false).headless, log := CommandLog.empty }

/-- The tool as a motion aims it at an item, with another log. -/
def aimed (t : Tool) (l : CommandLog) (p : Point) (id : Option ItemId) (ctrl : Bool) : Tool :=
  { t with session := t.session.pointedAt p id ctrl, log := l }

/-- **The same tool** but for its log and for the head of its route; and with the same head,
too, when the engine has one. -/
structure SameButHead (t u : Tool) : Prop where
  headless : t.headless = u.headless
  head : ∀ r g, t.session.request? = some r → t.world.route r = .ok (.ok g) →
    t.session = u.session

/-- Aiming depends on what motions leave alone, and on nothing else. -/
theorem headless_aimed (t : Tool) (l : CommandLog) (p : Point) (id : Option ItemId) (ctrl : Bool) :
    (t.aimed l p id ctrl).headless = t.unpointed.aimed .empty p id ctrl := by
  have hsession : (t.session.pointedAt p id ctrl).headless =
      ((t.session.pointedAt ⟨0, 0⟩ none false).headless).pointedAt p id ctrl := by
    rw [Session.pointedAt_headless, Session.pointedAt_pointedAt]
  simp only [headless, aimed, unpointed, hsession]

/-- What motions leave alone can be told without the head. -/
theorem unpointed_eq (t : Tool) : t.unpointed = (t.headless.aimed .empty ⟨0, 0⟩ none false) := by
  simp only [unpointed, headless, aimed, Session.pointedAt_headless]

theorem unpointed_aimed (t : Tool) (l : CommandLog) (p : Point) (id : Option ItemId) (ctrl : Bool) :
    (t.aimed l p id ctrl).unpointed = t.unpointed := by
  simp only [unpointed, aimed, Session.pointedAt_pointedAt]

/-- **The head depends on the question for it only**, and so not on an old head, unless the
engine has none. -/
theorem refreshHead_sameButHead (hsame : t.headless = t'.headless) (h : t.refreshHead = .ok u) :
    u.headless = t.headless ∧ ∃ u', t'.refreshHead = .ok u' ∧ u.SameButHead u' := by
  have hsession : t'.session.headless = t.session.headless := by
    show t'.headless.session = t.headless.session
    rw [hsame]
  have hrequest : t'.session.request? = t.session.request? := by
    rw [← Session.request?_headless, hsession, Session.request?_headless]
  have hworld : t'.world = t.world := by
    show t'.headless.world = t.headless.world
    rw [hsame]
  have hdraw (s : Tool) (g : RouteGeometry) :
      (s.mapSession fun x => x.drawn g).headless = s.headless := by
    simp only [headless, mapSession, Session.headless_drawn]
  unfold refreshHead at h ⊢
  rw [hrequest, hworld]
  cases hr : t.session.request? with
  | none =>
      simp only [hr] at h ⊢
      cases h
      refine ⟨rfl, t', rfl, hsame, fun r g hr' => ?_⟩
      cases hr.symm.trans hr'
  | some r =>
      simp only [hr] at h ⊢
      obtain ⟨answer, hanswer, h⟩ := Checked.bind_eq_ok.mp h
      simp only [hanswer]
      cases answer with
      | error _ =>
          cases h
          refine ⟨rfl, t', rfl, hsame, fun r' g hr' hg => ?_⟩
          cases hr.symm.trans hr'
          cases hanswer.symm.trans hg
      | ok g =>
          cases h
          refine ⟨hdraw t g, _, rfl, ?_, fun _ _ _ _ => ?_⟩
          · exact (hdraw t g).trans (hsame.trans (hdraw t' g).symm)
          · show t.session.drawn g = t'.session.drawn g
            rw [← t.session.drawn_headless, ← hsession, t'.session.drawn_headless]

/-- What a motion is handled as. -/
def motionCommand (t : Tool) (p : Point) (id : Option ItemId) (ctrl : Bool) : Command :=
  if t.session.isRouting then .moveHead p id ctrl else .trackCursor p

/-- What a motion does, once it is known what lies under the pointer. -/
theorem handle_motionCommand (t : Tool) (p : Point) (id : Option ItemId) (ctrl : Bool) :
    t.handle (t.motionCommand p id ctrl) = do
      let u ← (t.aimed (t.log.record (t.motionCommand p id ctrl)) p id ctrl).refreshHead
      return (u, none) := by
  cases hrouting : t.session.isRouting with
  | true =>
      simp only [motionCommand, hrouting, if_true]
      rfl
  | false =>
      -- there is no head to ask for
      have hnone : t.session.route? = none := by simpa [Session.isRouting] using hrouting
      have hpointed := t.session.pointedAt_of_none p id ctrl hnone
      have hrequest : (t.session.pointedAt p id ctrl).request? = none := by
        rw [hpointed]
        show t.session.route?.map _ = none
        rw [hnone]
        rfl
      have hstill (l : CommandLog) : (t.aimed l p id ctrl).refreshHead =
          .ok { t.trackCursor p with log := l } := by
        have hnothing : (t.aimed l p id ctrl).session.request? = none := hrequest
        simp only [refreshHead, hnothing]
        simp only [aimed, hpointed]
        rfl
      rw [hstill]
      simp only [motionCommand, hrouting, Bool.false_eq_true, if_false]
      rfl

/-- Without a drag the pointer leads to one command. -/
theorem commandsForMotion_eq_ok (hdrag : t.session.drag? = none) {cs : List Command} :
    t.commandsForMotion p ctrl = .ok cs ↔
      ∃ id, (t.session.isRouting = true → t.pick p (some t.headLayer) = .ok id) ∧
        cs = [t.motionCommand p id ctrl] := by
  have hdragging : t.session.isDragging = false := by simp [Session.isDragging, hdrag]
  cases hrouting : t.session.isRouting with
  | true =>
      simp only [commandsForMotion, motionCommand, hrouting, if_true, Checked.bind_eq_ok,
        Checked.pure_eq_ok, forall_const]
      exact exists_congr fun id => and_congr_right fun _ => eq_comm
  | false =>
      simp only [commandsForMotion, motionCommand, hrouting, hdragging, Bool.false_eq_true,
        if_false, Checked.pure_eq_ok, false_implies, true_and, exists_const]
      exact eq_comm

/-- Nothing is dragged, and there is no request to break off. -/
structure Calm (t : Tool) : Prop where
  unasked : t.cancelRequested = false
  noDrag : t.session.drag? = none

/-- Without a request to break off there is nothing to take up. -/
theorem Calm.takeCancelRequest (ht : t.Calm) : t.takeCancelRequest = .ok ⟨t, [], none⟩ := by
  have hsame : { t with cancelRequested := false } = t := by rw [← ht.unasked]
  rw [Tool.takeCancelRequest, ht.unasked, hsame]
  rfl

/-- Once a request to break off has been taken up, the commands of the intent follow. -/
theorem handleIntent_of_taken {i : Intent} {first : IntentOutcome}
    (htake : t.takeCancelRequest = .ok first) (hdone : first.refusal = none) :
    (∃ out, t.handleIntent i = .ok out ∧ out.tool = u) ↔
      ∃ cs second, first.tool.commandsFor i = .ok cs ∧ first.tool.handleAll cs = .ok second ∧
        second.tool = u := by
  have hintent : t.handleIntent i = do
      let second ← first.tool.handleAll (← first.tool.commandsFor i)
      return { second with commands := first.commands ++ second.commands } := by
    rw [handleIntent, htake]
    show (if first.refusal.isSome = true then _ else _) = _
    rw [hdone]
    rfl
  rw [hintent]
  constructor
  · rintro ⟨out, h, rfl⟩
    obtain ⟨cs, hcs, h⟩ := Checked.bind_eq_ok.mp h
    obtain ⟨second, hsecond, h⟩ := Checked.bind_eq_ok.mp h
    cases h
    exact ⟨cs, second, hcs, hsecond, rfl⟩
  · rintro ⟨cs, second, hcs, hsecond, rfl⟩
    exact ⟨_, Checked.bind_eq_ok.mpr ⟨cs, hcs, Checked.bind_eq_ok.mpr ⟨second, hsecond, rfl⟩⟩, rfl⟩

/-- **A motion** while nothing is dragged: the route is aimed at what lies under the pointer,
and the head is asked for. -/
theorem Calm.handleIntent_motion (ht : t.Calm) :
    (∃ out, t.handleIntent (.motion p ctrl) = .ok out ∧ out.tool = u) ↔
      ∃ id, (t.session.isRouting = true → t.pick p (some t.headLayer) = .ok id) ∧
        (t.aimed (t.log.record (t.motionCommand p id ctrl)) p id ctrl).refreshHead = .ok u := by
  rw [handleIntent_of_taken ht.takeCancelRequest rfl]
  constructor
  · rintro ⟨cs, second, hcs, h, rfl⟩
    obtain ⟨id, hpick, rfl⟩ := (commandsForMotion_eq_ok ht.noDrag).mp hcs
    obtain ⟨⟨v, refusal⟩, hhandle, h⟩ := Checked.bind_eq_ok.mp h
    rw [handle_motionCommand] at hhandle
    obtain ⟨w, hhead, hhandle⟩ := Checked.bind_eq_ok.mp hhandle
    cases hhandle
    cases h
    exact ⟨id, hpick, hhead⟩
  · rintro ⟨id, hpick, hhead⟩
    have hhandle : t.handle (t.motionCommand p id ctrl) = .ok (u, none) := by
      rw [handle_motionCommand, hhead]
      rfl
    exact ⟨_, _, (commandsForMotion_eq_ok ht.noDrag).mpr ⟨id, hpick, rfl⟩,
      handleAll_cons_of hhandle u.handleAll_nil, rfl⟩

/-- What motions leave alone decides whether a motion finds the tool calm. -/
theorem Calm.of_unpointed (ht : t.Calm) (hsame : t'.unpointed = t.unpointed) : t'.Calm := by
  constructor
  · show t'.unpointed.cancelRequested = false
    rw [hsame]
    exact ht.unasked
  · rw [← (t'.session.headless_pointedAt_runs ⟨0, 0⟩ none false).1]
    show t'.unpointed.session.drag? = none
    rw [hsame]
    exact (t.session.headless_pointedAt_runs ⟨0, 0⟩ none false).1.trans ht.noDrag

/-- It also decides what lies under the pointer. -/
theorem pick_of_unpointed (hsame : t'.unpointed = t.unpointed) :
    t'.session.isRouting = t.session.isRouting ∧
      t'.pick p (some t'.headLayer) = t.pick p (some t.headLayer) := by
  have hruns (s : Tool) : s.unpointed.session.isRouting = s.session.isRouting ∧
      s.unpointed.headLayer = s.headLayer := by
    obtain ⟨_, hrouting, hactive, hlayer⟩ :=
      s.session.headless_pointedAt_runs ⟨0, 0⟩ none false
    refine ⟨hrouting, ?_⟩
    show (Option.map RouteOp.layer _).getD _ = _
    rw [unpointed, hlayer, hactive]
    rfl
  have hpick (s : Tool) (layer : LayerId) :
      s.unpointed.pick p (some layer) = s.pick p (some layer) := rfl
  refine ⟨?_, ?_⟩
  · rw [← (hruns t').1, hsame, (hruns t).1]
  · rw [← hpick t', ← (hruns t').2, hsame, hpick t, (hruns t).2]

/-- **A motion forgets another.**  On tools that differ at most by what motions set, a motion
has the same result but for the head. -/
theorem Calm.motion_sameButHead (ht : t.Calm) (hsame : t'.unpointed = t.unpointed)
    {out : IntentOutcome} (h : t.handleIntent (.motion p ctrl) = .ok out) :
    out.tool.unpointed = t.unpointed ∧
      ∃ out', t'.handleIntent (.motion p ctrl) = .ok out' ∧ out.tool.SameButHead out'.tool := by
  obtain ⟨id, hpick, hhead⟩ := ht.handleIntent_motion.mp ⟨out, h, rfl⟩
  obtain ⟨hrouting, hunder⟩ := pick_of_unpointed (p := p) hsame
  have haimed (l l' : CommandLog) :
      (t.aimed l p id ctrl).headless = (t'.aimed l' p id ctrl).headless := by
    rw [headless_aimed, headless_aimed, hsame]
  obtain ⟨hheadless, u', hhead', halike⟩ := refreshHead_sameButHead (haimed _ _) hhead
  have hpick' : t'.session.isRouting = true → t'.pick p (some t'.headLayer) = .ok id := by
    rw [hrouting, hunder]
    exact hpick
  obtain ⟨out', hout', rfl⟩ :=
    (ht.of_unpointed hsame).handleIntent_motion.mpr ⟨id, hpick', hhead'⟩
  refine ⟨?_, out', hout', halike⟩
  rw [unpointed_eq, hheadless, ← unpointed_eq, unpointed_aimed]

/-- Follow the pointer: where it goes, and whether the head keeps to right angles. -/
def follow (t : Tool) : List (Point × Bool) → Checked Tool
  | [] => .ok t
  | m :: ms => do (← t.handleIntent (.motion m.1 m.2)).tool.follow ms

variable {m : Point × Bool} {ms : List (Point × Bool)}

theorem follow_cons_eq_ok : t.follow (m :: ms) = .ok u ↔
    ∃ w, (∃ out, t.handleIntent (.motion m.1 m.2) = .ok out ∧ out.tool = w) ∧
      w.follow ms = .ok u := by
  rw [follow, Checked.bind_eq_ok]
  constructor
  · rintro ⟨out, hout, h⟩
    exact ⟨out.tool, ⟨out, hout, rfl⟩, h⟩
  · rintro ⟨_, ⟨out, hout, rfl⟩, h⟩
    exact ⟨out, hout, h⟩

/-- Motions are followed one after the other. -/
theorem follow_append {ns : List (Point × Bool)} :
    t.follow (ms ++ ns) = .ok u ↔ ∃ w, t.follow ms = .ok w ∧ w.follow ns = .ok u := by
  induction ms generalizing t with
  | nil => simp [follow]
  | cons m ms ih =>
      rw [List.cons_append, follow_cons_eq_ok]
      constructor
      · rintro ⟨v, hv, h⟩
        obtain ⟨w, hw, h⟩ := ih.mp h
        exact ⟨w, follow_cons_eq_ok.mpr ⟨v, hv, hw⟩, h⟩
      · rintro ⟨w, hw, h⟩
        obtain ⟨v, hv, hw⟩ := follow_cons_eq_ok.mp hw
        exact ⟨v, hv, ih.mpr ⟨w, hw, h⟩⟩

/-- No number of motions changes more than one does. -/
theorem Calm.follow_unpointed (ht : t.Calm) (h : t.follow ms = .ok u) :
    u.unpointed = t.unpointed := by
  induction ms generalizing t with
  | nil =>
      cases h
      rfl
  | cons m ms ih =>
      obtain ⟨_, ⟨out, hout, rfl⟩, h⟩ := follow_cons_eq_ok.mp h
      obtain ⟨hsame, _⟩ := ht.motion_sameButHead rfl hout
      exact (ih (ht.of_unpointed hsame) h).trans hsame

/-- Breaking off leaves nothing to drag, and makes no request to break off. -/
theorem cancelOperation_calm (hnone : t.cancelRequested = false) (h : t.cancelOperation = .ok u) :
    u.Calm := by
  obtain ⟨⟨v, stopped⟩, hstop, h⟩ := Checked.bind_eq_ok.mp h
  obtain ⟨w, hstaged, hstop⟩ := Checked.bind_eq_ok.mp hstop
  have hw : w.cancelRequested = false := by
    rcases commitStaged_eq_ok hstaged with rfl | ⟨_, _, x, hcommit, rfl | ⟨_, rfl⟩⟩
    · exact hnone
    all_goals
      rcases commit_eq_ok hcommit with ⟨_, rfl⟩ | ⟨_, rfl⟩ | ⟨_, _, _, _, _, _, rfl⟩
      all_goals exact hnone
  have hgone := Interaction.operation_cancel w.toInteraction
  generalize w.toInteraction.cancel = cancelled at hstop hgone
  cases hstop
  cases h
  have hnodrag := Session.drag?_of_none hgone
  split
  · exact ⟨hw, hnodrag⟩
  · exact ⟨hw, hnodrag⟩

/-- A request to break off is taken up once; what motions are followed behind it follow
from a calm tool. -/
theorem follow_taken (hdrag : t.session.drag? = none) (h : t.follow (m :: ms) = .ok u) :
    ∃ w : Tool, w.Calm ∧ ∀ m ms u, t.follow (m :: ms) = .ok u ↔ w.follow (m :: ms) = .ok u := by
  obtain ⟨_, ⟨out, hout, _⟩, _⟩ := follow_cons_eq_ok.mp h
  obtain ⟨first, htake, _⟩ := Checked.bind_eq_ok.mp hout
  have hfirst : first.refusal = none ∧ first.tool.Calm := by
    unfold takeCancelRequest at htake
    split at htake
    · unfold endRunning at htake
      split at htake
      · cases htake
        exact ⟨rfl, rfl, hdrag⟩
      · obtain ⟨⟨v, refusal⟩, hhandle, htake⟩ := Checked.bind_eq_ok.mp htake
        obtain ⟨w, hcancel, hhandle⟩ := Checked.bind_eq_ok.mp hhandle
        cases hhandle
        cases htake
        exact ⟨rfl, cancelOperation_calm rfl hcancel⟩
    · cases htake
      exact ⟨rfl, rfl, hdrag⟩
  refine ⟨first.tool, hfirst.2, fun m ms u => ?_⟩
  rw [follow_cons_eq_ok, follow_cons_eq_ok]
  refine exists_congr fun w => and_congr_left fun _ => ?_
  rw [handleIntent_of_taken htake hfirst.1, handleIntent_of_taken hfirst.2.takeCancelRequest rfl]

/-- **Only the last motion counts.**  While nothing is dragged, following any number of
motions comes to the same as following the last one alone, but for the log and perhaps for
the head; and for the log only, when the engine has a head there. -/
theorem follow_last (hdrag : t.session.drag? = none) (ms : List (Point × Bool))
    (m : Point × Bool) (h : t.follow (ms ++ [m]) = .ok u) :
    ∃ v, t.follow [m] = .ok v ∧ u.SameButHead v := by
  have hcalm {w : Tool} (hw : w.Calm) (h : w.follow (ms ++ [m]) = .ok u) :
      ∃ v, w.follow [m] = .ok v ∧ u.SameButHead v := by
    obtain ⟨x, hx, h⟩ := follow_append.mp h
    have hsame := hw.follow_unpointed hx
    obtain ⟨_, ⟨out, hout, rfl⟩, h⟩ := follow_cons_eq_ok.mp h
    cases h
    obtain ⟨_, out', hout', halike⟩ := (hw.of_unpointed hsame).motion_sameButHead hsame.symm hout
    exact ⟨out'.tool, follow_cons_eq_ok.mpr ⟨_, ⟨out', hout', rfl⟩, rfl⟩, halike⟩
  obtain ⟨n, ns, hns⟩ : ∃ n ns, ms ++ [m] = n :: ns := List.exists_cons_of_ne_nil (by simp)
  rw [hns] at h
  obtain ⟨w, hw, hfollow⟩ := follow_taken hdrag h
  have hlast := (hfollow n ns u).mp h
  rw [← hns] at hlast
  obtain ⟨v, hv, halike⟩ := hcalm hw hlast
  exact ⟨v, (hfollow m [] v).mpr hv, halike⟩

/-- A detour on the way to a point leaves no trace: the engine has a head there. -/
theorem follow_last_detour :
    ∃ t u v r g, (launch Board.standard Options.standard [] true).serve
        [⟨.click ⟨0, 0⟩ false false, true, false⟩] = .ok t ∧
      t.session.isRouting = true ∧ t.session.drag? = none ∧
      t.follow ([(⟨300000, 200000⟩, true), (⟨500000, -200000⟩, false)] ++
        [(⟨1000000, 0⟩, false)]) = .ok u ∧
      t.follow [(⟨1000000, 0⟩, false)] = .ok v ∧ u.SameButHead v ∧
      u.session.request? = some r ∧ u.world.route r = .ok (.ok g) ∧ u.session = v.session := by
  obtain ⟨t, u, r, g, hserve, hrouting, hdrag, hfollow, hrequest, hanswer⟩ :
      ∃ t u r g, (launch Board.standard Options.standard [] true).serve
          [⟨.click ⟨0, 0⟩ false false, true, false⟩] = .ok t ∧
        t.session.isRouting = true ∧ t.session.drag? = none ∧
        t.follow ([(⟨300000, 200000⟩, true), (⟨500000, -200000⟩, false)] ++
          [(⟨1000000, 0⟩, false)]) = .ok u ∧
        u.session.request? = some r ∧ u.world.route r = .ok (.ok g) :=
    ⟨_, _, _, _, by rfl, by rfl, by rfl, by rfl, by rfl, by rfl⟩
  obtain ⟨v, hlast, halike⟩ := follow_last hdrag
    [(⟨300000, 200000⟩, true), (⟨500000, -200000⟩, false)] (⟨1000000, 0⟩, false) hfollow
  exact ⟨t, u, v, r, g, hserve, hrouting, hdrag, hfollow, hlast, halike, hrequest, hanswer,
    halike.head r g hrequest hanswer⟩

end Tool

end CopperRoute
