import CopperRoute.Proofs.HeadLayers
import CopperRoute.Proofs.PointerMotions

/-!
# Taking back what was just fixed

A fix moves the head to the pointer, makes it a step and takes the route on from its end.
Taking that step back restores from it what the head left from, and asks the engine for the
head again; the question is the one that the fix asked, so the answer is the head that was
fixed.  Both together are a mere movement of the head.

What stays behind are **traces** (`Tool.untraced`): the logged commands, the transitions of
the session, and the state that it last returned to.  The active layer does come back, because
the session goes on with the route in every reachable state.
-/

namespace CopperRoute

/-- **A step just fixed** is taken back as it was, but without its head. -/
theorem RouteOp.undoStep_pushStep (op : RouteOp) (g : RouteGeometry) :
    (op.pushStep g).undoStep = some op.headless := by
  simp [undoStep, pushStep, headless]

/-- The session without the traces of its transitions. -/
def Session.untraced (s : Session) : Session := { s with fixOrigin := .idle, trail := [] }

namespace Tool

variable {t t' u : Tool} {op op' : RouteOp} {p : Point} {id : Option ItemId} {g : RouteGeometry}

/-- The tool without the traces of what it did: the log and the session's transitions. -/
def untraced (t : Tool) : Tool :=
  { t with session := t.session.untraced, log := CommandLog.empty }

/-- When the engine answers, its answer is drawn. -/
theorem refreshHead_of_answer (hop : t.session.route? = some op)
    (hanswer : t.world.route (t.asks op) = .ok (.ok g)) : t.refreshHead = .ok (t.drawHead g) := by
  rw [refreshHead_running hop]
  exact Checked.bind_eq_ok.mpr ⟨.ok g, hanswer, rfl⟩

theorem route?_aimed (hop : t.session.route? = some op) (l : CommandLog) (ortho : Bool) :
    (t.aimed l p id ortho).session.route? = some (op.aim p id ortho) := by
  show ({ t.session with cursor := p }.mapRoute _).route? = _
  rw [Session.route?_mapRoute]
  exact congrArg (Option.map _) hop

theorem asks_aimed (t : Tool) (l : CommandLog) (p : Point) (id : Option ItemId) (ortho : Bool) :
    (t.aimed l p id ortho).asks = t.asks := by
  funext op
  simp [asks, aimed, Session.pointedAt]

/-- Moving the head of a route draws the answer of the engine. -/
theorem moveHead_of_answer (hop : t.session.route? = some op) {ortho : Bool}
    (hanswer : t.world.route (t.asks (op.aim p id ortho)) = .ok (.ok g)) :
    t.moveHead p id ortho = .ok ((t.aimed t.log p id ortho).drawHead g) := by
  refine refreshHead_of_answer (t := t.aimed t.log p id ortho) (route?_aimed hop t.log ortho) ?_
  rw [asks_aimed]
  exact hanswer

/-- **A fix that makes a step** makes it of the head that the engine gives for the pointer. -/
theorem fixRoute_pushes {finish : Bool} {s : RouteStep} (hop : t.session.route? = some op)
    (hop' : t'.session.route? = some op') (hpushed : op'.steps = op.steps ++ [s])
    (h : t.fixRoute p id finish = .ok t') :
    ∃ g, t.world.route (t.asks (op.aim p id op.ortho)) = .ok (.ok g) ∧
      t' = ((t.aimed t.log p id op.ortho).drawHead g).mapSession fun s => s.extendRoute g := by
  obtain ⟨u, hmove, houtcome⟩ := fixRoute_eq_ok h
  have hmoved := moveHead_keepsRoute hmove
  -- a route that is merely kept has no new step
  have kept (hkept : t.KeepsRoute t') : False := by
    obtain ⟨before, hbefore, hsame⟩ := hkept.route op' hop'
    cases hop.symm.trans hbefore
    have hlength := congrArg List.length (hpushed.symm.trans hsame.steps)
    simp at hlength
  cases houtcome with
  | idle _ hsame | bare _ _ _ hsame =>
      rw [hsame] at kept
      exact (kept hmoved).elim
  | unsolved _ _ hreported =>
      rw [hreported] at kept
      exact (kept (hmoved.trans (u.keepsRoute_report _))).elim
  | finished _ _ _ hfinish =>
      rcases finishRoute_keepsRoute hfinish with hgone | hkept
      · cases hgone.symm.trans hop'
      · exact (kept (hmoved.trans hkept)).elim
  | @extended r g hrequest hanswer _ _ _ hextended =>
      obtain ⟨hworld, _, hasked, _⟩ := moveHead_request? hop hmove
      cases hasked.symm.trans hrequest
      rw [hworld] at hanswer
      have hortho : (t.session.route?.map RouteOp.ortho).getD false = op.ortho := by
        rw [hop]
        rfl
      rw [hortho] at hmove
      cases hmove.symm.trans (moveHead_of_answer hop hanswer)
      exact ⟨g, hanswer, hextended⟩

/-- **Taking the step back** brings the head back that was fixed, whatever was logged. -/
theorem undoLastSegment_of_fixed (hop : t.session.route? = some op) (hhead : op.head = some g)
    (hanswer : t.world.route (t.asks op) = .ok (.ok g)) (hgoesOn : t.session.GoesOn)
    (l : CommandLog) :
    ∃ v, Tool.undoLastSegment { t.mapSession (fun s => s.extendRoute g) with log := l } = .ok v ∧
      v.untraced = t.untraced := by
  have hrunning := Session.route?_eq_some.mp hop
  have hundo : (t.session.extendRoute g).route?.bind RouteOp.undoStep = some op.headless := by
    rw [Session.route?_extendRoute, hop]
    exact op.undoStep_pushStep g
  have hdrawn : { op.headless with head := some g } = op := by
    rw [← hhead]
    rfl
  -- behind the fix, the session differs in its traces, its operation and its active layer
  have hsession : { t.session.extendRoute g with
      operation := .routing op, activeLayer := nextLayer op.headless }.untraced =
        t.session.untraced := by
    have hlayer : nextLayer op.headless = t.session.activeLayer := (hgoesOn op hop).symm
    rw [hlayer]
    simp [Session.untraced, Session.extendRoute, Session.beginFix, Session.resume, Session.enter,
      Session.mapRoute, hrunning]
  let restored : Tool := { t.mapSession (fun s => { s.extendRoute g with
    operation := .routing op.headless, activeLayer := nextLayer op.headless }) with log := l }
  have hasked : restored.asks op.headless = t.asks op := by
    simp [restored, asks, mapSession, Session.extendRoute, Session.beginFix, Session.resume,
      Session.enter, RouteOp.headless, RouteOp.request]
  have hredrawn : restored.refreshHead = .ok (restored.drawHead g) := by
    refine refreshHead_of_answer rfl ?_
    rw [hasked]
    exact hanswer
  refine ⟨restored.drawHead g, ?_, ?_⟩
  · rw [← hredrawn]
    simp only [undoLastSegment, mapSession, hundo]
    rfl
  · have hback : (restored.drawHead g).session.untraced = t.session.untraced := by
      rw [← hsession, ← hdrawn]
      rfl
    show { t with session := (restored.drawHead g).session.untraced, log := CommandLog.empty } = _
    rw [hback]
    rfl

/-- A fix that makes a step, and taking it back: the head is where the fix moved it. -/
theorem fixRoute_takenBack {finish : Bool} {s : RouteStep} (hop : t.session.route? = some op)
    (hgoesOn : t.session.GoesOn) (hop' : u.session.route? = some op')
    (hpushed : op'.steps = op.steps ++ [s]) (h : t.fixRoute p id finish = .ok u)
    (l : CommandLog) :
    ∃ g v, t.world.route (t.asks (op.aim p id op.ortho)) = .ok (.ok g) ∧
      Tool.undoLastSegment { u with log := l } = .ok v ∧
      v.untraced = ((t.aimed t.log p id op.ortho).drawHead g).untraced := by
  obtain ⟨g, hanswer, rfl⟩ := fixRoute_pushes hop hop' hpushed h
  have hmoved := moveHead_of_answer hop hanswer
  have hdrawn : ((t.aimed t.log p id op.ortho).drawHead g).session.route? =
      some { op.aim p id op.ortho with head := some g } := by
    rw [drawHead, mapSession, Session.route?_mapRoute, route?_aimed hop, Option.map_some]
  have hasked : ((t.aimed t.log p id op.ortho).drawHead g).asks
      { op.aim p id op.ortho with head := some g } = t.asks (op.aim p id op.ortho) := by
    simp [asks, aimed, drawHead, mapSession, Session.pointedAt, RouteOp.request]
  have hagain : t.world.route (((t.aimed t.log p id op.ortho).drawHead g).asks
      { op.aim p id op.ortho with head := some g }) = .ok (.ok g) := by
    rw [hasked]
    exact hanswer
  obtain ⟨v, hback, hsame⟩ :=
    undoLastSegment_of_fixed hdrawn rfl hagain (moveHead_goesOn hgoesOn hmoved) l
  exact ⟨g, v, hanswer, hback, hsame⟩

/-- **A fix that makes a step, and taking it back**, are a movement of the head in every
reachable state.  The two tools differ at most in their traces. -/
theorem reached_stepBack {board : Board} {world : World} {options : Options} {rules : RuleSet}
    {search : TreeSearch} {confirms : Bool}
    (hreached : (new board world options rules search confirms).Reaches t) {finish : Bool}
    {refusal : Option CommandRefusal} {s : RouteStep} (hop : t.session.route? = some op)
    (hfix : t.handle (.fixRoute p id finish) = .ok (u, refusal))
    (hop' : u.session.route? = some op') (hpushed : op'.steps = op.steps ++ [s]) :
    ∃ v w, u.handle .undoLastSegment = .ok (v, none) ∧
      t.handle (.moveHead p id op.ortho) = .ok (w, none) ∧ v.untraced = w.untraced := by
  have hfixed : Tool.fixRoute { t with log := t.log.record (.fixRoute p id finish) } p id finish =
      .ok u := Checked.of_tagged hfix
  obtain ⟨g, v, hanswer, hback, hsame⟩ := fixRoute_takenBack (by exact hop)
    (by exact hreached.goesOn.2) hop' hpushed hfixed (u.log.record .undoLastSegment)
  let moved := (t.aimed (t.log.record (.moveHead p id op.ortho)) p id op.ortho).drawHead g
  have hmoved : Tool.moveHead { t with log := t.log.record (.moveHead p id op.ortho) } p id
      op.ortho = .ok moved := moveHead_of_answer (by exact hop) hanswer
  refine ⟨v, moved, ?_, ?_, ?_⟩
  · exact Checked.bind_eq_ok.mpr ⟨v, hback, rfl⟩
  · exact Checked.bind_eq_ok.mpr ⟨_, hmoved, rfl⟩
  · rw [hsame]
    rfl

/-- The step ends with a via, which hangs at the head again afterwards. -/
theorem reached_stepBack_via :
    ∃ t op u op' s v w, (launch Board.standard Options.standard [] true).serve
        (viaStep.take 2) = .ok t ∧ t.session.route? = some op ∧ op.via.isSome ∧
      t.handle (.fixRoute ⟨1000000, 0⟩ none false) = .ok (u, none) ∧
      u.session.route? = some op' ∧ op'.steps = op.steps ++ [s] ∧
      u.handle .undoLastSegment = .ok (v, none) ∧
      t.handle (.moveHead ⟨1000000, 0⟩ none op.ortho) = .ok (w, none) ∧
      v.untraced = w.untraced := by
  obtain ⟨t, op, u, op', s, hserve, hop, hvia, hfix, hop', hpushed⟩ : ∃ t op u op' s,
      (launch Board.standard Options.standard [] true).serve (viaStep.take 2) = .ok t ∧
        t.session.route? = some op ∧ op.via.isSome ∧
        t.handle (.fixRoute ⟨1000000, 0⟩ none false) = .ok (u, none) ∧
        u.session.route? = some op' ∧ op'.steps = op.steps ++ [s] :=
    ⟨_, _, _, _, _, by rfl, by rfl, by rfl, by rfl, by rfl, by rfl⟩
  obtain ⟨v, w, hback, hmoved, hsame⟩ :=
    reached_stepBack (Reaches.start.serve hserve) hop hfix hop' hpushed
  exact ⟨t, op, u, op', s, v, w, hserve, hop, hvia, hfix, hop', hpushed, hback, hmoved, hsame⟩

end Tool

end CopperRoute
