import CopperRoute.Proofs.BoardChanges
import CopperRoute.Proofs.Intents

/-!
# How an intent is attended to

An intent leads to a short list of commands, of one of two kinds.

* A **course** through the history, back or forth: what runs is ended, the engine loses its
  world, the history gives another board, and the engine gets that (`Intent.course?`).
* Everything else: at most the first command does something to the boards, and what follows
  only tidies up (`Command.Tidies`).  Such a list is **steady** (`Steady`).

Only a step of a course can be refused, and only while something runs
(`execute_refusal`).  Since a course ends what runs first, no intent is ever refused.
-/

namespace CopperRoute

/-- The commands that can take the board and the engine's world apart. -/
inductive Command.PullsApart : Command → Prop
  | clearWorld : PullsApart .clearWorld
  | undo : PullsApart .undo
  | redo : PullsApart .redo

/-- The commands that only follow others. -/
inductive Command.Tidies : Command → Prop
  | resetSession : Tidies .resetSession
  | syncWorld : Tidies .syncWorld

/-- What tidies up pulls nothing apart. -/
theorem Command.Tidies.not_pullsApart {c : Command} (h : c.Tidies) : ¬ c.PullsApart := by
  cases h <;> nofun

/-- **Steady commands**: at most the first does more than tidy up, and none pulls board and
engine apart. -/
inductive Steady : List Command → Prop
  | tidy {cs : List Command} (hrest : ∀ c ∈ cs, c.Tidies) : Steady cs
  | lead {c : Command} {cs : List Command} (hlead : ¬ c.PullsApart) (hrest : ∀ c ∈ cs, c.Tidies) :
      Steady (c :: cs)

/-- The commands that step through the history, and how they do it. -/
inductive Command.Steps :
    Command → (History Board → Board → Option (Board × History Board)) → Prop
  | undo : Steps .undo History.undo
  | redo : Steps .redo History.redo

/-- The step through the history that an intent wants, if it wants one. -/
def Intent.course? : Intent → Option Command
  | .undo => some .undo
  | .redo => some .redo
  | _ => none

/-- Only going back and forth are courses through the history. -/
theorem Intent.course?_eq_none {i : Intent} (hback : i ≠ .undo) (hforth : i ≠ .redo) :
    i.course? = none := by
  cases i with
  | undo => exact absurd rfl hback
  | redo => exact absurd rfl hforth
  | _ => rfl

/-- A course is a step through the history. -/
theorem Intent.steps_of_course {i : Intent} {c : Command} (hi : i.course? = some c) :
    ∃ step, c.Steps step := by
  cases i with
  | undo =>
      cases hi
      exact ⟨_, .undo⟩
  | redo =>
      cases hi
      exact ⟨_, .redo⟩
  | _ => cases hi

theorem steady_nil : Steady [] := .tidy nofun

/-- A single command is steady, unless it pulls board and engine apart. -/
theorem steady_single {c : Command} (h : ¬ c.PullsApart) : Steady [c] := .lead h nofun

/-- No steady command pulls board and engine apart. -/
theorem Steady.not_pullsApart {cs : List Command} (h : Steady cs) : ∀ c ∈ cs, ¬ c.PullsApart := by
  intro c hc
  cases h with
  | tidy hrest => exact (hrest c hc).not_pullsApart
  | lead hlead hrest =>
      rcases List.mem_cons.mp hc with rfl | hc
      · exact hlead
      · exact (hrest c hc).not_pullsApart

namespace Tool

/-- What runs is ended by one command, after which others may tidy up. -/
theorem steady_endRunning (t : Tool) {cs : List Command} (h : ∀ c ∈ cs, c.Tidies) :
    Steady (t.endRunning ++ cs) := by
  unfold endRunning
  split
  · exact .tidy h
  · exact .lead nofun h

/-- Fixing at a point is steady. -/
theorem steady_fixAt {t : Tool} {p : Point} {finish : Bool} {cs : List Command}
    (h : t.fixAt p finish = .ok cs) : Steady cs := by
  obtain ⟨id, _, h⟩ := Checked.bind_eq_ok.mp h
  cases h
  exact steady_single nofun

/-- Grabbing what is under the pointer is steady. -/
theorem steady_dragAtCursor {t : Tool} {mode : DragMode} {cs : List Command}
    (h : t.dragAtCursor mode = .ok cs) : Steady cs := by
  unfold dragAtCursor at h
  split at h
  · cases h
    exact steady_nil
  · obtain ⟨ids, _, h⟩ := Checked.bind_eq_ok.mp h
    cases h
    exact steady_single nofun

/-- What a key does is steady. -/
theorem steady_commandsForAction {t : Tool} {action : RouterAction} {cs : List Command}
    (h : t.commandsForAction action = .ok cs) : Steady cs := by
  cases action with
  | dragFortyFive | dragFreeAngle => exact steady_dragAtCursor h
  | undoLastSegment =>
      cases h
      split
      · exact steady_single nofun
      · exact steady_nil
  | endTrack =>
      simp only [commandsForAction] at h
      split at h
      · exact steady_fixAt h
      · cases h
        exact steady_nil
  | _ =>
      cases h
      exact steady_single nofun

/-- What a click does is steady. -/
theorem steady_commandsForClick {t : Tool} {p : Point} {shift ctrl : Bool} {cs : List Command}
    (h : t.commandsForClick p shift ctrl = .ok cs) : Steady cs := by
  unfold commandsForClick at h
  split at h
  · exact steady_fixAt h
  · split at h
    · cases h
      exact steady_single nofun
    · split at h
      · obtain ⟨id, _, h⟩ := Checked.bind_eq_ok.mp h
        cases h
        exact steady_single nofun
      · obtain ⟨id, _, h⟩ := Checked.bind_eq_ok.mp h
        cases h
        exact steady_single nofun

/-- What the pointer does is steady. -/
theorem steady_commandsForMotion {t : Tool} {p : Point} {ctrl : Bool} {cs : List Command}
    (h : t.commandsForMotion p ctrl = .ok cs) : Steady cs := by
  unfold commandsForMotion at h
  split at h
  · obtain ⟨id, _, h⟩ := Checked.bind_eq_ok.mp h
    cases h
    exact steady_single nofun
  · split at h
    · cases h
      exact steady_single nofun
    · cases h
      exact steady_single nofun

/-- **An intent that is no course** leads to steady commands. -/
theorem steady_commandsFor {t : Tool} {i : Intent} {cs : List Command} (hi : i.course? = none)
    (h : t.commandsFor i = .ok cs) : Steady cs := by
  cases i with
  | undo | redo => cases hi
  | motion => exact steady_commandsForMotion h
  | click => exact steady_commandsForClick h
  | doubleClick =>
      simp only [commandsFor] at h
      split at h
      · exact steady_fixAt h
      · cases h
        exact steady_nil
  | keyPress =>
      simp only [commandsFor] at h
      split at h
      · exact steady_commandsForAction h
      · cases h
        exact steady_nil
  | viaTargetSelected =>
      simp only [commandsFor] at h
      split at h
      · cases h
        exact steady_single nofun
      · cases h
        exact steady_nil
  | activate =>
      cases h
      refine t.steady_endRunning fun c hc => ?_
      rcases List.mem_pair.mp hc with rfl | rfl
      · exact .resetSession
      · exact .syncWorld
  | modelChanged =>
      cases h
      refine t.steady_endRunning fun c hc => ?_
      rw [List.mem_singleton.mp hc]
      exact .syncWorld
  | deactivate =>
      cases h
      have hsteady : Steady (t.endRunning ++ []) := t.steady_endRunning nofun
      rwa [List.append_nil] at hsteady
  | _ =>
      cases h
      exact steady_single nofun

/-- **A course** ends what runs, takes its step without the engine, and loads the board. -/
theorem commandsFor_course (t : Tool) {i : Intent} {c : Command} (hi : i.course? = some c) :
    t.commandsFor i = .ok (t.endRunning ++ [.clearWorld, c, .syncWorld]) := by
  cases i with
  | undo | redo =>
      cases hi
      rfl
  | _ => cases hi

/-- Only a step through the history can be refused, and not while the tool is idle. -/
theorem execute_refusal {t t' : Tool} {c : Command} {refusal : Option CommandRefusal}
    (hc : ¬ c.PullsApart ∨ t.session.isIdle = true) (h : t.execute c = .ok (t', refusal)) :
    refusal = none := by
  cases c with
  | undo | redo =>
      have hidle : t.session.isIdle = true := by
        refine hc.resolve_left fun hsteady => hsteady ?_
        constructor
      have hstep := Checked.pure_eq_ok.mp h
      simp only [undo, redo, hidle, Bool.not_true, Bool.false_eq_true, if_false] at hstep
      split at hstep <;> cases hstep <;> rfl
  | clearWorld | syncWorld | resetSession | trackCursor | requestViaTarget | selectLayerPair =>
      cases h
      rfl
  | _ =>
      obtain ⟨_, _, h⟩ := Checked.bind_eq_ok.mp h
      cases h
      rfl

/-- **Induction over handled commands**, none of which is refused. -/
theorem handleAll_invariant {I : Tool → Prop} {cs : List Command}
    (hstep : ∀ t c u refusal, c ∈ cs → I t → t.handle c = .ok (u, refusal) →
      refusal = none ∧ I u) {t : Tool} (hI : I t) {out : IntentOutcome}
    (h : t.handleAll cs = .ok out) : out = ⟨out.tool, cs, none⟩ ∧ I out.tool := by
  induction cs generalizing t out with
  | nil =>
      cases h
      exact ⟨rfl, hI⟩
  | cons c cs ih =>
      obtain ⟨⟨u, refusal⟩, hhandle, h⟩ := Checked.bind_eq_ok.mp h
      obtain ⟨rfl, hu⟩ := hstep t c u refusal List.mem_cons_self hI hhandle
      obtain ⟨rest, hrest, h⟩ := Checked.bind_eq_ok.mp h
      obtain ⟨hall, hlast⟩ :=
        ih (fun t c u refusal hc => hstep t c u refusal (List.mem_cons_of_mem _ hc)) hu hrest
      cases h
      refine ⟨?_, hlast⟩
      rw [hall]

@[simp] theorem handleAll_nil (t : Tool) : t.handleAll [] = .ok ⟨t, [], none⟩ := rfl

/-- After a command that is not refused the others are handled. -/
theorem handleAll_cons_of {t u : Tool} {c : Command} {cs : List Command} {out : IntentOutcome}
    (hhandle : t.handle c = .ok (u, none)) (h : u.handleAll cs = .ok out) :
    t.handleAll (c :: cs) = .ok { out with commands := c :: out.commands } :=
  Checked.bind_eq_ok.mpr ⟨_, hhandle, Checked.bind_eq_ok.mpr ⟨_, h, rfl⟩⟩

/-- The others of a list are handled when none of the first is refused. -/
theorem handleAll_append {t : Tool} {cs ds : List Command} {out : IntentOutcome}
    (h : t.handleAll (cs ++ ds) = .ok out) :
    ∃ first, t.handleAll cs = .ok first ∧ (first.refusal = none →
      ∃ second, first.tool.handleAll ds = .ok second ∧
        out = { second with commands := first.commands ++ second.commands }) := by
  induction cs generalizing t out with
  | nil => exact ⟨⟨t, [], none⟩, rfl, fun _ => ⟨out, h, rfl⟩⟩
  | cons c cs ih =>
      obtain ⟨⟨u, refusal⟩, hhandle, h⟩ := Checked.bind_eq_ok.mp h
      cases refusal with
      | none =>
          obtain ⟨rest, hrest, h⟩ := Checked.bind_eq_ok.mp h
          cases h
          obtain ⟨first, hfirst, hmore⟩ := ih hrest
          refine ⟨_, handleAll_cons_of hhandle hfirst, fun hdone => ?_⟩
          obtain ⟨second, hsecond, rfl⟩ := hmore hdone
          exact ⟨second, hsecond, rfl⟩
      | some refusal =>
          cases h
          exact ⟨⟨u, [c], some refusal⟩, Checked.bind_eq_ok.mpr ⟨_, hhandle, rfl⟩, nofun⟩

/-- Commands that can be handled one after the other can be handled together. -/
theorem handleAll_append_of {t u v : Tool} {cs ds : List Command}
    (h : t.handleAll cs = .ok ⟨u, cs, none⟩) (h' : u.handleAll ds = .ok ⟨v, ds, none⟩) :
    t.handleAll (cs ++ ds) = .ok ⟨v, cs ++ ds, none⟩ := by
  induction cs generalizing t with
  | nil =>
      cases h
      exact h'
  | cons c cs ih =>
      obtain ⟨⟨w, refusal⟩, hhandle, h⟩ := Checked.bind_eq_ok.mp h
      cases refusal with
      | some refusal => cases h
      | none =>
          obtain ⟨⟨x, done, refusal⟩, hrest, h⟩ := Checked.bind_eq_ok.mp h
          cases h
          exact handleAll_cons_of hhandle (ih hrest)

/-- Commands that are never bad avoid the bad ones. -/
theorem avoids_turnsFor {bad : Tool → Command → Prop} {I : Tool → Prop} {cs : List Command}
    (hstep : ∀ t c u refusal, c ∈ cs → I t → t.handle c = .ok (u, refusal) → I u)
    (hgood : ∀ t c, c ∈ cs → I t → ¬ bad (t.ready ⟨c, t.host.confirms⟩) c) {t : Tool} (hI : I t) :
    t.Avoids bad (t.turnsFor cs) := by
  induction cs generalizing t with
  | nil => trivial
  | cons c cs ih =>
      rw [turnsFor]
      intro u hturn
      refine ⟨hgood t c List.mem_cons_self hI, ?_⟩
      rw [turn_own] at hturn
      obtain ⟨⟨v, refusal⟩, hhandle, hturn⟩ := Checked.bind_eq_ok.mp hturn
      cases hturn
      rw [hhandle]
      cases refusal with
      | some refusal => trivial
      | none =>
          exact ih (fun t c u refusal hc => hstep t c u refusal (List.mem_cons_of_mem _ hc))
            (fun t c hc => hgood t c (List.mem_cons_of_mem _ hc))
            (hstep t c v none List.mem_cons_self hI hhandle)

/-- A run in two parts avoids what both parts avoid. -/
theorem Avoids.append {bad : Tool → Command → Prop} {t u : Tool} {ks ls : List Turn}
    (h : t.Avoids bad ks) (hrun : t.run ks = .ok u) (h' : u.Avoids bad ls) :
    t.Avoids bad (ks ++ ls) := by
  induction ks generalizing t with
  | nil =>
      cases hrun
      exact h'
  | cons k ks ih =>
      obtain ⟨v, hturn, hrest⟩ := run_cons_eq_ok.mp hrun
      intro w hw
      cases hturn.symm.trans hw
      obtain ⟨hgood, havoids⟩ := h v hturn
      exact ⟨hgood, ih havoids hrest⟩

/-- What is ended before the intent, when that was requested. -/
def requested (t : Tool) (o : Occasion) : List Command :=
  if t.cancelRequested || o.cancels then t.endRunning else []

/-- What is ended on request, or by an intent, is ended by a steady command. -/
theorem endRunning_steady (t : Tool) : ∀ c ∈ t.endRunning, ¬ c.PullsApart := by
  have hsteady : Steady (t.endRunning ++ []) := t.steady_endRunning nofun
  rw [List.append_nil] at hsteady
  exact hsteady.not_pullsApart

/-- What a request to cancel leads to pulls nothing apart. -/
theorem requested_steady (t : Tool) (o : Occasion) : ∀ c ∈ t.requested o, ¬ c.PullsApart := by
  unfold requested
  split
  · exact t.endRunning_steady
  · exact nofun

/-- **An intent is attended to** in two parts: what runs is ended when that was requested,
and if this was not refused, the commands of the intent follow. -/
theorem attend_eq_ok {t : Tool} {o : Occasion} {out : IntentOutcome} (h : t.attend o = .ok out) :
    ∃ first, (t.prompted o).handleAll (t.requested o) = .ok first ∧ (first.refusal = none →
      ∃ cs second, first.tool.commandsFor o.intent = .ok cs ∧
        first.tool.handleAll cs = .ok second ∧
          out = { second with commands := first.commands ++ second.commands }) := by
  obtain ⟨first, hfirst, h⟩ := Checked.bind_eq_ok.mp h
  refine ⟨first, hfirst, fun hdone => ?_⟩
  simp only [hdone, Option.isSome_none, Bool.false_eq_true, if_false] at h
  obtain ⟨cs, hcs, h⟩ := Checked.bind_eq_ok.mp h
  obtain ⟨second, hsecond, h⟩ := Checked.bind_eq_ok.mp h
  cases h
  exact ⟨cs, second, hcs, hsecond, rfl⟩

/-- When both parts can be handled, the intent can be attended to. -/
theorem attend_of {t u v : Tool} {o : Occasion} {cs : List Command}
    (hfirst : (t.prompted o).handleAll (t.requested o) = .ok ⟨u, t.requested o, none⟩)
    (hcs : u.commandsFor o.intent = .ok cs) (h : u.handleAll cs = .ok ⟨v, cs, none⟩) :
    t.attend o = .ok ⟨v, t.requested o ++ cs, none⟩ := by
  have htake : (t.approached o).takeCancelRequest = .ok ⟨u, t.requested o, none⟩ := hfirst
  refine Checked.bind_eq_ok.mpr ⟨_, htake, ?_⟩
  exact Checked.bind_eq_ok.mpr ⟨cs, hcs, Checked.bind_eq_ok.mpr ⟨_, h, rfl⟩⟩

/-- A logged command does not disturb the rest. -/
theorem Orderly.logged {t : Tool} (ht : t.Orderly) (c : Command) :
    ({ t with log := t.log.record c } : Tool).Orderly :=
  ⟨ht.rest, ht.hold⟩

/-- At rest a tool without an operation is idle. -/
theorem Orderly.isIdle_of_none {t : Tool} (ht : t.Orderly) (hnone : t.session.operation = .none) :
    t.session.isIdle = true := by
  rw [Session.isIdle, ht.rest, hnone]
  rfl

/-- Breaking off makes the tool idle. -/
theorem cancelOperation_isIdle {t t' : Tool} (ht : t.Orderly) (h : t.cancelOperation = .ok t') :
    t'.session.isIdle = true := by
  have horderly := (cancelOperation_advances ht h).orderly
  obtain ⟨⟨u, stopped⟩, hstop, h⟩ := Checked.bind_eq_ok.mp h
  have hquiet := t.quiet_mapSession (f := fun s => { s with pendingViaTarget := none }) rfl rfl rfl
  have hnone := (stopOperation_advances (hquiet.advances ht).orderly hstop).2
  refine horderly.isIdle_of_none ?_
  cases stopped <;> cases h <;> exact hnone

/-- **What runs is ended.** -/
theorem isIdle_of_endRunning {t : Tool} {out : IntentOutcome} (ht : t.Orderly)
    (h : t.handleAll t.endRunning = .ok out) : out.tool.session.isIdle = true := by
  unfold endRunning at h
  split at h
  · next hidle =>
      cases h
      exact hidle
  · obtain ⟨⟨u, refusal⟩, hhandle, h⟩ := Checked.bind_eq_ok.mp h
    obtain ⟨v, hcancel, hhandle⟩ := Checked.bind_eq_ok.mp hhandle
    cases hhandle
    cases h
    exact cancelOperation_isIdle (ht.logged _) hcancel

/-- Without fixed steps there is nothing to commit, and what runs can be ended. -/
theorem cancelOperation_of_none {t : Tool} (ht : t.Orderly) (hnone : t.stagedChanges? = none) :
    ∃ u, t.cancelOperation = .ok u ∧ t.SameBoards u ∧ u.session.isIdle = true := by
  -- ending what runs then comes down to session and host
  let s := t.mapSession fun s => { s with pendingViaTarget := none }
  let u : Tool := { s with toInteraction := s.toInteraction.cancel.1 }
  have hstaged : s.commitStaged = .ok s := by
    have hsame : s.stagedChanges? = none := hnone
    simp only [commitStaged, hsame]
    rfl
  have hstop : s.stopOperation = .ok (u, s.toInteraction.cancel.2) := by
    simp only [stopOperation, hstaged]
    rfl
  have hcancel : t.cancelOperation =
      .ok (if s.toInteraction.cancel.2 then u else u.mapSession Session.markExit) := by
    unfold cancelOperation
    exact Checked.bind_eq_ok.mpr ⟨_, hstop, rfl⟩
  refine ⟨_, hcancel, ?_, cancelOperation_isIdle ht hcancel⟩
  have hsame : t.SameBoards u :=
    (t.sameBoards_mapSession _).trans (s.sameBoards_interaction s.toInteraction.confirms_cancel)
  split
  · exact hsame
  · exact hsame.trans (u.sameBoards_mapSession _)

/-- **Ending what runs** keeps the boards when no fixed steps have to be taken over, and the tool is
idle then. -/
theorem handleAll_endRunning {t : Tool} (ht : t.Orderly) (hnone : t.stagedChanges? = none) :
    ∃ u, t.handleAll t.endRunning = .ok ⟨u, t.endRunning, none⟩ ∧ t.SameBoards u ∧
      u.session.isIdle = true := by
  unfold endRunning
  split
  · next hidle => exact ⟨t, rfl, (KeepsBoards.refl t).toSameBoards, hidle⟩
  · obtain ⟨u, hcancel, hsame, hidle⟩ :=
      cancelOperation_of_none (ht.logged .cancelOperation) hnone
    have hhandle : t.handle .cancelOperation = .ok (u, none) :=
      Checked.bind_eq_ok.mpr ⟨u, hcancel, rfl⟩
    have hboards : t.SameBoards u :=
      ⟨⟨hsame.options, hsame.confirms⟩, hsame.board, hsame.history, hsame.world⟩
    exact ⟨u, handleAll_cons_of hhandle u.handleAll_nil, hboards, hidle⟩

/-- On an idle tool a step through the history is taken. -/
theorem handle_step {t : Tool} {c : Command}
    {step : History Board → Board → Option (Board × History Board)} (hc : c.Steps step)
    (hidle : t.session.isIdle = true) :
    ∃ u, t.handle c = .ok (u, none) ∧ u.session = t.session ∧
      (u.board, u.history) = (step t.history t.board).getD (t.board, t.history) := by
  cases hc with
  | undo =>
      cases hstep : t.history.undo t.board with
      | none =>
          refine ⟨{ t with log := t.log.record .undo }, ?_, rfl, rfl⟩
          simp [handle, execute, undo, hidle, hstep, pure, Except.pure]
      | some back =>
          refine ⟨{ t with log := t.log.record .undo, board := back.1, history := back.2 }, ?_,
            rfl, rfl⟩
          simp [handle, execute, undo, hidle, hstep, pure, Except.pure]
  | redo =>
      cases hstep : t.history.redo t.board with
      | none =>
          refine ⟨{ t with log := t.log.record .redo }, ?_, rfl, rfl⟩
          simp [handle, execute, redo, hidle, hstep, pure, Except.pure]
      | some forth =>
          refine ⟨{ t with log := t.log.record .redo, board := forth.1, history := forth.2 }, ?_,
            rfl, rfl⟩
          simp [handle, execute, redo, hidle, hstep, pure, Except.pure]

/-- **A course on an idle tool** takes its step, and ends with the board in the engine. -/
theorem handleAll_course {t : Tool} {c : Command}
    {step : History Board → Board → Option (Board × History Board)} (hc : c.Steps step)
    (hidle : t.session.isIdle = true) :
    ∃ u, t.handleAll [.clearWorld, c, .syncWorld] = .ok ⟨u, [.clearWorld, c, .syncWorld], none⟩ ∧
      u.world = some u.board ∧ u.session = t.session ∧
      (u.board, u.history) = (step t.history t.board).getD (t.board, t.history) := by
  let s := ({ t with log := t.log.record .clearWorld } : Tool).clearWorld
  have hclear : t.handle .clearWorld = .ok (s, none) := rfl
  obtain ⟨u, hstep, hsession, hboards⟩ := handle_step (t := s) hc hidle
  let v := ({ u with log := u.log.record .syncWorld } : Tool).syncWorld
  have hsync : u.handle .syncWorld = .ok (v, none) := rfl
  have hlast := handleAll_cons_of hstep (handleAll_cons_of hsync v.handleAll_nil)
  exact ⟨v, handleAll_cons_of hclear hlast, rfl, hsession, hboards⟩

/-- **Induction over intents.**  What steady commands keep, and what an idle tool has that is in
step with its engine, every intent keeps, although a course pulls the two apart meanwhile.  `J`
is kept by every turn.  No intent is refused. -/
theorem attend_invariant {J I : Tool → Prop} (horderly : ∀ t, J t → t.Orderly)
    (hprompt : ∀ t o, J t → I t → J (t.prompted o) ∧ I (t.prompted o))
    (hturn : ∀ t k t', J t → t.turn k = .ok t' → J t')
    (hsteady : ∀ t c u refusal, ¬ c.PullsApart → J t → I t → t.handle c = .ok (u, refusal) → I u)
    (hidle : ∀ t, J t → t.session.isIdle = true → t.world = some t.board → I t) {t : Tool}
    {o : Occasion} {out : IntentOutcome} (hJ : J t) (hI : I t) (h : t.attend o = .ok out) :
    out.refusal = none ∧ J out.tool ∧ I out.tool := by
  have hhandle {t : Tool} {cs : List Command} {out : IntentOutcome}
      (hcs : ∀ c ∈ cs, ¬ c.PullsApart) (ht : J t ∧ I t) (h : t.handleAll cs = .ok out) :
      out.refusal = none ∧ J out.tool ∧ I out.tool := by
    have hstep (t : Tool) (c : Command) (u : Tool) (refusal : Option CommandRefusal) (hc : c ∈ cs)
        (ht : J t ∧ I t) (hhandle : t.handle c = .ok (u, refusal)) :
        refusal = none ∧ J u ∧ I u := by
      have hown : t.turn ⟨c, t.host.confirms⟩ = .ok u := by
        rw [turn_own, hhandle]
        rfl
      exact ⟨execute_refusal (.inl (hcs c hc)) hhandle, hturn t _ u ht.1 hown,
        hsteady t c u refusal (hcs c hc) ht.1 ht.2 hhandle⟩
    obtain ⟨hout, hlast⟩ := handleAll_invariant hstep ht h
    exact ⟨congrArg _ hout, hlast⟩
  obtain ⟨first, hfirst, hmore⟩ := attend_eq_ok h
  obtain ⟨hdone, hstart⟩ := hhandle (t.requested_steady o) (hprompt t o hJ hI) hfirst
  obtain ⟨cs, second, hcs, hsecond, rfl⟩ := hmore hdone
  show second.refusal = none ∧ J second.tool ∧ I second.tool
  cases hcourse : o.intent.course? with
  | none => exact hhandle (steady_commandsFor hcourse hcs).not_pullsApart hstart hsecond
  | some c =>
      -- the course leaves the session as it is when nothing runs any more
      obtain ⟨step, hc⟩ := Intent.steps_of_course hcourse
      cases (first.tool.commandsFor_course hcourse).symm.trans hcs
      obtain ⟨ended, hended, hrest⟩ := handleAll_append hsecond
      obtain ⟨hcalm, hkept⟩ := hhandle first.tool.endRunning_steady hstart hended
      obtain ⟨third, hthird, rfl⟩ := hrest hcalm
      have hnothing := isIdle_of_endRunning (horderly _ hstart.1) hended
      obtain ⟨u, hwalked, hworld, hsession, _⟩ := handleAll_course hc hnothing
      cases hwalked.symm.trans hthird
      have hlast := run_invariant hturn hkept.1 (handleAll_run hwalked)
      refine ⟨rfl, hlast, hidle u hlast ?_ hworld⟩
      rw [hsession]
      exact hnothing

/-- **Induction over services**, when not every command keeps the invariant but every intent
does. -/
theorem serve_invariant {I : Tool → Prop}
    (hattend : ∀ t o out, I t → t.attend o = .ok out → I out.tool) {t t' : Tool}
    {os : List Occasion} (hI : I t) (h : t.serve os = .ok t') : I t' := by
  induction os generalizing t with
  | nil =>
      cases h
      exact hI
  | cons o os ih =>
      obtain ⟨out, hout, hrest⟩ := serve_cons_eq_ok.mp h
      exact ih (hattend t o out hI hout) hrest

end Tool

end CopperRoute
